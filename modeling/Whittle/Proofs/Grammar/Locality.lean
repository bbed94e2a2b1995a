import Mathlib.Data.List.Find
import Mathlib.Data.List.Forall2
import Whittle.Proofs.Grammar.Scanning

/-!
# The scan looks no further than the end of a line

`Agree back back' xs ys`: two texts are the same up to a line feed, and `back` and `back'` stand
behind it. As long as a scan of the first comes to no place behind that line feed, it goes the same
way in the second (`Scans.agree`). No step looks behind a line feed that it leaves: what it needs to
know of the text in front of that line feed is there, and what goes on behind it takes the line feed
along.
-/

namespace Whittle.Grammar

/-- The same text up to a line feed, and `back` or `back'` behind it. -/
inductive Agree (back back' : List Char) : List Char → List Char → Prop
  | lineEnd : Agree back back' ('\n' :: back) ('\n' :: back')
  | cons {xs ys : List Char} (c : Char) (h : Agree back back' xs ys) :
    Agree back back' (c :: xs) (c :: ys)

theorem dropPast_length {close cs : List Char} (h : dropPast close cs ≠ []) :
    (dropPast close cs).length + close.length ≤ cs.length := by
  fun_induction dropPast close cs with
  | case1 => exact absurd rfl h
  | case2 c cs hclose =>
    have := (List.isPrefixOf_iff_prefix.mp hclose).length_le
    rw [List.length_drop]
    omega
  | case3 c cs _ ih => exact Nat.le_succ_of_le (ih h)

theorem newline_not_mem {p : Char → Bool} (hp : p '\n' = false) {cs : List Char}
    (h : cs.all p = true) : '\n' ∉ cs := by
  intro hm
  have := List.all_eq_true.mp h _ hm
  rw [hp] at this
  cases this

/-- Either no word goes on at the front of a text, or it goes on with a character, or with the
number of one. -/
theorem dropWord_unit (cs : List Char) :
    dropWord cs = cs ∨ ∃ front rest, front ≠ [] ∧ '\n' ∉ front ∧ cs = front ++ rest ∧
      ∀ more, dropWord (front ++ more) = dropWord more := by
  fun_cases dropWord cs with
  | case1 a b c d cs hhex =>
    refine .inr ⟨['\\', 'u', a, b, c, d], cs, List.cons_ne_nil _ _, ?_, rfl, fun more => ?_⟩
    · have := newline_not_mem (by decide) hhex
      simpa using this
    · simp only [List.cons_append, List.nil_append]
      rw [dropWord, if_pos hhex]
  | case2 => exact .inl rfl
  | case3 a b c d e f g i cs hhex =>
    refine .inr ⟨['\\', 'U', a, b, c, d, e, f, g, i], cs, List.cons_ne_nil _ _, ?_, rfl,
      fun more => ?_⟩
    · have := newline_not_mem (by decide) hhex
      simpa using this
    · simp only [List.cons_append, List.nil_append]
      rw [dropWord, if_pos hhex]
  | case4 => exact .inl rfl
  | case5 c cs _ _ hc =>
    refine .inr ⟨[c], cs, List.cons_ne_nil _ _, ?_, rfl, fun more => dropWord_of_continues hc⟩
    rintro hm
    rw [← List.mem_singleton.mp hm] at hc
    cases hc
  | case6 => exact .inl rfl
  | case7 => exact .inl rfl

namespace Agree

variable {back back' xs ys xs' ys' : List Char} {c : Char}

theorem lt (h : Agree back back' xs ys) : back.length < xs.length := by
  induction h with
  | lineEnd => exact Nat.lt_succ_self _
  | cons c _ ih => exact Nat.lt_succ_of_lt ih

theorem symm (h : Agree back back' xs ys) : Agree back' back ys xs := by
  induction h with
  | lineEnd => exact .lineEnd
  | cons c _ ih => exact .cons c ih

theorem length_eq (h : Agree back back' xs ys) :
    xs.length + back'.length = ys.length + back.length := by
  induction h with
  | lineEnd => simp only [List.length_cons]; omega
  | cons c _ ih => simp only [List.length_cons]; omega

theorem append (front : List Char) :
    Agree back back' (front ++ '\n' :: back) (front ++ '\n' :: back') := by
  induction front with
  | nil => exact .lineEnd
  | cons c _ ih => exact .cons c ih

/-- The first character is not the line feed if enough is left behind it. -/
theorem of_cons (h : Agree back back' (c :: xs) ys) (hl : back.length < xs.length) :
    ∃ zs, ys = c :: zs ∧ Agree back back' xs zs := by
  cases h with
  | lineEnd => exact absurd hl (Nat.lt_irrefl _)
  | cons _ h => exact ⟨_, rfl, h⟩

theorem of_append {front : List Char} (h : Agree back back' (front ++ xs) ys)
    (hfront : '\n' ∉ front) : ∃ zs, ys = front ++ zs ∧ Agree back back' xs zs := by
  induction front generalizing ys with
  | nil => exact ⟨ys, rfl, h⟩
  | cons c front ih =>
    rw [List.mem_cons, not_or] at hfront
    cases h with
    | lineEnd => exact absurd rfl hfront.1
    | cons _ htail =>
      obtain ⟨zs, rfl, hzs⟩ := ih htail hfront.2
      exact ⟨zs, rfl, hzs⟩

theorem of_lineEnd (h : Agree back back' ('\n' :: back) ys) : ys = '\n' :: back' := by
  cases h with
  | lineEnd => rfl
  | cons _ h => exact absurd h.lt (Nat.lt_irrefl _)

theorem head?_eq (h : Agree back back' xs ys) : xs.head? = ys.head? := by
  cases h <;> rfl

/-- What does not follow in the one text does not follow in the other. -/
theorem ne_cons (h : Agree back back' xs ys) (hne : ∀ cs, xs = c :: cs → False) (cs : List Char) :
    ys ≠ c :: cs := by
  rintro rfl
  cases h with
  | lineEnd => exact hne _ rfl
  | cons _ h => exact hne _ rfl

theorem ne_return (h : Agree back back' xs ys) (hne : ∀ cs, xs = '\r' :: '\n' :: cs → False)
    (cs : List Char) : ys ≠ '\r' :: '\n' :: cs := by
  rintro rfl
  rcases h with _ | ⟨_, _ | ⟨_, h⟩⟩
  · exact hne _ rfl
  · exact hne _ rfl

theorem drop {n : Nat} (h : Agree back back' xs ys) (hn : n + back.length < xs.length) :
    Agree back back' (xs.drop n) (ys.drop n) := by
  induction n generalizing xs ys with
  | zero => exact h
  | succ n ih =>
    cases h with
    | lineEnd => simp only [List.length_cons] at hn; omega
    | cons c h =>
      simp only [List.length_cons] at hn
      exact ih h (by omega)

theorem take_eq {n : Nat} (h : Agree back back' xs ys) (hn : n + back.length ≤ xs.length) :
    xs.take n = ys.take n := by
  induction n generalizing xs ys with
  | zero => rfl
  | succ n ih =>
    cases h with
    | lineEnd =>
      obtain rfl : n = 0 := by simp only [List.length_cons] at hn; omega
      rfl
    | cons c h =>
      simp only [List.length_cons] at hn
      rw [List.take_succ_cons, List.take_succ_cons, ih h (by omega)]

theorem takenBefore_eq (h : Agree back back' xs ys) (h' : Agree back back' xs' ys') :
    takenBefore xs xs' = takenBefore ys ys' := by
  have hx := h.length_eq
  have hx' := h'.length_eq
  have hlt := h'.lt
  have hback := h.lt
  rw [takenBefore, takenBefore, show ys.length - ys'.length = xs.length - xs'.length by omega]
  exact h.take_eq (by omega)

theorem dropWhile {p : Char → Bool} (h : Agree back back' xs ys)
    (hl : back.length < (xs.dropWhile p).length) :
    Agree back back' (xs.dropWhile p) (ys.dropWhile p) ∧ xs.takeWhile p = ys.takeWhile p := by
  induction h with
  | lineEnd =>
    by_cases hp : p '\n' = true
    · rw [List.dropWhile_cons_of_pos hp] at hl
      exact absurd (List.dropWhile_suffix p).length_le (Nat.not_le_of_lt hl)
    · simp only [List.dropWhile_cons_of_neg hp, List.takeWhile_cons_of_neg hp]
      exact ⟨.lineEnd, trivial⟩
  | cons c h ih =>
    by_cases hp : p c = true
    · simp only [List.dropWhile_cons_of_pos hp, List.takeWhile_cons_of_pos hp] at hl ⊢
      exact ⟨(ih hl).1, congrArg _ (ih hl).2⟩
    · simp only [List.dropWhile_cons_of_neg hp, List.takeWhile_cons_of_neg hp]
      exact ⟨.cons c h, trivial⟩

/-- A class without the line feed. -/
theorem dropWhile_of_not {p : Char → Bool} (h : Agree back back' xs ys) (hp : p '\n' = false) :
    Agree back back' (xs.dropWhile p) (ys.dropWhile p) := by
  refine (h.dropWhile ?_).1
  induction h with
  | lineEnd => rw [List.dropWhile_cons_of_neg (by simp [hp])]; exact Nat.lt_succ_self _
  | cons c h ih =>
    rw [List.dropWhile_cons]
    split
    · exact ih
    · exact Nat.lt_succ_of_lt h.lt

/-! ## Comments, literals and directives -/

theorem dropLineComment (h : Agree back back' xs ys)
    (hl : back.length < (dropLineComment xs).length) :
    Agree back back' (dropLineComment xs) (dropLineComment ys) := by
  have hle := fun cs => (dropLineComment_suffix cs).length_le
  fun_induction Grammar.dropLineComment xs generalizing ys with
  | case1 => cases h
  | case2 cs ih | case3 cs ih =>
    have := hle cs
    grind [Grammar.dropLineComment, of_cons]
  | case4 cs hn hr => grind [Grammar.dropLineComment, Agree]
  | case5 c cs hn hr hc ih =>
    obtain ⟨zs, rfl, hzs⟩ := h.of_cons (Nat.lt_of_lt_of_le hl (hle cs))
    rw [Grammar.dropLineComment, if_neg hc]
    · exact ih hzs hl
    · exact fun _ e => hzs.ne_cons (hn · e) _
    · exact fun _ e => hzs.ne_return (hr · e) _

theorem dropInLine {commented : Bool} (h : Agree back back' xs ys)
    (hl : back.length < (dropInLine commented xs).length) :
    Agree back back' (dropInLine commented xs) (dropInLine commented ys) := by
  have hle := fun b cs => (dropInLine_suffix b cs).length_le
  fun_induction Grammar.dropInLine commented xs generalizing ys with
  | case1 => cases h
  | case2 cs ih | case4 cs ih | case5 cs ih | case6 cs ih =>
    have := hle false cs
    have := hle true cs
    grind [Grammar.dropInLine, of_cons]
  | case3 c cs hclose ih =>
    obtain ⟨zs, rfl, hzs⟩ := h.of_cons (Nat.lt_of_lt_of_le hl (hle _ cs))
    rw [Grammar.dropInLine]
    · exact ih hzs hl
    · exact fun _ e => hzs.ne_cons (hclose · e) _
  | case7 c cs hn hr hopen hspace ih =>
    obtain ⟨zs, rfl, hzs⟩ := h.of_cons (Nat.lt_of_lt_of_le hl (hle _ cs))
    rw [Grammar.dropInLine, if_pos hspace]
    · exact ih hzs hl
    · exact fun _ e => hzs.ne_cons (hn · e) _
    · exact fun _ e => hzs.ne_return (hr · e) _
    · exact fun _ e => hzs.ne_cons (hopen · e) _
  | case8 c cs hn hr hopen hspace =>
    cases h with
    | lineEnd => exact .lineEnd
    | cons _ hzs =>
      rw [Grammar.dropInLine, if_neg hspace]
      · exact .cons c hzs
      · exact fun _ e => hzs.ne_cons (hn · e) _
      · exact fun _ e => hzs.ne_return (hr · e) _
      · exact fun _ e => hzs.ne_cons (hopen · e) _

theorem dropQuoted {quote : Char} {part : QuotedPart} (h : Agree back back' xs ys)
    (hl : back.length < (dropQuoted quote part xs).length) :
    Agree back back' (dropQuoted quote part xs) (dropQuoted quote part ys) := by
  have hle := fun part cs => (dropQuoted_suffix quote part cs).length_le
  fun_induction Grammar.dropQuoted quote part xs generalizing ys with
  | case1 => cases h
  | case2 _ cs ih | case5 _ cs ih | case6 cs ih | case7 cs ih | case10 c cs ih | case11 cs ih =>
    have := fun part => hle part back
    grind [Grammar.dropQuoted, Agree]
  | case3 cs hn =>
    obtain ⟨zs, rfl, hzs⟩ := h.of_cons hl
    rw [Grammar.dropQuoted, if_pos rfl]
    · exact hzs
    · exact fun _ _ e => hzs.ne_cons (hn _ · e) _
  | case4 c cs hn hc ih =>
    obtain ⟨zs, rfl, hzs⟩ := h.of_cons (Nat.lt_of_lt_of_le hl (hle _ cs))
    rw [Grammar.dropQuoted, if_neg hc]
    · exact ih hzs hl
    · exact fun _ _ e => hzs.ne_cons (hn _ · e) _
  | case8 cs hn hline hblock =>
    obtain ⟨zs, rfl, hzs⟩ := h.of_cons hl
    rw [Grammar.dropQuoted, if_pos rfl]
    · exact hzs
    · exact fun _ _ e => hzs.ne_cons (hn _ · e) _
    · exact fun _ e => hzs.ne_cons (hline · e) _
    · exact fun _ e => hzs.ne_cons (hblock · e) _
  | case9 c cs hn hline hblock hc ih =>
    obtain ⟨zs, rfl, hzs⟩ := h.of_cons (Nat.lt_of_lt_of_le hl (hle _ cs))
    rw [Grammar.dropQuoted, if_neg hc]
    · exact ih hzs hl
    · exact fun _ _ e => hzs.ne_cons (hn _ · e) _
    · exact fun _ e => hzs.ne_cons (hline · e) _
    · exact fun _ e => hzs.ne_cons (hblock · e) _
  | case12 c cs hclose ih =>
    obtain ⟨zs, rfl, hzs⟩ := h.of_cons (Nat.lt_of_lt_of_le hl (hle _ cs))
    rw [Grammar.dropQuoted]
    · exact ih hzs hl
    · exact fun _ e => hzs.ne_cons (hclose · e) _

theorem dropDirective {part : LinePart} (h : Agree back back' xs ys)
    (hl : back.length < (dropDirective part xs).length) :
    Agree back back' (dropDirective part xs) (dropDirective part ys) := by
  have hle := fun part cs => (dropDirective_suffix part cs).length_le
  fun_induction Grammar.dropDirective part xs generalizing ys with
  | case1 => cases h
  | case2 | case3 | case5 | case6 | case7 | case11 | case13 | case14 | case15 | case17 | case18
  | case19 | case20 | case21 | case23 =>
    have := fun part => hle part back
    grind [Grammar.dropDirective, Agree]
  | case4 argumentFollows c cs hclose hclose' ih =>
    obtain ⟨zs, rfl, hzs⟩ := h.of_cons (Nat.lt_of_lt_of_le hl (hle _ cs))
    rw [Grammar.dropDirective]
    · exact ih hzs hl
    · exact fun _ e e' => hzs.ne_cons (hclose · e e') _
    · exact fun _ e e' => hzs.ne_cons (hclose' · e e') _
  | case8 c cs hn hr hc ih =>
    obtain ⟨zs, rfl, hzs⟩ := h.of_cons (Nat.lt_of_lt_of_le hl (hle _ cs))
    rw [Grammar.dropDirective, if_neg hc]
    · exact ih hzs hl
    · exact fun _ e => hzs.ne_cons (hn · e) _
    · exact fun _ e => hzs.ne_return (hr · e) _
  | case9 close c cs hn hr hc ih =>
    obtain ⟨zs, rfl, hzs⟩ := h.of_cons (Nat.lt_of_lt_of_le hl (hle _ (c :: cs)))
    have hdrop := ih hzs hl
    cases hzs with
    | lineEnd => exact absurd rfl hn
    | cons _ hzs =>
      rw [Grammar.dropDirective, if_pos hc]
      · exact hdrop
      · exact hn
      · exact fun _ e => hzs.ne_cons (hr · e) _
  | case10 close c cs hn hr hc ih =>
    have hlt := Nat.lt_of_lt_of_le hl (hle _ cs)
    obtain ⟨zs, rfl, hzs⟩ := h.of_cons (Nat.lt_succ_of_lt hlt)
    obtain ⟨zs, rfl, htail⟩ := hzs.of_cons hlt
    rw [Grammar.dropDirective, if_neg hc]
    · exact ih htail hl
    · exact hn
    · exact fun _ e => htail.ne_cons (hr · e) _
  | case12 close c cs hn hr hescape hc ih =>
    obtain ⟨zs, rfl, hzs⟩ := h.of_cons (Nat.lt_of_lt_of_le hl (hle _ cs))
    rw [Grammar.dropDirective, if_neg hc]
    · exact ih hzs hl
    · exact fun _ e => hzs.ne_cons (hn · e) _
    · exact fun _ e => hzs.ne_return (hr · e) _
    · exact fun _ _ e => hzs.ne_cons (hescape _ · e) _
  | case16 c cs hn hr hblock hescape hc ih =>
    obtain ⟨zs, rfl, hzs⟩ := h.of_cons (Nat.lt_of_lt_of_le hl (hle _ cs))
    rw [Grammar.dropDirective, if_neg hc]
    · exact ih hzs hl
    · exact fun _ e => hzs.ne_cons (hn · e) _
    · exact fun _ e => hzs.ne_return (hr · e) _
    · exact fun _ e => hzs.ne_cons (hblock · e) _
    · exact fun _ _ e => hzs.ne_cons (hescape _ · e) _
  | case22 c cs hn hr hblock hline hc ih =>
    obtain ⟨zs, rfl, hzs⟩ := h.of_cons (Nat.lt_of_lt_of_le hl (hle _ cs))
    rw [Grammar.dropDirective, if_neg hc]
    · exact ih hzs hl
    · exact fun _ e => hzs.ne_cons (hn · e) _
    · exact fun _ e => hzs.ne_return (hr · e) _
    · exact fun _ e => hzs.ne_cons (hblock · e) _
    · exact fun _ e => hzs.ne_cons (hline · e) _
  | case24 c cs hn hr hblock hline hc ih =>
    obtain ⟨zs, rfl, hzs⟩ := h.of_cons (Nat.lt_of_lt_of_le hl (hle _ cs))
    rw [Grammar.dropDirective, if_neg hc]
    · exact ih hzs hl
    · exact fun _ e => hzs.ne_cons (hn · e) _
    · exact fun _ e => hzs.ne_return (hr · e) _
    · exact fun _ e => hzs.ne_cons (hblock · e) _
    · exact fun _ e => hzs.ne_cons (hline · e) _

/-! ## Texts up to a closing text -/

theorem dropPast {close : List Char} (h : Agree back back' xs ys)
    (hl : back.length < (dropPast close xs).length) :
    Agree back back' (dropPast close xs) (dropPast close ys) := by
  fun_induction Grammar.dropPast close xs generalizing ys with
  | case1 => cases h
  | case2 c cs hclose =>
    have hlen : close.length + back.length < (c :: cs).length := by
      rw [List.length_drop] at hl
      omega
    have hprefix : close.isPrefixOf ys = true := by
      rw [List.isPrefixOf_iff_prefix, List.prefix_iff_eq_take] at hclose ⊢
      rw [← h.take_eq (Nat.le_of_lt hlen)]
      exact hclose
    obtain ⟨d, ds, rfl⟩ := List.exists_cons_of_length_pos (Nat.zero_lt_of_lt h.symm.lt)
    rw [Grammar.dropPast, if_pos hprefix]
    exact h.drop hlen
  | case3 c cs hclose ih =>
    have hlen : (Grammar.dropPast close cs).length + close.length ≤ cs.length :=
      dropPast_length (List.ne_nil_of_length_pos (Nat.zero_lt_of_lt hl))
    obtain ⟨zs, rfl, hzs⟩ := h.of_cons (by omega)
    have hprefix : ¬ close.isPrefixOf (c :: zs) = true := by
      rw [List.isPrefixOf_iff_prefix, List.prefix_iff_eq_take] at hclose ⊢
      rwa [← h.take_eq (by simp only [List.length_cons]; omega)]
    rw [Grammar.dropPast, if_neg hprefix]
    exact ih hzs hl

theorem dropRaw (h : Agree back back' xs ys) (hl : back.length < (dropRaw xs).length) :
    Agree back back' (dropRaw xs) (dropRaw ys) := by
  have hdrop (cs : List Char) (p : Char → Bool) :
      cs.drop (cs.takeWhile p).length = cs.dropWhile p := by
    conv_lhs => arg 2; rw [← List.takeWhile_append_dropWhile (p := p) (l := cs)]
    exact List.drop_left
  unfold Grammar.dropRaw at hl ⊢
  simp only [hdrop] at hl ⊢
  obtain ⟨hopen, hdelimiter⟩ := h.dropWhile (Nat.lt_of_lt_of_le hl (dropPast_suffix _ _).length_le)
  rw [← hdelimiter]
  exact hopen.dropPast hl

/-! ## Words -/

theorem dropWord (h : Agree back back' xs ys) : Agree back back' (dropWord xs) (dropWord ys) := by
  induction hn : xs.length using Nat.strongRecOn generalizing xs ys with
  | _ n ih =>
    rcases dropWord_unit xs with hx | ⟨front, rest, hne, hfront, rfl, hdrop⟩
    · rcases dropWord_unit ys with hy | ⟨front, rest, hne, hfront, rfl, hdrop⟩
      · rw [hx, hy]
        exact h
      · -- the same front stands in the first text, where nothing is dropped
        obtain ⟨zs, rfl, -⟩ := h.symm.of_append hfront
        have hle := (dropWord_suffix zs).length_le
        rw [hdrop] at hx
        rw [hx, List.length_append] at hle
        have := List.length_pos_iff.mpr hne
        omega
    · obtain ⟨zs, rfl, hzs⟩ := h.of_append hfront
      rw [hdrop, hdrop]
      refine ih _ ?_ hzs rfl
      have := List.length_pos_iff.mpr hne
      rw [← hn, List.length_append]
      omega

theorem wordStarts_eq (h : Agree back back' xs ys) : wordStarts xs = wordStarts ys := by
  have hlen := h.length_eq
  have hrest := h.dropWord.length_eq
  have hback := h.dropWord.lt
  cases h with
  | lineEnd => rfl
  | cons c h =>
    simp only [wordStarts]
    congr 2
    rw [decide_eq_decide]
    omega

/-! ## Numbers -/

/-- Lists of texts that agree one by one. -/
abbrev AgreeAll (back back' : List Char) : List (List Char) → List (List Char) → Prop :=
  List.Forall₂ (Agree back back')

theorem digitEnds {digit : Char → Bool} (hdigit : digit '\n' = false) (h : Agree back back' xs ys) :
    AgreeAll back back' (digitEnds digit xs) (digitEnds digit ys) := by
  have hne {c : Char} (hc : digit c = true) : c ≠ '\n' := by
    rintro rfl
    rw [hdigit] at hc
    cases hc
  fun_induction Grammar.digitEnds digit xs generalizing ys with
  | case1 c d cs hc ih =>
    have hfront : Agree back back' ([c, '\''] ++ d :: cs) ys := h
    obtain ⟨zs, rfl, hzs⟩ := hfront.of_append (by simpa using (hne hc).symm)
    have hends : AgreeAll back back' (if digit d then Grammar.digitEnds digit (d :: cs) else [])
        (if digit d then Grammar.digitEnds digit zs else []) := by
      split
      · exact ih hzs
      · exact .nil
    have hquoted : Agree back back' ('\'' :: d :: cs) ('\'' :: zs) := .cons _ hzs
    obtain ⟨ds, rfl⟩ : ∃ ds, zs = d :: ds := by cases hzs <;> exact ⟨_, rfl⟩
    simp only [List.cons_append, List.nil_append]
    rw [Grammar.digitEnds, if_pos hc]
    exact List.rel_append hends (.cons hquoted .nil)
  | case2 c d cs hc =>
    obtain ⟨zs, rfl⟩ : ∃ zs, ys = c :: zs := by cases h <;> exact ⟨_, rfl⟩
    rw [digitEnds_of_not (by simpa using hc)]
    exact .nil
  | case3 c cs hquote hc ih =>
    have hfront : Agree back back' ([c] ++ cs) ys := h
    obtain ⟨zs, rfl, hzs⟩ := hfront.of_append (by simpa using (hne hc).symm)
    rw [List.singleton_append, Grammar.digitEnds, if_pos hc]
    · exact List.rel_append (ih hzs) (.cons hzs .nil)
    · rintro d ds rfl
      rcases hzs with _ | ⟨_, hds⟩
      cases hds <;> exact hquote _ _ rfl
  | case4 c cs hquote hc =>
    obtain ⟨zs, rfl⟩ : ∃ zs, ys = c :: zs := by cases h <;> exact ⟨_, rfl⟩
    rw [digitEnds_of_not (by simpa using hc)]
    exact .nil
  | case5 => cases h

theorem mantissaEnds (h : Agree back back' xs ys) :
    AgreeAll back back' (mantissaEnds xs) (mantissaEnds ys) := by
  have hhex {xs ys : List Char} (h : Agree back back' xs ys) :
      AgreeAll back back' (Grammar.digitEnds isHexDigit xs) (Grammar.digitEnds isHexDigit ys) :=
    h.digitEnds (by decide)
  have hten {xs ys : List Char} (h : Agree back back' xs ys) :
      AgreeAll back back' (Grammar.digitEnds Text.isDigit xs) (Grammar.digitEnds Text.isDigit ys) :=
    h.digitEnds (by decide)
  have hbase {a : Char} {rest : List Char} (ha : a ≠ '\n') (he : xs = ['0', a] ++ rest) :
      ∃ zs, ys = '0' :: a :: zs ∧ Agree back back' rest zs :=
    Agree.of_append (he ▸ h) (by simpa using ha.symm)
  have hbase' {a : Char} {rest : List Char} (ha : a ≠ '\n') (he : ys = ['0', a] ++ rest) :
      ∃ zs, xs = '0' :: a :: zs ∧ Agree back' back rest zs :=
    Agree.of_append (he ▸ h.symm) (by simpa using ha.symm)
  refine List.rel_flatMap (R := Agree back back') ?_ ?_
  · split
    · obtain ⟨zs, rfl, hzs⟩ := hbase (by decide) rfl
      exact List.rel_append (hhex hzs) (hten h)
    · obtain ⟨zs, rfl, hzs⟩ := hbase (by decide) rfl
      exact List.rel_append (hhex hzs) (hten h)
    · obtain ⟨zs, rfl, hzs⟩ := hbase (by decide) rfl
      exact List.rel_append (hten hzs) (hten h)
    · obtain ⟨zs, rfl, hzs⟩ := hbase (by decide) rfl
      exact List.rel_append (hten hzs) (hten h)
    · cases h with
      | cons _ h => exact hten h
    · rename_i hx hX hb hB hpoint
      split
      · obtain ⟨zs, he, -⟩ := hbase' (by decide) rfl
        exact absurd he (hx zs)
      · obtain ⟨zs, he, -⟩ := hbase' (by decide) rfl
        exact absurd he (hX zs)
      · obtain ⟨zs, he, -⟩ := hbase' (by decide) rfl
        exact absurd he (hb zs)
      · obtain ⟨zs, he, -⟩ := hbase' (by decide) rfl
        exact absurd he (hB zs)
      · cases h with
        | cons _ _ => exact absurd rfl (hpoint _)
      · exact hten h
  · intro a b hab
    dsimp only
    split
    · rcases hab with _ | ⟨_, hbehind⟩
      exact List.rel_append (hhex hbehind) (.cons hbehind (.cons (.cons _ hbehind) .nil))
    · rename_i hpoint
      split
      · rcases hab with _ | ⟨_, hbehind⟩
        exact absurd rfl (hpoint _)
      · exact .cons hab .nil

theorem exponentEnds (h : Agree back back' xs ys) :
    AgreeAll back back' (exponentEnds xs) (exponentEnds ys) := by
  refine List.rel_flatMap h.mantissaEnds ?_
  intro a b hab
  cases hab with
  | lineEnd => exact .cons .lineEnd .nil
  | @cons a b c hbehind =>
    dsimp only
    split
    · refine List.rel_append (digitEnds (by decide) ?_)
        (.cons hbehind (.cons (.cons c hbehind) .nil))
      cases hbehind with
      | lineEnd => exact .lineEnd
      | @cons _ _ s hmore =>
        dsimp only
        split
        · exact hmore
        · exact .cons s hmore
    · exact .cons (.cons c hbehind) .nil

theorem shortest {ts us : List (List Char)} (h : Agree back back' xs ys)
    (hall : AgreeAll back back' ts us) : Agree back back' (shortest xs ts) (shortest ys us) := by
  induction hall generalizing xs ys with
  | nil => exact h
  | @cons t u ts us htu _ ih =>
    have hx := h.length_eq
    have ht := htu.length_eq
    refine ih ?_
    dsimp only
    by_cases hlt : t.length < xs.length
    · rw [if_pos hlt, if_pos (by omega)]
      exact htu
    · rw [if_neg hlt, if_neg (by omega)]
      exact h

theorem dropNumber (h : Agree back back' xs ys) :
    Agree back back' (dropNumber xs) (dropNumber ys) := by
  refine h.shortest (List.rel_map ?_ h.exponentEnds)
  intro a b hab
  exact hab.dropWhile_of_not (by decide)

/-! ## Tokens and directives -/

theorem dropPunct (language : Language) (h : Agree back back' (c :: xs) (c :: ys)) (hc : c ≠ '\n') :
    Agree back back' (dropPunct language c xs) (dropPunct language c ys) := by
  have hlong : ∀ p ∈ longPunct language, '\n' ∉ p := by cases language <;> decide
  have htail : Agree back back' xs ys := by
    cases h with
    | lineEnd => exact absurd rfl hc
    | cons _ h => exact h
  have hfind : ∀ p ∈ longPunct language, p.isPrefixOf (c :: xs) = p.isPrefixOf (c :: ys) := by
    intro p hp
    rw [Bool.eq_iff_iff, List.isPrefixOf_iff_prefix, List.isPrefixOf_iff_prefix]
    constructor
    · rintro ⟨rest, he⟩
      obtain ⟨zs, he', -⟩ := (he.symm ▸ h).of_append (hlong p hp)
      exact ⟨zs, he'.symm⟩
    · rintro ⟨rest, he⟩
      obtain ⟨zs, he', -⟩ := (he.symm ▸ h.symm).of_append (hlong p hp)
      exact ⟨zs, he'.symm⟩
  unfold Grammar.dropPunct
  rw [List.find?_congr hfind]
  split
  · rename_i p hp
    have hprefix : p.isPrefixOf (c :: ys) = true := by simpa using List.find?_some hp
    obtain ⟨rest, he⟩ := List.isPrefixOf_iff_prefix.mp hprefix
    obtain ⟨zs, he', hzs⟩ := (he.symm ▸ h.symm).of_append (hlong p (List.mem_of_find?_eq_some hp))
    rw [he', ← he, List.drop_left, List.drop_left]
    exact hzs.symm
  · exact htail

/-- The token that a word starts, when `rest` follows the word: the quotes behind a mark belong to
it. -/
def wordToken (language : Language) (word : String) (rest : List Char) : TokenKind × List Char :=
  match rest with
  | '"' :: behind =>
    if language = .cpp ∧ word ∈ rawMarks then (.string, Grammar.dropRaw behind)
    else if word ∈ literalMarks then (.string, Grammar.dropQuoted '"' .content behind)
    else (.word, rest)
  | '\'' :: behind =>
    if word ∈ literalMarks then (.char, Grammar.dropQuoted '\'' .content behind) else (.word, rest)
  | _ => (.word, rest)

theorem wordToken_of_ne {d : Char} (hd : d ≠ '"' ∧ d ≠ '\'') (language : Language) (word : String)
    (cs : List Char) : wordToken language word (d :: cs) = (.word, d :: cs) := by
  unfold wordToken
  split
  · rename_i heq
    exact absurd (List.cons.inj heq).1 hd.1
  · rename_i heq
    exact absurd (List.cons.inj heq).1 hd.2
  · rfl

theorem wordToken_agree (language : Language) (word : String) (h : Agree back back' xs ys)
    (hl : back.length < (wordToken language word xs).2.length) :
    (wordToken language word xs).1 = (wordToken language word ys).1 ∧
      Agree back back' (wordToken language word xs).2 (wordToken language word ys).2 := by
  cases h with
  | lineEnd => exact ⟨rfl, .lineEnd⟩
  | @cons xs ys d h =>
    by_cases hstring : d = '"'
    · subst hstring
      simp only [wordToken] at hl ⊢
      split
      · rename_i hraw
        rw [if_pos hraw] at hl
        exact ⟨rfl, h.dropRaw hl⟩
      · rename_i hraw
        rw [if_neg hraw] at hl
        split
        · rename_i hmark
          rw [if_pos hmark] at hl
          exact ⟨rfl, h.dropQuoted hl⟩
        · exact ⟨rfl, .cons _ h⟩
    by_cases hchar : d = '\''
    · subst hchar
      simp only [wordToken] at hl ⊢
      split
      · rename_i hmark
        rw [if_pos hmark] at hl
        exact ⟨rfl, h.dropQuoted hl⟩
      · exact ⟨rfl, .cons _ h⟩
    rw [wordToken_of_ne ⟨hstring, hchar⟩, wordToken_of_ne ⟨hstring, hchar⟩]
    exact ⟨rfl, .cons d h⟩

theorem dropToken_eq (language : Language) (c : Char) (cs : List Char) :
    Grammar.dropToken language c cs =
      if wordStarts (c :: cs) then
        wordToken language (String.ofList (takenBefore (c :: cs) (Grammar.dropWord (c :: cs))))
          (Grammar.dropWord (c :: cs))
      else if numberStarts c cs then (.number, Grammar.dropNumber (c :: cs))
      else if c = '"' then (.string, Grammar.dropQuoted '"' .content cs)
      else if c = '\'' then (.char, Grammar.dropQuoted '\'' .content cs)
      else (.punct, Grammar.dropPunct language c cs) := rfl

theorem dropToken (language : Language) (h : Agree back back' (c :: xs) (c :: ys)) (hc : c ≠ '\n')
    (hl : back.length < (dropToken language c xs).2.length) :
    (dropToken language c xs).1 = (dropToken language c ys).1 ∧
      Agree back back' (dropToken language c xs).2 (dropToken language c ys).2 := by
  have htail : Agree back back' xs ys := by
    cases h with
    | lineEnd => exact absurd rfl hc
    | cons _ h => exact h
  have hnumber : numberStarts c xs = numberStarts c ys := by
    rw [numberStarts, numberStarts, htail.head?_eq]
  rw [dropToken_eq] at hl
  rw [dropToken_eq, dropToken_eq, ← h.wordStarts_eq, ← hnumber, ← h.takenBefore_eq h.dropWord]
  by_cases hstarts : wordStarts (c :: xs) = true
  · simp only [if_pos hstarts] at hl ⊢
    exact wordToken_agree language _ h.dropWord hl
  simp only [if_neg hstarts] at hl ⊢
  by_cases hnumber : numberStarts c xs = true
  · simp only [if_pos hnumber]
    exact ⟨trivial, h.dropNumber⟩
  simp only [if_neg hnumber] at hl ⊢
  by_cases hquote : c = '"'
  · simp only [if_pos hquote] at hl ⊢
    exact ⟨trivial, htail.dropQuoted hl⟩
  simp only [if_neg hquote] at hl ⊢
  by_cases hquote : c = '\''
  · simp only [if_pos hquote] at hl ⊢
    exact ⟨trivial, htail.dropQuoted hl⟩
  simp only [if_neg hquote] at hl ⊢
  exact ⟨trivial, h.dropPunct language hc⟩

theorem dropIncluded_of_ne {cs rest : List Char} {d : Char} (hd : d ≠ '"' ∧ d ≠ '<')
    (h : Grammar.dropInLine false cs = d :: rest) :
    Grammar.dropIncluded cs = Grammar.dropDirective .tokens (d :: rest) := by
  unfold Grammar.dropIncluded
  rw [h]
  split
  · rename_i heq
    exact absurd (List.cons.inj heq).1 hd.1
  · rename_i heq
    exact absurd (List.cons.inj heq).1 hd.2
  · rfl

theorem dropIncluded (h : Agree back back' xs ys) (hl : back.length < (dropIncluded xs).length) :
    Agree back back' (dropIncluded xs) (dropIncluded ys) := by
  have hline := h.dropInLine (Nat.lt_of_lt_of_le hl (dropIncluded_suffix xs).length_le)
  generalize hxs : Grammar.dropInLine false xs = xs' at hline
  generalize hys : Grammar.dropInLine false ys = ys' at hline
  cases hline with
  | lineEnd =>
    rw [dropIncluded_of_ne (by decide) hxs] at hl ⊢
    rw [dropIncluded_of_ne (by decide) hys]
    exact Agree.lineEnd.dropDirective hl
  | @cons xs' ys' d h =>
    by_cases hquote : d = '"'
    · subst hquote
      rw [Grammar.dropIncluded, hxs] at hl ⊢
      rw [Grammar.dropIncluded, hys]
      exact h.dropDirective hl
    by_cases hangle : d = '<'
    · subst hangle
      rw [Grammar.dropIncluded, hxs] at hl ⊢
      rw [Grammar.dropIncluded, hys]
      exact h.dropDirective hl
    rw [dropIncluded_of_ne ⟨hquote, hangle⟩ hxs] at hl ⊢
    rw [dropIncluded_of_ne ⟨hquote, hangle⟩ hys]
    exact (Agree.cons d h).dropDirective hl

theorem dropDefinition_of_ne {cs rest : List Char} {d : Char} (hd : d ≠ '(')
    (h : Grammar.dropWord (Grammar.dropInLine false cs) = d :: rest) :
    Grammar.dropDefinition cs = Grammar.dropDirective .before (d :: rest) := by
  unfold Grammar.dropDefinition
  rw [h]
  split
  · rename_i heq
    exact absurd (List.cons.inj heq).1 hd
  · rfl

theorem dropDefinition (h : Agree back back' xs ys)
    (hl : back.length < (dropDefinition xs).length) :
    Agree back back' (dropDefinition xs) (dropDefinition ys) := by
  have hname := Nat.lt_of_lt_of_le hl (dropDefinition_suffix xs).length_le
  have hword := (h.dropInLine (Nat.lt_of_lt_of_le hname (dropWord_suffix _).length_le)).dropWord
  generalize hxs : Grammar.dropWord (Grammar.dropInLine false xs) = xs' at hword
  generalize hys : Grammar.dropWord (Grammar.dropInLine false ys) = ys' at hword
  cases hword with
  | lineEnd =>
    rw [dropDefinition_of_ne (by decide) hxs] at hl ⊢
    rw [dropDefinition_of_ne (by decide) hys]
    exact Agree.lineEnd.dropDirective hl
  | @cons xs' ys' d h =>
    by_cases hparameters : d = '('
    · subst hparameters
      rw [Grammar.dropDefinition, hxs] at hl ⊢
      rw [Grammar.dropDefinition, hys]
      have hpast := Nat.lt_of_lt_of_le hl (dropDirective_suffix _ _).length_le
      exact (h.dropPast hpast).dropDirective hl
    rw [dropDefinition_of_ne hparameters hxs] at hl ⊢
    rw [dropDefinition_of_ne hparameters hys]
    exact (Agree.cons d h).dropDirective hl

/-- Both of two choices that depend on the same condition. -/
theorem ite {p : Prop} [Decidable p] {a b a' b' : List Char × Nat}
    (hl : back.length < (if p then a else b).1.length)
    (hthen : p → back.length < a.1.length → Agree back back' a.1 a'.1 ∧ a.2 = a'.2)
    (helse : ¬ p → back.length < b.1.length → Agree back back' b.1 b'.1 ∧ b.2 = b'.2) :
    Agree back back' (if p then a else b).1 (if p then a' else b').1 ∧
      (if p then a else b).2 = (if p then a' else b').2 := by
  by_cases hp : p
  · simp only [if_pos hp] at hl ⊢
    exact hthen hp hl
  · simp only [if_neg hp] at hl ⊢
    exact helse hp hl

theorem passDirective (opened : Nat) (h : Agree back back' xs ys)
    (hl : back.length < (passDirective opened xs).1.length) :
    Agree back back' (passDirective opened xs).1 (passDirective opened ys).1 ∧
      (passDirective opened xs).2 = (passDirective opened ys).2 := by
  have hinside : Agree back back' (xs.dropWhile fun c => c = ' ' || c = '\t')
      (ys.dropWhile fun c => c = ' ' || c = '\t') := h.dropWhile_of_not (by decide)
  have hbehind := hinside.dropWord
  have hcondition {cs ds : List Char} (h : Agree back back' cs ds)
      (hl : back.length < (Grammar.dropWord (Grammar.dropInLine false cs)).length) :
      Agree back back' (Grammar.dropWord (Grammar.dropInLine false cs))
        (Grammar.dropWord (Grammar.dropInLine false ds)) :=
    (h.dropInLine (Nat.lt_of_lt_of_le hl (dropWord_suffix _).length_le)).dropWord
  unfold Grammar.passDirective at hl ⊢
  dsimp only at hl ⊢
  rw [← hinside.takenBefore_eq hbehind]
  refine ite hl (fun _ hl => ⟨hbehind.dropIncluded hl, rfl⟩) fun _ hl => ?_
  refine ite hl (fun _ hl => ⟨hbehind.dropDefinition hl, rfl⟩) fun _ hl => ?_
  refine ite hl (fun _ hl => ⟨hbehind.dropDirective hl, rfl⟩) fun _ hl => ?_
  refine ite hl (fun _ hl => ⟨hcondition hbehind hl, rfl⟩) fun _ hl => ?_
  refine ite hl (fun _ hl => ⟨hbehind.dropDirective hl, rfl⟩) fun _ hl => ?_
  refine ite hl (fun _ hl => ⟨hbehind.dropDirective hl, rfl⟩) fun _ hl => ?_
  refine ite hl (fun _ hl => ⟨hcondition hbehind hl, rfl⟩) fun _ hl => ?_
  refine ite hl (fun _ hl => ⟨hbehind, rfl⟩) fun _ hl => ?_
  refine ite hl (fun _ hl => ⟨hbehind, rfl⟩) fun _ hl => ?_
  exact ⟨hbehind.dropDirective hl, rfl⟩

/-! ## Steps and walks -/

theorem cutFront (language : Language) (opened : Nat) (h : Agree back back' xs ys)
    (hl : back.length < (cutFront language opened c xs).rest.length) :
    (cutFront language opened c ys).kind = (cutFront language opened c xs).kind ∧
      (cutFront language opened c ys).opened = (cutFront language opened c xs).opened ∧
      Agree back back' (cutFront language opened c xs).rest
        (cutFront language opened c ys).rest := by
  generalize hf : Grammar.cutFront language opened c xs = f at hl ⊢
  unfold Grammar.cutFront at hf
  split at hf
  · subst hf
    rcases h with _ | ⟨_, h⟩
    exact ⟨rfl, rfl, h.dropLineComment hl⟩
  · subst hf
    rcases h with _ | ⟨_, h⟩
    exact ⟨rfl, rfl, h.dropPast hl⟩
  · subst hf
    obtain ⟨zs, rfl, hzs⟩ := h.of_cons hl
    exact ⟨rfl, rfl, hzs⟩
  · subst hf
    rcases h with _ | ⟨_, h⟩
    obtain ⟨zs, rfl, hzs⟩ := h.of_cons hl
    exact ⟨rfl, rfl, hzs⟩
  · subst hf
    obtain ⟨hrest, hopened⟩ := h.passDirective opened hl
    exact ⟨rfl, hopened.symm, hrest⟩
  · rename_i hdirective hline hblock hbreak hreturn
    have hys : Grammar.cutFront language opened c ys =
        if isSpace c then ⟨.blank, opened, ys⟩
        else ⟨.token (Grammar.dropToken language c ys).1, opened,
          (Grammar.dropToken language c ys).2⟩ := by
      rw [Grammar.cutFront]
      · exact hdirective
      · exact fun _ e => h.ne_cons (hline · e) _
      · exact fun _ e => h.ne_cons (hblock · e) _
      · exact fun _ e => h.ne_cons (hbreak · e) _
      · exact fun _ e => h.ne_return (hreturn · e) _
    rw [hys]
    subst hf
    by_cases hspace : isSpace c = true
    · simp only [if_pos hspace]
      exact ⟨trivial, trivial, h⟩
    · simp only [if_neg hspace] at hl ⊢
      have hc : c ≠ '\n' := by rintro rfl; exact hspace (by decide)
      obtain ⟨hkind, hrest⟩ := (Agree.cons c h).dropToken language hc hl
      exact ⟨congrArg _ hkind.symm, trivial, hrest⟩

end Agree

/-- The scan goes the same way in both texts. -/
theorem Scans.agree {language : Language} {back back' xs rest ys : List Char} {p q : ScanPlace}
    {ts : List Token} (h : Scans language p xs ts q rest) (hagree : Agree back back' xs ys)
    (hl : back.length < rest.length) :
    ∃ rest', Scans language p ys ts q rest' ∧ Agree back back' rest rest' := by
  induction h generalizing ys with
  | rest => exact ⟨ys, .rest _ _, hagree⟩
  | @step p q c cs rest ts hscan ih =>
    have hmid := Nat.lt_of_lt_of_le hl hscan.suffix.length_le
    have hcs := Nat.lt_of_lt_of_le hmid (stepRest_suffix language p c cs).length_le
    obtain ⟨ds, rfl, htail⟩ := hagree.of_cons hcs
    obtain ⟨hkind, hopened, hrest⟩ := htail.cutFront language p.opened hmid
    have htaken := (Agree.cons c htail).takenBefore_eq hrest
    obtain ⟨rest', hscan', hrest'⟩ := ih hrest hl
    have htoken : stepToken language p c ds = stepToken language p c cs := by
      rw [stepToken, stepToken, hkind, htaken]
    have hplace : stepPlace language p c ds = stepPlace language p c cs := by
      rw [stepPlace, stepPlace, hkind, hopened, htaken]
    refine ⟨rest', ?_, hrest'⟩
    rw [← htoken]
    exact .step (by rw [hplace]; exact hscan')

end Whittle.Grammar
