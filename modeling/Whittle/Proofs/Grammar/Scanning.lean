import Whittle.Grammar.Scan

/-!
# The scan step by step

`tokensFrom` walks over a text in steps. What a step cuts off the front, and where the text goes on,
depends on the text and on the number of open conditionals only (`cutFront`); the place of the scan
gives the tokens their rows. `Scans` is a walk from one place to another. Every step leaves less of
the text, so that the walk comes to the end (`scans_all`) and the fuel of `tokensFrom` does not matter.
-/

namespace Whittle.Grammar

/-! ## One step -/

/-- What a step cuts off the front of a text. -/
inductive FrontKind where
  | blank
  | comment
  | token (kind : TokenKind)
  deriving DecidableEq, Repr

structure Front where
  kind : FrontKind
  /-- How many conditionals are open behind it. -/
  opened : Nat
  rest : List Char
  deriving DecidableEq, Repr

def cutFront (language : Language) (opened : Nat) (c : Char) (cs : List Char) : Front :=
  match c, cs with
  | '/', '/' :: behind => ⟨.comment, opened, dropLineComment behind⟩
  | '/', '*' :: behind => ⟨.comment, opened, dropPast ['*', '/'] behind⟩
  | '\\', '\n' :: behind => ⟨.blank, opened, behind⟩
  | '\\', '\r' :: '\n' :: behind => ⟨.blank, opened, behind⟩
  | '#', _ => ⟨.blank, (passDirective opened cs).2, (passDirective opened cs).1⟩
  | _, _ =>
    if isSpace c then ⟨.blank, opened, cs⟩
    else ⟨.token (dropToken language c cs).1, opened, (dropToken language c cs).2⟩

namespace FrontKind

/-- The token that `taken` is at a place, if it is one. -/
def token? (p : ScanPlace) (taken : List Char) : FrontKind → Option Token
  | token kind => some ⟨kind, String.ofList taken, p.row, p.row + countRows taken, p.lastRow, p.tight,
      p.commented, 0⟩
  | _ => none

/-- The place behind it. -/
def place (p : ScanPlace) (taken : List Char) (opened : Nat) : FrontKind → ScanPlace
  | blank => { p with row := p.row + countRows taken, tight := false, opened := opened }
  | comment =>
    { p with row := p.row + countRows taken, tight := false, commented := true, opened := opened }
  | token _ => ⟨p.row + countRows taken, p.row + countRows taken, true, false, opened⟩

end FrontKind

variable {language : Language} {p q r : ScanPlace} {c : Char} {cs rest : List Char} {fuel : Nat}
  {ts us : List Token}

/-- The token of a step, and the place behind it. -/
def stepToken (language : Language) (p : ScanPlace) (c : Char) (cs : List Char) : Option Token :=
  let f := cutFront language p.opened c cs
  f.kind.token? p (takenBefore (c :: cs) f.rest)

def stepPlace (language : Language) (p : ScanPlace) (c : Char) (cs : List Char) : ScanPlace :=
  let f := cutFront language p.opened c cs
  f.kind.place p (takenBefore (c :: cs) f.rest) f.opened

def stepRest (language : Language) (p : ScanPlace) (c : Char) (cs : List Char) : List Char :=
  (cutFront language p.opened c cs).rest

theorem countRows_one (c : Char) (cs : List Char) :
    countRows (takenBefore (c :: cs) cs) = if c = '\n' then 1 else 0 := by
  have hlen : cs.length + 1 - cs.length = 1 := by omega
  simp [takenBefore, countRows, List.count_cons, hlen]

theorem tokensFrom_succ :
    tokensFrom language (fuel + 1) p (c :: cs) = (stepToken language p c cs).toList ++
      tokensFrom language fuel (stepPlace language p c cs) (stepRest language p c cs) := by
  unfold stepToken stepPlace stepRest
  generalize hf : cutFront language p.opened c cs = f
  unfold cutFront at hf
  split at hf
  · subst hf; rfl
  · subst hf; rfl
  · subst hf; rfl
  · subst hf; rfl
  · subst hf; rfl
  · rename_i hdirective hline hblock hbreak hreturn
    rw [tokensFrom]
    · split at hf
      · rename_i hspace
        subst hf
        rw [if_pos hspace]
        simp only [FrontKind.token?, FrontKind.place, Option.toList_none, List.nil_append,
          countRows_one]
        by_cases hc : c = '\n' <;> simp [hc]
      · rename_i hspace
        subst hf
        rw [if_neg hspace]
        rfl
    all_goals assumption

/-! ## Every step leaves less of the text -/

theorem dropLineComment_suffix (cs : List Char) : dropLineComment cs <:+ cs := by
  fun_induction dropLineComment cs <;> simp_all [List.suffix_cons_iff]

theorem dropPast_suffix (close cs : List Char) : dropPast close cs <:+ cs := by
  fun_induction dropPast close cs with
  | case1 => exact List.suffix_refl _
  | case2 => exact List.drop_suffix _ _
  | case3 c cs _ ih => exact ih.trans (List.suffix_cons c cs)

theorem dropRaw_suffix (cs : List Char) : dropRaw cs <:+ cs :=
  (dropPast_suffix _ _).trans (List.drop_suffix _ _)

theorem dropWord_suffix (cs : List Char) : dropWord cs <:+ cs := by
  fun_induction dropWord cs <;> simp_all [List.suffix_cons_iff]

theorem dropQuoted_suffix (quote : Char) (part : QuotedPart) (cs : List Char) :
    dropQuoted quote part cs <:+ cs := by
  fun_induction dropQuoted quote part cs <;> simp_all [List.suffix_cons_iff]

theorem dropDirective_suffix (part : LinePart) (cs : List Char) : dropDirective part cs <:+ cs := by
  fun_induction dropDirective part cs <;> simp_all [List.suffix_cons_iff]

theorem dropInLine_suffix (commented : Bool) (cs : List Char) : dropInLine commented cs <:+ cs := by
  fun_induction dropInLine commented cs <;> simp_all [List.suffix_cons_iff]

theorem suffix_of_cons {xs : List Char} (h : xs <:+ c :: cs) (hl : xs.length ≤ cs.length) :
    xs <:+ cs := by
  rcases List.suffix_cons_iff.mp h with rfl | h
  · rw [List.length_cons] at hl
    omega
  · exact h

theorem dropWord_of_continues (h : continuesWord c = true) : dropWord (c :: cs) = dropWord cs := by
  have hne : c ≠ '\\' := by rintro rfl; exact absurd h (by decide)
  rw [dropWord, if_pos h] <;> (intros; exact hne ‹_›)

theorem dropWord_suffix_of_starts (h : wordStarts (c :: cs) = true) : dropWord (c :: cs) <:+ cs := by
  simp only [wordStarts, Bool.or_eq_true, Bool.and_eq_true, decide_eq_true_eq] at h
  rcases h with h | ⟨-, h⟩
  · rw [dropWord_of_continues (by simp [continuesWord, h])]
    exact dropWord_suffix cs
  · exact suffix_of_cons (dropWord_suffix _) (by simpa [Nat.lt_succ_iff] using h)

/-! ### Numbers -/

theorem digitEnds_suffix {digit : Char → Bool} {t : List Char} (h : t ∈ digitEnds digit cs) :
    t <:+ cs.tail := by
  fun_induction digitEnds digit cs with
  | case1 c d cs hc ih =>
    rcases List.mem_append.mp h with h | h
    · split at h
      · exact (ih h).trans ⟨['\'', d], rfl⟩
      · cases h
    · exact List.mem_singleton.mp h ▸ List.suffix_refl _
  | case3 c cs _ hc ih =>
    rcases List.mem_append.mp h with h | h
    · exact (ih h).trans (List.tail_suffix _)
    · exact List.mem_singleton.mp h ▸ List.suffix_refl _
  | case2 => cases h
  | case4 => cases h
  | case5 => cases h

theorem digitEnds_ne_nil {digit : Char → Bool} (h : digit c = true) :
    digitEnds digit (c :: cs) ≠ [] := by
  unfold digitEnds
  split <;> simp_all

theorem digitEnds_of_not {digit : Char → Bool} (h : digit c = false) :
    digitEnds digit (c :: cs) = [] := by
  unfold digitEnds
  split <;> simp_all

theorem mantissaEnds_suffix {t : List Char} (h : t ∈ mantissaEnds cs) : t <:+ cs.tail := by
  have hbased {a b : Char} {rest t : List Char}
      (h : t ∈ digitEnds isHexDigit rest ++ digitEnds Text.isDigit (a :: b :: rest) ∨
        t ∈ digitEnds Text.isDigit rest ++ digitEnds Text.isDigit (a :: b :: rest)) :
      t <:+ b :: rest := by
    have htail : rest.tail <:+ b :: rest := (List.tail_suffix _).trans (List.suffix_cons _ _)
    rcases h with h | h <;> rcases List.mem_append.mp h with h | h
    · exact (digitEnds_suffix h).trans htail
    · exact digitEnds_suffix h
    · exact (digitEnds_suffix h).trans htail
    · exact digitEnds_suffix h
  obtain ⟨rest, hrest, ht⟩ := List.mem_flatMap.mp h
  have hsuffix : rest <:+ cs.tail := by
    split at hrest
    · exact hbased (.inl hrest)
    · exact hbased (.inl hrest)
    · exact hbased (.inr hrest)
    · exact hbased (.inr hrest)
    · exact (digitEnds_suffix hrest).trans (List.tail_suffix _)
    · exact digitEnds_suffix hrest
  split at ht
  · rename_i behind
    have hbehind : behind <:+ cs.tail := (List.suffix_cons _ _).trans hsuffix
    rcases List.mem_append.mp ht with ht | ht
    · exact ((digitEnds_suffix ht).trans (List.tail_suffix _)).trans hbehind
    · rcases List.mem_cons.mp ht with rfl | ht
      · exact hbehind
      · exact List.mem_singleton.mp ht ▸ hsuffix
  · exact List.mem_singleton.mp ht ▸ hsuffix

theorem exponentEnds_suffix {t : List Char} (h : t ∈ exponentEnds cs) : t <:+ cs.tail := by
  obtain ⟨rest, hrest, ht⟩ := List.mem_flatMap.mp h
  have hsuffix : rest <:+ cs.tail := mantissaEnds_suffix hrest
  split at ht
  · rename_i c behind
    have hbehind : behind <:+ cs.tail := (List.suffix_cons _ _).trans hsuffix
    split at ht
    · rcases List.mem_append.mp ht with ht | ht
      · refine ((digitEnds_suffix ht).trans (List.tail_suffix _)).trans (.trans ?_ hbehind)
        split
        · split
          · exact List.suffix_cons _ _
          · exact List.suffix_refl _
        · exact List.suffix_refl _
      · rcases List.mem_cons.mp ht with rfl | ht
        · exact hbehind
        · exact List.mem_singleton.mp ht ▸ hsuffix
    · exact List.mem_singleton.mp ht ▸ hsuffix
  · exact List.mem_singleton.mp ht ▸ hsuffix

/-- A number starts with a digit, or with a point and a digit. -/
def numberStarts (c : Char) (cs : List Char) : Bool :=
  Text.isDigit c || (c = '.' && cs.head?.any Text.isDigit)

theorem flatMap_ne_nil {α β : Type} {l : List α} {f : α → List β} (hl : l ≠ [])
    (hf : ∀ a, f a ≠ []) : l.flatMap f ≠ [] := by
  obtain ⟨a, as, rfl⟩ := List.exists_cons_of_ne_nil hl
  rw [List.flatMap_cons]
  exact List.append_ne_nil_of_left_ne_nil (hf a) _

theorem mantissaEnds_ne_nil (h : numberStarts c cs = true) : mantissaEnds (c :: cs) ≠ [] := by
  have hzero {xs : List Char} (heq : c :: cs = '0' :: xs) : digitEnds Text.isDigit (c :: cs) ≠ [] :=
    digitEnds_ne_nil ((List.cons.inj heq).1 ▸ by decide)
  refine flatMap_ne_nil ?_ fun rest => ?_
  · split
    · exact List.append_ne_nil_of_right_ne_nil _ (hzero ‹_›)
    · exact List.append_ne_nil_of_right_ne_nil _ (hzero ‹_›)
    · exact List.append_ne_nil_of_right_ne_nil _ (hzero ‹_›)
    · exact List.append_ne_nil_of_right_ne_nil _ (hzero ‹_›)
    · rename_i rest heq
      obtain ⟨rfl, rfl⟩ := List.cons.inj heq
      cases cs with
      | nil => exact absurd h (by decide)
      | cons d ds =>
        have hd : Text.isDigit d = true := by
          simpa [numberStarts, show Text.isDigit '.' = false by decide] using h
        exact digitEnds_ne_nil hd
    · rename_i hpoint
      have hc : c ≠ '.' := fun e => hpoint cs (e ▸ rfl)
      exact digitEnds_ne_nil (by simpa [numberStarts, hc] using h)
  · split
    · exact List.append_ne_nil_of_right_ne_nil _ (List.cons_ne_nil _ _)
    · exact List.cons_ne_nil _ _

theorem exponentEnds_ne_nil (h : numberStarts c cs = true) : exponentEnds (c :: cs) ≠ [] := by
  refine flatMap_ne_nil (mantissaEnds_ne_nil h) fun rest => ?_
  split
  · split
    · exact List.append_ne_nil_of_right_ne_nil _ (List.cons_ne_nil _ _)
    · exact List.cons_ne_nil _ _
  · exact List.cons_ne_nil _ _

theorem shortest_mem (whole : List Char) (ts : List (List Char)) :
    shortest whole ts ∈ whole :: ts := by
  induction ts generalizing whole with
  | nil => exact List.mem_cons_self
  | cons t ts ih =>
    rw [shortest, List.foldl_cons]
    split
    · exact List.mem_cons_of_mem _ (ih t)
    · rcases List.mem_cons.mp (ih whole) with h | h
      · exact List.mem_cons.mpr (.inl h)
      · exact List.mem_cons_of_mem _ (List.mem_cons_of_mem _ h)

theorem shortest_le {whole : List Char} {ts : List (List Char)} :
    ∀ t ∈ whole :: ts, (shortest whole ts).length ≤ t.length := by
  induction ts generalizing whole with
  | nil => simp [shortest]
  | cons t ts ih =>
    have hall := @ih (if t.length < whole.length then t else whole)
    rw [shortest, List.foldl_cons]
    have hbest := hall _ List.mem_cons_self
    intro u hu
    rcases List.mem_cons.mp hu with rfl | hu
    · refine Nat.le_trans hbest ?_
      split <;> omega
    · rcases List.mem_cons.mp hu with rfl | hu
      · refine Nat.le_trans hbest ?_
        split <;> omega
      · exact hall u (List.mem_cons_of_mem _ hu)

theorem shortest_suffix {ts : List (List Char)} (hne : ts ≠ []) (h : ∀ t ∈ ts, t <:+ cs) :
    shortest (c :: cs) ts <:+ cs := by
  rcases List.mem_cons.mp (shortest_mem (c :: cs) ts) with heq | hmem
  · -- some text is shorter than the whole
    obtain ⟨t, ht⟩ := List.exists_mem_of_ne_nil ts hne
    have hle := shortest_le t (List.mem_cons_of_mem (c :: cs) ht)
    have hlt := (h t ht).length_le
    rw [heq, List.length_cons] at hle
    omega
  · exact h _ hmem

theorem dropNumber_suffix (h : numberStarts c cs = true) : dropNumber (c :: cs) <:+ cs := by
  refine shortest_suffix (by simpa using exponentEnds_ne_nil h) fun t ht => ?_
  obtain ⟨u, hu, rfl⟩ := List.mem_map.mp ht
  exact (List.dropWhile_suffix _).trans (exponentEnds_suffix hu)

/-! ### Tokens and directives -/

theorem dropPunct_suffix (language : Language) (c : Char) (cs : List Char) :
    dropPunct language c cs <:+ cs := by
  have hlong : ∀ p ∈ longPunct language, 1 ≤ p.length := by cases language <;> decide
  unfold dropPunct
  split
  · rename_i p hp
    obtain ⟨n, hn⟩ := Nat.exists_eq_add_of_le' (hlong p (List.mem_of_find?_eq_some hp))
    rw [hn]
    exact List.drop_suffix n cs
  · exact List.suffix_refl cs

theorem dropToken_suffix (language : Language) (c : Char) (cs : List Char) :
    (dropToken language c cs).2 <:+ cs := by
  unfold dropToken
  split
  · rename_i hword
    have hrest := dropWord_suffix_of_starts hword
    dsimp only
    split
    · rename_i behind heq
      have hbehind : behind <:+ cs := (List.suffix_cons _ _).trans (heq ▸ hrest)
      split
      · exact (dropRaw_suffix behind).trans hbehind
      · split
        · exact (dropQuoted_suffix _ _ behind).trans hbehind
        · exact hrest
    · rename_i behind heq
      have hbehind : behind <:+ cs := (List.suffix_cons _ _).trans (heq ▸ hrest)
      split
      · exact (dropQuoted_suffix _ _ behind).trans hbehind
      · exact hrest
    · exact hrest
  · split
    · exact dropNumber_suffix ‹_›
    · split
      · exact dropQuoted_suffix _ _ cs
      · split
        · exact dropQuoted_suffix _ _ cs
        · exact dropPunct_suffix language c cs

theorem dropIncluded_suffix (cs : List Char) : dropIncluded cs <:+ dropInLine false cs := by
  unfold dropIncluded
  split
  · rename_i rest heq
    rw [heq]
    exact (dropDirective_suffix _ rest).trans (List.suffix_cons _ _)
  · rename_i rest heq
    rw [heq]
    exact (dropDirective_suffix _ rest).trans (List.suffix_cons _ _)
  · exact dropDirective_suffix _ _

theorem dropDefinition_suffix (cs : List Char) :
    dropDefinition cs <:+ dropWord (dropInLine false cs) := by
  unfold dropDefinition
  split
  · rename_i rest heq
    rw [heq]
    exact ((dropDirective_suffix _ _).trans (dropPast_suffix _ rest)).trans (List.suffix_cons _ _)
  · exact dropDirective_suffix _ _

theorem passDirective_suffix (opened : Nat) (cs : List Char) :
    (passDirective opened cs).1 <:+ cs := by
  have hbehind : dropWord (cs.dropWhile fun c => c = ' ' || c = '\t') <:+ cs :=
    (dropWord_suffix _).trans (List.dropWhile_suffix _)
  have hline := (dropInLine_suffix false _).trans hbehind
  have hcondition := (dropWord_suffix _).trans hline
  have hdirective := fun part => (dropDirective_suffix part _).trans hbehind
  unfold passDirective
  dsimp only
  split
  · exact (dropIncluded_suffix _).trans hline
  split
  · exact (dropDefinition_suffix _).trans hcondition
  repeat' split
  all_goals first
    | exact hdirective _
    | exact hcondition
    | exact hbehind

theorem cutFront_suffix (language : Language) (opened : Nat) (c : Char) (cs : List Char) :
    (cutFront language opened c cs).rest <:+ cs := by
  unfold cutFront
  split
  · exact (dropLineComment_suffix _).trans (List.suffix_cons _ _)
  · exact (dropPast_suffix _ _).trans (List.suffix_cons _ _)
  · exact List.suffix_cons _ _
  · exact ⟨['\r', '\n'], rfl⟩
  · exact passDirective_suffix opened cs
  · split
    · exact List.suffix_refl cs
    · exact dropToken_suffix language c cs

/-! ## Walks -/

/-- From `p` before `cs` the scan cuts the tokens off and comes to `q` before `rest`. -/
inductive Scans (language : Language) :
    ScanPlace → List Char → List Token → ScanPlace → List Char → Prop
  | rest (p : ScanPlace) (cs : List Char) : Scans language p cs [] p cs
  | step {p q : ScanPlace} {c : Char} {cs rest : List Char} {ts : List Token}
      (h : Scans language (stepPlace language p c cs) (stepRest language p c cs) ts q rest) :
      Scans language p (c :: cs) ((stepToken language p c cs).toList ++ ts) q rest

theorem Scans.step_of {more : List Char} (hmore : stepRest language p c cs = more)
    (h : Scans language (stepPlace language p c cs) more ts q rest) :
    Scans language p (c :: cs) ((stepToken language p c cs).toList ++ ts) q rest := by
  subst hmore
  exact .step h

theorem stepRest_suffix (language : Language) (p : ScanPlace) (c : Char) (cs : List Char) :
    stepRest language p c cs <:+ cs :=
  cutFront_suffix language p.opened c cs

theorem Scans.suffix (h : Scans language p cs ts q rest) : rest <:+ cs := by
  induction h with
  | rest => exact List.suffix_refl _
  | @step p q c cs rest ts _ ih =>
    exact ih.trans ((stepRest_suffix language p c cs).trans (List.suffix_cons c cs))

theorem Scans.trans {more : List Char} (h : Scans language p cs ts q rest)
    (h' : Scans language q rest us r more) : Scans language p cs (ts ++ us) r more := by
  induction h with
  | rest => exact h'
  | step _ ih =>
    rw [List.append_assoc]
    exact .step (ih h')

theorem Scans.tokensFrom_eq (h : Scans language p cs ts q rest) (hfuel : cs.length < fuel) :
    ∃ left, rest.length < left ∧
      tokensFrom language fuel p cs = ts ++ tokensFrom language left q rest := by
  induction h generalizing fuel with
  | rest => exact ⟨fuel, hfuel, rfl⟩
  | @step p q c cs rest ts _ ih =>
    obtain ⟨fuel, rfl⟩ := Nat.exists_eq_succ_of_ne_zero (Nat.ne_of_gt (Nat.zero_lt_of_lt hfuel))
    have hless := (stepRest_suffix language p c cs).length_le
    simp only [List.length_cons] at hfuel
    obtain ⟨left, hleft, htokens⟩ := @ih fuel (by omega)
    exact ⟨left, hleft, by rw [tokensFrom_succ, htokens, List.append_assoc]⟩

/-- Every scan comes to the end of the text. -/
theorem scans_all (language : Language) (p : ScanPlace) (cs : List Char) :
    ∃ ts q, Scans language p cs ts q [] := by
  induction hn : cs.length using Nat.strongRecOn generalizing p cs with
  | _ n ih =>
    cases cs with
    | nil => exact ⟨[], p, .rest p []⟩
    | cons c cs =>
      have hless := (stepRest_suffix language p c cs).length_le
      obtain ⟨ts, q, h⟩ := ih _ (by rw [← hn, List.length_cons]; omega)
        (stepPlace language p c cs) (stepRest language p c cs) rfl
      exact ⟨_, q, .step h⟩

/-- The mark of the end of a text. -/
def finishAt (p : ScanPlace) : Token :=
  ⟨.finish, "", p.row, p.row, p.lastRow, p.tight, p.commented, 0⟩

theorem tokensFrom_nil (hfuel : 0 < fuel) : tokensFrom language fuel p [] = [finishAt p] := by
  obtain ⟨fuel, rfl⟩ := Nat.exists_eq_succ_of_ne_zero (Nat.ne_of_gt hfuel)
  rfl

theorem Scans.tokensFrom_all (h : Scans language p cs ts q []) (hfuel : cs.length < fuel) :
    tokensFrom language fuel p cs = ts ++ [finishAt q] := by
  obtain ⟨left, hleft, htokens⟩ := h.tokensFrom_eq hfuel
  rw [htokens, tokensFrom_nil (Nat.zero_lt_of_lt hleft)]

/-! ## Rows -/

theorem countRows_append (xs ys : List Char) : countRows (xs ++ ys) = countRows xs + countRows ys :=
  List.count_append

theorem countRows_takenBefore (h : rest <:+ cs) :
    countRows (takenBefore cs rest) + countRows rest = countRows cs := by
  obtain ⟨taken, rfl⟩ := h
  have : takenBefore (taken ++ rest) rest = taken := by simp [takenBefore]
  rw [this, countRows_append]

theorem FrontKind.row_place (k : FrontKind) (p : ScanPlace) (taken : List Char) (opened : Nat) :
    (k.place p taken opened).row = p.row + countRows taken := by
  cases k <;> rfl

theorem stepPlace_row (p : ScanPlace) (c : Char) (cs : List Char) :
    (stepPlace language p c cs).row + countRows (stepRest language p c cs) =
      p.row + countRows (c :: cs) := by
  have hsuffix : stepRest language p c cs <:+ c :: cs :=
    (stepRest_suffix language p c cs).trans (List.suffix_cons c cs)
  have hrows := countRows_takenBefore hsuffix
  have hplace : (stepPlace language p c cs).row =
      p.row + countRows (takenBefore (c :: cs) (stepRest language p c cs)) :=
    FrontKind.row_place _ _ _ _
  omega

/-- A place knows on which row it stands. -/
theorem Scans.row (h : Scans language p cs ts q rest) :
    q.row + countRows rest = p.row + countRows cs := by
  induction h with
  | rest => rfl
  | step _ ih => rw [ih, stepPlace_row]

theorem stepToken_rows {t : Token} (h : t ∈ stepToken language p c cs) :
    t.row = p.row ∧ t.endRow = (stepPlace language p c cs).row := by
  unfold stepToken at h
  unfold stepPlace
  rw [FrontKind.row_place]
  cases hk : (cutFront language p.opened c cs).kind with
  | token kind =>
    simp only [hk, FrontKind.token?, Option.mem_def, Option.some.injEq] at h
    subst h
    exact ⟨rfl, rfl⟩
  | blank => simp [hk, FrontKind.token?] at h
  | comment => simp [hk, FrontKind.token?] at h

theorem Scans.row_le (h : Scans language p cs ts q rest) : p.row ≤ q.row := by
  have hrow := h.row
  have hle : countRows rest ≤ countRows cs := h.suffix.sublist.count_le _
  omega

/-- The tokens of a walk stand on its rows, in order. -/
theorem Scans.rows (h : Scans language p cs ts q rest) :
    (∀ t ∈ ts, p.row ≤ t.row ∧ t.row ≤ t.endRow ∧ t.endRow ≤ q.row) ∧
      ts.Pairwise fun a b => a.endRow ≤ b.row := by
  induction h with
  | rest => simp
  | @step p q c cs rest ts h ih =>
    obtain ⟨hall, hpairwise⟩ := ih
    have hfirst : p.row ≤ (stepPlace language p c cs).row :=
      (Scans.step (.rest (stepPlace language p c cs) _)).row_le
    have hlater := h.row_le
    refine ⟨fun t ht => ?_, ?_⟩
    · rcases List.mem_append.mp ht with ht | ht
      · obtain ⟨hrow, hend⟩ := stepToken_rows (Option.mem_toList.mp ht)
        omega
      · have := hall t ht
        omega
    · refine List.pairwise_append.mpr ⟨?_, hpairwise, fun a ha b hb => ?_⟩
      · cases stepToken language p c cs <;> simp
      · obtain ⟨-, hend⟩ := stepToken_rows (Option.mem_toList.mp ha)
        have := hall b hb
        omega

end Whittle.Grammar
