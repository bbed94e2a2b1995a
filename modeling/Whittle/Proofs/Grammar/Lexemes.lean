import Whittle.Proofs.Grammar.Scanning

/-!
# Lexemes

The tokens of a text without their places. `Cuts language cs ls rest` says that `cs` is cut into `ls`
up to `rest`, wherever a scan stands when it comes to `cs`, so that the lexemes of a text are found
from its end, with one lemma for each way in which a text can start.
-/

namespace Whittle.Grammar

open Text

/-- A token without its place. -/
structure Lexeme where
  kind : TokenKind
  text : String
  deriving DecidableEq, Repr

def Token.lexeme (t : Token) : Lexeme := ⟨t.kind, t.text⟩

/-- The lexemes of a source text, without the mark of its end. -/
def lexemes (language : Language) (source : String) : List Lexeme :=
  ((tokens language source).map Token.lexeme).dropLast

/-- Wherever a scan comes to `cs`, it cuts `ls` off and comes to `rest` with as many conditionals
open. -/
def Cuts (language : Language) (cs : List Char) (ls : List Lexeme) (rest : List Char) : Prop :=
  ∀ p, ∃ ts q, Scans language p cs ts q rest ∧ ts.map Token.lexeme = ls ∧ q.opened = p.opened

/-- A token by its lexeme and the row on which it starts. -/
def Token.placed (t : Token) : Lexeme × Nat := (t.lexeme, t.row)

theorem map_placed_counted (ts : List Token) :
    (counted ts).map Token.placed = ts.map Token.placed := by
  induction ts with
  | nil => rfl
  | cons t ts ih => simp only [counted, List.map_cons, ih]; rfl

variable {language : Language} {cs rest more : List Char} {c : Char} {ls : List Lexeme}

/-- The place at which the scan of a text starts. -/
def startPlace : ScanPlace := ⟨0, 0, false, false, 0⟩

theorem Scans.tokens_placed {source : String} {ts : List Token} {q : ScanPlace}
    (h : Scans language startPlace source.toList ts q []) :
    (tokens language source).dropLast.map Token.placed = ts.map Token.placed := by
  rw [tokens, List.map_dropLast, map_placed_counted,
    show (⟨0, 0, false, false, 0⟩ : ScanPlace) = startPlace from rfl,
    h.tokensFrom_all (Nat.lt_succ_self _), List.map_append, List.map_singleton,
    List.dropLast_concat]

theorem map_fst_placed (ts : List Token) :
    (ts.map Token.placed).map Prod.fst = ts.map Token.lexeme :=
  List.map_map

theorem lexemes_eq_dropLast (source : String) :
    lexemes language source = (tokens language source).dropLast.map Token.lexeme :=
  List.map_dropLast.symm

theorem Scans.lexemes_eq {source : String} {ts : List Token} {q : ScanPlace}
    (h : Scans language startPlace source.toList ts q []) :
    lexemes language source = ts.map Token.lexeme := by
  rw [lexemes_eq_dropLast, ← map_fst_placed, h.tokens_placed, map_fst_placed]

theorem Cuts.lexemes_eq (h : Cuts language cs ls []) :
    lexemes language (String.ofList cs) = ls := by
  obtain ⟨ts, q, hscan, hls, -⟩ := h startPlace
  rw [← String.toList_ofList (l := cs)] at hscan
  rw [hscan.lexemes_eq, hls]

theorem takenBefore_append (text rest : List Char) : takenBefore (text ++ rest) rest = text := by
  simp [takenBefore]

theorem FrontKind.lexeme_token? (k : FrontKind) (p p' : ScanPlace) (taken : List Char) :
    ((k.token? p taken).toList).map Token.lexeme = ((k.token? p' taken).toList).map Token.lexeme := by
  cases k <;> rfl

theorem FrontKind.opened_place (k : FrontKind) (p : ScanPlace) (taken : List Char) (opened : Nat) :
    (k.place p taken opened).opened = opened := by
  cases k <;> rfl

/-- The lexemes of a walk depend on no row, and only on how many conditionals are open. -/
theorem Scans.of_opened {p q p' : ScanPlace} {ts : List Token} (h : Scans language p cs ts q rest)
    (hp : p'.opened = p.opened) :
    ∃ ts' q', Scans language p' cs ts' q' rest ∧
      ts'.map Token.lexeme = ts.map Token.lexeme ∧ q'.opened = q.opened := by
  induction h generalizing p' with
  | rest => exact ⟨[], p', .rest p' _, rfl, hp⟩
  | @step p q c cs rest ts _ ih =>
    have hrest : stepRest language p' c cs = stepRest language p c cs := by
      rw [stepRest, stepRest, hp]
    have hopened : (stepPlace language p' c cs).opened = (stepPlace language p c cs).opened := by
      rw [stepPlace, stepPlace, FrontKind.opened_place, FrontKind.opened_place, hp]
    obtain ⟨ts', q', hscan, hls, hq⟩ := ih hopened
    refine ⟨_, q', .step_of hrest hscan, ?_, hq⟩
    rw [List.map_append, List.map_append, hls, stepToken, stepToken, hp, FrontKind.lexeme_token?]

/-! ## One step of the scan -/

theorem cuts_rest (language : Language) (cs : List Char) : Cuts language cs [] cs :=
  fun p => ⟨[], p, .rest p cs, rfl, rfl⟩

theorem Cuts.trans {ms : List Lexeme} (h : Cuts language cs ls rest)
    (h' : Cuts language rest ms more) : Cuts language cs (ls ++ ms) more := by
  intro p
  obtain ⟨ts, q, hscan, hls, hq⟩ := h p
  obtain ⟨us, r, hscan', hms, hr⟩ := h' q
  exact ⟨ts ++ us, r, hscan.trans hscan', by rw [List.map_append, hls, hms], hr.trans hq⟩

/-- A step that cuts off no token. -/
theorem Cuts.blank {behind : List Char}
    (hcut : ∀ opened, cutFront language opened c cs = ⟨.blank, opened, behind⟩)
    (h : Cuts language behind ls rest) : Cuts language (c :: cs) ls rest := by
  intro p
  obtain ⟨ts, q, hscan, hls, hq⟩ := h (stepPlace language p c cs)
  have hrest : stepRest language p c cs = behind := by rw [stepRest, hcut]
  have htoken : stepToken language p c cs = none := by rw [stepToken, hcut]; rfl
  have hopened : (stepPlace language p c cs).opened = p.opened := by
    rw [stepPlace, FrontKind.opened_place, hcut]
  exact ⟨_, q, .step_of hrest hscan, by rw [htoken]; exact hls, hq.trans hopened⟩

theorem Cuts.space (h : Cuts language cs ls rest) : Cuts language (' ' :: cs) ls rest :=
  .blank (fun _ => rfl) h

/-- What may stand before a line feed that is passed over: nothing, or a backslash that joins the line
with the next. -/
def lineJoints : List (List Char) := [[], ['\\'], ['\\', '\r']]

theorem Cuts.lineEnd {joint : List Char} (hjoint : joint ∈ lineJoints)
    (h : Cuts language cs ls rest) : Cuts language (joint ++ '\n' :: cs) ls rest := by
  simp only [lineJoints, List.mem_cons, List.not_mem_nil, or_false] at hjoint
  rcases hjoint with rfl | rfl | rfl
  · exact .blank (fun _ => rfl) h
  · exact .blank (fun _ => rfl) h
  · exact .blank (fun _ => rfl) h

/-- What starts with `c` and goes on with `cs` is neither a blank nor a comment, a directive or the
end of a joined line. -/
structure StartsToken (c : Char) (cs : List Char) : Prop where
  solid : isSpace c = false
  uncommented : c ≠ '/'
  undirected : c ≠ '#'
  unjoined : c = '\\' → ∀ d ∈ cs.head?, d ≠ '\n' ∧ d ≠ '\r'

theorem StartsToken.of_ne (hs : isSpace c = false) (hne : c ∉ ['/', '#', '\\']) :
    StartsToken c cs := by
  simp only [List.mem_cons, List.not_mem_nil, or_false, not_or] at hne
  exact ⟨hs, hne.1, hne.2.1, fun e => absurd e hne.2.2⟩

/-- The blanks of the grammar. -/
def spaces : List Char :=
  [' ', '\t', '\n', '\r'] ++ [0x0b, 0x0c, 0xfeff, 0xa0, 0x2028, 0x2029].map Char.ofNat

theorem mem_spaces (h : isSpace c = true) : c ∈ spaces := by
  have hnum : ∀ n, c.toNat = n → c = Char.ofNat n := fun n e => e ▸ (Char.ofNat_toNat c).symm
  simp only [isSpace, Bool.or_eq_true, decide_eq_true_eq] at h
  rcases h with ((((((((h | h) | h) | h) | h) | h) | h) | h) | h) | h
  all_goals first | subst h | (have e := hnum _ h; subst e)
  all_goals decide

/-- A class of characters without blanks. -/
theorem isSpace_eq_false {p : Char → Bool} (hp : spaces.all (fun x => !p x) = true)
    (h : p c = true) : isSpace c = false := by
  rw [Bool.eq_false_iff]
  intro hs
  have hc := List.all_eq_true.mp hp c (mem_spaces hs)
  rw [h] at hc
  cases hc

theorem StartsToken.cutFront_eq (h : StartsToken c cs) (language : Language) (opened : Nat) :
    cutFront language opened c cs =
      ⟨.token (dropToken language c cs).1, opened, (dropToken language c cs).2⟩ := by
  have hjoined : ∀ d ds, c = '\\' → cs = d :: ds → d ≠ '\n' ∧ d ≠ '\r' :=
    fun d ds hc e => h.unjoined hc d (by rw [e]; rfl)
  rw [cutFront]
  · rw [if_neg (by simp [h.solid])]
  · exact h.undirected
  · exact fun _ e => absurd e h.uncommented
  · exact fun _ e => absurd e h.uncommented
  · exact fun behind e e' => (hjoined _ _ e e').1 rfl
  · exact fun behind e e' => (hjoined _ _ e e').2 rfl

theorem Cuts.token {kind : TokenKind} {text : List Char} (htext : text = c :: cs)
    (hstart : StartsToken c (cs ++ more)) (hdrop : dropToken language c (cs ++ more) = (kind, more))
    (h : Cuts language more ls rest) :
    Cuts language (text ++ more) (⟨kind, String.ofList text⟩ :: ls) rest := by
  subst htext
  intro p
  have hcut := hstart.cutFront_eq language p.opened
  rw [hdrop] at hcut
  have hrest : stepRest language p c (cs ++ more) = more := by rw [stepRest, hcut]
  have htaken : takenBefore (c :: (cs ++ more)) more = c :: cs := takenBefore_append (c :: cs) more
  have htoken : (stepToken language p c (cs ++ more)).toList.map Token.lexeme =
      [⟨kind, String.ofList (c :: cs)⟩] := by
    rw [stepToken, hcut, htaken]
    rfl
  have hopened : (stepPlace language p c (cs ++ more)).opened = p.opened := by
    rw [stepPlace, FrontKind.opened_place, hcut]
  obtain ⟨ts, q, hscan, hls, hq⟩ := h (stepPlace language p c (cs ++ more))
  refine ⟨_, q, .step_of hrest hscan, ?_, hq.trans hopened⟩
  rw [List.map_append, hls]
  exact congrArg (· ++ ls) htoken

/-! ## Punctuation -/

/-- A character that starts neither a word nor a number, a literal, a comment or a directive. -/
def isMark (c : Char) : Bool :=
  !isSpace c && !startsWord c && !isDigit c && !(['/', '#', '\\', '.', '"', '\''].contains c)

theorem Cuts.punct (hc : isMark c = true) (hdrop : dropPunct language c more = more)
    (h : Cuts language more ls rest) :
    Cuts language (c :: more) (⟨.punct, String.ofList [c]⟩ :: ls) rest := by
  simp only [isMark, Bool.and_eq_true, Bool.not_eq_true', List.contains_eq_mem,
    decide_eq_false_iff_not, List.mem_cons, List.not_mem_nil, or_false, not_or] at hc
  obtain ⟨⟨⟨hspace, hword⟩, hdigit⟩, hslash, hhash, hback, hpoint, hstring, hchar⟩ := hc
  have hstarts : wordStarts (c :: more) = false := by simp [wordStarts, hword, hback]
  have hone : [c] = c :: [] := rfl
  refine Cuts.token hone (.of_ne hspace (by simp [hslash, hhash, hback])) ?_ h
  simp [dropToken, hstarts, hdigit, hpoint, hstring, hchar, hdrop]

/-- Marks with which no longer punctuation starts. -/
def singleMarks : List Char := ['(', ')', '[', ']', '\x7b', '\x7d', ',', ';']

theorem Cuts.single (hc : c ∈ singleMarks) (h : Cuts language more ls rest) :
    Cuts language (c :: more) (⟨.punct, String.ofList [c]⟩ :: ls) rest := by
  have hmark : singleMarks.all isMark = true := by decide
  have hlong : singleMarks.all (fun d => decide (∀ p ∈ longPunct language, p.head? ≠ some d)) =
      true := by cases language <;> decide
  have hnone : (longPunct language).find? (fun p => p.isPrefixOf (c :: more)) = none := by
    refine List.find?_eq_none.mpr fun p hp => ?_
    cases p with
    | nil => cases language <;> exact absurd hp (by decide)
    | cons d ds =>
      have hne : d ≠ c := fun e =>
        of_decide_eq_true (List.all_eq_true.mp hlong c hc) _ hp (by rw [List.head?_cons, e])
      simp [hne]
  refine Cuts.punct (List.all_eq_true.mp hmark c hc) ?_ h
  rw [dropPunct, hnone]

/-! ## Words -/

/-- A word of the grammar: nothing is left of it behind its last character. -/
structure IsIdentifier (s : String) : Prop where
  starts : wordStarts s.toList = true
  whole : dropWord s.toList = []

/-- A character behind which a word or a number before it is over. -/
def endsWord (c : Char) : Bool := !continuesWord c && !(['\\', '"', '\'', '.'].contains c)

theorem dropWord_of_ends (h : endsWord c = true) : dropWord (c :: cs) = c :: cs := by
  simp only [endsWord, Bool.and_eq_true, Bool.not_eq_true'] at h
  have hne : c ≠ '\\' := by rintro rfl; exact absurd h.2 (by decide)
  rw [dropWord, if_neg (by simp [h.1])] <;> (intros; exact hne ‹_›)

theorem dropWord_append {word : List Char} (hword : dropWord word = []) (hc : endsWord c = true) :
    dropWord (word ++ c :: rest) = c :: rest := by
  fun_induction dropWord word with
  | case1 x y z w cs hhex ih => simp [dropWord, hhex, ih hword]
  | case3 x y z w x' y' z' w' cs hhex ih => simp [dropWord, hhex, ih hword]
  | case5 d ds _ _ hd ih => rw [List.cons_append, dropWord_of_continues hd, ih hword]
  | case7 => exact dropWord_of_ends hc
  | case2 | case4 | case6 => cases hword

theorem continuesWord_of_isHexDigit (h : isHexDigit c = true) : continuesWord c = true := by
  have hf : 'f'.toNat ≤ 'z'.toNat ∧ 'F'.toNat ≤ 'Z'.toNat := by decide
  have hletter : isDigit c = true ∨ isLetter c = true := by
    simp only [isHexDigit, isLetter, Bool.or_eq_true, Bool.and_eq_true, decide_eq_true_eq] at h ⊢
    rcases h with (h | h) | h
    · exact .inl h
    · exact .inr (.inl ⟨h.1, Nat.le_trans h.2 hf.1⟩)
    · exact .inr (.inr ⟨h.1, Nat.le_trans h.2 hf.2⟩)
  rcases hletter with h | h <;> simp [continuesWord, startsWord, h]

/-- Words have only characters that go on with a word, and backslashes. -/
theorem continues_of_mem {word : List Char} (hword : dropWord word = []) :
    ∀ d ∈ word, continuesWord d = true ∨ d = '\\' := by
  have hu : continuesWord 'u' = true ∧ continuesWord 'U' = true := by decide
  have hhexes : ∀ {ds : List Char}, ds.all isHexDigit = true → ∀ d ∈ ds, continuesWord d = true :=
    fun h d hd => continuesWord_of_isHexDigit (List.all_eq_true.mp h d hd)
  fun_induction dropWord word with
  | case1 x y z w cs hhex ih =>
    have := hhexes hhex
    have := ih hword
    simp_all
  | case3 x y z w x' y' z' w' cs hhex ih =>
    have := hhexes hhex
    have := ih hword
    simp_all
  | case5 d ds _ _ hd ih => simpa [hd] using ih hword
  | case7 => simp
  | case2 | case4 | case6 => cases hword

theorem mark_of_dropWord (h : dropWord ('\\' :: cs) = []) :
    cs.head? = some 'u' ∨ cs.head? = some 'U' := by
  unfold dropWord at h
  split at h
  · simp_all
  · simp_all
  · rename_i hc
    injection hc with hc _
    subst hc
    exact absurd h (by simp [show continuesWord '\\' = false by decide])
  · simp_all

theorem startsToken_of_word {word : List Char} (hword : dropWord word = [])
    (hstart : wordStarts word = true) (he : word = c :: cs) : StartsToken c (cs ++ rest) := by
  subst he
  have hc : startsWord c = true ∨ c = '\\' := by
    simpa [wordStarts, hword] using hstart
  rcases hc with hc | rfl
  · refine ⟨isSpace_eq_false (by decide) hc, ?_, ?_, ?_⟩ <;> rintro rfl <;>
      exact absurd hc (by decide)
  · refine ⟨by decide, by decide, by decide, fun _ d hd => ?_⟩
    rw [List.head?_append] at hd
    rcases mark_of_dropWord hword with h | h <;> rw [h] at hd <;> obtain rfl := Option.some.inj hd
      <;> decide

theorem dropToken_word {word : List Char} (hword : dropWord word = [])
    (hstart : wordStarts word = true) (he : word = c :: cs) {d : Char} (hd : endsWord d = true) :
    dropToken language c (cs ++ d :: rest) = (.word, d :: rest) := by
  have hrest : dropWord (c :: (cs ++ d :: rest)) = d :: rest := by
    rw [← List.cons_append, ← he]
    exact dropWord_append hword hd
  have hstarts : wordStarts (c :: (cs ++ d :: rest)) = true := by
    subst he
    have : rest.length < cs.length + (rest.length + 1) := by omega
    simpa [wordStarts, hword, hrest, this] using hstart
  have hquotes : d ≠ '"' ∧ d ≠ '\'' := by
    constructor <;> rintro rfl <;> exact absurd hd (by decide)
  unfold dropToken
  rw [if_pos hstarts]
  simp only [hrest]
  split
  · rename_i heq
    exact absurd (List.cons.inj heq).1 hquotes.1
  · rename_i heq
    exact absurd (List.cons.inj heq).1 hquotes.2
  · rfl

/-- A word is cut off where it ends. -/
theorem Cuts.word {s : String} (hs : IsIdentifier s) (hc : endsWord c = true)
    (h : Cuts language (c :: more) ls rest) :
    Cuts language (s.toList ++ c :: more) (⟨.word, s⟩ :: ls) rest := by
  obtain ⟨d, ds, he⟩ := List.exists_cons_of_ne_nil (l := s.toList)
    (by intro e; have := hs.starts; rw [e] at this; cases this)
  have := Cuts.token he (startsToken_of_word hs.whole hs.starts he)
    (dropToken_word hs.whole hs.starts he hc) h
  rwa [String.ofList_toList] at this

/-! ## Numbers -/

/-- A character that neither goes on with a number nor stands among its digits. -/
def Inert (c : Char) : Prop := isLetter c = false ∧ c ≠ '\'' ∧ c ≠ '.'

theorem inert_of_isDigit (h : isDigit c = true) : Inert c := by
  have hlimits : '9'.toNat < 'A'.toNat ∧ 'A'.toNat < 'a'.toNat := by decide
  simp only [isDigit, Bool.and_eq_true, decide_eq_true_eq] at h
  refine ⟨?_, by rintro rfl; exact absurd h (by decide), by rintro rfl; exact absurd h (by decide)⟩
  rw [Bool.eq_false_iff]
  simp only [isLetter, ne_eq, Bool.or_eq_true, Bool.and_eq_true, decide_eq_true_eq]
  omega

theorem inert_of_endsWord (h : endsWord c = true) : Inert c := by
  simp only [endsWord, continuesWord, startsWord, Bool.and_eq_true, Bool.not_eq_true',
    Bool.or_eq_false_iff] at h
  refine ⟨h.1.1.1.1.1, ?_, ?_⟩ <;> rintro rfl <;> exact absurd h.2 (by decide)

theorem isDigit_of_endsWord (h : endsWord c = true) : isDigit c = false := by
  simp only [endsWord, continuesWord, Bool.and_eq_true, Bool.not_eq_true',
    Bool.or_eq_false_iff] at h
  exact h.1.2

theorem Inert.not_mem (h : Inert c) {letters : List Char} (hl : letters.all isLetter = true) :
    letters.contains c = false := by
  rw [Bool.eq_false_iff, ne_eq, List.contains_iff_mem]
  intro hm
  have := List.all_eq_true.mp hl c hm
  rw [h.1] at this
  cases this

section

variable {d : Char} {ds : List Char} (hds : ds.all isDigit = true) (hd : endsWord d = true)

include hds hd

/-- Behind digits and `d` a text starts with an inert character. -/
theorem inert_of_digits {x : Char} (hx : x ∈ (ds ++ d :: rest).head?) : Inert x := by
  cases ds with
  | nil => obtain rfl := Option.some.inj hx; exact inert_of_endsWord hd
  | cons y ys =>
    obtain rfl := Option.some.inj hx
    exact inert_of_isDigit (List.all_eq_true.mp hds _ List.mem_cons_self)

theorem digitEnds_step (hc : isDigit c = true) :
    digitEnds isDigit (c :: (ds ++ d :: rest)) =
      digitEnds isDigit (ds ++ d :: rest) ++ [ds ++ d :: rest] := by
  rw [digitEnds, if_pos hc]
  rintro x xs e
  have hquote : '\'' ∈ (ds ++ d :: rest).head? := by rw [e]; rfl
  exact (inert_of_digits hds hd hquote).2.1 rfl

end

/-- The first of the rests behind digits is what follows all of them. -/
theorem digitEnds_digits {d : Char} (hd : endsWord d = true) {ds : List Char} (hne : ds ≠ [])
    (hds : ds.all isDigit = true) :
    ∃ more, digitEnds isDigit (ds ++ d :: rest) = (d :: rest) :: more ∧
      ∀ t ∈ more, ∃ u, t = u ++ d :: rest ∧ u.all isDigit = true := by
  induction ds with
  | nil => exact absurd rfl hne
  | cons x xs ih =>
    rw [List.all_cons, Bool.and_eq_true] at hds
    rw [List.cons_append, digitEnds_step hds.2 hd hds.1]
    cases xs with
    | nil => exact ⟨[], by simp [digitEnds_of_not (isDigit_of_endsWord hd)], by simp⟩
    | cons y ys =>
      obtain ⟨more, hmore, hall⟩ := ih (List.cons_ne_nil _ _) hds.2
      refine ⟨more ++ [y :: ys ++ d :: rest], by rw [hmore]; rfl, ?_⟩
      intro t ht
      rcases List.mem_append.mp ht with ht | ht
      · exact hall t ht
      · exact ⟨y :: ys, List.mem_singleton.mp ht, hds.2⟩

theorem shortest_cons {whole t : List Char} {ts : List (List Char)} (h : t.length < whole.length)
    (hts : ∀ u ∈ ts, t.length ≤ u.length) : shortest whole (t :: ts) = t := by
  rw [shortest, List.foldl_cons, if_pos h]
  clear h
  induction ts with
  | nil => rfl
  | cons u us ih =>
    rw [List.foldl_cons, if_neg (Nat.not_lt.mpr (hts u List.mem_cons_self))]
    exact ih fun v hv => hts v (List.mem_cons_of_mem _ hv)

theorem flatMap_alone {α : Type} {f : α → List α} {l : List α} (h : ∀ a ∈ l, f a = [a]) :
    l.flatMap f = l := by
  induction l with
  | nil => rfl
  | cons a l ih =>
    rw [List.flatMap_cons, h a List.mem_cons_self, ih fun b hb => h b (List.mem_cons_of_mem _ hb)]
    rfl

theorem Inert.ne {x : Char} (h : Inert c) (hx : isLetter x = true) : c ≠ x := by
  rintro rfl
  rw [h.1] at hx
  cases hx

/-- Neither a base nor a point stands at the front of digits, nor a point behind them. -/
theorem mantissaEnds_of_inert (hc : Inert c) (hcs : ∀ x ∈ cs.head?, Inert x)
    (hends : ∀ t ∈ digitEnds isDigit (c :: cs), ∀ x ∈ t.head?, Inert x) :
    mantissaEnds (c :: cs) = digitEnds isDigit (c :: cs) := by
  have hbase : ∀ {x : Char} {xs : List Char}, isLetter x = true → cs ≠ x :: xs := by
    rintro x xs hx rfl
    exact (hcs x rfl).ne hx rfl
  have hfirst := hc.2.2
  unfold mantissaEnds
  split
  all_goals first
    | (rename_i heq; exact absurd (List.cons.inj heq).2 (hbase (by decide)))
    | (rename_i heq; exact absurd (List.cons.inj heq).1 hfirst)
    | skip
  refine flatMap_alone fun t ht => ?_
  split
  · exact absurd rfl (hends _ ht '.' rfl).2.2
  · rfl

theorem exponentEnds_of_inert (h : ∀ t ∈ mantissaEnds cs, ∀ x ∈ t.head?, Inert x) :
    exponentEnds cs = mantissaEnds cs := by
  refine flatMap_alone fun t ht => ?_
  cases t with
  | nil => rfl
  | cons x xs =>
    have : ['e', 'E', 'p', 'P'].contains x = false := (h _ ht x rfl).not_mem (by decide)
    simp only [this]
    rfl

theorem dropNumber_digits {d : Char} (hd : endsWord d = true) {ds : List Char} (hne : ds ≠ [])
    (hds : ds.all isDigit = true) : dropNumber (ds ++ d :: rest) = d :: rest := by
  obtain ⟨more, hmore, hall⟩ : ∃ more, digitEnds isDigit (ds ++ d :: rest) = (d :: rest) :: more ∧
      ∀ t ∈ more, ∃ u, t = u ++ d :: rest ∧ u.all isDigit = true := digitEnds_digits hd hne hds
  have hends : ∀ t ∈ digitEnds isDigit (ds ++ d :: rest),
      ∃ u, t = u ++ d :: rest ∧ u.all isDigit = true := by
    intro t ht
    rcases List.mem_cons.mp (hmore ▸ ht) with rfl | ht
    · exact ⟨[], rfl, rfl⟩
    · exact hall t ht
  have hinert : ∀ t ∈ digitEnds isDigit (ds ++ d :: rest), ∀ x ∈ t.head?, Inert x := by
    intro t ht x hx
    obtain ⟨u, rfl, hu⟩ := hends t ht
    exact inert_of_digits hu hd hx
  have hmantissa : mantissaEnds (ds ++ d :: rest) = digitEnds isDigit (ds ++ d :: rest) := by
    obtain ⟨x, xs, rfl⟩ := List.exists_cons_of_ne_nil hne
    rw [List.all_cons, Bool.and_eq_true] at hds
    exact mantissaEnds_of_inert (inert_of_isDigit hds.1)
      (fun y hy => inert_of_digits hds.2 hd hy) hinert
  have hexponent : exponentEnds (ds ++ d :: rest) = digitEnds isDigit (ds ++ d :: rest) := by
    rw [exponentEnds_of_inert (hmantissa ▸ hinert), hmantissa]
  have hsuffix : ∀ t ∈ digitEnds isDigit (ds ++ d :: rest),
      t.dropWhile numberSuffixes.contains = t := by
    intro t ht
    cases t with
    | nil => rfl
    | cons x xs =>
      rw [List.dropWhile_cons_of_neg]
      rw [(hinert _ ht x rfl).not_mem (by decide)]
      decide
  rw [dropNumber, hexponent, List.map_congr_left hsuffix, List.map_id', hmore]
  refine shortest_cons ?_ fun t ht => ?_
  · have := List.length_pos_iff.mpr hne
    simp only [List.length_append]
    omega
  · obtain ⟨u, rfl, -⟩ := hall t ht
    simp only [List.length_append]
    omega

theorem startsWord_of_isDigit (h : isDigit c = true) : startsWord c = false := by
  have hlimit : '9'.toNat ≤ 0x7f := by decide
  have hsmall : ¬c.toNat > 0x7f := by
    simp only [isDigit, Bool.and_eq_true, decide_eq_true_eq] at h
    omega
  have hunder : c ≠ '_' ∧ c ≠ '$' := by constructor <;> rintro rfl <;> exact absurd h (by decide)
  simp [startsWord, (inert_of_isDigit h).1, hunder, hsmall]

theorem wordStarts_of_isDigit (h : isDigit c = true) : wordStarts (c :: cs) = false := by
  have hne : c ≠ '\\' := by rintro rfl; exact absurd h (by decide)
  simp [wordStarts, startsWord_of_isDigit h, hne]

theorem startsToken_of_isDigit (h : isDigit c = true) : StartsToken c cs := by
  refine .of_ne (isSpace_eq_false (by decide) h) fun hm => ?_
  have hother : ['/', '#', '\\'].all (fun x => !isDigit x) = true := by decide
  have hc := List.all_eq_true.mp hother c hm
  rw [h] at hc
  cases hc

/-- A decimal number is cut off behind its last digit. -/
theorem Cuts.number {ds : List Char} (hne : ds ≠ []) (hds : ds.all isDigit = true)
    (hc : endsWord c = true) (h : Cuts language (c :: more) ls rest) :
    Cuts language (ds ++ c :: more) (⟨.number, String.ofList ds⟩ :: ls) rest := by
  obtain ⟨x, xs, rfl⟩ := List.exists_cons_of_ne_nil hne
  have hx : isDigit x = true := List.all_eq_true.mp hds x List.mem_cons_self
  refine Cuts.token rfl (startsToken_of_isDigit hx) ?_ h
  rw [dropToken, wordStarts_of_isDigit hx, ← List.cons_append, dropNumber_digits hc hne hds]
  simp [hx]

/-! ## Literals -/

/-- A string literal is cut off behind its closing quote. -/
theorem Cuts.string {body : List Char} (hbody : dropQuoted '"' .content (body ++ more) = more)
    (h : Cuts language more ls rest) :
    Cuts language ('"' :: body ++ more) (⟨.string, String.ofList ('"' :: body)⟩ :: ls) rest := by
  refine Cuts.token rfl (.of_ne (by decide) (by decide)) ?_ h
  have hword : wordStarts ('"' :: (body ++ more)) = false := rfl
  simp [dropToken, hword, hbody, show isDigit '"' = false by decide]

end Whittle.Grammar
