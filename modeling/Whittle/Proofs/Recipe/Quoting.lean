import Whittle.Proofs.Recipe.Data
import Whittle.Proofs.Recipe.Tokens

/-!
# Data in a command

A template can be read before its holes are filled. Whatever the data is, as long as it is
`Harmless` where it is not arguments, the filled template has the tokens of the template, with the
data in the words that have holes (`tokensOf_spell`). The reader goes through the data of a hole in
the state in which the hole found it: outside of quotes and between double quotes because no
character there is anything but a letter (`run_bare`, `run_double`), and between single quotes
because each quote of the data is written so that the reader is there again behind it
(`run_single`).
-/

namespace Whittle.Template

open Text

/-- The characters that may be more to a shell than letters of a word. -/
def special : List Char :=
  ['\'', '"', '\\', '$', '`', ' ', '\t', '#', '\n', '&', '(', ')', ';', '|', '<', '>']

structure Harmless (v : List Char) : Prop where
  ne_nil : v ≠ []
  chars : ∀ c ∈ v, c ∉ special

theorem harmless_of_any {v : List Char} (hne : v ≠ []) (h : v.any special.contains = false) :
    Harmless v :=
  ⟨hne, fun c hc hs => List.any_eq_false.mp h c hc (List.contains_iff_mem.mpr hs)⟩

theorem Plain.harmless {v : List Char} (h : Plain v) : Harmless v := by
  have hplain : special.any isPlain = false := by decide
  exact ⟨h.ne_nil, fun c hc hs => List.any_eq_false.mp hplain c hs (h.chars c hc)⟩

theorem Harmless.quoted_eq {v : List Char} (h : Harmless v) : quoted v = v :=
  quoted_of_not_mem fun hm => h.chars _ hm (by decide)

/-! ## Filling what was read -/

variable (σ : Placeholder → List Char)

/-- The letters of some characters that are quoted alike. -/
def lettersOf (quoted : Bool) (v : List Char) : List Letter := v.map fun c => ⟨.char c, quoted⟩

def Letter.fill (l : Letter) : List Letter :=
  match l.piece with
  | .char _ => [l]
  | .hole p => lettersOf l.quoted (σ p)

def fillLetters (letters : List Letter) : List Letter := letters.flatMap (Letter.fill σ)

def Token.fill : Token → Token
  | .word letters => .word (fillLetters σ letters)
  | .number digits => .number digits
  | .operator cs => .operator cs

def Part.fill : Part → Part
  | .nothing => .nothing
  | .word letters marked => .word (fillLetters σ letters) marked
  | .operator cs => .operator cs

def State.fill : State → State
  | .bare part => .bare (part.fill σ)
  | .escape part => .escape (part.fill σ)
  | .single letters => .single (fillLetters σ letters)
  | .double letters => .double (fillLetters σ letters)
  | .doubleEscape letters => .doubleEscape (fillLetters σ letters)
  | .comment => .comment

theorem kinds_fill (ts : List Token) :
    (ts.map (Token.fill σ)).map Token.kind = ts.map Token.kind := by
  rw [List.map_map]
  refine List.map_congr_left fun t _ => ?_
  cases t <;> rfl

@[simp] theorem fillLetters_append (ls ms : List Letter) :
    fillLetters σ (ls ++ ms) = fillLetters σ ls ++ fillLetters σ ms := List.flatMap_append

@[simp] theorem fillLetters_char (c : Char) (quoted : Bool) (ls : List Letter) :
    fillLetters σ (⟨.char c, quoted⟩ :: ls) = ⟨.char c, quoted⟩ :: fillLetters σ ls := rfl

@[simp] theorem fillLetters_nil : fillLetters σ [] = [] := rfl

@[simp] theorem fillLetters_hole (p : Placeholder) (quoted : Bool) :
    fillLetters σ [⟨.hole p, quoted⟩] = lettersOf quoted (σ p) := by
  simp [fillLetters, Letter.fill]

@[simp] theorem lettersOf_cons (quoted : Bool) (c : Char) (v : List Char) :
    lettersOf quoted (c :: v) = ⟨.char c, quoted⟩ :: lettersOf quoted v := rfl

theorem fillLetters_of_digits {ls : List Letter} (h : ls.all Letter.isDigit = true) :
    fillLetters σ ls = ls := by
  refine (List.flatMap_congr fun l hl => ?_).trans (List.flatMap_singleton' ls)
  have hdigit := List.all_eq_true.mp h l hl
  obtain ⟨piece, quoted⟩ := l
  cases piece with
  | char c => rfl
  | hole p => cases hdigit

/-- Data brings no word to be a number: another letter is still in it. -/
theorem not_all_digits_fill {ls : List Letter}
    (h : ls.all (fun l => l.isDigit || l.isHole) = false) :
    (fillLetters σ ls).all (fun l => l.isDigit || l.isHole) = false := by
  obtain ⟨l, hl, hother⟩ := List.all_eq_false.mp h
  refine List.all_eq_false.mpr ⟨l, List.mem_flatMap.mpr ⟨l, hl, ?_⟩, hother⟩
  obtain ⟨piece, quoted⟩ := l
  cases piece with
  | char c => exact List.mem_singleton_self _
  | hole p => exact absurd rfl hother

namespace Part

variable (part : Part)

theorem ended_fill : (part.fill σ).ended = part.ended.map (Token.fill σ) := by
  cases part <;> rfl

theorem letters_fill : (part.fill σ).letters = fillLetters σ part.letters := by
  cases part <;> rfl

theorem isWord_fill : (part.fill σ).isWord = part.isWord := by cases part <;> rfl

theorem extend_fill (c : Char) : (part.fill σ).extend c = part.extend c := by cases part <;> rfl

theorem add_char_fill (c : Char) (quoted : Bool) :
    (part.fill σ).add [⟨.char c, quoted⟩] = (part.add [⟨.char c, quoted⟩]).fill σ := by
  cases part <;> simp [add, fill, letters, marked]

theorem add_hole_fill (p : Placeholder) :
    (part.fill σ).add (lettersOf false (σ p)) = (part.add [⟨.hole p, false⟩]).fill σ := by
  cases part <;> simp [add, fill, letters, marked, lettersOf]

theorem close_fill {part : Part} {redirected : Bool} {ts : List Token}
    (h : part.close redirected = some ts) :
    (part.fill σ).close redirected = some (ts.map (Token.fill σ)) := by
  cases part with
  | nothing => cases h; rfl
  | operator cs => cases h; rfl
  | word ls marked =>
    rw [fill, close]
    rw [close] at h
    by_cases hnumber : redirected && !marked
    · rw [hnumber, Bool.true_and] at h ⊢
      by_cases hall : ls.all (fun l => l.isDigit || l.isHole) = true
      · by_cases hdigits : ls.all Letter.isDigit = true
        · rw [if_pos hall, if_pos hdigits] at h
          cases h
          rw [fillLetters_of_digits σ hdigits, if_pos hall, if_pos hdigits]
          rfl
        · rw [if_pos hall, if_neg hdigits] at h
          cases h
      · rw [if_neg hall] at h
        cases h
        rw [not_all_digits_fill σ (Bool.eq_false_iff.mpr hall)]
        rfl
    · rw [Bool.eq_false_iff.mpr hnumber, Bool.false_and] at h ⊢
      cases h
      rfl

end Part

/-! ## One character of a template -/

theorem stepBare_fill {part : Part} {c : Char} {ts : List Token} {s : State}
    (h : stepBare part c = some (ts, s)) :
    stepBare (part.fill σ) c = some (ts.map (Token.fill σ), s.fill σ) := by
  unfold stepBare at h ⊢
  rw [part.ended_fill, part.letters_fill, part.isWord_fill, part.extend_fill, part.add_char_fill]
  split_ifs at h ⊢
  · cases h; rfl
  · cases h; rfl
  · cases h; rfl
  · obtain ⟨ts', hclose, h⟩ := Option.map_eq_some_iff.mp h
    cases h
    rw [Part.close_fill σ hclose]
    rfl
  · cases hextend : part.extend c with
    | some cs =>
      rw [hextend] at h
      dsimp only at h ⊢
      split_ifs at h ⊢
      cases h
      rfl
    | none =>
      rw [hextend] at h
      obtain ⟨ts', hclose, h⟩ := Option.map_eq_some_iff.mp h
      cases h
      rw [Part.close_fill σ hclose]
      rfl
  · cases h; rfl
  · cases h; rfl

theorem step_char_fill {s s' : State} {c : Char} {ts : List Token}
    (h : step s (.char c) = some (ts, s')) :
    step (s.fill σ) (.char c) = some (ts.map (Token.fill σ), s'.fill σ) := by
  cases s with
  | bare part => exact stepBare_fill σ h
  | escape part =>
    rw [State.fill, step, part.ended_fill, part.add_char_fill]
    rw [step] at h
    split_ifs at h ⊢
    · cases h; rfl
    · cases h; rfl
  | single letters =>
    rw [State.fill, step]
    rw [step] at h
    split_ifs at h ⊢
    · cases h; rfl
    · cases h; simp [State.fill]
  | double letters =>
    rw [State.fill, step, stepDouble]
    rw [step, stepDouble] at h
    split_ifs at h ⊢
    · cases h; rfl
    · cases h; rfl
    · cases h; simp [State.fill]
  | doubleEscape letters =>
    rw [State.fill, step]
    rw [step] at h
    split_ifs at h ⊢
    · cases h; rfl
    · cases h; simp [State.fill]
    · cases h; simp [State.fill]
  | comment =>
    rw [State.fill, step]
    rw [step] at h
    split_ifs at h ⊢
    · cases h; rfl
    · cases h; rfl

/-! ## The data of a hole -/

/-- An operator has special characters only. -/
theorem isOperator_of_harmless {c : Char} (h : c ∉ special) : isOperator [c] = false := by
  have hoperators : (operators.all fun o => o.all special.contains) = true := by decide
  refine Bool.eq_false_iff.mpr fun ho => h ?_
  have hspecial := List.all_eq_true.mp hoperators [c] (List.contains_iff_mem.mp ho)
  exact List.contains_iff_mem.mp (List.all_eq_true.mp hspecial c (List.mem_singleton_self c))

theorem step_bare_letter {c : Char} (h : c ∉ special) (part : Part) :
    step (.bare part) (.char c) =
      some (part.ended, .bare (part.add [⟨.char c, false⟩])) := by
  have hne {d : Char} (hd : d ∈ special) : c ≠ d := fun e => h (e ▸ hd)
  have hoperator := isOperator_of_harmless h
  simp [step, stepBare, hoperator, hne (d := '\'') (by decide), hne (d := '"') (by decide),
    hne (d := '\\') (by decide), hne (d := '$') (by decide), hne (d := '`') (by decide),
    hne (d := ' ') (by decide), hne (d := '\t') (by decide), hne (d := '#') (by decide)]

theorem step_double_letter {c : Char} (h : c ∉ special) (letters : List Letter) :
    step (.double letters) (.char c) =
      some ([], .double (letters ++ [⟨.char c, true⟩])) := by
  have hne {d : Char} (hd : d ∈ special) : c ≠ d := fun e => h (e ▸ hd)
  simp [step, stepDouble, hne (d := '"') (by decide), hne (d := '\\') (by decide),
    hne (d := '$') (by decide), hne (d := '`') (by decide)]

theorem run_word {v : List Char} (h : ∀ c ∈ v, c ∉ special) (letters : List Letter)
    (marked : Bool) : run (.bare (.word letters marked)) (v.map .char) =
      some ([], .bare (.word (letters ++ lettersOf false v) marked)) := by
  induction v generalizing letters with
  | nil => simp [run_nil, lettersOf]
  | cons c v ih =>
    have hstep := step_bare_letter (h c List.mem_cons_self) (.word letters marked)
    have hrest := ih (fun d hd => h d (List.mem_cons_of_mem c hd)) (letters ++ [⟨.char c, false⟩])
    rw [Part.add, List.any_cons, List.any_nil, Bool.or_false, Bool.or_false] at hstep
    rw [List.map_cons, run_cons hstep hrest]
    simp [Part.ended]

theorem run_bare {v : List Char} (h : Harmless v) (part : Part) :
    run (.bare part) (v.map .char) =
      some (part.ended, .bare (part.add (lettersOf false v))) := by
  cases v with
  | nil => exact absurd rfl h.ne_nil
  | cons c v =>
    have hstep := step_bare_letter (h.chars c List.mem_cons_self) part
    rw [List.map_cons, run_cons hstep (run_word (fun d hd => h.chars d (List.mem_cons_of_mem c hd))
      _ _), List.append_nil]
    simp [Part.add, lettersOf]

theorem run_double {v : List Char} (h : ∀ c ∈ v, c ∉ special) (letters : List Letter) :
    run (.double letters) (v.map .char) = some ([], .double (letters ++ lettersOf true v)) := by
  induction v generalizing letters with
  | nil => simp [run_nil, lettersOf]
  | cons c v ih =>
    have hstep := step_double_letter (h c List.mem_cons_self) letters
    have hrest := ih (fun d hd => h d (List.mem_cons_of_mem c hd)) (letters ++ [⟨.char c, true⟩])
    rw [List.map_cons, run_cons hstep hrest]
    simp

/-- Between single quotes any data is letters, if it is written as `quoted` writes it. -/
theorem run_single (v : List Char) (letters : List Letter) :
    run (.single letters) ((quoted v).map .char) =
      some ([], .single (letters ++ lettersOf true v)) := by
  induction v generalizing letters with
  | nil => simp [run_nil, lettersOf]
  | cons c v ih =>
    have hrest := ih (letters ++ [⟨.char c, true⟩])
    by_cases hc : c = '\''
    · subst hc
      -- out of the quotes, the quote behind a backslash, and in again
      have hquote : run (.single letters) (['\'', '\\', '\'', '\''].map .char) =
          some ([], .single (letters ++ [⟨.char '\'', true⟩])) := rfl
      rw [quoted_cons_quote]
      refine (run_append hquote hrest).trans ?_
      simp
    · have hstep : step (.single letters) (.char c) =
          some ([], .single (letters ++ [⟨.char c, true⟩])) := by rw [step, if_neg hc]
      rw [quoted_cons hc, List.map_cons, run_cons hstep hrest]
      simp

/-! ## A filled template -/

section

variable {σ} (hσ : ∀ p, p ≠ .arguments → Harmless (σ p))
include hσ

theorem run_hole_fill {s s' : State} {p : Placeholder} {ts : List Token}
    (h : step s (.hole p) = some (ts, s')) :
    run (s.fill σ) ((quoted (σ p)).map .char) = some (ts.map (Token.fill σ), s'.fill σ) := by
  cases s with
  | bare part =>
    rw [step] at h
    split_ifs at h with hp
    cases h
    rw [(hσ p hp).quoted_eq, State.fill, run_bare (hσ p hp), part.ended_fill, part.add_hole_fill]
    rfl
  | single letters =>
    cases h
    rw [State.fill, run_single]
    simp [State.fill]
  | double letters =>
    rw [step] at h
    split_ifs at h with hp
    cases h
    rw [(hσ p hp).quoted_eq, State.fill, run_double (hσ p hp).chars]
    simp [State.fill]
  | escape part => cases h
  | doubleEscape letters => cases h
  | comment => cases h

theorem run_spell {s s' : State} {ps : List Piece} {ts : List Token}
    (h : run s ps = some (ts, s')) :
    run (s.fill σ) ((spell (fun p => quoted (σ p)) ps).map .char) =
      some (ts.map (Token.fill σ), s'.fill σ) := by
  induction ps generalizing s ts with
  | nil => cases h; rfl
  | cons piece ps ih =>
    obtain ⟨us, t, vs, hstep, hrun, rfl⟩ := run_cons_cases h
    cases piece with
    | char c =>
      rw [spell_char, List.map_cons, run_cons (step_char_fill σ hstep) (ih hrun), List.map_append]
    | hole p =>
      rw [spell_hole, List.map_append, run_append (run_hole_fill hσ hstep) (ih hrun),
        List.map_append]

/-- The tokens of a filled template are those of the template, with the data in them. -/
theorem tokensOf_spell {ps : List Piece} {ts : List Token} (h : tokensOf ps = some ts) :
    tokensOf ((spell (fun p => quoted (σ p)) ps).map .char) = some (ts.map (Token.fill σ)) := by
  obtain ⟨us, s, vs, hrun, hfinish, rfl⟩ := tokensOf_cases h
  have hend : (s.fill σ).finish = some (vs.map (Token.fill σ)) := by
    cases s with
    | bare part => exact Part.close_fill σ hfinish
    | comment => cases hfinish; rfl
    | _ => cases hfinish
  rw [tokensOf_eq_some (run_spell hσ hrun) hend, List.map_append]

end

end Whittle.Template
