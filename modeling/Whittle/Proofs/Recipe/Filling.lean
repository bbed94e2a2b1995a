import Mathlib.Data.List.Basic
import Mathlib.Logic.Function.Basic
import Whittle.Proofs.Text.Replacing
import Whittle.Settings.Toolchain

/-!
# Templates and their pieces

A template consists of characters that stand for themselves and of holes, one for each occurrence
of a placeholder (`pieces`). `fill` puts data into all holes at once. One placeholder after the
other can be replaced instead as long as the data never completes a placeholder (`Inert`): then what
stands in the text of a placeholder is a hole of the template (`occurrences_spell`), and replacing
goes from hole to hole (`replaceFrom_spell`).
-/

namespace Whittle.Template

open Text

inductive Piece where
  | char (c : Char)
  | hole (p : Placeholder)
  deriving DecidableEq, Repr

/-- A placeholder as it stands in a template. -/
def mark (p : Placeholder) : List Char := p.text.toList

/-- `skip` characters of a placeholder already read are still to be passed over. -/
def piecesFrom : Nat → List Char → List Piece
  | _, [] => []
  | skip + 1, _ :: cs => piecesFrom skip cs
  | 0, c :: cs =>
    match Placeholder.all.find? fun p => (mark p).isPrefixOf (c :: cs) with
    | some p => .hole p :: piecesFrom ((mark p).length - 1) cs
    | none => .char c :: piecesFrom 0 cs

def pieces (template : String) : List Piece := piecesFrom 0 template.toList

/-- What pieces become with some text for each hole. -/
def spell (σ : Placeholder → List Char) (ps : List Piece) : List Char :=
  ps.flatMap fun
    | .char c => [c]
    | .hole p => σ p

/-- The template with a value in the place of every placeholder, and all else as it is. -/
def fill (value : Placeholder → String) (template : String) : String :=
  String.ofList (spell (fun p => (value p).toList) (pieces template))

@[simp] theorem spell_nil (σ : Placeholder → List Char) : spell σ [] = [] := rfl

@[simp] theorem spell_char (σ : Placeholder → List Char) (c : Char) (ps : List Piece) :
    spell σ (.char c :: ps) = c :: spell σ ps := rfl

@[simp] theorem spell_hole (σ : Placeholder → List Char) (p : Placeholder) (ps : List Piece) :
    spell σ (.hole p :: ps) = σ p ++ spell σ ps := rfl

@[simp] theorem spell_append (σ : Placeholder → List Char) (ps qs : List Piece) :
    spell σ (ps ++ qs) = spell σ ps ++ spell σ qs := List.flatMap_append

theorem spell_congr {σ τ : Placeholder → List Char} {ps : List Piece}
    (h : ∀ p, .hole p ∈ ps → σ p = τ p) : spell σ ps = spell τ ps := by
  induction ps with
  | nil => rfl
  | cons piece ps ih =>
    have hps := ih fun p hp => h p (List.mem_cons_of_mem _ hp)
    cases piece with
    | char c => rw [spell_char, spell_char, hps]
    | hole p => rw [spell_hole, spell_hole, hps, h p List.mem_cons_self]

/-! ## Placeholders -/

/-- A placeholder behind its opening brace. -/
def inner (p : Placeholder) : List Char := p.name.toList ++ ['\x7d']

theorem mark_eq (p : Placeholder) : mark p = '\x7b' :: inner p := by cases p <;> decide

theorem brace_not_mem_inner (p : Placeholder) : '\x7b' ∉ inner p := by cases p <;> decide

theorem mark_ne_nil (p : Placeholder) : mark p ≠ [] := by
  rw [mark_eq]
  exact List.cons_ne_nil _ _

theorem mem_all (p : Placeholder) : p ∈ Placeholder.all := by cases p <;> decide

/-- No placeholder stands in front of another one. -/
theorem eq_of_mark_front {p h : Placeholder} (hstarts : mark p <+: mark h) : p = h := by
  have : ∀ p ∈ Placeholder.all, ∀ h ∈ Placeholder.all, mark p <+: mark h → p = h := by decide
  exact this p (mem_all p) h (mem_all h) hstarts

theorem eq_of_mark_front_append {p h : Placeholder} {rest : List Char}
    (hstarts : mark p <+: mark h ++ rest) : p = h := by
  rcases List.prefix_or_prefix_of_prefix hstarts (List.prefix_append (mark h) rest) with e | e
  · exact eq_of_mark_front e
  · exact (eq_of_mark_front e).symm

/-- What is left of a placeholder, but for nothing, has its closing brace. -/
theorem close_mem_of_suffix {p : Placeholder} {q : List Char} (h : q <:+ inner p) (hne : q ≠ []) :
    '\x7d' ∈ q := by
  obtain ⟨front, hfront⟩ := h
  have hlast := congrArg List.getLast? hfront
  rw [inner, List.getLast?_append_of_ne_nil _ hne, List.getLast?_concat] at hlast
  exact List.mem_of_getLast? hlast

/-- Data that can be no part of a placeholder, whatever stands before and behind it. -/
structure Inert (p : Placeholder) (v : List Char) : Prop where
  no_open : '\x7b' ∉ v
  no_close : '\x7d' ∉ v
  no_part : ¬ v <:+: mark p

theorem inert_of_mem {p : Placeholder} {v : List Char} (hopen : '\x7b' ∉ v) (hclose : '\x7d' ∉ v)
    {c : Char} (hc : c ∈ v) (hp : c ∉ mark p) : Inert p v :=
  ⟨hopen, hclose, fun h => hp (h.subset hc)⟩

/-! ## Reading a template -/

/-- Pieces in which no characters stand that are a placeholder. -/
inductive Parsed : List Piece → Prop where
  | nil : Parsed []
  | char {c : Char} {ps : List Piece} (no_mark : ∀ p, ¬ mark p <+: c :: spell mark ps)
      (rest : Parsed ps) : Parsed (.char c :: ps)
  | hole {p : Placeholder} {ps : List Piece} (rest : Parsed ps) : Parsed (.hole p :: ps)

theorem Parsed.tail {piece : Piece} {ps : List Piece} (h : Parsed (piece :: ps)) : Parsed ps := by
  cases h with
  | char _ rest => exact rest
  | hole rest => exact rest

theorem Parsed.of_append {ps qs : List Piece} (h : Parsed (ps ++ qs)) : Parsed ps ∧ Parsed qs := by
  induction ps with
  | nil => exact ⟨.nil, h⟩
  | cons piece ps ih =>
    obtain ⟨hps, hqs⟩ := ih h.tail
    refine ⟨?_, hqs⟩
    cases h with
    | @char c _ no_mark _ =>
      have hmore : c :: spell mark ps <+: c :: spell mark (ps ++ qs) := by
        rw [spell_append]
        exact List.prefix_append _ _
      exact .char (fun p hp => no_mark p (hp.trans hmore)) hps
    | hole _ => exact .hole hps

theorem piecesFrom_drop (n : Nat) (cs : List Char) :
    piecesFrom n cs = piecesFrom 0 (cs.drop n) := by
  induction cs generalizing n with
  | nil => rw [List.drop_nil]; cases n <;> rfl
  | cons c cs ih =>
    cases n with
    | zero => rfl
    | succ n => rw [piecesFrom, List.drop_succ_cons, ih]

theorem piecesFrom_spec (cs : List Char) :
    spell mark (piecesFrom 0 cs) = cs ∧ Parsed (piecesFrom 0 cs) := by
  induction hn : cs.length using Nat.strongRecOn generalizing cs with
  | _ n ih =>
    cases cs with
    | nil => exact ⟨rfl, .nil⟩
    | cons c cs =>
      rw [piecesFrom]
      split
      · rename_i p hfound
        have hfront : (mark p).isPrefixOf (c :: cs) = true := by
          simpa only using List.find?_some hfound
        obtain ⟨rest, hrest⟩ := List.isPrefixOf_iff_prefix.mp hfront
        have hdrop : cs.drop ((mark p).length - 1) = rest := by
          rw [mark_eq, List.cons_append, List.cons.injEq] at hrest
          rw [mark_eq, ← hrest.2]
          simp
        have hshorter : rest.length < n := by
          rw [← hn, ← hrest, mark_eq, List.length_append, List.length_cons]
          omega
        obtain ⟨hspell, hparsed⟩ := ih rest.length hshorter rest rfl
        rw [piecesFrom_drop, hdrop]
        exact ⟨by rw [spell_hole, hspell, hrest], .hole hparsed⟩
      · rename_i hnone
        have hshorter : cs.length < n := by rw [← hn]; exact Nat.lt_succ_self _
        obtain ⟨hspell, hparsed⟩ := ih cs.length hshorter cs rfl
        refine ⟨by rw [spell_char, hspell], .char (fun p => ?_) hparsed⟩
        rw [hspell, ← List.isPrefixOf_iff_prefix]
        exact List.find?_eq_none.mp hnone p (mem_all p)

theorem spell_mark_pieces (template : String) : spell mark (pieces template) = template.toList :=
  (piecesFrom_spec template.toList).1

theorem parsed_pieces (template : String) : Parsed (pieces template) :=
  (piecesFrom_spec template.toList).2

/-! ## Occurrences and holes -/

section

variable {P : Placeholder} {σ : Placeholder → List Char} {ps : List Piece}

/-- A rest of a placeholder that stands in front of the filled text stands there in the template:
data neither ends it nor is a part of it. -/
theorem prefix_of_spell {q : List Char} (hq : q <:+ inner P)
    (hσ : ∀ h, .hole h ∈ ps → h ≠ P → σ h = mark h ∨ Inert P (σ h)) (hP : σ P = mark P)
    (h : q <+: spell σ ps) : q <+: spell mark ps := by
  induction ps generalizing q with
  | nil => exact h
  | cons piece ps ih =>
    cases q with
    | nil => exact List.nil_prefix
    | cons a q =>
      have hopen : '\x7b' ∉ a :: q := fun hm => brace_not_mem_inner P (hq.subset hm)
      have hno_mark {p : Placeholder} {rest : List Char} : ¬ a :: q <+: mark p ++ rest := by
        rw [mark_eq, List.cons_append, List.cons_prefix_cons]
        exact fun e => hopen (e.1 ▸ List.mem_cons_self)
      cases piece with
      | char c =>
        rw [spell_char, List.cons_prefix_cons] at h ⊢
        refine ⟨h.1, ih ((List.suffix_cons a q).trans hq) (fun h' hh' => ?_) h.2⟩
        exact hσ h' (List.mem_cons_of_mem _ hh')
      | hole p =>
        rw [spell_hole] at h
        by_cases hp : p = P
        · rw [hp, hP] at h
          exact absurd h hno_mark
        · rcases hσ p List.mem_cons_self hp with e | hinert
          · rw [e] at h
            exact absurd h hno_mark
          · rcases List.prefix_or_prefix_of_prefix h (List.prefix_append (σ p) _) with hv | hv
            · have hclose := close_mem_of_suffix hq (List.cons_ne_nil a q)
              exact absurd (hv.subset hclose) hinert.no_close
            · have hpart : σ p <:+: mark P := by
                rw [mark_eq]
                exact hv.isInfix.trans (hq.trans (List.suffix_cons _ _)).isInfix
              exact absurd hpart hinert.no_part

theorem startsIn_mark {h : Placeholder} (hne : h ≠ P) (rest : List Char) :
    startsIn (mark P) (mark h) rest = 0 := by
  have hself : ¬ (mark P).isPrefixOf (mark h ++ rest) = true := by
    rw [List.isPrefixOf_iff_prefix]
    exact fun hstarts => hne (eq_of_mark_front_append hstarts).symm
  rw [mark_eq h] at hself ⊢
  rw [startsIn, if_neg hself, mark_eq P, startsIn_of_not_mem (brace_not_mem_inner h)]

theorem startsIn_mark_self (rest : List Char) : startsIn (mark P) (mark P) rest = 1 := by
  rw [mark_eq]
  exact startsIn_self (brace_not_mem_inner P) rest

/-- Where the data is inert, a placeholder that is not yet replaced stands at its holes only. -/
theorem occurrences_spell (hps : Parsed ps)
    (hσ : ∀ h, .hole h ∈ ps → h ≠ P → σ h = mark h ∨ Inert P (σ h)) (hP : σ P = mark P) :
    occurrences (mark P) (spell σ ps) = ps.count (.hole P) := by
  induction hps with
  | nil => rfl
  | @char c ps no_mark _ ih =>
    have hrest := ih fun h hh => hσ h (List.mem_cons_of_mem _ hh)
    have hnone : ¬ (mark P).isPrefixOf ([c] ++ spell σ ps) = true := by
      rw [List.isPrefixOf_iff_prefix, List.singleton_append]
      intro hstarts
      refine no_mark P ?_
      rw [mark_eq, List.cons_prefix_cons] at hstarts ⊢
      exact ⟨hstarts.1, prefix_of_spell (List.suffix_refl _)
        (fun h hh => hσ h (List.mem_cons_of_mem _ hh)) hP hstarts.2⟩
    rw [spell_char, ← List.singleton_append, occurrences_append, hrest, startsIn, if_neg hnone,
      List.count_cons_of_ne (by simp)]
    simp [startsIn]
  | @hole p ps _ ih =>
    have hrest := ih fun h hh => hσ h (List.mem_cons_of_mem _ hh)
    rw [spell_hole, occurrences_append, hrest]
    by_cases hp : p = P
    · rw [hp, hP, startsIn_mark_self, List.count_cons_self, Nat.add_comm]
    · have hne : Piece.hole p ≠ .hole P := fun e => hp (Piece.hole.inj e)
      rw [List.count_cons_of_ne hne]
      rcases hσ p List.mem_cons_self hp with e | hinert
      · rw [e, startsIn_mark hp, Nat.zero_add]
      · rw [mark_eq, startsIn_of_not_mem hinert.no_open, Nat.zero_add]

theorem occurrences_template (template : String) (P : Placeholder) :
    occurrences (mark P) template.toList = (pieces template).count (.hole P) := by
  rw [← spell_mark_pieces template]
  exact occurrences_spell (parsed_pieces template) (fun _ _ _ => .inl rfl) rfl

/-! ## Replacing one placeholder -/

theorem count_le_occurrences (hP : σ P = mark P) (ps : List Piece) :
    ps.count (.hole P) ≤ occurrences (mark P) (spell σ ps) := by
  induction ps with
  | nil => exact Nat.le_refl 0
  | cons piece ps ih =>
    cases piece with
    | char c =>
      rw [List.count_cons_of_ne (by simp), spell_char, ← List.singleton_append, occurrences_append]
      omega
    | hole p =>
      rw [spell_hole, occurrences_append]
      by_cases hp : p = P
      · rw [hp, List.count_cons_self, hP, startsIn_mark_self]
        omega
      · rw [List.count_cons_of_ne fun e => hp (Piece.hole.inj e)]
        omega

/-- A placeholder that stands at its holes only is replaced there only. -/
theorem replaceFrom_spell (hP : σ P = mark P) (v : List Char)
    (h : occurrences (mark P) (spell σ ps) = ps.count (.hole P)) :
    replaceFrom (mark P) v 0 (spell σ ps) = spell (Function.update σ P v) ps := by
  induction ps with
  | nil => rfl
  | cons piece ps ih =>
    have hle := count_le_occurrences hP ps
    cases piece with
    | char c =>
      rw [List.count_cons_of_ne (by simp), spell_char, ← List.singleton_append,
        occurrences_append] at h
      have hpass : replaceFrom (mark P) v 0 ([c] ++ spell σ ps) =
          [c] ++ replaceFrom (mark P) v 0 (spell σ ps) := replaceFrom_pass (by omega)
      rw [spell_char, spell_char, ← List.singleton_append, hpass, ih (by omega),
        List.singleton_append]
    | hole p =>
      rw [spell_hole, occurrences_append] at h
      by_cases hp : p = P
      · rw [hp, List.count_cons_self, hP, startsIn_mark_self] at h
        rw [spell_hole, spell_hole, hp, hP, replaceFrom_hit (mark_ne_nil P), ih (by omega),
          Function.update_self]
      · rw [List.count_cons_of_ne fun e => hp (Piece.hole.inj e)] at h
        rw [spell_hole, spell_hole, replaceFrom_pass (by omega), ih (by omega),
          Function.update_of_ne hp]

theorem length_spell_update (hP : σ P = mark P) (v : List Char) (ps : List Piece) :
    (spell (Function.update σ P v) ps).length + ps.count (.hole P) * (mark P).length =
      (spell σ ps).length + ps.count (.hole P) * v.length := by
  induction ps with
  | nil => simp
  | cons piece ps ih =>
    cases piece with
    | char c =>
      rw [List.count_cons_of_ne (by simp), spell_char, spell_char, List.length_cons,
        List.length_cons]
      omega
    | hole p =>
      rw [spell_hole, spell_hole, List.length_append, List.length_append]
      by_cases hp : p = P
      · rw [hp, List.count_cons_self, Function.update_self, hP, Nat.add_mul, Nat.add_mul]
        omega
      · rw [List.count_cons_of_ne fun e => hp (Piece.hole.inj e), Function.update_of_ne hp]
        omega

/-- Data of another length than the placeholder shows whether anything else was replaced. -/
theorem replaceFrom_spell_iff (hP : σ P = mark P) {v : List Char}
    (hv : v.length ≠ (mark P).length) :
    replaceFrom (mark P) v 0 (spell σ ps) = spell (Function.update σ P v) ps ↔
      occurrences (mark P) (spell σ ps) = ps.count (.hole P) := by
  refine ⟨fun h => ?_, replaceFrom_spell hP v⟩
  have hreplaced : (replaceFrom (mark P) v 0 (spell σ ps)).length +
      occurrences (mark P) (spell σ ps) * (mark P).length =
        (spell σ ps).length + occurrences (mark P) (spell σ ps) * v.length := by
    rw [mark_eq]
    exact length_replaceFrom (brace_not_mem_inner P) _
  have hupdated := length_spell_update hP v ps
  have hle := count_le_occurrences hP ps
  obtain ⟨more, hmore⟩ := Nat.exists_eq_add_of_le hle
  rw [h, hmore, Nat.add_mul, Nat.add_mul] at hreplaced
  have hsame : more * (mark P).length = more * v.length := by omega
  rcases Nat.eq_zero_or_pos more with e | hpos
  · rw [hmore, e, Nat.add_zero]
  · exact absurd (Nat.eq_of_mul_eq_mul_left hpos hsame).symm hv

end

end Whittle.Template
