import Whittle.Text.Blank
import Whittle.Text.Numeral
import Whittle.Text.Replace

/-!
# Texts without a given character

`Lacks c s`: the character `c` does not occur in `s`. A text lacks what all its parts lack; the
lemmas here say so for the ways in which texts are put together.
-/

namespace Whittle.Text

def Lacks (c : Char) (s : String) : Prop := c ∉ s.toList

instance (c : Char) (s : String) : Decidable (Lacks c s) :=
  inferInstanceAs (Decidable (c ∉ s.toList))

variable {c : Char}

theorem lacks_append {s t : String} : Lacks c (s ++ t) ↔ Lacks c s ∧ Lacks c t := by
  simp [Lacks, String.toList_append]

theorem Lacks.append {s t : String} (hs : Lacks c s) (ht : Lacks c t) : Lacks c (s ++ t) :=
  lacks_append.mpr ⟨hs, ht⟩

theorem not_mem_intercalate {sep : List Char} {ls : List (List Char)} (hsep : c ∉ sep)
    (hls : ∀ l ∈ ls, c ∉ l) : c ∉ sep.intercalate ls := by
  induction ls with
  | nil => exact List.not_mem_nil
  | cons l ls ih =>
    have hl : c ∉ l := hls l List.mem_cons_self
    have hrest : ∀ k ∈ ls, c ∉ k := fun k m => hls k (List.mem_cons_of_mem _ m)
    cases ls with
    | nil => simpa using hl
    | cons k ks => simp [List.intercalate_cons_cons, hl, hsep, ih hrest]

theorem Lacks.intercalate {sep : String} {ls : List String} (hsep : Lacks c sep)
    (hls : ∀ l ∈ ls, Lacks c l) : Lacks c (String.intercalate sep ls) := by
  unfold Lacks
  rw [String.toList_intercalate]
  refine not_mem_intercalate hsep fun l hl => ?_
  obtain ⟨s, hs, rfl⟩ := List.mem_map.mp hl
  exact hls s hs

theorem not_mem_writeNat (h : isDigit c = false) (n : Nat) : c ∉ writeNat n := by
  intro hc
  have := List.all_eq_true.mp (all_isDigit_writeNat n) c hc
  rw [h] at this
  cases this

theorem lacks_natText (h : isDigit c = false) (n : Nat) : Lacks c (natText n) := by
  rw [Lacks, natText, String.toList_ofList]
  exact not_mem_writeNat h n

theorem natText_injective {i j : Nat} (h : natText i = natText j) : i = j := by
  have h := String.ofList_inj.mp h
  rw [← digitsValue_writeNat i, h, digitsValue_writeNat]

theorem not_mem_replaceFrom {pattern replacement : List Char} (hr : c ∉ replacement) :
    ∀ {cs : List Char} {skip : Nat}, c ∉ cs → c ∉ replaceFrom pattern replacement skip cs
  | [], skip, _ => by cases skip <;> exact List.not_mem_nil
  | _ :: ds, skip + 1, h => by
    have hds : c ∉ ds := fun m => h (List.mem_cons_of_mem _ m)
    rw [replaceFrom]
    exact not_mem_replaceFrom hr hds
  | d :: ds, 0, h => by
    have hds : c ∉ ds := fun m => h (List.mem_cons_of_mem _ m)
    have hd : c ≠ d := fun e => h (e ▸ List.mem_cons_self)
    unfold replaceFrom
    split
    · simp [hr, not_mem_replaceFrom hr hds]
    · simp [hd, not_mem_replaceFrom hr hds]

theorem Lacks.replaceAll {pattern replacement s : String} (hs : Lacks c s)
    (hr : Lacks c replacement) : Lacks c (replaceAll pattern replacement s) := by
  unfold Lacks
  rw [Text.replaceAll, String.toList_ofList]
  exact not_mem_replaceFrom hr hs

theorem not_mem_wordsFrom (h : isBlank c = true) : ∀ {cs word : List Char}, c ∉ word →
    ∀ w ∈ wordsFrom word cs, c ∉ w
  | [], word, hw, w, hm => by
    unfold wordsFrom at hm
    split at hm
    · cases hm
    · rw [List.mem_singleton.mp hm]
      simpa using hw
  | d :: ds, word, hw, w, hm => by
    unfold wordsFrom at hm
    split at hm
    · split at hm
      · exact not_mem_wordsFrom h List.not_mem_nil w hm
      · rcases List.mem_cons.mp hm with rfl | hm
        · simpa using hw
        · exact not_mem_wordsFrom h List.not_mem_nil w hm
    · rename_i hd
      have hne : c ≠ d := fun e => hd (e ▸ h)
      exact not_mem_wordsFrom h (by simp [hne, hw]) w hm

/-- No word has a blank in it. -/
theorem lacks_of_mem_words (h : isBlank c = true) {s w : String} (hw : w ∈ words s) :
    Lacks c w := by
  obtain ⟨cs, hcs, rfl⟩ := List.mem_map.mp hw
  unfold Lacks
  rw [String.toList_ofList]
  exact not_mem_wordsFrom h List.not_mem_nil cs hcs

end Whittle.Text
