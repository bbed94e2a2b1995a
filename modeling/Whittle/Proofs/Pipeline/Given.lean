import Whittle.Pipeline.Slicing
import Whittle.Proofs.Insertion.Guarding
import Whittle.Proofs.Slice.Numbers

/-!
# What a slicer is given

A slicer reads a copy of the program, with its arguments planted or with a guard before the failure
line. `Given` is such a text with the numbering that goes with it: a line of the program comes back
from a slice just if its place in the text is in the slice (`Given.Faithful`).
-/

namespace Whittle.Pipeline

open Text Insertion Slice

/-- A text that a slicer reads for a program. -/
structure Given where
  text : String
  /-- Where a line of the program stands in the text. -/
  place : Nat → Nat
  /-- The lines of the program among lines of the text. -/
  restore : List Nat → List Nat
  /-- A criterion of the program, as the slicer is asked. -/
  criterion : Criterion → Criterion

structure Given.Faithful (g : Given) : Prop where
  mem : ∀ ns, (∀ m ∈ ns, IsLine m) → ∀ n, n ∈ g.restore ns ↔ 1 ≤ n ∧ g.place n ∈ ns
  le : ∀ n, n ≤ g.place n

theorem Given.Faithful.isLine {g : Given} (h : g.Faithful) {ns : List Nat}
    (hns : ∀ m ∈ ns, IsLine m) : ∀ n ∈ g.restore ns, IsLine n := by
  intro n hn
  obtain ⟨hpos, hplace⟩ := (h.mem ns hns n).mp hn
  exact ⟨hpos, Nat.lt_of_le_of_lt (h.le n) (hns _ hplace).2⟩

/-- The program itself. -/
def Given.plain (source : String) : Given := ⟨source, id, id, id⟩

def Given.planted (r : String × Planting) : Given := ⟨r.1, r.2.place, r.2.restore, r.2.shift⟩

def Given.guarded (r : String × Guard) : Given :=
  ⟨r.1, r.2.place, r.2.restore, fun c => c.atLine r.2.line⟩

theorem Given.faithful_plain (source : String) : (plain source).Faithful where
  mem _ hns _ := ⟨fun hn => ⟨(hns _ hn).1, hn⟩, fun h => h.2⟩
  le n := Nat.le_refl n

theorem Given.faithful_planted {r : String × Planting} (h : 1 ≤ r.2.line) :
    (planted r).Faithful where
  mem ns hns n := by
    show n ∈ r.2.restore ns ↔ 1 ≤ n ∧ r.2.place n ∈ ns
    rw [Planting.restore_eq h fun m hm => (hns m hm).2]
    constructor
    · intro hn
      obtain ⟨m, hm, rfl⟩ := List.mem_map.mp hn
      obtain ⟨hm, hadded⟩ := List.mem_filter.mp hm
      have hadded : ¬ r.2.Added m := by simpa using hadded
      have hpos := (hns m hm).1
      refine ⟨?_, by rwa [Planting.place_origin hadded]⟩
      unfold Planting.Added at hadded
      unfold Planting.origin
      split <;> omega
    · rintro ⟨-, hn⟩
      refine List.mem_map.mpr ⟨r.2.place n, ?_, Planting.origin_place n⟩
      exact List.mem_filter.mpr ⟨hn, by simpa using Planting.not_added_place n⟩
  le n := by
    show n ≤ r.2.place n
    unfold Planting.place
    split <;> omega

theorem Given.faithful_guarded {r : String × Guard} (h : 1 ≤ r.2.failureLine) :
    (guarded r).Faithful where
  mem ns hns n := by
    show n ∈ r.2.restore ns ↔ 1 ≤ n ∧ r.2.place n ∈ ns
    have hline : r.2.line = r.2.failureLine + 1 := rfl
    rw [Guard.restore_eq h fun m hm => (hns m hm).2]
    constructor
    · intro hn
      obtain ⟨m, hm, rfl⟩ := List.mem_map.mp hn
      obtain ⟨hm, hother⟩ := List.mem_filter.mp hm
      obtain ⟨hheader, hguard⟩ : m ≠ 1 ∧ m ≠ r.2.line := by simpa using hother
      have hpos := (hns m hm).1
      refine ⟨?_, by rwa [Guard.place_origin hpos hguard]⟩
      unfold Guard.origin
      split <;> omega
    · rintro ⟨hpos, hn⟩
      refine List.mem_map.mpr ⟨r.2.place n, List.mem_filter.mpr ⟨hn, ?_⟩, ?_⟩
      · simp only [decide_eq_true_eq]
        unfold Guard.place
        split <;> omega
      · unfold Guard.place Guard.origin
        split
        · rw [if_pos (by omega)]
          omega
        · rw [if_neg (by omega)]
          omega
  le n := by
    show n ≤ r.2.place n
    unfold Guard.place
    split <;> omega

/-! ## The text of a pass -/

/-- What the slicer of a pass is given for a program with a text. -/
def Pass.given (s : Settings) (p : Pass) (subject : Subject) (source : String)
    (cs : List Criterion) : Given :=
  match p with
  | .static =>
    if s.inject ∧ words subject.arguments ≠ [] then
      match plant subject.language source subject.arguments with
      | .ok r => .planted r
      | .error _ => .plain source
    else .plain source
  | .dynamic =>
    match guardSource subject.language source subject.failureLine cs with
    | .ok r => .guarded r
    | .error _ => .plain source

theorem Pass.given_faithful (s : Settings) (p : Pass) (subject : Subject) (source : String)
    (cs : List Criterion) (hline : 1 ≤ subject.failureLine) :
    (p.given s subject source cs).Faithful := by
  cases p with
  | static =>
    simp only [given]
    split
    · split
      · rename_i r hr
        obtain ⟨e, -, -, -, -, -, he, -⟩ := plantWith_ok hr
        exact Given.faithful_planted (by omega)
      · exact Given.faithful_plain source
    · exact Given.faithful_plain source
  | dynamic =>
    simp only [given]
    split
    · rename_i r hr
      have hline' : r.2.failureLine = subject.failureLine := by
        unfold guardSource at hr
        simp only at hr
        split at hr
        · cases hr
        · cases hr
          rfl
      exact Given.faithful_guarded (hline' ▸ hline)
    · exact Given.faithful_plain source

end Whittle.Pipeline
