import Mathlib.Order.Hom.Basic
import Whittle.Proofs.Criterion.Spelling
import Whittle.Proofs.Insertion.Planting

/-!
# Shifting line numbers forth and back

Shifting forward by `s` from line `t` on opens a gap of `s` lines at `t`. As long as the sums are line
numbers, this is an isomorphism of orders from all lines to the lines beside the gap (`gap`), and
shifting back is its inverse, whether the threshold of the way back stands before the gap or behind
it (`shiftLines_gap`).

Sums are kept modulo `lineLimit`, and nothing looks at their upper end. So a shifted line is the sum
that it should be exactly if the sum is below the limit (`shift_exact`); the last two lines that a
criterion can name are moved to the lines 0 and 1 (`shift_wraps`).
-/

namespace Whittle.Slice

open Text Insertion

/-! ## The gap -/

/-- The lines beside a gap of `s` lines at `t`. -/
abbrev Beside (t s : Nat) : Type := {m : Nat // m < t ∨ t + s ≤ m}

/-- Where lines stand once there is a gap of `s` lines at `t`. -/
def gap (t s : Nat) : Nat ≃o Beside t s where
  toFun n := ⟨if n < t then n else n + s, by split <;> omega⟩
  invFun m := if m.val < t then m.val else m.val - s
  left_inv n := by
    by_cases h : n < t
    · simp [h]
    · have hmoved : ¬ n + s < t := by omega
      simp [h, hmoved]
  right_inv := by
    rintro ⟨m, hm⟩
    apply Subtype.ext
    by_cases h : m < t
    · simp [h]
    · have hback : ¬ m - s < t := by omega
      have hsum : m - s + s = m := by omega
      simp [h, hback, hsum]
  map_rel_iff' {m n} := by
    show (if m < t then m else m + s) ≤ (if n < t then n else n + s) ↔ m ≤ n
    split <;> split <;> omega

variable {t s n m : Nat}

theorem gap_val : (gap t s n).val = if n < t then n else n + s := rfl

theorem gap_symm (b : Beside t s) :
    (gap t s).symm b = if b.val < t then b.val else b.val - s := rfl

theorem shiftLine_gap (ht : 1 ≤ t) (hn : t ≤ n → n + s < lineLimit) :
    shiftLine n t s = some (gap t s n).val := by
  rw [gap_val]
  split
  · rename_i h
    exact shiftLine_of_lt _ h
  · rename_i h
    exact shiftLine_forward (by omega) (by omega) (hn (by omega))

/-- The gap is closed from any threshold in it or at one of its ends. -/
theorem shiftLine_gap_symm {t' : Nat} (ht : 1 ≤ t) (hlow : t ≤ t') (hhigh : t' ≤ t + s)
    (b : Beside t s) (hb : t ≤ b.val → b.val < lineLimit) :
    shiftLine b.val t' (-s) = some ((gap t s).symm b) := by
  have hbeside := b.property
  rw [gap_symm]
  split
  · rename_i h
    exact shiftLine_of_lt _ (by omega)
  · exact shiftLine_back (by omega) (by omega) (hb (by omega))

theorem shiftLines_open (ht : 1 ≤ t) {lines : List Nat}
    (h : ∀ n ∈ lines, t ≤ n → n + s < lineLimit) :
    shiftLines lines t s = lines.map fun n => (gap t s n).val :=
  shiftLines_eq_map fun n hn => shiftLine_gap ht (h n hn)

theorem shiftLines_close {t' : Nat} (ht : 1 ≤ t) (hlow : t ≤ t') (hhigh : t' ≤ t + s)
    {lines : List (Beside t s)} (h : ∀ b ∈ lines, t ≤ b.val → b.val < lineLimit) :
    shiftLines (lines.map Subtype.val) t' (-s) = lines.map (gap t s).symm := by
  rw [shiftLines, List.filterMap_map, ← List.filterMap_eq_map]
  exact List.filterMap_congr fun b hb => shiftLine_gap_symm ht hlow hhigh b (h b hb)

/-- Shifting forward opens a gap: the lines keep their number and their order, and none of them is in
the gap. Shifting back from behind the gap closes it again. Lines beside the gap that are shifted
back from its front are all kept, in order, and shifting forward takes them where they were. -/
theorem shiftLines_gap (ht : 1 ≤ t) :
    StrictMono (fun n => (gap t s n).val) ∧ StrictMono (gap t s).symm ∧
    (∀ lines : List Nat, (∀ n ∈ lines, t ≤ n → n + s < lineLimit) →
      shiftLines lines t s = lines.map (fun n => (gap t s n).val) ∧
      (∀ m ∈ shiftLines lines t s, ¬ (t ≤ m ∧ m < t + s)) ∧
      shiftLines (shiftLines lines t s) (t + s) (-s) = lines) ∧
    (∀ lines : List (Beside t s), (∀ b ∈ lines, b.val < lineLimit) →
      shiftLines (lines.map Subtype.val) t (-s) = lines.map (gap t s).symm ∧
      shiftLines (shiftLines (lines.map Subtype.val) t (-s)) t s = lines.map Subtype.val) := by
  refine ⟨fun m n h => (gap t s).strictMono h, (gap t s).symm.strictMono,
    fun lines h => ?_, fun lines h => ?_⟩
  · have hopen := shiftLines_open ht h
    refine ⟨hopen, fun m hm => ?_, ?_⟩
    · rw [hopen] at hm
      obtain ⟨n, -, rfl⟩ := List.mem_map.mp hm
      have := (gap t s n).property
      omega
    · have hbelow : ∀ b ∈ lines.map (gap t s), t ≤ b.val → b.val < lineLimit := by
        intro b hb hle
        obtain ⟨n, hn, rfl⟩ := List.mem_map.mp hb
        have hsum := h n hn
        rw [gap_val] at hle ⊢
        by_cases hlt : n < t
        · rw [if_pos hlt] at hle
          omega
        · rw [if_neg hlt]
          exact hsum (by omega)
      have hback := shiftLines_close ht (Nat.le_add_right t s) (Nat.le_refl _) hbelow
      rw [List.map_map, List.map_map] at hback
      rw [hopen]
      refine hback.trans ((List.map_congr_left fun n _ => ?_).trans (List.map_id lines))
      exact (gap t s).symm_apply_apply n
  · have hclose := shiftLines_close ht (Nat.le_refl t) (Nat.le_add_right t s) fun b hb _ => h b hb
    have hfit : ∀ n ∈ lines.map (gap t s).symm, t ≤ n → n + s < lineLimit := by
      intro n hn hle
      obtain ⟨b, hb, rfl⟩ := List.mem_map.mp hn
      have hbelow := h b hb
      rw [gap_symm] at hle ⊢
      by_cases hlt : b.val < t
      · rw [if_pos hlt] at hle
        omega
      · rw [if_neg hlt] at hle ⊢
        omega
    refine ⟨hclose, ?_⟩
    rw [hclose, shiftLines_open ht hfit, List.map_map]
    exact List.map_congr_left fun b _ => congrArg Subtype.val ((gap t s).apply_symm_apply b)

/-- Two lines put before line 5, and taken out again; the last line has the largest number. -/
theorem shiftLines_gap_of_five :
    shiftLines [4, 4294967293, 5, 0, 4] 5 2 = [4, 4294967295, 7, 0, 4] ∧
      shiftLines (shiftLines [4, 4294967293, 5, 0, 4] 5 2) 7 (-2) = [4, 4294967293, 5, 0, 4] ∧
      shiftLines (shiftLines [7, 4, 4294967295] 5 (-2)) 5 2 = [7, 4, 4294967295] := by
  have hgap := @shiftLines_gap 5 2 (by decide)
  have hforward := hgap.2.2.1 [4, 4294967293, 5, 0, 4] (by decide)
  have hback := hgap.2.2.2 [⟨7, by decide⟩, ⟨4, by decide⟩, ⟨4294967295, by decide⟩] (by decide)
  exact ⟨hforward.1, hforward.2.2, hback.2⟩

/-! ## Sums that are too large -/

/-- What the shift of line `n` should be: itself below the threshold, the sum from there on. -/
def Sums (t : Nat) (a : Int) (n m : Nat) : Prop := n < t ∧ m = n ∨ t ≤ n ∧ (m : Int) = n + a

variable {a : Int}

theorem shiftLine_eq_some_iff :
    shiftLine n t a = some m ↔
      n < t ∧ m = n ∨ t ≤ n ∧ 1 ≤ (n + a : Int) ∧ m = (n + a : Int).toNat % lineLimit := by
  unfold shiftLine
  split
  · rename_i h
    rw [Option.some.injEq]
    omega
  · rename_i h
    dsimp only
    split
    · rename_i hmoved
      rw [Option.some.injEq]
      omega
    · rename_i hmoved
      refine ⟨nofun, fun hm => ?_⟩
      omega

/-- Whatever is answered for a line is right exactly if the sum is below the limit. -/
theorem sums_iff (h : shiftLine n t a = some m) :
    Sums t a n m ↔ n < t ∨ (n + a : Int) < lineLimit := by
  have hlimit : 0 < lineLimit := by decide
  rcases shiftLine_eq_some_iff.mp h with ⟨hlt, rfl⟩ | ⟨hle, hpos, rfl⟩
  · exact ⟨fun _ => .inl hlt, fun _ => .inl ⟨hlt, rfl⟩⟩
  · have hmod := Nat.mod_lt (n + a : Int).toNat hlimit
    constructor
    · rintro (⟨hlt, -⟩ | ⟨-, hsum⟩)
      · exact .inl hlt
      · exact .inr (by omega)
    · rintro (hlt | hsum)
      · omega
      · rw [Nat.mod_eq_of_lt (by omega)]
        exact .inr ⟨hle, by omega⟩

theorem one_le_of_sums (hn : 1 ≤ n) (h : shiftLine n t a = some m) (hm : Sums t a n m) : 1 ≤ m := by
  rcases shiftLine_eq_some_iff.mp h with ⟨-, rfl⟩ | ⟨hle, hpos, -⟩
  · exact hn
  · rcases hm with ⟨hlt, -⟩ | ⟨-, hsum⟩ <;> omega

theorem mem_shiftLines {lines : List Nat} :
    m ∈ shiftLines lines t a ↔ ∃ n ∈ lines, shiftLine n t a = some m := List.mem_filterMap

/-- Where a criterion goes that stands behind the planted lines. -/
theorem shift_line {p : Planting} {c : Criterion} (hp : p.line ≤ c.line) (hc : IsLine c.line) :
    (p.shift c).line =
      if c.line + 2 < lineLimit then c.line + 2 else c.line + 2 - lineLimit := by
  have hpos := hc.1
  have hlimit := hc.2
  have hmod : (c.line + 2) % lineLimit =
      if c.line + 2 < lineLimit then c.line + 2 else c.line + 2 - lineLimit := by
    split
    · rename_i h
      exact Nat.mod_eq_of_lt h
    · rw [Nat.mod_eq_sub_mod (by omega), Nat.mod_eq_of_lt (by omega)]
  have hsome : shiftLine c.line p.line plantedCount = some ((c.line + 2) % lineLimit) := by
    rw [shiftLine_eq_some_iff]
    refine .inr ⟨hp, by omega, ?_⟩
    rw [show ((c.line : Int) + (plantedCount : Nat)).toNat = c.line + 2 by
      simp only [plantedCount]; omega]
  rw [Planting.shift, hsome, ← hmod]
  rfl

/-- A shifted line is right exactly if it was below the threshold or its sum is below the limit; if
this holds of all lines, none of them becomes 0 and each is a line as it was or an exact sum. So a
criterion is moved to its place in the longer text, and from the planted lines on to a greater line,
exactly if there are two lines behind its own; the last but one line of all becomes line 0. -/
theorem shift_exact {lines : List Nat} {text : String} {c : Criterion} (t : Nat) (a : Int)
    (p : Planting) (hlines : ∀ n ∈ lines, 1 ≤ n) (hread : Criterion.read text = .ok c) :
    ((∀ n ∈ lines, ∀ m, shiftLine n t a = some m →
        (Sums t a n m ↔ n < t ∨ (n + a : Int) < lineLimit)) ∧
      ((∀ n ∈ lines, n < t ∨ (n + a : Int) < lineLimit) →
        ∀ m ∈ shiftLines lines t a, 1 ≤ m ∧ ∃ n ∈ lines, Sums t a n m)) ∧
    (p.shift c).name = c.name ∧
    (c.line < p.line → (p.shift c).line = c.line) ∧
    (c.line + 2 < lineLimit → (p.shift c).line = p.place c.line) ∧
    (p.line ≤ c.line → (c.line < (p.shift c).line ↔ c.line + 2 < lineLimit)) ∧
    ((p.shift c).line = 0 ↔ p.line ≤ c.line ∧ c.line + 2 = lineLimit) := by
  refine ⟨⟨fun n _ m hm => sums_iff hm, fun hsums m hm => ?_⟩, ?_⟩
  · obtain ⟨n, hn, hm⟩ := mem_shiftLines.mp hm
    have hexact := (sums_iff hm).mpr (hsums n hn)
    exact ⟨one_le_of_sums (hlines n hn) hm hexact, n, hn, hexact⟩
  · have hline : IsLine c.line := (Criterion.read_eq_ok_iff.mp hread).isLine
    have hpos := hline.1
    have hlimit := hline.2
    have hkept (h : c.line < p.line) : (p.shift c).line = c.line := by
      rw [Planting.shift, shiftLine_of_lt _ h]
      rfl
    refine ⟨rfl, hkept, fun h => ?_, fun h => ?_, ?_⟩
    · rw [Planting.shift_eq hpos h]
      rfl
    · rw [shift_line h hline]
      split <;> omega
    · by_cases h : c.line < p.line
      · rw [hkept h]
        omega
      · rw [shift_line (by omega) hline]
        split <;> omega

/-- The last line that can be moved forward by two, and a line that leaves the text. -/
theorem shift_exact_at_limit :
    Criterion.read "4294967293:x" = .ok ⟨4294967293, "x"⟩ ∧
      ((⟨7⟩ : Planting).shift ⟨4294967293, "x"⟩).line = 4294967295 ∧
      shiftLines [3, 1, 4294967295] 2 (-3) = [1, 4294967292] ∧
      ∀ m ∈ shiftLines [3, 1, 4294967295] 2 (-3), 1 ≤ m := by
  have hread : Criterion.read "4294967293:x" = .ok ⟨4294967293, "x"⟩ := by decide
  have hlines : ∀ n ∈ [3, 1, 4294967295], 1 ≤ n := by decide
  obtain ⟨⟨-, hshifted⟩, -, -, hshift, -⟩ := shift_exact 2 (-3) ⟨7⟩ hlines hread
  exact ⟨hread, hshift (by decide), by decide, fun m hm => (hshifted (by decide) m hm).1⟩

/-- Sums at the limit and behind it are taken for the first lines. -/
theorem shift_wraps :
    shiftLines [4294967295] 1 1 = [0] ∧
      Criterion.read "4294967294:x" = .ok ⟨4294967294, "x"⟩ ∧
      ((⟨1⟩ : Planting).shift ⟨4294967294, "x"⟩).line = 0 ∧
      Criterion.read "4294967295:x" = .ok ⟨4294967295, "x"⟩ ∧
      ((⟨1⟩ : Planting).shift ⟨4294967295, "x"⟩).line = 1 := by
  decide

end Whittle.Slice
