import Whittle.Text.Numeral

/-!
# Line numbers after lines were added or removed

`shiftLines` adds a signed amount to every line from a threshold on and keeps the others, in order
and with repetitions. Sums below one are no lines and are dropped; the others are kept modulo
`lineLimit`. `shiftLine_forward` and `shiftLine_back` say where a line goes as long as the sums stay
below `lineLimit`.
-/

namespace Whittle

open Text

/-- The line moved by `amount` if it is at or behind `threshold`. -/
def shiftLine (line threshold : Nat) (amount : Int) : Option Nat :=
  if line < threshold then some line
  else
    let moved := (line : Int) + amount
    if moved ≥ 1 then some (moved.toNat % lineLimit) else none

def shiftLines (lines : List Nat) (threshold : Nat) (amount : Int) : List Nat :=
  lines.filterMap fun line => shiftLine line threshold amount

/-! ## Where lines go -/

theorem shiftLine_of_lt {line threshold : Nat} (amount : Int) (h : line < threshold) :
    shiftLine line threshold amount = some line := by
  simp [shiftLine, h]

theorem shiftLine_forward {line threshold k : Nat} (h : threshold ≤ line) (hl : 1 ≤ line)
    (hk : line + k < lineLimit) : shiftLine line threshold k = some (line + k) := by
  have hm : ((line : Int) + k).toNat = line + k := by omega
  unfold shiftLine
  rw [if_neg (by omega)]
  simp only [hm, Nat.mod_eq_of_lt hk]
  exact if_pos (by omega)

theorem shiftLine_back {line threshold k : Nat} (h : threshold ≤ line) (hk : k < line)
    (hl : line < lineLimit) : shiftLine line threshold (-k) = some (line - k) := by
  have hm : ((line : Int) + -k).toNat = line - k := by omega
  unfold shiftLine
  rw [if_neg (by omega)]
  simp only [hm, Nat.mod_eq_of_lt (show line - k < lineLimit by omega)]
  exact if_pos (by omega)

theorem shiftLines_eq_map {lines : List Nat} {threshold : Nat} {amount : Int} {f : Nat → Nat}
    (h : ∀ n ∈ lines, shiftLine n threshold amount = some (f n)) :
    shiftLines lines threshold amount = lines.map f := by
  induction lines with
  | nil => rfl
  | cons n ns ih =>
    have hn := h n List.mem_cons_self
    have hns := ih fun m hm => h m (List.mem_cons_of_mem _ hm)
    rw [shiftLines, List.filterMap_cons, hn, List.map_cons, ← hns]
    rfl

end Whittle
