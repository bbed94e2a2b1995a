import Whittle.Decimal.Binary64
import Whittle.Text.Numeral

/-!
# The shortest decimal that reads back

Among the decimals that lie in the interval of numbers rounding to a given value, `shortest` takes
one with the fewest digits, and of those the nearest. `numberText` writes it without an exponent
and without a fraction of zeros.
-/

namespace Whittle.Decimal

open Whittle.Text

/-- A positive value and the two ends of the interval that rounds to it, as multiples of
`2^e / den`; the ends belong to the interval if `closed`. -/
structure Interval where
  low : Nat
  value : Nat
  high : Nat
  den : Nat
  closed : Bool
  deriving Repr

/-- The interval of `m · 2^e`. Below a power of two the grid is twice as fine. -/
def intervalOf (m : Nat) (e : Int) : Interval :=
  let up := Nat.pow 2 (e - 2).toNat
  let low := if m = Nat.pow 2 52 ∧ e > -1074 then 4 * m - 1 else 4 * m - 2
  { low := low * up
    value := 4 * m * up
    high := (4 * m + 2) * up
    den := Nat.pow 2 (2 - e).toNat
    closed := m % 2 = 0 }

/-- `a < b`, or `a ≤ b` for a closed interval. -/
def Interval.below (i : Interval) (a b : Nat) : Bool := if i.closed then a ≤ b else a < b

/-- `num / den · 10^(-g)` as a quotient of natural numbers. -/
def onGrid (num den : Nat) (g : Int) : Nat × Nat :=
  if g < 0 then (num * Nat.pow 10 g.natAbs, den) else (num, den * Nat.pow 10 g.natAbs)

/-- Whether `c · 10^g` lies in the interval. -/
def Interval.holds (i : Interval) (c : Nat) (g : Int) : Bool :=
  let l := onGrid i.low i.den g
  let h := onGrid i.high i.den g
  i.below l.1 (c * l.2) && i.below (c * h.2) h.1

/-- The least `k` with `num / den < 10^k`, searched downwards from `0` for values below one. -/
def magnitudeBelow (num den : Nat) : Nat → Int
  | 0 => 0
  | fuel + 1 => if num * 10 < den then magnitudeBelow (num * 10) den fuel - 1 else 0

def magnitude (num den : Nat) : Int :=
  if num / den = 0 then magnitudeBelow num den 400 else (writeNat (num / den)).length

/-- The candidate on the grid of unit `10^g`: the neighbour of the value that lies in the interval,
the nearer of two, the upper one in a tie. -/
def Interval.candidate (i : Interval) (g : Int) : Option Nat :=
  let v := onGrid i.value i.den g
  let c := v.1 / v.2
  match i.holds c g, i.holds (c + 1) g with
  | true, true => some (if 2 * (v.1 % v.2) < v.2 then c else c + 1)
  | true, false => some c
  | false, true => some (c + 1)
  | false, false => none

/-- The first grid, from coarse to fine, with a candidate. -/
def Interval.search (i : Interval) (g : Int) : Nat → Nat × Int
  | 0 => (i.value / i.den, 0)
  | fuel + 1 =>
    match i.candidate g with
    | some c => (c, g)
    | none => i.search (g - 1) fuel

/-- Digits and exponent of the shortest decimal of `m · 2^e`, for `m > 0`. -/
def shortest (m : Nat) (e : Int) : Nat × Int :=
  let i := intervalOf m e
  i.search (magnitude i.value i.den - 1) 18

/-- Zeros off the back of the digits of `c · 10^g`, as long as they are fractional. -/
def stripZeros (c : Nat) (g : Int) : Nat → Nat × Int
  | 0 => (c, g)
  | fuel + 1 => if g < 0 ∧ c % 10 = 0 then stripZeros (c / 10) (g + 1) fuel else (c, g)

/-- `c · 10^g` in positional notation. -/
def positional (c : Nat) (g : Int) : List Char :=
  let digits := writeNat c
  if g ≥ 0 then digits ++ List.replicate g.toNat '0'
  else
    let places := g.natAbs
    let padded := List.replicate (places + 1 - digits.length) '0' ++ digits
    padded.take (padded.length - places) ++ '.' :: padded.drop (padded.length - places)

def numberText : Binary64 → String
  | .nan => "NaN"
  | .infinite negative => if negative then "-inf" else "inf"
  | .finite negative m e =>
    let magnitude := if m = 0 then ['0'] else
      let d := shortest m e
      let s := stripZeros d.1 d.2 20
      positional s.1 s.2
    String.ofList (if negative then '-' :: magnitude else magnitude)

end Whittle.Decimal
