import Whittle.Decimal.Binary64
import Whittle.Text.Numeral

/-!
# Decimals with a given number of places

A value is written with so many digits behind the point, with so many behind the first digit and an
exponent, or with so many significant digits in the shorter of the two ways. Rounding is exact, ties
to the even digit.
-/

namespace Whittle.Decimal

open Whittle.Text

/-- `m · 2^e` as a quotient. -/
def quotientOf (m : Nat) (e : Int) : Nat × Nat :=
  if e < 0 then (m, Nat.pow 2 e.natAbs) else (m * Nat.pow 2 e.natAbs, 1)

/-- The multiple of `10^g` nearest to `m · 2^e`. -/
def onDecimalGrid (m : Nat) (e g : Int) : Nat :=
  let q := quotientOf m e
  if g < 0 then Binary64.nearestEven (q.1 * Nat.pow 10 g.natAbs) q.2
  else Binary64.nearestEven q.1 (q.2 * Nat.pow 10 g.natAbs)

/-- The digits of `n / 10^places`. -/
def pointed (n places : Nat) : List Char :=
  let digits := writeNat n
  let digits := List.replicate (places + 1 - digits.length) '0' ++ digits
  let whole := digits.take (digits.length - places)
  if places = 0 then whole else whole ++ '.' :: digits.drop (digits.length - places)

/-- `m · 2^e` with so many places. -/
def fixedText (m : Nat) (e : Int) (places : Nat) : List Char :=
  pointed (onDecimalGrid m e (-places)) places

/-- The decimal exponent of the first digit of a positive `m · 2^e`, searched from a guess that is at
most so far below it. -/
def exponentFrom (m : Nat) (e : Int) : Nat → Int → Int
  | 0, guess => guess
  | fuel + 1, guess =>
    let q := quotientOf m e
    let reaches := if guess + 1 ≥ 0 then q.1 ≥ q.2 * Nat.pow 10 (guess + 1).natAbs
      else q.1 * Nat.pow 10 (guess + 1).natAbs ≥ q.2
    if reaches then exponentFrom m e fuel (guess + 1) else guess

/-- The decimal exponent of the first digit of a positive `m · 2^e`. -/
def decimalExponent (m : Nat) (e : Int) : Int :=
  let bits : Int := Nat.log2 m + e
  exponentFrom m e 4 (bits * 30103 / 100000 - 1)

/-- The digits of `m · 2^e` with so many behind the first, and the exponent of the first. -/
def scientific (m : Nat) (e : Int) (places : Nat) : Nat × Int :=
  if m = 0 then (0, 0)
  else
    let x := decimalExponent m e
    let n := onDecimalGrid m e (x - places)
    if n ≥ Nat.pow 10 (places + 1) then (n / 10, x + 1) else (n, x)

/-- An exponent with its mark, its sign and at least two digits. -/
def exponentText (mark : Char) (x : Int) : List Char :=
  let digits := writeNat x.natAbs
  mark :: (if x < 0 then '-' else '+') :: (if digits.length < 2 then '0' :: digits else digits)

def scientificText (mark : Char) (m : Nat) (e : Int) (places : Nat) : List Char :=
  let s := scientific m e places
  pointed s.1 places ++ exponentText mark s.2

/-- Zeros off the back of a fraction, and the point if nothing is behind it. -/
def trimFraction (cs : List Char) : List Char :=
  if !cs.contains '.' then cs
  else
    let r := cs.reverse.dropWhile (· = '0')
    (if r.head? = some '.' then r.drop 1 else r).reverse

/-- `m · 2^e` with so many significant digits. -/
def generalText (mark : Char) (keepZeros : Bool) (m : Nat) (e : Int) (digits : Nat) : List Char :=
  let digits := max 1 digits
  let s := scientific m e (digits - 1)
  let trim (cs : List Char) := if keepZeros then cs else trimFraction cs
  if -4 ≤ s.2 ∧ s.2 < digits then trim (fixedText m e ((digits : Int) - 1 - s.2).toNat)
  else trim (pointed s.1 (digits - 1)) ++ exponentText mark s.2

end Whittle.Decimal
