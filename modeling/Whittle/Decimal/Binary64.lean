/-!
# Binary floating point numbers of 64 bits

A finite value is `± m · 2^e` with `m < 2^53` and `-1074 ≤ e`; it is kept with `2^52 ≤ m` unless
`e = -1074`. `ofQuotient` rounds a quotient of natural numbers to the nearest value, ties to even
`m`, so nothing is lost before the one rounding.
-/

namespace Whittle.Decimal

inductive Binary64 where
  | finite (negative : Bool) (m : Nat) (e : Int)
  | infinite (negative : Bool)
  | nan
  deriving DecidableEq, Repr

namespace Binary64

def zero : Binary64 := .finite false 0 (-1074)

def one : Binary64 := .finite false (Nat.pow 2 52) (-52)

/-- `num / (den · 2^e)` as a quotient of natural numbers. -/
def scaled (num den : Nat) (e : Int) : Nat × Nat :=
  if e < 0 then (num * Nat.pow 2 e.natAbs, den) else (num, den * Nat.pow 2 e.natAbs)

/-- The natural number nearest to `num / den`, ties to the even one. -/
def nearestEven (num den : Nat) : Nat :=
  let q := num / den
  let r := num % den
  if 2 * r < den then q
  else if 2 * r > den then q + 1
  else if q % 2 = 0 then q else q + 1

/-- The exponent with which `num / den` has 53 bits, or the smallest exponent. -/
def exponentFor (num den : Nat) : Int :=
  let e : Int := max ((Nat.log2 num : Int) - Nat.log2 den - 53) (-1074)
  let s := scaled num den e
  if s.1 / s.2 < Nat.pow 2 53 then e else e + 1

/-- The value nearest to `± num / den`, for `den > 0`. -/
def ofQuotient (negative : Bool) (num den : Nat) : Binary64 :=
  if num = 0 then .finite negative 0 (-1074)
  else
    let e := exponentFor num den
    let s := scaled num den e
    let m := nearestEven s.1 s.2
    let r : Nat × Int := if m = Nat.pow 2 53 then (Nat.pow 2 52, e + 1) else (m, e)
    if r.2 > 971 then .infinite negative else .finite negative r.1 r.2

/-- `0 ≤ x ≤ 1`; minus zero counts, and what is not a number does not. -/
def inUnitInterval : Binary64 → Bool
  | .finite negative m e => m = 0 || (!negative && m * Nat.pow 2 (e + 1074).toNat ≤ Nat.pow 2 1074)
  | .infinite _ => false
  | .nan => false

end Binary64

end Whittle.Decimal
