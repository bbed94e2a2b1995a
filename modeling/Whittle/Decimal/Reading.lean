import Whittle.Decimal.Binary64
import Whittle.Text.Numeral

/-!
# Reading a decimal number

A number is a sign, digits with at most one point among or beside them, and an exponent, the sign
and the exponent being optional; or the name of an infinity or of a value that is not a number, in
any case. It is read as the nearest `Binary64`.

`Binary64.ofBits` takes the 64 bits of a number apart and `Binary64.toBits` puts them together, so
that a `Float` can be read and written exactly.
-/

namespace Whittle.Decimal

open Whittle.Text

/-- The digits at the front and what follows them. -/
def spanDigits (cs : List Char) : List Char × List Char :=
  (cs.takeWhile isDigit, cs.dropWhile isDigit)

def lowerAscii (c : Char) : Char :=
  if 'A'.toNat ≤ c.toNat ∧ c.toNat ≤ 'Z'.toNat then Char.ofNat (c.toNat + 32) else c

/-- A sign at the front: whether it is a minus, and what follows it. -/
def splitSign : List Char → Bool × List Char
  | '-' :: cs => (true, cs)
  | '+' :: cs => (false, cs)
  | cs => (false, cs)

/-- The exponent part, empty or a mark, an optional sign and at least one digit. -/
def readExponent : List Char → Option Int
  | [] => some 0
  | c :: cs =>
    if lowerAscii c = 'e' then
      let s := splitSign cs
      (readNat s.2).map fun n => if s.1 then -(n : Int) else n
    else none

/-- `± digits · 10^exponent`. Digits and exponents far outside the range of a `Binary64` are
decided without computing the power. -/
def ofDecimal (negative : Bool) (digits : Nat) (exponent : Int) : Binary64 :=
  let size : Int := (writeNat digits).length + exponent
  if digits = 0 then .finite negative 0 (-1074)
  else if size > 310 then .infinite negative
  else if size < -330 then .finite negative 0 (-1074)
  else if exponent < 0 then Binary64.ofQuotient negative digits (Nat.pow 10 exponent.natAbs)
  else Binary64.ofQuotient negative (digits * Nat.pow 10 exponent.natAbs) 1

def readMagnitude (negative : Bool) (cs : List Char) : Option Binary64 :=
  let whole := spanDigits cs
  let fraction := match whole.2 with
    | '.' :: rest => spanDigits rest
    | rest => ([], rest)
  let digits := whole.1 ++ fraction.1
  if digits.isEmpty then none
  else (readExponent fraction.2).map fun e =>
    ofDecimal negative (digitsValue 0 digits) (e - fraction.1.length)

def readNumber (s : String) : Option Binary64 :=
  let signed := splitSign s.toList
  let name := String.ofList (signed.2.map lowerAscii)
  if name = "nan" then some .nan
  else if name = "inf" ∨ name = "infinity" then some (.infinite signed.1)
  else readMagnitude signed.1 signed.2

end Whittle.Decimal

/-! ## Numbers of the machine -/

namespace Whittle.Decimal.Binary64

/-- The value of a word: a sign, eleven bits of exponent, 52 bits of fraction. -/
def ofBits (w : UInt64) : Binary64 :=
  let n : Nat := w.toNat
  let negative := n / Nat.pow 2 63 = 1
  let exponent : Nat := n / Nat.pow 2 52 % Nat.pow 2 11
  let fraction : Nat := n % Nat.pow 2 52
  if exponent = 2047 then (if fraction = 0 then .infinite negative else .nan)
  else if exponent = 0 then .finite negative fraction (-1074)
  else .finite negative (fraction + Nat.pow 2 52) ((exponent : Int) - 1075)

def toBits : Binary64 → UInt64
  | .nan => (2047 * Nat.pow 2 52 + Nat.pow 2 51).toUInt64
  | .infinite negative => ((if negative then Nat.pow 2 63 else 0) + 2047 * Nat.pow 2 52).toUInt64
  | .finite negative m e =>
    let sign : Nat := if negative then Nat.pow 2 63 else 0
    if m < Nat.pow 2 52 then (sign + m).toUInt64
    else (sign + (e + 1075).toNat * Nat.pow 2 52 + (m - Nat.pow 2 52)).toUInt64

def ofFloat (x : Float) : Binary64 := ofBits x.toBits

def toFloat (b : Binary64) : Float := .ofBits b.toBits

/-- A whole number, if the value is one. -/
def toInt? : Binary64 → Option Int
  | .finite negative m e =>
    let p := Nat.pow 2 e.natAbs
    let q := if e < 0 then (if m % p = 0 then some (m / p) else none) else some (m * p)
    q.map fun n => if negative then -(n : Int) else n
  | _ => none

/-- The value without its fraction; there is none for what is not finite. -/
def truncated : Binary64 → Int
  | .finite negative m e =>
    let n := if e < 0 then m / Nat.pow 2 e.natAbs else m * Nat.pow 2 e.natAbs
    if negative then -(n : Int) else n
  | _ => 0

end Whittle.Decimal.Binary64
