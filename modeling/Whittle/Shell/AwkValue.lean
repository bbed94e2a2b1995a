import Whittle.Shell.AwkProgram
import Whittle.Shell.Variables

/-!
# Values of awk

A value from outside, that is from a record or the command line, counts as a number if it looks like
one. Whole numbers are written as such, others by a format.
-/

namespace Whittle.Shell.Awk

open Decimal

inductive Value where
  | unset
  | number (x : Float)
  | string (o : Octets)
  /-- A text from outside. -/
  | given (o : Octets)
  deriving Inhabited

/-- The format that numbers have if no other is asked for. -/
def usualFormat : Octets := "%.6g".toList

/-- The hexadecimal number a text starts with behind its `0x`, perhaps with a fraction and a power of
two, and what follows it. -/
def splitHexadecimal (o : Octets) : Option (Float × Octets) :=
  let isHex (c : Char) : Bool := (hexDigit c).isSome
  let whole := o.takeWhile isHex
  let rest := o.drop whole.length
  let fraction := match rest with
    | '.' :: rest => rest.takeWhile isHex
    | _ => []
  if whole.isEmpty && fraction.isEmpty then none
  else
    let rest := if rest.head? = some '.' then rest.drop (fraction.length + 1) else rest
    let power : Int × Octets := match rest with
      | p :: more =>
        let sign := (more.takeWhile fun c => c = '+' || c = '-').take 1
        let digits := (more.drop sign.length).takeWhile Text.isDigit
        if (p = 'p' || p = 'P') && !digits.isEmpty then
          (if sign = ['-'] then -(numberOf digits : Int) else numberOf digits,
            more.drop (sign.length + digits.length))
        else (0, rest)
      | [] => (0, [])
    some (Float.scaleB (hexValue (whole ++ fraction)).toFloat (power.1 - 4 * fraction.length),
      power.2)

/-- The number a text starts with, and what follows it. -/
def splitNumber (o : Octets) : Float × Octets :=
  let t := o.dropWhile isSpaceOctet
  let s := splitSign t
  let name := String.ofList ((s.2.takeWhile Char.isAlpha).map Char.toLower)
  let decimal : Float × Octets := match splitDecimal t with
    | some (b, rest) => (b.toFloat, rest)
    | none => (0, o)
  match s.2 with
  | '0' :: x :: rest =>
    if x = 'x' || x = 'X' then
      match splitHexadecimal rest with
      | some (v, rest) => (if s.1 then -v else v, rest)
      | none => decimal
    else decimal
  | c :: _ =>
    if Text.isDigit c || c = '.' || ["inf", "infinity", "nan"].contains name then decimal
    else (0, o)
  | [] => (0, o)

/-- Whether all of a text is a number, written with digits. -/
def looksNumeric (o : Octets) : Bool :=
  let r := splitNumber o
  let t := o.dropWhile isSpaceOctet
  r.2.length < o.length && r.2.all isSpaceOctet &&
    (splitSign t).2.head?.any (fun c => Text.isDigit c || c = '.') &&
    !(["0x", "0X"].contains (String.ofList (t.take 2)))

/-- A number without its fraction. -/
def truncated (x : Float) : Int := (Binary64.ofFloat x).truncated

/-- The items of a format. -/
def formatItems (o : Octets) : List FormatItem :=
  readFormat { wide := true } 0 (o.flatMap fun c => if c = '\\' then ['\\', '\\'] else [c])

/-- A number without its fraction, as near to it as words can hold: those of the conversion `i` have a
sign, the others have one if they are below zero. What is no number is the least one. -/
def wordOf (conversion : Char) (x : Float) : Int :=
  let n := truncated x
  let greatest : Int := if conversion = 'i' then Nat.pow 2 63 - 1 else Nat.pow 2 64 - 1
  let least : Int := if conversion = 'i' || conversion = 'd' then -((Nat.pow 2 63 : Int) - 1)
    else if n ≤ -(Nat.pow 2 64 : Int) || x.isInf then 1 else -(Nat.pow 2 63 : Int)
  if x.isNaN then -(Nat.pow 2 63 : Int)
  else if x.isInf then (if x < 0 then least else greatest)
  else if n < -(Nat.pow 2 63 : Int) then least
  else min n greatest

/-- A number by a directive. What is no number has a sign. -/
def writeNumber (d : Directive) (x : Float) : Octets :=
  if !(['e', 'f', 'g'].contains d.conversion.toLower) then d.writeInteger (wordOf d.conversion x)
  else if x.isNaN then
    d.writeSigned false ['-'] (if d.conversion.isUpper then "NAN".toList else "nan".toList)
  else d.writeDecimal (Binary64.ofFloat x)

/-- A directive with the amounts written in it. -/
def settledDirective (d : Directive) (width precision : Option Amount) : Directive :=
  let amount : Option Amount → Option Nat
    | some (.fixed n) => some n
    | _ => none
  { d with width := (amount width).getD 0, precision := amount precision }

/-- A number in a format. -/
def formattedNumber (format : Octets) (x : Float) : Octets :=
  (formatItems format).flatMap fun i => match i with
    | .text o => o
    | .stop | .unfinished => []
    | .directive d width precision => writeNumber (settledDirective d width precision) x

/-- A number as text: whole ones as such, others in a format. -/
def numberText (format : Octets) (x : Float) : Octets :=
  match (Binary64.ofFloat x).toInt? with
  | some n => if n.natAbs ≤ Nat.pow 2 63 then integerText n else formattedNumber format x
  | none => formattedNumber format x

namespace Value

def text (format : Octets) : Value → Octets
  | unset => []
  | number x => numberText format x
  | string o => o
  | given o => o

def float : Value → Float
  | unset => 0
  | number x => x
  | string o => (splitNumber o).1
  | given o => (splitNumber o).1

def ofBool (b : Bool) : Value := .number (if b then 1 else 0)

def ofNat (n : Nat) : Value := .number n.toFloat

def isTrue : Value → Bool
  | unset => false
  | number x => x != 0
  | string o => !o.isEmpty
  | given o => if looksNumeric o then (splitNumber o).1 != 0 else !o.isEmpty

def isNumber : Value → Bool
  | unset => true
  | number _ => true
  | string _ => false
  | given o => looksNumeric o

/-- Numbers are compared as such, everything else as text. -/
def holds (format : Octets) (operator : Comparison) (a b : Value) : Bool :=
  if a.isNumber && b.isNumber then
    let x := a.float
    let y := b.float
    match operator with
    | .less => x < y
    | .lessEqual => !(x > y : Bool)
    | .equal => !(x < y : Bool) && !(x > y : Bool)
    | .different => (x < y : Bool) || (x > y : Bool)
    | .greater => x > y
    | .greaterEqual => !(x < y : Bool)
  else
    let x := a.text format
    let y := b.text format
    match operator with
    | .less => x < y
    | .lessEqual => !(y < x : Bool)
    | .equal => x == y
    | .different => x != y
    | .greater => y < x
    | .greaterEqual => !(x < y : Bool)

end Value

/-- The remainder of a division, with the sign of the first number. -/
def remainderOf (x y : Float) : Float :=
  match (Binary64.ofFloat x).toInt?, (Binary64.ofFloat y).toInt? with
  | some m, some n => if n = 0 then (0.0 / 0.0) else Float.ofInt (m.tmod n)
  | _, _ =>
    let q := x / y
    x - (if q < 0 then q.ceil else q.floor) * y

def combine (operator : Arithmetic) (x y : Float) : Float :=
  match operator with
  | .add => x + y
  | .subtract => x - y
  | .multiply => x * y
  | .divide => x / y
  | .remainder => remainderOf x y
  | .power => x ^ y

/-- Writing by a format takes values one after the other; it fails where there are too few. -/
abbrev Printing := OptionT (StateM (List Value))

def nextValue : Printing Value := do
  match ← get with
  | [] => failure
  | v :: vs =>
    set vs
    return v

def readWritten : Option Amount → Printing (Option Int)
  | none => return none
  | some (.fixed n) => return some n
  | some .argument => do return some (truncated (← nextValue).float)

def printItem (format : Octets) : FormatItem → Printing Octets
  | .text o => return o
  | .stop => return []
  | .unfinished => failure
  | .directive d width precision => do
    let wide ← readWritten width
    let places ← readWritten precision
    let d := { d with
      left := d.left || wide.any (· < 0)
      width := (wide.getD 0).natAbs
      precision := places.bind fun p => if p < 0 then none else some p.toNat }
    let v ← nextValue
    match d.conversion with
    | 's' => return d.writeText (v.text format)
    | 'c' =>
      let o : Octets := match v with
        | .number x => octet ((truncated x) % 256).toNat
        | v => (v.text format).take 1
      return padded d.left ' ' d.width o
    | _ => return writeNumber d v.float

/-- Values written by the items of a format: up to where they do not suffice, and whether they did. -/
def writeItems (format : Octets) : List FormatItem → List Value → Octets × Bool
  | [], _ => ([], true)
  | i :: items, vs =>
    match (printItem format i).run.run vs with
    | (none, _) => ([], false)
    | (some o, vs) =>
      let r := writeItems format items vs
      (o ++ r.1, r.2)

/-- Values written by a format: up to where they do not suffice, and whether they did. -/
def printed (format spec : Octets) (vs : List Value) : Octets × Bool :=
  writeItems format (formatItems spec) vs

/-! ### Arrays -/

/-- The place of a key among the parts of an array. -/
def partOf (key : Octets) : Nat :=
  key.foldl (fun h c => ((h ^^^ c.toNat) * 16777619) % Nat.pow 2 32) 2166136261

/-- How many parts an array has for so many keys. The number bounds the steps. -/
def partsFor (size : Nat) : Nat → Nat → Nat
  | 0, parts => parts
  | n + 1, parts => if size > 12 * parts then partsFor size n (2 * parts) else parts

/-- Keys, the newest first, in the order in which they are gone through: by parts. -/
def keyOrder (keys : List Octets) : List Octets :=
  let parts := partsFor keys.length 30 64
  let placed := keys.map fun k => (partOf k % parts, k)
  (placed.mergeSort fun a b => decide (a.1 ≤ b.1)).map Prod.snd

/-! ### Records and fields -/

/-- A text cut at every match of an expression that holds something. -/
def cutAt (r : Regex) (o : Octets) : List Octets :=
  let t := o.toArray
  let found := (r.occurrences t (t.size + 1)).filter fun m => m.start < m.stop
  let starts := 0 :: found.map Found.stop
  let stops := found.map Found.start ++ [t.size]
  (starts.zip stops).map fun p => (t.extract p.1 p.2).toList

/-- The words between blanks. -/
def blankWords (o : Octets) : List Octets :=
  let isBlank (c : Char) : Bool := c = ' ' || c = '\t' || c = '\n'
  (o.splitBy fun a b => isBlank a == isBlank b).filter fun w => !(w.head?.any isBlank)

/-- The fields of a text. -/
def fieldsOf (separator : Octets) (text : Octets) : List Octets :=
  if text.isEmpty then []
  else
    match separator with
    | [' '] => blankWords text
    | [] => text.map fun c => [c]
    | [c] => text.splitOn c
    | _ =>
      match Regex.read regexForm separator with
      | some r => cutAt r text
      | none => [text]

/-- The first record of a text, and what follows it. -/
def cutRecord (separator : Octets) (o : Octets) : Option (Octets × Octets) :=
  match separator with
  | [] =>
    let o := o.dropWhile (· = '\n')
    if o.isEmpty then none
    else
      let t := o.toArray
      match (Regex.read regexForm "\n\n+".toList).bind fun r => r.search t 0 with
      | some m => some (o.take m.start, o.drop m.stop)
      | none => some (if o.getLast? = some '\n' then o.dropLast else o, [])
  | [c] =>
    if o.isEmpty then none
    else
      let front := o.takeWhile (· ≠ c)
      some (front, o.drop (front.length + 1))
  | _ =>
    if o.isEmpty then none
    else
      let t := o.toArray
      match (Regex.read regexForm separator).bind fun r => r.search t 0 with
      | some m =>
        if m.start = m.stop then some (o, []) else some (o.take m.start, o.drop m.stop)
      | none => some (o, [])

end Whittle.Shell.Awk
