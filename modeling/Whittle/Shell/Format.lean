import Whittle.Decimal.Reading
import Whittle.Decimal.Places
import Whittle.Shell.Octets

/-!
# Escapes and formats

`unescape` replaces backslash escapes. `format` writes arguments by a format in which a percent sign
introduces a directive; the format is gone through again as long as arguments are left.
-/

namespace Whittle.Shell

open Decimal

def numberOf (digits : Octets) : Nat := Text.digitsValue 0 digits

def octalValue (digits : Octets) : Nat :=
  digits.foldl (fun n c => 8 * n + (c.toNat - '0'.toNat)) 0

def isOctal (c : Char) : Bool := '0' ≤ c && c ≤ '7'

def hexDigit (c : Char) : Option Nat :=
  if Text.isDigit c then some (c.toNat - '0'.toNat)
  else if 'a' ≤ c && c ≤ 'f' then some (c.toNat - 'a'.toNat + 10)
  else if 'A' ≤ c && c ≤ 'F' then some (c.toNat - 'A'.toNat + 10)
  else none

def hexValue (digits : Octets) : Nat :=
  digits.foldl (fun n c => 16 * n + (hexDigit c).getD 0) 0

/-! ### Escapes -/

/-- Which escapes are understood. -/
structure EscapeRules where
  /-- Whether an octal number needs a zero in front, which then is not one of its digits. -/
  zeroFirst : Bool := false
  /-- Whether octal numbers may have that zero. -/
  zeroAllowed : Bool := false
  /-- Whether there are hexadecimal numbers and code points. -/
  many : Bool := false
  /-- Whether a quote may be escaped. -/
  quotes : Bool := false
  /-- Whether an escape may stand for a control character. -/
  controls : Bool := false
  /-- Whether an escape may end a format. -/
  stops : Bool := false
  /-- Whether a directive may name the size of its number, and there is one that quotes a word. -/
  wide : Bool := false
  deriving DecidableEq, Repr

/-- The octet that a letter behind a backslash stands for. -/
def EscapeRules.letter (r : EscapeRules) (c : Char) : Option Char :=
  match c with
  | 'a' => some '\x07'
  | 'b' => some '\x08'
  | 'f' => some '\x0c'
  | 'n' => some '\n'
  | 'r' => some '\r'
  | 't' => some '\t'
  | 'v' => some '\x0b'
  | '\\' => some '\\'
  | 'e' => some '\x1b'
  | 'E' => if r.many then some '\x1b' else none
  | '"' => if r.quotes then some '"' else none
  | '\'' => if r.quotes then some '\'' else none
  | '?' => if r.quotes then some '?' else none
  | _ => none

def octet (n : Nat) : Octets := [Char.ofNat (n % 256)]

/-- A code point, spelled out where it is none of the first 128. -/
def codePoint (n : Nat) : Octets :=
  if n < 128 then octet n
  else
    let digits := (Nat.toDigits 16 n).map Char.toUpper
    let size := if n < 65536 then 4 else 8
    '\\' :: (if size = 4 then 'u' else 'U') :: List.replicate (size - digits.length) '0' ++ digits

/-- What an escape read behind its backslash stands for, and the octets it takes there. -/
def EscapeRules.read (r : EscapeRules) (cs : Octets) : Option (Octets × Nat) :=
  match cs with
  | [] => none
  | c :: rest =>
    let digitsOf (cs : Octets) (most : Nat) := (cs.takeWhile isOctal).take most
    let hexOf (most : Nat) := (rest.takeWhile fun c => (hexDigit c).isSome).take most
    if isOctal c && !r.zeroFirst then
      let digits := digitsOf cs (if r.zeroAllowed && c = '0' then 4 else 3)
      some (octet (octalValue digits), digits.length)
    else if c = '0' && r.zeroFirst then
      let digits := digitsOf rest 3
      some (octet (octalValue digits), digits.length + 1)
    else if r.many && c = 'x' && !(hexOf 2).isEmpty then
      some (octet (hexValue (hexOf 2)), (hexOf 2).length + 1)
    else if r.many && (c = 'u' || c = 'U') then
      let digits := hexOf (if c = 'u' then 4 else 8)
      if digits.isEmpty then none
      else some (codePoint (hexValue digits), digits.length + 1)
    else if r.controls && c = 'c' then
      rest.head?.map fun d => (octet (if d = '?' then 127 else d.toUpper.toNat % 32), 2)
    else (r.letter c).map fun d => ([d], 1)

/-- The text with its escapes replaced, and whether an escape said to stop there. -/
def unescape (r : EscapeRules) : Nat → Octets → Octets × Bool
  | _, [] => ([], false)
  | skip + 1, _ :: cs => unescape r skip cs
  | 0, c :: cs =>
    if c ≠ '\\' then
      let t := unescape r 0 cs
      (c :: t.1, t.2)
    else if !r.controls && cs.head? = some 'c' then ([], true)
    else
      match r.read cs with
      | some (o, n) =>
        let t := unescape r n cs
        (o ++ t.1, t.2)
      | none =>
        let t := unescape r 0 cs
        (c :: t.1, t.2)

/-! ### Numbers in texts -/

/-- The digits in front that belong to a whole number, and its value: octal behind a zero,
hexadecimal behind `0x`. -/
def readMagnitude (cs : Octets) : Nat × Octets :=
  let decimal := cs.takeWhile Text.isDigit
  match cs with
  | '0' :: x :: rest =>
    let digits := rest.takeWhile fun c => (hexDigit c).isSome
    if (x = 'x' ∨ x = 'X') ∧ !digits.isEmpty then (hexValue digits, '0' :: x :: digits)
    else
      let digits := (x :: rest).takeWhile isOctal
      (octalValue digits, '0' :: digits)
  | _ => (numberOf decimal, decimal)

def isSpaceOctet (c : Char) : Bool := c = ' ' || ('\t' ≤ c && c ≤ '\r')

/-- The whole number a text starts with, and what is left behind it; there is none without a
digit. -/
def splitInteger (cs : Octets) : Option (Int × Octets) :=
  let cs := cs.dropWhile isSpaceOctet
  let s := splitSign cs
  let m := readMagnitude s.2
  if m.2.isEmpty then none
  else some (if s.1 then -(m.1 : Int) else m.1, s.2.drop m.2.length)

/-- The decimal number a text starts with, and what is left behind it. -/
def splitDecimal (cs : Octets) : Option (Binary64 × Octets) :=
  let cs := cs.dropWhile isSpaceOctet
  let s := splitSign cs
  let name := String.ofList ((s.2.takeWhile Char.isAlpha).map Char.toLower)
  if name = "inf" ∨ name = "infinity" then some (.infinite s.1, s.2.drop name.length)
  else if name = "nan" then some (.nan, s.2.drop name.length)
  else
    let whole := s.2.takeWhile Text.isDigit
    let rest := s.2.drop whole.length
    let fraction := match rest with
      | '.' :: rest => '.' :: rest.takeWhile Text.isDigit
      | _ => []
    let rest := rest.drop fraction.length
    let exponent := match rest with
      | e :: more =>
        let sign := more.takeWhile fun c => c = '+' || c = '-'
        let digits := (more.drop sign.length).takeWhile Text.isDigit
        if (e = 'e' ∨ e = 'E') ∧ sign.length ≤ 1 ∧ !digits.isEmpty then e :: sign ++ digits else []
      | [] => []
    if whole.isEmpty && fraction.length < 2 then none
    else
      (readMagnitude s.1 (whole ++ fraction ++ exponent)).map fun b =>
        (b, rest.drop exponent.length)
where
  readMagnitude := Decimal.readMagnitude

/-! ### Directives -/

/-- A width or a number of places: written there, or the next argument. -/
inductive Amount where
  | fixed (n : Nat)
  | argument
  deriving DecidableEq, Repr

structure Directive where
  left : Bool := false
  zeros : Bool := false
  plus : Bool := false
  blank : Bool := false
  alternate : Bool := false
  width : Nat := 0
  precision : Option Nat := none
  conversion : Char
  deriving DecidableEq, Repr

inductive FormatItem where
  | text (o : Octets)
  | stop
  | unfinished
  | directive (d : Directive) (width precision : Option Amount)
  deriving DecidableEq, Repr

def readAmount (cs : Octets) : Option Amount × Octets :=
  match cs with
  | '*' :: rest => (some .argument, rest)
  | _ =>
    let digits := cs.takeWhile Text.isDigit
    (if digits.isEmpty then none else some (.fixed (numberOf digits)), cs.drop digits.length)

/-- A directive read behind its percent sign, and the octets it takes. -/
def readDirective (wide : Bool) (cs : Octets) : Option (FormatItem × Nat) :=
  let flags := cs.takeWhile fun c => ['-', '0', '+', ' ', '#'].contains c
  let (width, rest) := readAmount (cs.drop flags.length)
  let (precision, rest) := match rest with
    | '.' :: rest =>
      let r := readAmount rest
      (some (r.1.getD (.fixed 0)), r.2)
    | _ => (none, rest)
  let rest := if wide then rest.dropWhile fun c => ['l', 'h', 'j', 'z', 't', 'L'].contains c
    else rest
  match rest with
  | c :: rest =>
    some (.directive
      { left := flags.contains '-', zeros := flags.contains '0', plus := flags.contains '+'
        blank := flags.contains ' ', alternate := flags.contains '#', conversion := c }
      width precision, cs.length - rest.length)
  | [] => none

def readFormat (r : EscapeRules) : Nat → Octets → List FormatItem
  | _, [] => []
  | skip + 1, _ :: cs => readFormat r skip cs
  | 0, c :: cs =>
    if c = '\\' then
      if cs.head? = some 'c' && r.stops then [.stop]
      else
        match r.read cs with
        | some (o, n) => .text o :: readFormat r n cs
        | none => .text [c] :: readFormat r 0 cs
    else if c = '%' then
      if cs.head? = some '%' then .text ['%'] :: readFormat r 1 cs
      else
        match readDirective r.wide cs with
        | some (i, n) => i :: readFormat r n cs
        | none => [.unfinished]
    else .text [c] :: readFormat r 0 cs

def padded (left : Bool) (fill : Char) (width : Nat) (text : Octets) : Octets :=
  let missing := List.replicate (width - text.length) (if left then ' ' else fill)
  if left then text ++ missing else missing ++ text

namespace Directive

def writeText (d : Directive) (o : Octets) : Octets :=
  padded d.left ' ' d.width (match d.precision with
    | some p => o.take p
    | none => o)

/-- A number of a sign and digits; zeros go between them. -/
def writeSigned (d : Directive) (zeros : Bool) (sign digits : Octets) : Octets :=
  if zeros && !d.left then sign ++ padded false '0' (d.width - sign.length) digits
  else padded d.left ' ' d.width (sign ++ digits)

def signOf (d : Directive) (negative : Bool) : Octets :=
  if negative then ['-'] else if d.plus then ['+'] else if d.blank then [' '] else []

/-- A whole number, in the base that the conversion says. Those without a sign are taken modulo the
number of words. -/
def writeInteger (d : Directive) (n : Int) : Octets :=
  let digitsIn (base : Nat) (n : Nat) : Octets :=
    if n = 0 ∧ d.precision = some 0 then [] else Nat.toDigits base n
  let word : Nat := (n % (Nat.pow 2 64 : Int)).toNat
  let full (digits : Octets) : Octets := padded false '0' (d.precision.getD 0) digits
  let zeros := d.zeros && d.precision.isNone
  match d.conversion with
  | 'x' => d.writeSigned zeros (if d.alternate && word ≠ 0 then ['0', 'x'] else [])
      (full (digitsIn 16 word))
  | 'X' => d.writeSigned zeros (if d.alternate && word ≠ 0 then ['0', 'X'] else [])
      (full ((digitsIn 16 word).map Char.toUpper))
  | 'o' =>
    let digits := full (digitsIn 8 word)
    d.writeSigned zeros [] (if d.alternate && digits.head? ≠ some '0' then '0' :: digits else digits)
  | 'u' => d.writeSigned zeros [] (full (digitsIn 10 word))
  | _ => d.writeSigned zeros (d.signOf (n < 0)) (full (digitsIn 10 n.natAbs))

/-- A number in one of the ways that decimals are written. -/
def writeDecimal (d : Directive) (x : Binary64) : Octets :=
  let upper := d.conversion.isUpper
  let case (o : Octets) : Octets := if upper then o.map Char.toUpper else o
  let places := d.precision.getD 6
  match x with
  | .nan => d.writeSigned false [] (case "nan".toList)
  | .infinite negative => d.writeSigned false (d.signOf negative) (case "inf".toList)
  | .finite negative m e =>
    let point (o : Octets) : Octets := if d.alternate && !o.contains '.' then o ++ ['.'] else o
    let digits := match d.conversion.toLower with
      | 'e' => scientificText 'e' m e places
      | 'g' => generalText 'e' d.alternate m e places
      | _ => point (fixedText m e places)
    d.writeSigned d.zeros (d.signOf negative) (case digits)

end Directive

/-! ### Going through a format -/

/-- What came of a format: the text, the arguments left, whether an escape said to stop, and the
arguments that were not what a directive asks for. -/
structure Written where
  text : Octets := []
  left : List Octets := []
  stopped : Bool := false
  bad : List Octets := []

def Written.push (w : Written) (o : Octets) : Written := { w with text := w.text ++ o }

/-- The next argument, and what is left. -/
def Written.next (w : Written) : Octets × Written :=
  (w.left.headD [], { w with left := w.left.drop 1 })

def Written.blame (w : Written) (isBad : Bool) (argument : Octets) : Written :=
  if isBad then { w with bad := w.bad ++ [argument] } else w

/-- The number an argument is, and whether it is not wholly one. A quote in front stands for the code
of what follows. -/
def integerArgument (o : Octets) (most : Int := Nat.pow 2 63 - 1) : Int × Bool :=
  let read (o : Octets) : Int × Bool :=
    match splitInteger o with
    | some (n, rest) =>
      let kept := max (-(Nat.pow 2 63 : Int)) (min n most)
      (kept, !rest.isEmpty || kept ≠ n)
    | none => (0, true)
  match o with
  | [] => (0, false)
  | q :: c :: _ => if q = '\'' ∨ q = '"' then (c.toNat, false) else read o
  | _ => read o

def decimalArgument (o : Octets) : Binary64 × Bool :=
  match o with
  | [] => (.zero, false)
  | q :: c :: _ =>
    if q = '\'' ∨ q = '"' then (Binary64.ofQuotient false c.toNat 1, false)
    else
      match splitDecimal o with
      | some (n, rest) => (n, !rest.isEmpty)
      | none => (.zero, true)
  | _ =>
    match splitDecimal o with
    | some (n, rest) => (n, !rest.isEmpty)
    | none => (.zero, true)

/-- An amount that may take an argument. -/
def Written.amount (w : Written) : Option Amount → Option Int × Written
  | none => (none, w)
  | some (.fixed n) => (some n, w)
  | some .argument =>
    let (o, w) := w.next
    let r := integerArgument o
    (some r.1, w.blame r.2 o)

/-- Whether a text holds octets that cannot be shown as they are. -/
def needsEscapes (o : Octets) : Bool := o.any fun c => c < ' ' || '~' < c

/-- A text in quotes in which escapes are read. -/
def escapeQuoted (o : Octets) : Octets :=
  let shown (c : Char) : Octets :=
    match c with
    | '\x07' => ['\\', 'a']
    | '\x08' => ['\\', 'b']
    | '\t' => ['\\', 't']
    | '\n' => ['\\', 'n']
    | '\x0b' => ['\\', 'v']
    | '\x0c' => ['\\', 'f']
    | '\r' => ['\\', 'r']
    | '\x1b' => ['\\', 'E']
    | '\\' => ['\\', '\\']
    | '\'' => ['\\', '\'']
    | c =>
      if needsEscapes [c] then '\\' :: padded false '0' 3 (Nat.toDigits 8 c.toNat) else [c]
  '$' :: '\'' :: o.flatMap shown ++ ['\'']

/-- A word as a shell reads it back. A tilde needs a backslash where it would be a directory, a number
sign in front. -/
def quoteWord (o : Octets) : Octets :=
  if o.isEmpty then ['\'', '\'']
  else if needsEscapes o then escapeQuoted o
  else (o.zip (' ' :: o)).zipIdx.flatMap fun p =>
    let c := p.1.1
    let first := p.2 = 0
    let special : Bool :=
      if c = '#' then first
      else if c = '~' then first || p.1.2 = '=' || p.1.2 = ':'
      else !(c.isAlphanum || ['_', '-', '.', '/', ':', '=', '@', '%', '+'].contains c)
    if special then ['\\', c] else [c]

/-- Write the next argument by a directive. -/
def Written.apply (w : Written) (wide : Bool) (d : Directive) (width precision : Option Amount) : Written :=
  let (span, w) := w.amount width
  let (places, w) := w.amount precision
  let d := { d with
    left := d.left || span.any (· < 0)
    width := (span.getD 0).natAbs
    precision := places.bind fun p => if p < 0 then none else some p.toNat }
  let (o, w) := w.next
  match d.conversion with
  | 's' => w.push (d.writeText o)
  | 'b' =>
    let r := unescape { zeroAllowed := true } 0 o
    { w.push (d.writeText r.1) with stopped := r.2 }
  | 'c' => w.push (padded d.left ' ' d.width (o.take 1))
  | c =>
    if ['d', 'i', 'o', 'u', 'x', 'X'].contains c then
      let r := integerArgument o (if c = 'd' ∨ c = 'i' then Nat.pow 2 63 - 1 else Nat.pow 2 64 - 1)
      (w.blame r.2 o).push (d.writeInteger r.1)
    else if ['e', 'f', 'g', 'E', 'F', 'G', 'a', 'A'].contains c then
      let r := decimalArgument o
      (w.blame r.2 o).push (d.writeDecimal r.1)
    else if wide && c = 'q' then w.push (d.writeText (quoteWord o))
    else { w with stopped := true, bad := w.bad ++ [['%', c]] }

/-- Go through a format once. -/
def formatOnce (wide : Bool) : List FormatItem → Written → Written
  | [], w => w
  | i :: is, w =>
    let w := match i with
      | .stop => { w with stopped := true }
      | .unfinished => { w with stopped := true, bad := w.bad ++ [['%']] }
      | .text o => w.push o
      | .directive d width precision => w.apply wide d width precision
    if w.stopped then w else formatOnce wide is w

def isDirective : FormatItem → Bool
  | .directive .. => true
  | _ => false

def formatAll (wide : Bool) (items : List FormatItem) : Nat → Written → Written
  | 0, w => w
  | fuel + 1, w =>
    let w := formatOnce wide items w
    if w.stopped || w.left.isEmpty || !items.any isDirective then w else formatAll wide items fuel w

def format (r : EscapeRules) (spec : Octets) (arguments : List Octets) : Written :=
  formatAll r.wide (readFormat r 0 spec) (arguments.length + 1) { left := arguments }

end Whittle.Shell
