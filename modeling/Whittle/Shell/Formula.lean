import Whittle.Shell.RegexText
import Whittle.Shell.Utility

/-!
# Expressions given as words

An expression of words has one value, a text that may be a whole number. A sequence of numbers is
given by its first and last one and the step between them.
-/

namespace Whittle.Shell

open Doing

namespace Formula

/-- The whole number that a text is. -/
def integer? (o : Octets) : Option Int :=
  match o with
  | '-' :: ds => if ds.isEmpty || !ds.all Text.isDigit then none else some (-(numberOf ds : Int))
  | ds => if ds.isEmpty || !ds.all Text.isDigit then none else some (numberOf ds)

/-- Whether a value counts as none. -/
def isNull (o : Octets) : Bool := o.isEmpty || integer? o = some 0

def truthText (b : Bool) : Octets := if b then ['1'] else ['0']

def needInteger (o : Octets) : Except String Int :=
  match integer? o with
  | some n => .ok n
  | none => .error "non-integer argument"

/-- Compare two values: as numbers if both are. -/
def compareValues (operator : String) (a b : Octets) : Octets :=
  let o : Ordering := match integer? a, integer? b with
    | some m, some n => compare m n
    | _, _ => if a < b then .lt else if b < a then .gt else .eq
  truthText (match operator with
    | "<" => o = .lt
    | "<=" => o ≠ .gt
    | ">" => o = .gt
    | ">=" => o ≠ .lt
    | "!=" => o ≠ .eq
    | _ => o = .eq)

def calculate (operator : String) (a b : Octets) : Except String Octets := do
  let m ← needInteger a
  let n ← needInteger b
  match operator with
  | "+" => return integerText (m + n)
  | "-" => return integerText (m - n)
  | "*" => return integerText (m * n)
  | _ =>
    if n = 0 then .error "division by zero"
    else if operator = "/" then return integerText (m.tdiv n)
    else return integerText (m.tmod n)

/-- What an anchored match gives: the first group if there is one, or the length. -/
def matchValue (o pattern : Octets) : Except String Octets :=
  match Regex.read { extended := false, lenient := true } pattern with
  | none => .error "Invalid regular expression"
  | some r =>
    let t := o.toArray
    let grouped := r.groupCount > 0
    match r.findAt t 0 with
    | none => .ok (if grouped then [] else ['0'])
    | some m =>
      .ok (if grouped then (m.group? t 1).getD [] else naturalText (m.stop - m.start))

/-- The operators of each level, the loosest first. -/
def levels : List (List String) :=
  [["|"], ["&"], ["<", "<=", "=", "==", "!=", ">=", ">"], ["+", "-"], ["*", "/", "%"], [":"]]

def missing (last : Option Octets) : String :=
  match last with
  | some o => "syntax error: missing argument after " ++ quotedName o
  | none => "missing operand"

/-- Apply an operator; where nothing is to be evaluated the value does not matter. -/
def apply (operator : String) (live : Bool) (a b : Octets) : Except String Octets :=
  if !live then .ok ['0']
  else
    match operator with
    | "|" => .ok (if !isNull a then a else if isNull b then ['0'] else b)
    | "&" => .ok (if isNull a || isNull b then ['0'] else a)
    | ":" => matchValue a b
    | "+" => calculate operator a b
    | "-" => calculate operator a b
    | "*" => calculate operator a b
    | "/" => calculate operator a b
    | "%" => calculate operator a b
    | _ => .ok (compareValues operator a b)

mutual

/-- An expression whose operators are of the given levels: its value, and the words behind it. -/
def readLevel (fuel : Nat) (live : Bool) (ls : List (List String)) (last : Option Octets)
    (ws : List Octets) : Except String (Octets × Option Octets × List Octets) :=
  match fuel with
  | 0 => .error "syntax error"
  | fuel + 1 =>
    match ls with
    | [] => readTerm fuel live last ws
    | l :: tighter => do
      let r ← readLevel fuel live tighter last ws
      readMore fuel live l tighter r

/-- Go on from a value with the operators of one level. -/
def readMore (fuel : Nat) (live : Bool) (l : List String) (tighter : List (List String))
    (r : Octets × Option Octets × List Octets) :
    Except String (Octets × Option Octets × List Octets) :=
  match fuel with
  | 0 => .error "syntax error"
  | fuel + 1 =>
    match r.2.2 with
    | w :: rest =>
      let operator := String.ofList w
      if l.contains operator then do
        let needed := match operator with
          | "|" => isNull r.1
          | "&" => !isNull r.1
          | _ => true
        let b ← readLevel fuel (live && needed) tighter (some w) rest
        let v ← apply operator live r.1 b.1
        readMore fuel live l tighter (v, b.2)
      else .ok r
    | [] => .ok r

/-- A value: a word, an expression in parentheses, or what a named operation gives. -/
def readTerm (fuel : Nat) (live : Bool) (last : Option Octets) (ws : List Octets) :
    Except String (Octets × Option Octets × List Octets) :=
  match fuel with
  | 0 => .error "syntax error"
  | fuel + 1 =>
    match ws with
    | [] => .error (missing last)
    | w :: rest =>
      let operand (last : Option Octets) (ws : List Octets) := readTerm fuel live last ws
      match String.ofList w with
      | "(" => do
        let r ← readLevel fuel live levels (some w) rest
        match r.2.2 with
        | [')'] :: rest => return (r.1, some [')'], rest)
        | [] => .error ("syntax error: expecting ')' after " ++ quotedName (r.2.1.getD r.1))
        | found :: _ => .error ("syntax error: expecting ')' instead of " ++ quotedName found)
      | ")" => .error "syntax error: unexpected ')'"
      | "+" =>
        match rest with
        | [] => .error (missing (some w))
        | v :: rest => .ok (v, some v, rest)
      | "length" => do
        let (o, last, rest) ← operand (some w) rest
        return (naturalText o.length, last, rest)
      | "match" => do
        let (o, last, rest) ← operand (some w) rest
        let (pattern, last, rest) ← operand last rest
        return (← (if live then matchValue o pattern else .ok ['0']), last, rest)
      | "index" => do
        let (o, last, rest) ← operand (some w) rest
        let (set, last, rest) ← operand last rest
        return (naturalText (((o.zipIdx 1).find? fun e => set.contains e.1).map Prod.snd |>.getD 0),
          last, rest)
      | "substr" => do
        let (o, last, rest) ← operand (some w) rest
        let (first, last, rest) ← operand last rest
        let (size, last, rest) ← operand last rest
        let part := match integer? first, integer? size with
          | some i, some n => if i ≤ 0 ∨ n ≤ 0 then [] else (o.drop (i.toNat - 1)).take n.toNat
          | _, _ => []
        return (part, last, rest)
      | _ => .ok (w, some w, rest)

end

/-- The value of an expression. -/
def value (ws : List Octets) : Except String Octets := do
  let (v, _, rest) ← readLevel (16 * ws.length + 32) true levels none ws
  match rest with
  | [] => return v
  | w :: _ => .error ("syntax error: unexpected argument " ++ quotedName w)

end Formula

def expr (ws : List Octets) : Doing Nat := do
  let ws := if ws.head? = some ['-', '-'] then ws.drop 1 else ws
  if ws.isEmpty then
    complain "expr: missing operand"
    complain "Try 'expr --help' for more information."
    return 2
  else
    match Formula.value ws with
    | .error e => refuseTo "expr" e 2
    | .ok v =>
      write (v ++ ['\n'])
      return if Formula.isNull v then 1 else 0

/-! ### Sequences -/

/-- A decimal number written out: a whole number and the places it is to be shifted. -/
def readDecimalWord (o : Octets) : Option (Int × Nat) :=
  let (negative, ds) := match o with
    | '-' :: ds => (true, ds)
    | '+' :: ds => (false, ds)
    | ds => (false, ds)
  let whole := ds.takeWhile Text.isDigit
  let behind := ds.drop whole.length
  let fraction := match behind with
    | '.' :: rest => rest
    | _ => []
  if (behind.isEmpty || behind.head? = some '.') && fraction.all Text.isDigit &&
      !(whole ++ fraction).isEmpty then
    let n : Int := numberOf (whole ++ fraction)
    some (if negative then -n else n, fraction.length)
  else none

/-- A number shifted by places as a text. -/
def shiftedText (n : Int) (places : Nat) : Octets :=
  let digits := naturalText n.natAbs
  let digits := padded false '0' (places + 1) digits
  let whole := digits.take (digits.length - places)
  let fraction := digits.drop (digits.length - places)
  (if n < 0 then ['-'] else []) ++ whole ++ (if places = 0 then [] else '.' :: fraction)

/-- A decimal number that may have an exponent, by the same parts. -/
def readScaledWord (o : Octets) : Option (Int × Nat) :=
  let front := o.takeWhile fun c => c ≠ 'e' && c ≠ 'E'
  if front.length = o.length then readDecimalWord o
  else
    match readDecimalWord front, Condition.decimalOf? (o.drop (front.length + 1)) with
    | some (n, places), some e =>
      let left : Int := places - e
      some (if left < 0 then (n * Nat.pow 10 left.natAbs, 0) else (n, left.toNat))
    | _, _ => none

/-- The numbers from one to another by steps. -/
def sequenceFrom (first step last : Int) : Nat → List Int
  | 0 => []
  | fuel + 1 =>
    if (step > 0 ∧ first > last) ∨ (step < 0 ∧ first < last) then []
    else first :: sequenceFrom (first + step) step last fuel

structure SequenceWords where
  separator : Octets := ['\n']
  equalWidth : Bool := false
  form : Option Octets := none
  operands : List Octets := []
  unknown : Option Octets := none

def readSequenceWords : List Octets → SequenceWords
  | [] => {}
  | ['-', 's'] :: s :: ws => { readSequenceWords ws with separator := s }
  | ['-', 'w'] :: ws => { readSequenceWords ws with equalWidth := true }
  | ['-', 'f'] :: f :: ws => { readSequenceWords ws with form := some f }
  | ['-', '-'] :: ws => { operands := ws }
  | w :: ws =>
    match w with
    | '-' :: 's' :: c :: s => { readSequenceWords ws with separator := c :: s }
    | '-' :: 'f' :: c :: f => { readSequenceWords ws with form := some (c :: f) }
    | '-' :: c :: _ =>
      if Text.isDigit c || c = '.' then { operands := w :: ws }
      else
        match String.ofList w with
        | "--equal-width" => { readSequenceWords ws with equalWidth := true }
        | _ =>
          if "--separator=".toList.isPrefixOf w then
            { readSequenceWords ws with separator := w.drop 12 }
          else { unknown := some w }
    | _ =>
      let r := readSequenceWords ws
      { r with operands := w :: r.operands }

def seq (ws : List Octets) : Doing Nat := do
  let a := readSequenceWords ws
  let fail (why : String) : Doing Nat := do
    complain ("seq: " ++ why)
    complain "Try 'seq --help' for more information."
    return 1
  match a.unknown with
  | some w => fail ("invalid option -- " ++ quotedName (w.drop 1))
  | none =>
    match a.operands.find? fun w => (readScaledWord w).isNone with
    | some w => fail ("invalid floating point argument: " ++ quotedName w)
    | none =>
      let go (first step last : Int × Nat) : Doing Nat := do
        let places := max first.2 step.2
        let all := max places last.2
        let scale (x : Int × Nat) : Int := x.1 * Nat.pow 10 (all - x.2)
        if step.1 = 0 then fail "invalid Zero increment value: '0'"
        else
          let size := (scale last - scale first).natAbs / (scale step).natAbs + 2
          let ns := sequenceFrom (scale first) (scale step) (scale last) size
          let shown (n : Int) : Octets := shiftedText (n / Nat.pow 10 (all - places)) places
          let width := ((ns.map fun n => (shown n).length).foldl max 0)
          let texts := ns.map fun n =>
            match a.form with
            | some f => (format {} f [shiftedText n all]).text
            | none =>
              let o := shown n
              if !a.equalWidth then o
              else if n < 0 then '-' :: padded false '0' (width - 1) (o.drop 1)
              else padded false '0' width o
          if !texts.isEmpty then write (List.intercalate a.separator texts ++ ['\n'])
          return 0
      match a.operands.filterMap readScaledWord with
      | [last] => go (1, 0) (1, 0) last
      | [first, last] => go first (1, 0) last
      | [first, step, last] => go first step last
      | [] => fail "missing operand"
      | _ => fail ("extra operand " ++ quotedName (a.operands.getD 3 []))

/-! ### Factors -/

/-- The prime factors of a number from a divisor on; the first number bounds the steps. -/
def factorsFrom : Nat → Nat → Nat → List Nat
  | 0, _, n => [n]
  | fuel + 1, d, n =>
    if n < 2 then []
    else if d * d > n then [n]
    else if n % d = 0 then d :: factorsFrom fuel d (n / d)
    else factorsFrom fuel (if d = 2 then 3 else d + 2) n

def factor (ws : List Octets) : Doing Nat := do
  let words ← (if ws.isEmpty then do
      return match ← readStream 0 with
        | .ok o => (o.splitOnP isSpaceOctet).filter (· ≠ [])
        | .error _ => []
    else return ws.filter (· ≠ ['-', '-']))
  forAll words fun w => do
    match Text.readNat (if w.head? = some '+' then w.drop 1 else w) with
    | some n =>
      let factors := factorsFrom 5000000 2 n
      write (naturalText n ++ ':' :: factors.flatMap (fun f => ' ' :: naturalText f) ++ ['\n'])
      return 0
    | none => refuseTo "factor" (quotedName w ++ " is not a valid positive integer") 1

end Whittle.Shell
