import Whittle.Shell.Format
import Whittle.Shell.Process

/-!
# Arithmetic of a shell

Whole numbers and variables under the operators of C. Operators are tried from those that bind least
to those that bind most. What is assigned on the way stays assigned.
-/

namespace Whittle.Shell.Arithmetic

inductive Operator where
  | or
  | and
  | bitOr
  | bitXor
  | bitAnd
  | equal
  | different
  | less
  | lessEqual
  | greater
  | greaterEqual
  | shiftLeft
  | shiftRight
  | add
  | subtract
  | multiply
  | divide
  | remainder
  | power
  deriving DecidableEq, Repr

/-- The operators that bind alike, the loosest first. -/
def levels : List (List (String × Operator)) :=
  [[("||", .or)], [("&&", .and)], [("|", .bitOr)], [("^", .bitXor)], [("&", .bitAnd)],
   [("==", .equal), ("!=", .different)],
   [("<=", .lessEqual), (">=", .greaterEqual), ("<", .less), (">", .greater)],
   [("<<", .shiftLeft), (">>", .shiftRight)],
   [("+", .add), ("-", .subtract)], [("*", .multiply), ("/", .divide), ("%", .remainder)]]

/-- The operators that assign, and what they do before. -/
def assigning : List (String × Option Operator) :=
  [("=", none), ("+=", some .add), ("-=", some .subtract), ("*=", some .multiply),
   ("/=", some .divide), ("%=", some .remainder), ("<<=", some .shiftLeft),
   (">>=", some .shiftRight), ("&=", some .bitAnd), ("^=", some .bitXor), ("|=", some .bitOr)]

def truth (b : Bool) : Int := if b then 1 else 0

/-- Numbers are words of 64 bits: a result that needs more loses its high bits. -/
def word (a : Int) : Int := a.bmod (Nat.pow 2 64)

/-- An operation on the bits of two words. -/
def onBits (f : Int64 → Int64 → Int64) (a b : Int) : Int := (f (.ofInt a) (.ofInt b)).toInt

/-- The result of an operator; there is none for a division by zero and a negative power. -/
def Operator.apply (o : Operator) (a b : Int) : Option Int :=
  match o with
  | or => some (truth (a ≠ 0 || b ≠ 0))
  | and => some (truth (a ≠ 0 && b ≠ 0))
  | bitOr => some (onBits (· ||| ·) a b)
  | bitXor => some (onBits (· ^^^ ·) a b)
  | bitAnd => some (onBits (· &&& ·) a b)
  | equal => some (truth (a = b))
  | different => some (truth (a ≠ b))
  | less => some (truth (a < b))
  | lessEqual => some (truth (a ≤ b))
  | greater => some (truth (a > b))
  | greaterEqual => some (truth (a ≥ b))
  | shiftLeft => some (onBits (· <<< ·) a b)
  | shiftRight => some (onBits (· >>> ·) a b)
  | add => some (word (a + b))
  | subtract => some (word (a - b))
  | multiply => some (word (a * b))
  | divide => if b = 0 then none else some (word (a.tdiv b))
  | remainder => if b = 0 then none else some (a.tmod b)
  | power => if b < 0 then none
    else some (Nat.repeat (fun r => word (r * a)) (min b.toNat 4096) 1)

inductive Token where
  | number (n : Int)
  /-- A variable, with the text of its subscript if it has one. -/
  | place (name : String) (index : Option Octets)
  | sign (s : String)
  deriving DecidableEq, Repr

inductive Sum where
  | number (n : Int)
  | place (name : String) (index : Option Octets)
  | assign (name : String) (index : Option Octets) (o : Option Operator) (e : Sum)
  /-- Add to a variable; the value is the one before or after that. -/
  | change (name : String) (index : Option Octets) (by_ : Int) (before : Bool)
  | negate (e : Sum)
  | complement (e : Sum)
  | not (e : Sum)
  | both (o : Operator) (a b : Sum)
  | choose (condition yes no : Sum)
  | last (a b : Sum)
  deriving Inhabited, Repr

/-! ### Reading -/

def signs : List String :=
  ["<<=", ">>=", "**", "++", "--", "<<", ">>", "<=", ">=", "==", "!=", "&&", "||", "+=", "-=", "*=",
   "/=", "%=", "&=", "^=", "|=", "<", ">", "=", "!", "~", "+", "-", "*", "/", "%", "&", "^", "|",
   "?", ":", ",", "(", ")"]

/-- The digit of a number with a base of its own. -/
def baseDigit (base : Nat) (c : Char) : Nat :=
  if Text.isDigit c then Text.digitValue c
  else if 'a' ≤ c && c ≤ 'z' then c.toNat - 'a'.toNat + 10
  else if 'A' ≤ c && c ≤ 'Z' then c.toNat - 'A'.toNat + (if base ≤ 36 then 10 else 36)
  else if c = '@' then 62 else 63

/-- A number as it is written, and what is left behind it. -/
def readNumber (rich : Bool) (cs : Octets) : Option (Int × Octets) :=
  let w := cs.takeWhile fun c => c.isAlphanum || c = '_' || c = '@'
  let decimal := cs.takeWhile Text.isDigit
  match cs.drop decimal.length with
  | '#' :: rest =>
    if rich then
      let digits := rest.takeWhile fun c => c.isAlphanum || c = '_' || c = '@'
      let base := numberOf decimal
      if digits.all fun c => baseDigit base c < base then
        let n : Nat := digits.foldl (fun n c => base * n + baseDigit base c) 0
        some (word n, rest.drop digits.length)
      else none
    else none
  | _ =>
    let m := readMagnitude w
    if m.2.length = w.length then
      some (if rich then word m.1 else min m.1 (Nat.pow 2 63 - 1), cs.drop w.length)
    else none

/-- The text up to the bracket that closes one already open, and what follows it. -/
def splitIndex (depth : Nat) : Octets → Option (Octets × Octets)
  | [] => none
  | c :: cs =>
    if c = ']' then
      match depth with
      | 0 => some ([], cs)
      | depth + 1 => (splitIndex depth cs).map fun r => (c :: r.1, r.2)
    else (splitIndex (if c = '[' then depth + 1 else depth) cs).map fun r => (c :: r.1, r.2)

def readTokens (rich : Bool) : Nat → Octets → Option (List Token)
  | 0, _ => none
  | fuel + 1, cs =>
    match cs with
    | [] => some []
    | c :: rest =>
      if isSpaceOctet c then readTokens rich fuel rest
      else if Text.isDigit c then
        match readNumber rich cs with
        | some (n, rest) => (readTokens rich fuel rest).map (.number n :: ·)
        | none => none
      else if startsName c then
        let name := cs.takeWhile continuesName
        let behind := cs.drop name.length
        match (if rich && behind.head? = some '[' then splitIndex 0 (behind.drop 1) else none) with
        | some (index, rest) =>
          (readTokens rich fuel rest).map (.place (String.ofList name) (some index) :: ·)
        | none => (readTokens rich fuel behind).map (.place (String.ofList name) none :: ·)
      else
        match signs.find? fun s => s.toList.isPrefixOf cs && (rich || !(["**"].contains s)) with
        | some s => (readTokens rich fuel (cs.drop s.length)).map (.sign s :: ·)
        | none => none

mutual

/-- Expressions between commas. -/
def readComma (fuel : Nat) (rich : Bool) (ts : List Token) : Option (Sum × List Token) :=
  match fuel with
  | 0 => none
  | fuel + 1 => do
    let (a, rest) ← readAssigning fuel rich ts
    match rest with
    | .sign "," :: rest =>
      if !rich then none
      else
        let (b, rest) ← readComma fuel rich rest
        return (.last a b, rest)
    | rest => return (a, rest)

def readAssigning (fuel : Nat) (rich : Bool) (ts : List Token) : Option (Sum × List Token) :=
  match fuel with
  | 0 => none
  | fuel + 1 =>
    match ts with
    | .place name index :: .sign s :: rest =>
      match assigning.find? fun a => a.1 = s with
      | some a => do
        let (e, rest) ← readAssigning fuel rich rest
        return (.assign name index a.2 e, rest)
      | none => readChoice fuel rich ts
    | ts => readChoice fuel rich ts

def readChoice (fuel : Nat) (rich : Bool) (ts : List Token) : Option (Sum × List Token) :=
  match fuel with
  | 0 => none
  | fuel + 1 => do
    let (a, rest) ← readLevel fuel rich levels ts
    match rest with
    | .sign "?" :: rest =>
      let (yes, rest) ← readAssigning fuel rich rest
      match rest with
      | .sign ":" :: rest =>
        let (no, rest) ← readChoice fuel rich rest
        return (.choose a yes no, rest)
      | _ => none
    | rest => return (a, rest)

/-- An expression whose operators are of the given levels. -/
def readLevel (fuel : Nat) (rich : Bool) (ls : List (List (String × Operator)))
    (ts : List Token) : Option (Sum × List Token) :=
  match fuel with
  | 0 => none
  | fuel + 1 =>
    match ls with
    | [] => readPower fuel rich ts
    | l :: tighter => do
      let (a, rest) ← readLevel fuel rich tighter ts
      readMore fuel rich l tighter a rest

/-- Go on from an expression with the operators of one level. -/
def readMore (fuel : Nat) (rich : Bool) (l : List (String × Operator))
    (tighter : List (List (String × Operator))) (a : Sum) (ts : List Token) :
    Option (Sum × List Token) :=
  match fuel with
  | 0 => none
  | fuel + 1 =>
    match ts with
    | .sign s :: rest =>
      match l.find? fun o => o.1 = s with
      | some o => do
        let (b, rest) ← readLevel fuel rich tighter rest
        readMore fuel rich l tighter (.both o.2 a b) rest
      | none => some (a, ts)
    | ts => some (a, ts)

def readPower (fuel : Nat) (rich : Bool) (ts : List Token) : Option (Sum × List Token) :=
  match fuel with
  | 0 => none
  | fuel + 1 => do
    let (a, rest) ← readOperand fuel rich ts
    match rest with
    | .sign "**" :: rest =>
      let (b, rest) ← readPower fuel rich rest
      return (.both .power a b, rest)
    | rest => return (a, rest)

def readOperand (fuel : Nat) (rich : Bool) (ts : List Token) : Option (Sum × List Token) :=
  match fuel with
  | 0 => none
  | fuel + 1 =>
    match ts with
    | .number n :: rest => some (.number n, rest)
    | .place name index :: .sign "++" :: rest =>
      if rich then some (.change name index 1 true, rest)
      else some (.place name index, .sign "++" :: rest)
    | .place name index :: .sign "--" :: rest =>
      if rich then some (.change name index (-1) true, rest)
      else some (.place name index, .sign "--" :: rest)
    | .place name index :: rest => some (.place name index, rest)
    | .sign "++" :: .place name index :: rest =>
      if rich then some (.change name index 1 false, rest) else some (.place name index, rest)
    | .sign "--" :: .place name index :: rest =>
      if rich then some (.change name index (-1) false, rest) else some (.place name index, rest)
    | .sign "(" :: rest => do
      let (e, rest) ← readComma fuel rich rest
      match rest with
      | .sign ")" :: rest => return (e, rest)
      | _ => none
    | .sign s :: rest =>
      match s with
      | "-" => (readOperand fuel rich rest).map fun r => (.negate r.1, r.2)
      | "+" => readOperand fuel rich rest
      | "--" => readOperand fuel rich rest
      | "++" => readOperand fuel rich rest
      | "~" => (readOperand fuel rich rest).map fun r => (.complement r.1, r.2)
      | "!" => (readOperand fuel rich rest).map fun r => (.not r.1, r.2)
      | _ => none
    | [] => none

end

/-- The expression of a text; in the rich dialect an empty one is zero. -/
def read (rich : Bool) (cs : Octets) : Option Sum := do
  let ts ← readTokens rich (cs.length + 1) cs
  if ts.isEmpty then if rich then return .number 0 else none
  else
    let (e, rest) ← readComma (32 * ts.length + 32) rich ts
    if rest.isEmpty then some e else none

/-! ### Values -/

/-- What a failed computation does: the rich dialect gives up the line, the plain one the script. -/
def fail {α : Type} (text : String) : Doing α := do
  Doing.object text
  if (← get).isRich then throw .discard else throw (.exit 2)

def readonlyFault {α : Type} (name : String) : Doing α := do
  if (← get).isRich then
    Doing.object (name ++ ": readonly variable")
    throw .discard
  else
    Doing.object (name ++ ": is read only")
    throw (.exit 2)

/-- Give a variable a text, or one of its elements. -/
def assignText (name : String) (index : Option Value) (o : Octets) : Doing Unit := do
  let p ← get
  let name := p.bindings.meant name
  let v := (Disk.valueAt name p.bindings).getD {}
  if v.readonly then readonlyFault name
  let o := match v.case with
    | some true => o.map Char.toUpper
    | some false => o.map Char.toLower
    | none => o
  let value : Value := match index, v.value with
    | none, some (.list es) => .list (Value.insert 0 o es)
    | none, some (.table es) => .table (Disk.assign ['0'] o es)
    | none, _ => .text o
    | some (.list [(i, _)]), some old => .list (Value.insert i o old.numbered)
    | some (.list [(i, _)]), none => .list [(i, o)]
    | some (.text k), some (.table es) => .table (Disk.assign k o es)
    | some _, _ => .table [([], o)]
  let exported := v.exported || p.hasOption "allexport"
  let v := { v with value := some value, exported := exported }
  set { p with bindings := Disk.assign name v p.bindings }

mutual

/-- The value of an expression. -/
def evaluate (fuel : Nat) (text : Octets) (e : Sum) : Doing Int := do
  match fuel with
  | 0 => fail "expression recursion level exceeded"
  | fuel + 1 =>
    match e with
    | .number n => return n
    | .place name index => valueOf fuel name index
    | .assign name index o e =>
      let old ← (match o with
        | some _ => valueOf fuel name index
        | none => return 0)
      let n ← evaluate fuel text e
      let n ← (match o with
        | some o => combine fuel text o old n
        | none => return n)
      store fuel name index n
      return n
    | .change name index by_ before =>
      let old ← valueOf fuel name index
      store fuel name index (word (old + by_))
      return if before then old else word (old + by_)
    | .negate e => return word (-(← evaluate fuel text e))
    | .complement e => return -(← evaluate fuel text e) - 1
    | .not e => return truth ((← evaluate fuel text e) = 0)
    | .both .or a b =>
      if (← evaluate fuel text a) ≠ 0 then return 1
      else return truth ((← evaluate fuel text b) ≠ 0)
    | .both .and a b =>
      if (← evaluate fuel text a) = 0 then return 0
      else return truth ((← evaluate fuel text b) ≠ 0)
    | .both o a b =>
      let x ← evaluate fuel text a
      let y ← evaluate fuel text b
      combine fuel text o x y
    | .choose c yes no =>
      if (← evaluate fuel text c) ≠ 0 then evaluate fuel text yes else evaluate fuel text no
    | .last a b =>
      let _ ← evaluate fuel text a
      evaluate fuel text b

def combine (fuel : Nat) (text : Octets) (o : Operator) (a b : Int) : Doing Int := do
  match fuel with
  | 0 => fail "expression recursion level exceeded"
  | _ + 1 =>
    match o.apply a b with
    | some n => return n
    | none =>
      if (← get).isRich then
        fail (Octets.text text ++ (if o = .power then ": exponent less than 0"
          else ": division by 0 (error token is \"" ++ Text.intText b ++ "\")"))
      else fail ("arithmetic expression: division by zero: \"" ++ Octets.text text ++ "\"")

/-- The number that a text is; in the rich dialect it is an expression of its own. -/
def numberIn (fuel : Nat) (o : Octets) : Doing Int := do
  match fuel with
  | 0 => fail "expression recursion level exceeded"
  | fuel + 1 =>
    if (← get).isRich then
      match read true o with
      | some e => evaluate fuel o e
      | none => fail (Octets.text o ++ ": syntax error: operand expected")
    else
      match splitInteger o with
      | some (n, rest) =>
        if rest.all isSpaceOctet then return word n
        else fail ("Illegal number: " ++ Octets.text o)
      | none =>
        if o.all isSpaceOctet then return 0 else fail ("Illegal number: " ++ Octets.text o)

/-- The subscript that a text is for a variable. -/
def indexIn (fuel : Nat) (name : String) (index : Octets) : Doing Value := do
  match fuel with
  | 0 => fail "expression recursion level exceeded"
  | fuel + 1 =>
    let vs := (← get).bindings
    match (Disk.valueAt (vs.meant name) vs).bind Variable.value with
    | some (.table _) => return .text index
    | v =>
      let n ← numberIn fuel index
      let count := (v.map Value.nextIndex).getD 0
      let n := if n < 0 then n + count else n
      if n < 0 then fail (name ++ ": bad array subscript")
      else return .list [(n.toNat, [])]

def valueOf (fuel : Nat) (name : String) (index : Option Octets) : Doing Int := do
  match fuel with
  | 0 => fail "expression recursion level exceeded"
  | fuel + 1 =>
    let p ← get
    match index with
    | none =>
      match p.valueOf? name with
      | some o => numberIn fuel o
      | none =>
        if p.hasOption "nounset" then
          if p.isRich then
            Doing.object (name ++ ": unbound variable")
            throw (.exit 1)
          else fail (name ++ ": parameter not set")
        else return 0
    | some index =>
      let v := (Disk.valueAt (p.bindings.meant name) p.bindings).bind Variable.value
      match ← indexIn fuel name index, v with
      | .list [(i, _)], some v => numberIn fuel ((Disk.valueAt i v.numbered).getD [])
      | .text k, some (.table es) => numberIn fuel ((Disk.valueAt k es).getD [])
      | _, _ => return 0

def store (fuel : Nat) (name : String) (index : Option Octets) (n : Int) : Doing Unit := do
  match fuel with
  | 0 => fail "expression recursion level exceeded"
  | fuel + 1 =>
    match index with
    | none => assignText name none (integerText n)
    | some index => assignText name (some (← indexIn fuel name index)) (integerText n)

end

/-- How deep expressions may be inside one another. -/
def depth : Nat := 2000

/-- Compute the value of a text. -/
def compute (o : Octets) : Doing Int := do
  let rich := (← get).isRich
  match read rich o with
  | some e => evaluate depth o e
  | none =>
    let text := Octets.text o
    if rich then
      fail (text ++ ": syntax error: operand expected (error token is \"" ++ text ++ "\")")
    else fail ("arithmetic expression: expecting primary: \"" ++ text ++ "\"")

/-- The subscript that a text is for a variable. -/
def indexOf (name : String) (index : Octets) : Doing Value := indexIn depth name index

end Whittle.Shell.Arithmetic
