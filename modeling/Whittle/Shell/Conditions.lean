import Whittle.Shell.Format
import Whittle.Shell.Process

/-!
# Conditions

A condition asks about files, texts and numbers. It is read from words: where a word may be an
operator as well as an operand, the words behind it decide.
-/

namespace Whittle.Shell.Condition

inductive Operator where
  | unary
  | binary
  | not
  | and
  | or
  | opening
  | closing
  deriving DecidableEq, Repr

def unaries : List Char :=
  ['r', 'w', 'x', 'e', 'f', 'd', 'c', 'b', 'p', 'u', 'g', 'k', 's', 't', 'z', 'n', 'h', 'L', 'O', 'G',
   'S']

def binaries : List String :=
  ["=", "!=", "<", ">", "-eq", "-ne", "-ge", "-gt", "-le", "-lt", "-nt", "-ot", "-ef"]

/-- What a word is as an operator. -/
def operatorOf (rich : Bool) (w : Octets) : Option Operator :=
  let s := String.ofList w
  if s = "!" then some .not
  else if s = "-a" then some .and
  else if s = "-o" then some .or
  else if s = "(" then some .opening
  else if s = ")" then some .closing
  else if binaries.contains s || (rich && s = "==") then some .binary
  else
    match w with
    | ['-', c] =>
      if unaries.contains c || (rich && (c = 'v' || c = 'N' || c = 'R')) then some .unary else none
    | _ => none

/-! ### Questions -/

def isLink (p : Process) (name : Octets) : Bool :=
  match p.disk.lstat (p.fileOf name) with
  | .ok (_, .link _) => true
  | _ => false

/-- Ask one question about a word. -/
def askOne (p : Process) (question : Char) (name : Octets) : Bool :=
  let path := p.fileOf name
  let there := (Process.specialStream name).any (fun s => (p.channel? s).isSome) ||
    p.disk.pathExists path
  match question with
  | 'e' => there
  | 'r' => there
  | 'w' => there
  | 'O' => there
  | 'G' => there
  | 'N' => there
  | 'f' => p.disk.isFile path
  | 'd' => p.disk.isDir path
  | 'x' => match p.disk.stat path with
    | .ok (_, .file _ _ x) => x
    | .ok (_, .dir) => true
    | _ => false
  | 's' => (p.disk.size path).toOption.getD 0 > 0
  | 'c' => match p.disk.stat path with
    | .ok (_, .sink) => true
    | _ => false
  | 'h' => isLink p name
  | 'L' => isLink p name
  | 'z' => name.isEmpty
  | 'n' => !name.isEmpty
  | 'v' => (p.valueOf? (String.ofList name)).isSome
  | _ => false

/-- Whether two paths lead to the same place. -/
def samePlace (p : Process) (x y : Octets) : Bool :=
  match p.disk.stat (p.fileOf x), p.disk.stat (p.fileOf y) with
  | .ok (a, .file i _ _), .ok (b, .file j _ _) => a = b || i = j
  | .ok (a, _), .ok (b, _) => a = b
  | _, _ => false

/-- Whether a file is newer than another one: the one that was made later counts as such. -/
def newer (rich : Bool) (p : Process) (x y : Octets) : Bool :=
  match p.disk.stat (p.fileOf x), p.disk.stat (p.fileOf y) with
  | .ok (_, .file i _ _), .ok (_, .file j _ _) => i > j
  | .ok _, .error _ => rich
  | _, _ => false

/-- A whole number, blanks around it allowed. -/
def integerOf? (o : Octets) : Option Int :=
  match splitInteger o with
  | some (n, rest) => if rest.all isSpaceOctet then some n else none
  | none => none

def decimalOf? (o : Octets) : Option Int :=
  let o := o.dropWhile isSpaceOctet
  let s := Decimal.splitSign o
  let digits := s.2.takeWhile Text.isDigit
  let n : Int := if s.1 then -(numberOf digits : Int) else numberOf digits
  if digits.isEmpty || !(s.2.drop digits.length).all isSpaceOctet then none
  else if n < -(Nat.pow 2 63 : Int) ∨ n ≥ Nat.pow 2 63 then none
  else some n

def compareNumbers (operator : String) (a b : Int) : Bool :=
  match operator with
  | "-eq" => a = b
  | "-ne" => a ≠ b
  | "-lt" => a < b
  | "-le" => a ≤ b
  | "-gt" => a > b
  | _ => a ≥ b

/-- Compare two words. -/
def compareWords (rich : Bool) (p : Process) (operator : String) (x y : Octets) :
    Except String Bool :=
  match operator with
  | "=" => .ok (x = y)
  | "==" => .ok (x = y)
  | "!=" => .ok (x ≠ y)
  | "<" => .ok (x < y)
  | ">" => .ok (y < x)
  | "-nt" => .ok (newer rich p x y)
  | "-ot" => .ok (newer rich p y x)
  | "-ef" => .ok (samePlace p x y)
  | _ =>
    let bad (o : Octets) : String :=
      if rich then Octets.text o ++ ": integer expression expected"
      else "Illegal number: " ++ Octets.text o
    match decimalOf? x, decimalOf? y with
    | none, _ => .error (bad x)
    | _, none => .error (bad y)
    | some a, some b => .ok (compareNumbers operator a b)

/-! ### Reading -/

structure Reader where
  rich : Bool
  process : Process
  words : Array Octets

/-- What the word at a position is as an operator, those behind it looked at. -/
def Reader.operatorAt (r : Reader) (i : Nat) : Option Operator :=
  match r.words[i]? with
  | none => none
  | some w =>
    match operatorOf r.rich w with
    | some .unary =>
      match r.words[i + 1]?, r.words[i + 2]? with
      | none, _ => none
      | some _, none => some .unary
      | some next, some _ => if operatorOf r.rich next = some .binary then none else some .unary
    | some .opening => if r.words[i + 1]?.isNone then none else some .opening
    | o => o

mutual

/-- A condition that starts at a position: its truth, and the position of its last word. -/
def Reader.either (fuel : Nat) (r : Reader) (i : Nat) (operator : Option Operator) :
    Except String (Bool × Nat) :=
  match fuel with
  | 0 => .error "too deep"
  | fuel + 1 => do
    let (a, i) ← r.all fuel i operator
    if r.operatorAt (i + 1) = some .or then
      let (b, i) ← r.either fuel (i + 2) (r.operatorAt (i + 2))
      return (a || b, i)
    else return (a, i)

def Reader.all (fuel : Nat) (r : Reader) (i : Nat) (operator : Option Operator) :
    Except String (Bool × Nat) :=
  match fuel with
  | 0 => .error "too deep"
  | fuel + 1 => do
    let (a, i) ← r.negated fuel i operator
    if r.operatorAt (i + 1) = some .and then
      let (b, i) ← r.all fuel (i + 2) (r.operatorAt (i + 2))
      return (a && b, i)
    else return (a, i)

def Reader.negated (fuel : Nat) (r : Reader) (i : Nat) (operator : Option Operator) :
    Except String (Bool × Nat) :=
  match fuel with
  | 0 => .error "too deep"
  | fuel + 1 =>
    if operator = some .not then
      if r.words[i + 1]?.isSome then do
        let (a, j) ← r.negated fuel (i + 1) (r.operatorAt (i + 1))
        return (!a, j)
      else .ok (true, i)
    else r.primary fuel i operator

def Reader.primary (fuel : Nat) (r : Reader) (i : Nat) (operator : Option Operator) :
    Except String (Bool × Nat) :=
  match fuel with
  | 0 => .error "too deep"
  | fuel + 1 =>
    let word (i : Nat) : Octets := (r.words[i]?).getD []
    let missing (i : Nat) : Except String (Bool × Nat) :=
      .error (if r.rich then "argument expected"
        else Octets.text (word i) ++ ": argument expected")
    if i ≥ r.words.size then .ok (false, i)
    else if operator = some .opening then
      if r.operatorAt (i + 1) = some .closing then .ok (false, i + 1)
      else do
        let (a, j) ← r.either fuel (i + 1) (r.operatorAt (i + 1))
        if r.operatorAt (j + 1) = some .closing then return (a, j + 1)
        else .error (if r.rich then "')' expected" else "closing paren expected")
    else if operator = some .unary then
      if i + 1 ≥ r.words.size then missing i
      else .ok (askOne r.process ((word i).getD 1 ' ') (word (i + 1)), i + 1)
    else if r.operatorAt (i + 1) = some .binary then
      if i + 2 ≥ r.words.size then missing (i + 1)
      else do
        let a ← compareWords r.rich r.process (String.ofList (word (i + 1))) (word i) (word (i + 2))
        return (a, i + 2)
    else .ok (!(word i).isEmpty, i)

end

/-- The truth of words that are no special case. -/
def general (rich : Bool) (p : Process) (ws : List Octets) (operand : Bool) :
    Except String Bool := do
  let r : Reader := ⟨rich, p, ws.toArray⟩
  let (a, i) ← r.either (8 * ws.length + 8) 0 (if operand then none else r.operatorAt 0)
  if (r.words[i]?).isSome ∧ (r.words[i + 1]?).isSome then
    .error (if rich then "too many arguments"
      else Octets.text ((r.words[i]?).getD []) ++ ": unexpected operator")
  else return a

/-- The truth of a condition; the number bounds the marks in front that negate it. -/
def holds (rich : Bool) (p : Process) : Nat → List Octets → Except String Bool
  | 0, _ => .error "too deep"
  | fuel + 1, ws =>
    match ws with
    | [] => .ok false
    | [a, b, c] =>
      if operatorOf rich b = some .binary then general rich p ws true
      else if a = ['('] ∧ c = [')'] then general rich p [b] false
      else if a = ['!'] then (holds rich p fuel [b, c]).map (!·)
      else general rich p ws false
    | [a, b, c, d] =>
      if a = ['('] ∧ d = [')'] then general rich p [b, c] false
      else if a = ['!'] then (holds rich p fuel [b, c, d]).map (!·)
      else general rich p ws false
    | ws => general rich p ws false

end Whittle.Shell.Condition

namespace Whittle.Shell

/-- Answer a condition by a code. `name` is the word it was asked with. -/
def testWords (rich : Bool) (name : String) (ws : List Octets) : Doing (Except String Nat) := do
  let p ← get
  let inner : Option (List Octets) :=
    if name = "[" then (if ws.getLast? = some [']'] then some ws.dropLast else none) else some ws
  match inner with
  | none => return .error (if rich then "missing ']'" else "missing ]")
  | some ws =>
    let asked : Except String Bool := match ws with
      | [['-', 'o'], name] =>
        if rich then .ok (p.hasOption (String.ofList name))
        else Condition.holds rich p (ws.length + 2) ws
      | [['-', 'a'], name] =>
        if rich then .ok (Condition.askOne p 'e' name) else Condition.holds rich p (ws.length + 2) ws
      | ws => Condition.holds rich p (ws.length + 2) ws
    match asked with
    | .ok b => return .ok (if b then 0 else 1)
    | .error e => return .error e

end Whittle.Shell
