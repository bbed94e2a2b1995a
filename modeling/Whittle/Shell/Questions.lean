import Whittle.Shell.RegexText
import Whittle.Shell.Words

/-!
# Conditional commands

The questions of a conditional command are about words that are not cut into fields. A text is
compared with a pattern, searched for a regular expression, or computed.
-/

namespace Whittle.Shell

open Doing

/-- The regular expression that a word is: what is quoted in it stands for itself. -/
def regexOf (ms : List Mark) : Option Regex :=
  Regex.read { extended := true, strict := true } (ms.flatMap fun m =>
    if m.quoted && !(m.char.isAlphanum || m.char = ' ' || m.char = '_') then ['\\', m.char]
    else [m.char])

/-- Search a text, and keep what was found. -/
def searchText (r : Regex) (o : Octets) : Doing Bool := do
  let t := o.toArray
  let groups := r.groupCount
  match r.search t 0 with
  | none =>
    modify fun p => { p with bindings := p.bindings.change "BASH_REMATCH" fun v =>
      { v with value := some (.list []) } }
    return false
  | some m =>
    let found := (List.range (groups + 1)).map fun n => (m.group? t n).getD []
    modify fun p => { p with bindings := p.bindings.change "BASH_REMATCH" fun v =>
      { v with value := some (Value.ofList found) } }
    return true

/-- Whether a variable, or an element of an array, has a value. -/
def isSet (o : Octets) : Doing Bool := do
  match ← heldByText o with
  | .one v => return v.isSome
  | .many os _ => return !os.isEmpty

/-- Ask a question about one word. -/
def askUnary (operator : String) (o : Octets) : Doing Bool := do
  let p ← get
  match operator with
  | "-v" => isSet o
  | "-R" => return (p.bindings.referred? (String.ofList o)).isSome
  | "-o" => return p.hasOption (String.ofList o)
  | "-t" => return false
  | "-a" => return Condition.askOne p 'e' o
  | _ => return Condition.askOne p (operator.toList.getD 1 ' ') o

/-- Compare two words; there is no answer if one of them is no regular expression. -/
def askBinary (E : Engine) (operator : String) (a b : Word) : Doing (Option Bool) := do
  let x ← textOf E a
  let marks := marksOf (← E.expand false b)
  let y := marks.map Mark.char
  let p ← get
  let same ← matchesPattern true marks x
  match operator with
  | "==" => return some same
  | "=" => return some same
  | "!=" => return some !same
  | "=~" =>
    let lower := p.hasOption "nocasematch"
    match regexOf (if lower then marks.map fun m => { m with char := m.char.toLower } else marks) with
    | some r => return some (← searchText r (if lower then x.map Char.toLower else x))
    | none => return none
  | "<" => return some (decide (x < y))
  | ">" => return some (decide (y < x))
  | "-nt" => return some (Condition.newer true p x y)
  | "-ot" => return some (Condition.newer true p y x)
  | "-ef" => return some (Condition.samePlace p x y)
  | _ =>
    let m ← Arithmetic.compute x
    let n ← Arithmetic.compute y
    return some (Condition.compareNumbers operator m n)

/-- Answer a question. -/
def askQuestion (E : Engine) : Question → Doing (Option Bool)
  | .holds w => do return some !(← textOf E w).isEmpty
  | .unary operator w => do return some (← askUnary operator (← textOf E w))
  | .binary operator a b => askBinary E operator a b
  | .not q => do return (← askQuestion E q).map (!·)
  | .and p q => do
    match ← askQuestion E p with
    | some true => askQuestion E q
    | answer => return answer
  | .or p q => do
    match ← askQuestion E p with
    | some false => askQuestion E q
    | answer => return answer

end Whittle.Shell
