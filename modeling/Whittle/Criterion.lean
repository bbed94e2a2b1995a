import Whittle.Text.Blank
import Whittle.Text.Lines
import Whittle.World

/-!
# Slicing criteria

A criterion is a line and a variable whose value on that line a slice has to keep. `Criterion.read`
reads `line:variable`, blanks around either part allowed; `Criterion.text` writes it.
`Criterion.readAll` reads one criterion a line, passes over blank lines, and reports every other
line that is none.
-/

namespace Whittle

open Text

structure Criterion where
  line : Nat
  name : String
  deriving DecidableEq, Repr

namespace Criterion

def text (c : Criterion) : String := natText c.line ++ ":" ++ c.name

def atLine (c : Criterion) (line : Nat) : Criterion := { c with line := line }

def isLetter (c : Char) : Bool :=
  ('a'.toNat ≤ c.toNat && c.toNat ≤ 'z'.toNat) || ('A'.toNat ≤ c.toNat && c.toNat ≤ 'Z'.toNat)

def startsIdentifier (c : Char) : Bool := isLetter c || c = '_'

def continuesIdentifier (c : Char) : Bool := isLetter c || isDigit c || c = '_'

/-- An identifier of C, in ASCII. -/
def isIdentifier : List Char → Bool
  | [] => false
  | c :: cs => startsIdentifier c && cs.all continuesIdentifier

/-- What stands before and behind the first colon. -/
def splitColon : List Char → Option (List Char × List Char)
  | [] => none
  | c :: cs => if c = ':' then some ([], cs) else (splitColon cs).map fun r => (c :: r.1, r.2)

def readChars (cs : List Char) : Option Criterion := do
  let (before, behind) ← splitColon (trimChars cs)
  let line ← readLine (trimChars before)
  let name := trimChars behind
  if line = 0 ∨ !isIdentifier name then none else some ⟨line, String.ofList name⟩

def read (s : String) : Except Fault Criterion :=
  match readChars s.toList with
  | some c => .ok c
  | none => .error (.badCriterion s)

/-- The lines that are not blank, each with the criterion on it or the reason that there is none. -/
def readLines (s : String) : List (Except Fault Criterion) :=
  ((lineChars s.toList).filter fun l => !(trimChars l).isEmpty).map fun l => read (String.ofList l)

/-- The criteria among what was read, in order; the reasons for the others are reported. -/
def keepGood : List (Except Fault Criterion) → Action (List Criterion)
  | [] => return []
  | .ok c :: rest => do return c :: (← keepGood rest)
  | .error e :: rest => do
    Action.warn ("Ignoring extractor output: " ++ e.message)
    keepGood rest

def readAll (s : String) : Action (List Criterion) := keepGood (readLines s)

/-- The names of criteria without repetition, in order of first occurrence. -/
def distinctNames (cs : List Criterion) : List String :=
  cs.foldl (fun names c => if c.name ∈ names then names else names ++ [c.name]) []

end Criterion

end Whittle
