import Whittle.Criterion
import Whittle.Grammar.Entry
import Whittle.Slice.Shift
import Whittle.Text.Replace

/-!
# Writing arguments into a program

Two lines behind the opening brace of `main` replace the arguments with which a program is called
by given ones. `Planting` remembers where they went: `shift` takes a criterion of the program to
the text with the two lines, and `restore` takes line numbers of that text back.
-/

namespace Whittle.Insertion

open Text Grammar

/-- How many lines are added. -/
def plantedCount : Nat := 2

/-- Where the first added line stands. -/
structure Planting where
  line : Nat
  deriving DecidableEq, Repr

namespace Planting

def shift (p : Planting) (c : Criterion) : Criterion :=
  c.atLine ((shiftLine c.line p.line plantedCount).getD c.line)

/-- The lines of the program among lines of the longer text; the added lines are dropped. -/
def restore (p : Planting) (lines : List Nat) : List Nat :=
  shiftLines (lines.filter fun n => !(p.line ≤ n && n < p.line + plantedCount)) p.line
    (-plantedCount)

end Planting

/-- A string literal of C. -/
def stringLiteral (s : String) : String :=
  "\"" ++ replaceAll "\"" "\\\"" (replaceAll "\\" "\\\\" s) ++ "\""

/-- The declaration of the array of arguments, and the assignments of their count and the array to
the parameters of `main`. -/
def plantedLines (arguments : List String) (count values : String) : List String :=
  let elements :=
    [values ++ "[0]"] ++ arguments.map (fun a => "(char*)" ++ stringLiteral a) ++ ["0"]
  ["char* " ++ Artifacts.argumentArray ++ "[] = \x7b " ++ String.intercalate ", " elements ++
      " \x7d;",
    count ++ " = " ++ natText (arguments.length + 1) ++ "; " ++ values ++ " = " ++
      Artifacts.argumentArray ++ ";"]

/-- The lines with more lines behind the first `n`. -/
def insertLines (n : Nat) (more ls : List String) : List String := ls.take n ++ more ++ ls.drop n

/-- A source with its arguments written into it, where `parse` makes a tree of the source. The body
of `main` must span several lines, and its first two parameters must have names. -/
def plantWith (parse : Language → String → Except Fault Tree) (language : Language)
    (source arguments : String) : Except Fault (String × Planting) := do
  let entry ← entryOf parse language source
  match entry.countAndValues with
  | none => throw .unnamedParameters
  | some (count, values) =>
    if entry.closeLine = entry.openLine then throw .oneLineBody
    return (joinLines
        (insertLines entry.openLine (plantedLines (words arguments) count values) (lines source)),
      ⟨entry.openLine + 1⟩)

def plant (language : Language) (source arguments : String) : Except Fault (String × Planting) :=
  plantWith parseUnit language source arguments

/-- The same for a file, in place. -/
def plantFile (p : Path) (language : Language) (arguments : String) : Action Planting := do
  let source ← Action.ask (·.readText p)
  let (text, planting) ← match plant language source arguments with
    | .ok r => pure r
    | .error e => throw e
  Action.change (·.writeText p text)
  return planting

end Whittle.Insertion
