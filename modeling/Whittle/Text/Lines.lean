/-!
# Lines of a text

A line ends with a line feed, or with a carriage return and a line feed; the end is not part of
the line. What follows the last line feed is a line if it is not empty.
-/

namespace Whittle.Text

def lineChars : List Char → List (List Char)
  | [] => []
  | c :: cs =>
    if c = '\n' then [] :: lineChars cs
    else if c = '\r' ∧ cs.head? = some '\n' then lineChars cs
    else
      match lineChars cs with
      | [] => [[c]]
      | l :: ls => (c :: l) :: ls

def lines (s : String) : List String := (lineChars s.toList).map String.ofList

def lineCount (s : String) : Nat := (lineChars s.toList).length

@[simp] theorem length_lines (s : String) : (lines s).length = lineCount s := by
  simp [lines, lineCount]

/-- Every line followed by a line feed. -/
def unlinesChars : List (List Char) → List Char
  | [] => []
  | l :: ls => l ++ '\n' :: unlinesChars ls

/-- The lines joined by line feeds, with one more at the end. -/
def joinLines (ls : List String) : String := String.intercalate "\n" ls ++ "\n"

end Whittle.Text
