import Whittle.Criterion
import Whittle.Language
import Whittle.Insertion.Arguments
import Whittle.Slice.Shift

/-!
# Ending a program before it fails

A guard before the failure line uses the variables of the criteria and ends the program normally;
the header it needs becomes the first line. `Guard.restore` takes line numbers of the guarded text
back to the program.
-/

namespace Whittle.Insertion

open Text

/-- A guard before a failure line. -/
structure Guard where
  failureLine : Nat
  deriving DecidableEq, Repr

namespace Guard

/-- The line of the guarded text on which the guard stands. -/
def line (g : Guard) : Nat := g.failureLine + 1

/-- The criteria for the guarded text: each variable on the line of the guard. -/
def criteria (g : Guard) (cs : List Criterion) : List Criterion := cs.map fun c => c.atLine g.line

/-- The lines of the program among lines of the guarded text; header and guard are dropped. -/
def restore (g : Guard) (lines : List Nat) : List Nat :=
  let kept := lines.filter fun n => n ≠ 1 ∧ n ≠ g.line
  shiftLines (shiftLines kept (g.line + 1) (-1)) 2 (-1)

/-- The guard: every variable once, then the call that ends the program. -/
def text (language : Language) (cs : List Criterion) : String :=
  String.intercalate " "
    ((Criterion.distinctNames cs).map (fun v => "(void)(" ++ v ++ ");") ++ [language.exitCall])

end Guard

/-- A source with a guard before its failure line, which must be a line of the source. -/
def guardSource (language : Language) (source : String) (failureLine : Nat) (cs : List Criterion) :
    Except Fault (String × Guard) :=
  let ls := lines source
  if failureLine = 0 ∨ failureLine > ls.length then
    .error (.lineOutsideSource failureLine ls.length)
  else
    .ok (joinLines
        (language.exitHeader :: insertLines (failureLine - 1) [Guard.text language cs] ls),
      ⟨failureLine⟩)

end Whittle.Insertion
