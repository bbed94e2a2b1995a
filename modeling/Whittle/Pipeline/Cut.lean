import Whittle.Settings.Basic
import Whittle.Slice.Lines
import Whittle.Tool.Command
import Whittle.Workspace.Basic

/-!
# From a union of slices to a smaller program

The slice extractor writes the lines of a union to a new source, and the failure line in it to a
file beside. The product is adopted under a name of its own if that line is one of its lines.
-/

namespace Whittle.Pipeline

open Text

/-- The call of the slice extractor. -/
def cutCommand (s : Settings) (subject : Subject) (unionFile : Path) : Command where
  program := s.tools.sliceExtractor
  locLine := some subject.failureLine
  options := [("slice-file", unionFile.text)]
  flags := [("verbose", s.verbose), ("log", s.log)]
  output := some Artifacts.sliceStem
  source := some subject.source

/-- The number of lines of a text file. -/
def countLines (p : Path) : Action Nat := do return lineCount (← Action.ask (·.readText p))

/-- The failure line a tool reported, if it reported one. -/
def adjustedLine (p : Path) : Action (Option Nat) := do
  return Slice.readSingleFile (← Action.getDisk) p

/-- What the slice extractor leaves: the product, and the file of the failure line in it. -/
structure Extract where
  produced : Path
  adjusted : Path
  deriving DecidableEq, Repr

/-- Call the slice extractor. -/
def extract (host : Host) (s : Settings) (subject : Subject) (unionFile : Path) (owner : Stage) :
    Work Extract := do
  let produced ← Workspace.prepareOutput (Artifacts.sliceStem ++ "." ++ subject.extension) owner
  let adjusted ← Workspace.prepareOutput Artifacts.adjustedLineFile owner
  (cutCommand s subject unionFile).runChecked host (← Work.workspace).root
  return ⟨produced, adjusted⟩

/-- The failure line in an extract: the one that was reported, or else the one before. -/
def extractLine (subject : Subject) (e : Extract) : Action Nat := do
  match ← adjustedLine e.adjusted with
  | some line => return line
  | none =>
    Action.warn ("No usable " ++ Artifacts.adjustedLineFile ++ ", keeping line " ++
      natText subject.failureLine)
    return subject.failureLine

/-- Give the product a name of its own and make it the current program. -/
def adoptExtract (subject : Subject) (e : Extract) (owner : Stage) (productName : String) :
    Work Subject := do
  if ((← Action.getDisk).size e.produced).toOption.getD 0 = 0 then throw (.noExtract e.produced)
  let line ← extractLine subject e
  let product ← Workspace.moveIn e.produced productName owner
  let count ← countLines product
  if line > count then throw (.lineOutsideExtract line count)
  return subject.adopt product line

def cut (host : Host) (s : Settings) (subject : Subject) (unionFile : Path) (owner : Stage)
    (productName : String) : Work Subject := do
  adoptExtract subject (← extract host s subject unionFile owner) owner productName

end Whittle.Pipeline
