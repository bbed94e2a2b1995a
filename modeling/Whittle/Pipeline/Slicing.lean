import Whittle.Pipeline.Cut
import Whittle.Criterion
import Whittle.Settings.Basic
import Whittle.Tool.Command
import Whittle.Workspace.Basic
import Whittle.Insertion.Guard
import Whittle.Tool.Container

/-!
# Slicing passes

A pass calls its slicer once for every criterion, takes the lines that were kept back to the
numbering of the current source, and cuts the source down to the union of the slices. The static
pass may write the arguments of the program into what the slicer reads; the dynamic pass ends the
program before it fails. A criterion whose slicer fails is passed over.

The criteria come from the variable extractor, which lists the variables on the failure line. Whatever
goes wrong with it, the answer is an empty list, and the passes find nothing to do.
-/

namespace Whittle.Pipeline

open Text Insertion

/-! ## Criteria at the failure -/

/-- The call of the variable extractor. -/
def extractorCommand (s : Settings) (subject : Subject) : Command where
  program := s.tools.variableExtractor
  locLine := some subject.failureLine
  flags := [("verbose", s.verbose), ("log", s.log)]
  output := some Artifacts.criteriaFile
  source := some subject.source

def tryCriteria (host : Host) (s : Settings) (subject : Subject) : Work (List Criterion) := do
  let output ← Workspace.prepareOutput Artifacts.criteriaFile .extractCriteria
  (extractorCommand s subject).runChecked host (← Work.workspace).root
  Criterion.readAll (← Action.ask (·.readText output))

def criteria (host : Host) (s : Settings) (subject : Subject) : Work (List Criterion) := do
  match ← Work.attempt (tryCriteria host s subject) with
  | .ok cs => return cs
  | .error e =>
    Action.warn ("Variable extraction failed: " ++ e.message)
    return []

/-! ## Passes -/

inductive Pass where
  | static
  | dynamic
  deriving DecidableEq, Repr

namespace Pass

def stage : Pass → Stage
  | .static => .staticSlice
  | .dynamic => .dynamicSlice

/-- What the names of the files of a pass start with. -/
def title : Pass → String
  | .static => "static"
  | .dynamic => "dynamic"

def recipe (s : Settings) : Pass → ContainerRecipe
  | .static => s.tools.staticContainer
  | .dynamic => s.tools.dynamicContainer

def program (s : Settings) : Pass → Path
  | .static => s.tools.staticSlicer
  | .dynamic => s.tools.dynamicSlicer

/-- The call of a slicer that runs on this machine. -/
def command (s : Settings) (p : Pass) (input : Path) (criterion : Criterion)
    (arguments : String) : Command where
  program := p.program s
  locLine := some criterion.line
  arguments := match p with
    | .static => none
    | .dynamic => some arguments
  options := [("criterion", criterion.text)]
  flags := [("verbose", s.verbose), ("log", s.log)]
  output := some Artifacts.sliceLinesFile
  source := some input

/-- Call a slicer; the answer is the file of the lines that were kept. -/
def callSlicer (host : Host) (s : Settings) (p : Pass) (input : Path) (criterion : Criterion)
    (arguments : String) : Work Path := do
  match s.backend with
  | .container =>
    Container.slice host s.tools.containerRuntime (p.recipe s) input criterion arguments p.stage
  | .local =>
    let raw ← Workspace.prepareOutput Artifacts.sliceLinesFile p.stage
    (p.command s input criterion arguments).runChecked host (← Work.workspace).root
    if !(← Action.getDisk).isFile raw then throw (.noSliceLines (p.program s))
    return raw

/-- Write the slice of one criterion. -/
def storeSlice (p : Pass) (index : Nat) (ns : List Nat) : Work Path := do
  let path ← Workspace.prepareOutput (p.title ++ "_slice_" ++ natText index ++ ".txt") p.stage
  Slice.store path ns
  return path

/-- What the static slicer reads for one criterion: a copy of the source, with the arguments
written into it where that is wanted and can be done. -/
def staticInput (s : Settings) (subject : Subject) (index : Nat) :
    Work (Path × Option Planting) := do
  let input ← Workspace.prepareOutput
    ("static_input_" ++ natText index ++ "." ++ subject.extension) .staticSlice
  Action.change (·.copy subject.source input)
  if s.inject ∧ words subject.arguments ≠ [] then
    match ← Work.attempt (plantFile input subject.language subject.arguments) with
    | .ok planting => return (input, some planting)
    | .error e =>
      Action.warn ("Argument injection skipped: " ++ e.message)
      return (input, none)
  else return (input, none)

/-- The slices of the static pass, one for every criterion whose slicer did not fail. -/
def staticSlices (host : Host) (s : Settings) (subject : Subject) :
    Nat → List Criterion → Work (List Path)
  | _, [] => return []
  | index, c :: cs => do
    let (input, planting) ← staticInput s subject index
    let effective := (planting.map fun p => p.shift c).getD c
    match ← Work.attempt (callSlicer host s .static input effective "") with
    | .error e =>
      Action.warn ("Static slicing of '" ++ c.text ++ "' failed: " ++ e.message)
      staticSlices host s subject (index + 1) cs
    | .ok raw =>
      let ns ← Slice.load raw
      let path ← storeSlice .static index ((planting.map fun p => p.restore ns).getD ns)
      return path :: (← staticSlices host s subject (index + 1) cs)

/-- The slices of the dynamic pass for criteria on the line of a guard. -/
def guardedSlices (host : Host) (s : Settings) (subject : Subject) (input : Path) (guard : Guard) :
    Nat → List Criterion → Work (List Path)
  | _, [] => return []
  | index, c :: cs => do
    match ← Work.attempt (callSlicer host s .dynamic input c subject.arguments) with
    | .error e =>
      Action.warn ("Dynamic slicing of '" ++ c.text ++ "' failed: " ++ e.message)
      guardedSlices host s subject input guard (index + 1) cs
    | .ok raw =>
      let ns ← Slice.load raw
      let path ← storeSlice .dynamic index (guard.restore ns)
      return path :: (← guardedSlices host s subject input guard (index + 1) cs)

/-- The slices of the dynamic pass; all criteria share one guarded copy. -/
def dynamicSlices (host : Host) (s : Settings) (subject : Subject) (cs : List Criterion) :
    Work (List Path) := do
  if cs = [] then return []
  let source ← Action.ask (·.readText subject.source)
  match guardSource subject.language source subject.failureLine cs with
  | .error e => throw e
  | .ok (text, guard) =>
    let input ← Workspace.prepareOutput ("dynamic_input." ++ subject.extension) .dynamicSlice
    Action.change (·.writeText input text)
    guardedSlices host s subject input guard 0 (guard.criteria cs)

def slices (host : Host) (s : Settings) (p : Pass) (subject : Subject) (cs : List Criterion) :
    Work (List Path) :=
  match p with
  | .static => staticSlices host s subject 0 cs
  | .dynamic => dynamicSlices host s subject cs

/-- The file of the union of all slices of a pass. -/
def unite (host : Host) (s : Settings) (p : Pass) (subject : Subject) (cs : List Criterion) :
    Work Path := do
  let files ← slices host s p subject cs
  let unionFile ← Workspace.prepareOutput Artifacts.unionFile p.stage
  let _ ← Slice.unify files unionFile
  return unionFile

/-- A whole pass. If it fails it produced nothing that can be used. -/
def run (host : Host) (s : Settings) (p : Pass) (subject : Subject) (cs : List Criterion) :
    Work Subject := do
  cut host s subject (← unite host s p subject cs) p.stage
    (p.title ++ "_sliced." ++ subject.extension)

end Pass

end Whittle.Pipeline
