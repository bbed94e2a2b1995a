import Whittle.Json.Value
import Whittle.Pipeline.Reduction
import Whittle.Pipeline.Slicing
import Whittle.Settings.Basic
import Whittle.Settings.Check
import Whittle.Workspace.Basic

/-!
# A whole run

Settings that are not valid, or a work directory that cannot be had, end a run before it has made
anything. After that every stage either replaces the program or leaves it as it was; the program
is saved, the work directory is cleaned up, and the run ends with a report.
-/

namespace Whittle.Pipeline

/-! ## Reports -/

structure Report where
  runId : String := ""
  stages : List StageRecord := []
  finalState : Option Subject := none
  outputPath : Option Path := none
  cleanup : Option CleanupReport := none
  deriving DecidableEq, Repr

/-- Report a record if it is bad. -/
def announce (r : StageRecord) : Action Unit :=
  if r.outcome.isBad then
    Action.warn ("[" ++ r.stage.name ++ "] " ++ r.outcome.title ++ ": " ++ r.detail)
  else return ()

/-- The outcome of the last record of a stage. -/
def outcomeOf (records : List StageRecord) (stage : Stage) : Option Outcome :=
  (records.reverse.find? fun r => r.stage = stage).map StageRecord.outcome

def languageName : Language → String
  | .c => "c"
  | .cpp => "cpp"

def subjectJson (s : Subject) : Json := .object
  [("source_path", .string s.source.text), ("failure_line", .ofNat s.failureLine),
   ("language", .string (languageName s.language)), ("program_arguments", .string s.arguments)]

def cleanupJson (c : CleanupReport) : Json := .object
  [("removed", .ofNat c.removed), ("already_gone", .ofNat c.alreadyGone),
   ("failed", .array (c.failed.map fun l => .string l.text))]

def recordJson (r : StageRecord) : Json := .object
  [("stage", .string r.stage.name), ("outcome", .string r.outcome.name),
   ("detail", .string r.detail)]

namespace Report

def json (r : Report) : Json := .object
  [("run_id", .string r.runId), ("stages", .array (r.stages.map recordJson)),
   ("final_state", .ofOption subjectJson r.finalState),
   ("output_path", .ofOption (fun p => .string p.text) r.outputPath),
   ("cleanup", .ofOption cleanupJson r.cleanup)]

def text (r : Report) : String := r.json.pretty

def write (r : Report) (p : Path) : Action Unit := Action.change (·.writeText p r.text)

end Report

/-! ## Runs -/

open Text

/-- What is carried from stage to stage. -/
structure Progress where
  subject : Subject
  criteria : List Criterion
  records : List StageRecord

namespace Progress

def record (p : Progress) (stage : Stage) (outcome : Outcome) (detail : String) :
    Action Progress := do
  let r : StageRecord := ⟨stage, outcome, detail⟩
  announce r
  return { p with records := p.records ++ [r] }

/-- Adopt the program that a stage produced, or keep the one before. -/
def adoptOrKeep (p : Progress) (stage : Stage) (result : Except Fault Subject) :
    Action Progress := do
  match result with
  | .ok next => return { ← p.record stage .adopted next.detail with subject := next }
  | .error e => p.record stage .keptPrevious e.message

end Progress

/-- Paths that are not absolute are looked up from where the run was started: tools run in the
work directory. -/
def anchor (base : Path) (s : Settings) : Settings :=
  let fixed (p : Path) : Path := if p.isAbsolute then p else base.join p
  { s with
    sourceFile := fixed s.sourceFile
    workDir := fixed s.workDir
    outputFile := some (fixed s.outputPath) }

def slicingStage (host : Host) (s : Settings) (pass : Pass) (p : Progress) : Work Progress := do
  if p.criteria = [] then p.record pass.stage .keptPrevious "no criteria"
  else p.adoptOrKeep pass.stage (← Work.attempt (pass.run host s p.subject p.criteria))

def reducerStage (host : Host) (s : Settings) (reducer : Reducer) (p : Progress) :
    Work Progress := do
  p.adoptOrKeep reducer.stage (← Work.attempt (reducer.run host s p.subject))

def criteriaStage (host : Host) (s : Settings) (p : Progress) : Work Progress := do
  let cs ← criteria host s p.subject
  let listed := String.intercalate ", " (cs.map Criterion.text)
  let next ← p.record .extractCriteria .completed
    (natText cs.length ++ " criteria [" ++ listed ++ "]")
  return { next with criteria := cs }

/-- One stage between the check and the end of a run. -/
def runStage (host : Host) (s : Settings) (stage : Stage) (p : Progress) : Work Progress :=
  match stage with
  | .extractCriteria => criteriaStage host s p
  | .staticSlice => slicingStage host s .static p
  | .dynamicSlice => slicingStage host s .dynamic p
  | .graphReduce => reducerStage host s .graph p
  | .statementReduce => reducerStage host s .statement p
  | _ => return p

/-- The stages that the settings leave in, from the one behind the check to the one before saving. -/
def workStages (s : Settings) : List Stage :=
  [.extractCriteria, .staticSlice, .dynamicSlice, .graphReduce, .statementReduce].filter s.enables

/-- The stages that settings may leave out. -/
def optionalStages : List Stage := [.extractCriteria, .staticSlice, .dynamicSlice, .graphReduce]

def runStages (host : Host) (s : Settings) : List Stage → Progress → Work Progress
  | [], p => return p
  | stage :: stages, p => do runStages host s stages (← runStage host s stage p)

/-- Whether a candidate is a regular file with content. -/
def isUsable (d : Disk) (p : Path) : Bool :=
  d.isFile p && (d.size p).toOption.getD 0 > 0

/-- Copy one candidate to the output, making the directory of the output. -/
def saveCandidate (d : Disk) (candidate output : Path) : Except SaveProblem Unit × Disk :=
  if !isUsable d candidate then (.error (.unusable candidate), d)
  else
    let made : Except SaveProblem Unit × Disk :=
      match output.parent with
      | some parent =>
        if parent.text = "" then (.ok (), d)
        else
          match d.makeDirs parent with
          | (.ok (), d') => (.ok (), d')
          | (.error e, d') => (.error (.noDirectory parent e), d')
      | none => (.ok (), d)
    match made with
    | (.error e, d') => (.error e, d')
    | (.ok (), d') =>
      match d'.copy candidate output with
      | .ok d'' => (.ok (), d'')
      | .error e => (.error (.notCopied candidate output e), d')

/-- Save the first candidate that can be saved. -/
def saveFirst (output : Path) : List Path → List SaveProblem → Disk →
    Except (List SaveProblem) Path × Disk
  | [], problems, d => (.error problems, d)
  | candidate :: rest, problems, d =>
    match saveCandidate d candidate output with
    | (.ok (), d') => (.ok candidate, d')
    | (.error e, d') => saveFirst output rest (problems ++ [e]) d'

/-- Save the program, or else the one the run was given. The answer is where it was saved. -/
def save (s : Settings) (p : Progress) : Action (Progress × Option Path) := do
  let output := s.outputPath
  let r := saveFirst output [p.subject.source, s.sourceFile] [] (← Action.getDisk)
  Action.setDisk r.2
  match r.1 with
  | .ok candidate =>
    return (← p.record .save .completed (candidate.text ++ " -> " ++ output.text), some output)
  | .error problems =>
    Action.report .error "The result variant could not be saved."
    return (← p.record .save .failed (Fault.notSaved problems).message, none)

/-- The records of the stages that the settings leave out. -/
def skippedRecords (s : Settings) : List StageRecord :=
  (optionalStages.filter fun stage => !s.enables stage).map fun stage =>
    ⟨stage, .skipped, "disabled"⟩

/-- The stages of a run on its workspace, up to saving. -/
def work (host : Host) (s : Settings) (p : Progress) : Work (Progress × Option Path) := do
  save s (← runStages host s (workStages s) p)

/-- What a run does with a workspace, and the release of the workspace whatever that was. -/
def conclude (host : Host) (s : Settings) (p : Progress) (workspace : Workspace) :
    Action Report := fun w =>
  let (result, site) := work host s p ⟨w, workspace⟩
  let (cleanup, site) := Workspace.release site
  match result with
  | .error e => (.error e, site.world)
  | .ok (p, output) =>
    (.ok {
      runId := workspace.runId
      stages := p.records ++
        [⟨.cleanup, .completed, cleanup.text⟩, ⟨.done, .completed, ""⟩]
      finalState := some p.subject
      outputPath := output
      cleanup := some cleanup }, site.world)

/-- Settings with which tools can be started from anywhere. -/
def prepare (host : Host) (d : Disk) (base : Path) (s : Settings) : Settings :=
  let anchored := anchor base s
  { anchored with tools := anchored.tools.resolve host.searchPath d base }

/-- What the stages of a run start from. -/
structure Start where
  settings : Settings
  progress : Progress
  workspace : Workspace

/-- Check settings given at `base` and acquire the work directory. -/
def start (host : Host) (given : Settings) (base : Path) : Action Start := do
  let s := prepare host (← Action.getDisk) base given
  let first : StageRecord :=
    ⟨.init, .completed, s.sourceFile.text ++ " line " ++ natText s.line⟩
  let language ← s.validate host base
  let source ← Action.ask (·.canonical s.sourceFile)
  let s := { s with sourceFile := source }
  let workspace ← Workspace.acquire host s.workDir
  let records := [first, ⟨.validate, .completed, "language " ++ language.title⟩] ++
    skippedRecords s
  return ⟨s, ⟨Subject.initial s language, [], records⟩, workspace⟩

/-- Run the pipeline on settings given at `base`. -/
def run (host : Host) (given : Settings) (base : Path) : Action Report := do
  let b ← start host given base
  conclude host b.settings b.progress b.workspace

end Whittle.Pipeline
