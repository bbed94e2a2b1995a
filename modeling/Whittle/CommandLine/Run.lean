import Whittle.CommandLine.Words
import Whittle.Pipeline.Run

/-!
# A run from the command line

The exit code is zero if a result was saved or if only help or the version was asked for, and one
if nothing could be saved. Everything that ends a run before that has an exit code of its own. A
report that cannot be written is only warned about.
-/

namespace Whittle.CommandLine

/-- What is run: settings given at a directory, and where the report goes. -/
structure Job where
  settings : Settings
  base : Path
  report : Option Path

/-- Run a job, write its report, and answer where the result was saved. -/
def Job.run (host : Host) (j : Job) : Action (Option Path) := do
  let report ← Pipeline.run host j.settings j.base
  match j.report with
  | none => return report.outputPath
  | some p =>
    match ← Action.attempt (report.write p) with
    | .ok () => return report.outputPath
    | .error e =>
      Action.warn ("Failed to write run report " ++ p.text ++ ": " ++ e.message)
      return report.outputPath

/-- The job of a request; the report is looked up from where the run was started. -/
def Request.job (d : Disk) (r : Request) : Except Fault Job := do
  let base := Disk.pathOf d.cwd
  return ⟨← r.load d, base, r.report.map base.join⟩

/-- Run a request and report the fault that ends it. -/
def Request.run (host : Host) (r : Request) (w : World) : Nat × World :=
  let (result, w) := (do
    match r.job (← Action.getDisk) with
    | .ok j => j.run host
    | .error e => throw e : Action (Option Path)) w
  match result with
  | .ok (some _) => (0, w)
  | .ok none => (1, w)
  | .error e => (e.exitCode, { w with notices := w.notices ++ [⟨.error, e.message⟩] })

/-- Run a command line. -/
def run (host : Host) (words : List String) (w : World) : Nat × World :=
  match read words with
  | .ok r => r.run host w
  | .error h => (h.exitCode, w)

end Whittle.CommandLine
