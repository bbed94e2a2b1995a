import Whittle.Stage
import Whittle.World

/-!
# The ledger of artifacts

Whatever a run may leave in its work directory is registered before it is made. `Ledger.cleanup`
removes the artifacts in the reverse order, so that the contents of a directory go before it, and
reports what it could not remove. Links are removed, not followed.
-/

namespace Whittle

structure Artifact where
  path : Path
  owner : Stage
  deriving DecidableEq, Repr

/-- Artifacts in order of registration. -/
structure Ledger where
  artifacts : List Artifact
  deriving DecidableEq, Repr, Inhabited

/-- An artifact that could not be removed. -/
structure Leftover where
  path : Path
  cause : IoError
  deriving DecidableEq, Repr

def Leftover.text (l : Leftover) : String := l.path.text ++ ": " ++ l.cause.message

structure CleanupReport where
  removed : Nat
  alreadyGone : Nat
  failed : List Leftover
  deriving DecidableEq, Repr

namespace CleanupReport

def empty : CleanupReport := ⟨0, 0, []⟩

def countRemoved (r : CleanupReport) : CleanupReport := { r with removed := r.removed + 1 }

def countGone (r : CleanupReport) : CleanupReport := { r with alreadyGone := r.alreadyGone + 1 }

def addLeftover (r : CleanupReport) (l : Leftover) : CleanupReport :=
  { r with failed := r.failed ++ [l] }

def text (r : CleanupReport) : String :=
  Text.natText r.removed ++ " removed, " ++ Text.natText r.alreadyGone ++ " already gone, " ++
    Text.natText r.failed.length ++ " failed"

end CleanupReport

/-- Remove a file, a link or a directory with everything in it. The answer is whether anything was
there. -/
def Disk.removeArtifact (d : Disk) (p : Path) : Except IoError Bool × Disk :=
  match d.lstat p with
  | .error .notFound => (.ok false, d)
  | .error e => (.error (.system e), d)
  | .ok (_, .dir) =>
    match d.removeTree p with
    | (.ok (), d') => (.ok true, d')
    | (.error e, d') => if e.isNotFound then (.ok false, d') else (.error e, d')
  | .ok (_, _) =>
    match d.unlink p with
    | .ok d' => (.ok true, d')
    | .error e => if e.isNotFound then (.ok false, d) else (.error e, d)

namespace Ledger

def empty : Ledger := ⟨[]⟩

def contains (l : Ledger) (p : Path) : Bool := l.artifacts.any fun a => a.path.same p

def count (l : Ledger) : Nat := l.artifacts.length

/-- Register a path, unless it is registered. -/
def register (l : Ledger) (p : Path) (owner : Stage) : Ledger :=
  if l.contains p then l else ⟨l.artifacts ++ [⟨p, owner⟩]⟩

/-- Register a path; the answer is whether it was new. -/
def enter (l : Ledger) (p : Path) (owner : Stage) : Bool × Ledger :=
  (!l.contains p, l.register p owner)

/-- Remove one artifact and enter the result into a report. -/
def sweepOne (a : Artifact) (s : CleanupReport × World) : CleanupReport × World :=
  let r := s.2.disk.removeArtifact a.path
  let w : World := { s.2 with disk := r.2 }
  match r.1 with
  | .ok true => (s.1.countRemoved, w)
  | .ok false => (s.1.countGone, w)
  | .error e =>
    let leftover : Leftover := ⟨a.path, e⟩
    let warning : Notice :=
      ⟨.warning, "Failed to remove artifact " ++ leftover.text ++ " (from " ++ a.owner.name ++ ")"⟩
    (s.1.addLeftover leftover, { w with notices := w.notices ++ [warning] })

/-- Remove every artifact, the last one first. -/
def cleanup (l : Ledger) (w : World) : CleanupReport × World :=
  l.artifacts.foldr sweepOne (CleanupReport.empty, w)

/-- Clean up; nothing stays registered. -/
def drain (l : Ledger) (w : World) : CleanupReport × Ledger × World :=
  ((l.cleanup w).1, .empty, (l.cleanup w).2)

end Ledger

end Whittle
