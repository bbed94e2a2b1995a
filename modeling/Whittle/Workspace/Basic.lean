import Whittle.Workspace.Ledger
import Whittle.Workspace.Lock

/-!
# The work directory of a run

A workspace is a locked directory and the ledger of what was put into it. It is acquired before
anything is made in it and released once: the artifacts go, then the lock, then the directory if
the run made it.
-/

namespace Whittle

structure Workspace where
  runId : String
  /-- The directory, as an absolute path without links. -/
  root : Path
  /-- Whether the directory was missing when the workspace was acquired. -/
  createdRoot : Bool
  ledger : Ledger
  lock : Option HeldLock
  /-- What the release left, once there was one. -/
  report : Option CleanupReport

/-- A world with the workspace in use. -/
structure Site where
  world : World
  workspace : Workspace

/-- An action that also works on the workspace. -/
abbrev Work := ExceptT Fault (StateM Site)

namespace Work

def run {α : Type} (a : Action α) : Work α := fun s =>
  let r := a s.world
  (r.1, { s with world := r.2 })

instance : MonadLift Action Work := ⟨run⟩

def workspace : Work Workspace := fun s => (.ok s.workspace, s)

def setWorkspace (w : Workspace) : Work Unit := fun s => (.ok (), { s with workspace := w })

/-- What such an action answers, a failure included; it does not fail itself. -/
def attempt {α : Type} (a : Work α) : Work (Except Fault α) := fun s =>
  let r := a s
  (.ok r.1, r.2)

end Work

namespace Workspace

/-- The path of a name in the work directory. -/
def path (w : Workspace) (name : String) : Path := w.root.join ⟨name⟩

/-- Make a work directory if it is missing and lock it. -/
def acquire (host : Host) (dir : Path) : Action Workspace := do
  let createdRoot := !(← Action.getDisk).pathExists dir
  Action.transact fun d =>
    match d.makeDirs dir with
    | (.ok (), d') => (.ok (), d')
    | (.error e, d') => (.error (.makingWorkspace dir e), d')
  let root ← Action.ask (·.canonical dir)
  match ← Action.attempt (HeldLock.acquire host root) with
  | .ok lock =>
    let runId ← Action.freshId host
    return ⟨runId, root, createdRoot, .empty, some lock, none⟩
  | .error e =>
    if createdRoot then
      let d ← Action.getDisk
      Action.setDisk (d.removeTree root).2
    throw e

/-- Enter a path into the ledger; the answer is whether it was new. -/
def register (p : Path) (owner : Stage) : Work Bool := do
  let w ← Work.workspace
  Work.setWorkspace { w with ledger := w.ledger.register p owner }
  return !w.ledger.contains p

/-- Remove a file that stands where a product is expected. -/
def removeStale (p : Path) : Work Unit :=
  Action.change fun d =>
    match d.unlink p with
    | .ok d' => .ok d'
    | .error e => if e.isNotFound then .ok d else .error e

/-- Register the name of a product and remove what an earlier run left there. -/
def prepareOutput (name : String) (owner : Stage) : Work Path := do
  let p := (← Work.workspace).path name
  let _ ← register p owner
  removeStale p
  return p

/-- Make a directory in the work directory; one that was there is not registered. -/
def createDir (name : String) (owner : Stage) : Work Path := do
  let p := (← Work.workspace).path name
  if !(← Action.getDisk).pathExists p then
    let _ ← register p owner
  Action.transact (·.makeDirs p)
  return p

def copyIn (source : Path) (name : String) (owner : Stage) : Work Path := do
  let target := (← Work.workspace).path name
  let _ ← register target owner
  Action.change fun d =>
    match d.copy source target with
    | .ok d' => .ok d'
    | .error e => .error (.copying source target e)
  return target

/-- Rename a product, or copy it where it cannot be renamed. -/
def moveIn (source : Path) (name : String) (owner : Stage) : Work Path := do
  let target := (← Work.workspace).path name
  let _ ← register target owner
  removeStale target
  match ← Action.attempt (Action.change (·.rename source target)) with
  | .ok () => return target
  | .error _ =>
    Action.change (·.copy source target)
    let _ ← Action.attempt (Action.change (·.unlink source))
    return target

/-- Remove a work directory that the run made. -/
def removeRoot (root : Path) (s : CleanupReport × World) : CleanupReport × World :=
  let r := s.2.disk.removeTree root
  let w : World := { s.2 with disk := r.2 }
  match r.1 with
  | .ok () => (s.1.countRemoved, w)
  | .error e =>
    if e.isNotFound then (s.1.countGone, w)
    else
      let leftover : Leftover := ⟨root, e⟩
      let warning : Notice :=
        ⟨.warning, "Failed to remove workspace " ++ leftover.text⟩
      (s.1.addLeftover leftover, { w with notices := w.notices ++ [warning] })

/-- Clean up, unlock, and remove the directory if the run made it. A second release repeats the
report of the first and does nothing. -/
def release (s : Site) : CleanupReport × Site :=
  match s.workspace.report with
  | some report => (report, s)
  | none =>
    let swept := s.workspace.ledger.cleanup s.world
    let unlocked := match s.workspace.lock with
      | some lock => lock.release swept.2
      | none => swept.2
    let final :=
      if s.workspace.createdRoot then removeRoot s.workspace.root (swept.1, unlocked)
      else (swept.1, unlocked)
    (final.1,
      { world := final.2
        workspace := { s.workspace with ledger := .empty, lock := none, report := some final.1 } })

def isReleased (w : Workspace) : Bool := w.report.isSome

/-- What happens to a workspace that is given up without a release. -/
def drop (s : Site) : Site := if s.workspace.isReleased then s else (release s).2

end Workspace

end Whittle
