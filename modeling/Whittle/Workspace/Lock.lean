import Whittle.World

/-!
# The lock of a work directory

The lock of a directory is an exclusive lock on a file in it. Taking it has three steps: open the
file, making it if it is missing and leaving its content alone; lock it, or give up at once if
someone holds it; write who holds it. Giving it back has two: remove the file while it is still
locked, then close it. A holder that dies only closes the file.
-/

namespace Whittle

open Text

structure HeldLock where
  path : Path
  id : Nat
  deriving DecidableEq, Repr

namespace Disk

/-- Open a file for a lock: its identity, and the disk on which it exists. -/
def openLockFile (d : Disk) (p : Path) : Except IoError (Nat × Disk) :=
  match d.locate .file p with
  | .error e => .error (.system e)
  | .ok l =>
    match d.get? l with
    | some (.file id _ _) => .ok (id, d)
    | some _ => .error (.system .isDirectory)
    | none =>
      .ok (d.nextId,
        { d.put l (.file d.nextId ByteArray.empty false) with nextId := d.nextId + 1 })

end Disk

/-- Who holds a lock. -/
structure LockInfo where
  processId : Nat
  createdAt : Nat × Nat
  version : String

def programVersion : String := "0.1.0"

def LockInfo.text (i : LockInfo) : String :=
  "\x7b\"pid\":" ++ natText i.processId ++ ",\"created_at\":\x7b\"secs_since_epoch\":" ++
    natText i.createdAt.1 ++ ",\"nanos_since_epoch\":" ++ natText i.createdAt.2 ++
    "\x7d,\"autopie_version\":\"" ++ i.version ++ "\"\x7d\n"

namespace HeldLock

def pathIn (dir : Path) : Path := dir.join ⟨Artifacts.lockFile⟩

/-- Take the lock of a directory without waiting for it. -/
def acquire (host : Host) (dir : Path) : Action HeldLock := do
  let path := pathIn dir
  let (id, opened) ← Action.ask (·.openLockFile path)
  Action.setDisk opened
  match opened.tryLock id with
  | none => throw (.workspaceBusy dir)
  | some d =>
    let info : LockInfo := ⟨host.processId, host.now, programVersion⟩
    Action.setDisk (d.setContent id info.text.toUTF8)
    return ⟨path, id⟩

/-- Remove the lock file, then let go of the lock. -/
def release (l : HeldLock) (w : World) : World :=
  let removed : World :=
    match w.disk.unlink l.path with
    | .ok d => { w with disk := d }
    | .error e =>
      let warning : Notice :=
        ⟨.warning, "Failed to remove lock file " ++ l.path.text ++ ": " ++ e.message⟩
      { w with notices := w.notices ++ [warning] }
  { removed with disk := removed.disk.unlock l.id }

end HeldLock

end Whittle
