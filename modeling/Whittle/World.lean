import Whittle.Disk.Operations
import Whittle.Fault

/-!
# The world of a run

A run changes a `World`: the disk, the warnings and errors it has reported, and the calls of tools
it has made. What it cannot change is its `Host`: above all what the tools do, which may depend on
everything that happened before. An `Action` either answers or fails, and the world it leaves
behind is there in both cases.
-/

namespace Whittle

inductive Severity where
  | warning
  | error
  deriving DecidableEq, Repr

structure Notice where
  severity : Severity
  text : String
  deriving DecidableEq, Repr

/-- One call of a tool, with the disk as the call found it. -/
structure Call where
  program : Path
  argv : List String
  cwd : Path
  disk : Disk

/-- What a call of a tool leaves behind. -/
structure Reply where
  notices : List Notice
  result : Except Fault Int
  disk : Disk

structure Host where
  /-- What a tool does, given the calls before, from the first to the last, and the call itself. -/
  launch : List Call → Call → Reply
  /-- Where programs without a slash are looked for; `none` if that was never said. -/
  searchPath : Option (List Path)
  /-- The identifiers drawn by a run, in order. -/
  freshId : Nat → String
  processId : Nat
  /-- Seconds and nanoseconds since the epoch. -/
  now : Nat × Nat

structure World where
  disk : Disk
  notices : List Notice
  calls : List Call
  /-- How many identifiers were drawn. -/
  drawn : Nat

abbrev Action := ExceptT Fault (StateM World)

namespace World

def ofDisk (d : Disk) : World := ⟨d, [], [], 0⟩

end World

namespace Action

def getDisk : Action Disk := do return (← get).disk

def setDisk (d : Disk) : Action Unit := modify fun w => { w with disk := d }

def report (severity : Severity) (text : String) : Action Unit :=
  modify fun w => { w with notices := w.notices ++ [⟨severity, text⟩] }

def warn (text : String) : Action Unit := report .warning text

/-- Ask something of the disk. -/
def ask {α : Type} (f : Disk → Except IoError α) : Action α := do
  match f (← getDisk) with
  | .ok a => return a
  | .error e => throw (.io e)

/-- Change the disk, or leave it and fail. -/
def change (f : Disk → Except IoError Disk) : Action Unit := do
  match f (← getDisk) with
  | .ok d => setDisk d
  | .error e => throw (.io e)

/-- Change the disk, also when failing. -/
def transact (f : Disk → Except IoError Unit × Disk) : Action Unit := do
  let r := f (← getDisk)
  setDisk r.2
  match r.1 with
  | .ok () => return ()
  | .error e => throw (.io e)

/-- What an action answers, a failure included; it does not fail itself. -/
def attempt {α : Type} (a : Action α) : Action (Except Fault α) := fun w =>
  let r := a w
  (.ok r.1, r.2)

def freshId (host : Host) : Action String := fun w =>
  (.ok (host.freshId w.drawn), { w with drawn := w.drawn + 1 })

/-- Call a tool and wait for its end. -/
def launch (host : Host) (program : Path) (argv : List String) (cwd : Path) : Action Int :=
  fun w =>
    let call : Call := ⟨program, argv, cwd, w.disk⟩
    let reply := host.launch w.calls call
    (reply.result,
      { w with
        disk := reply.disk
        notices := w.notices ++ reply.notices
        calls := w.calls ++ [call] })

end Action

end Whittle
