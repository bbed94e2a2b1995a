import Whittle.Disk.Operations
import Whittle.Shell.Variables

/-!
# A process

A process has a directory, streams that lead to files, to a reader of its output, or nowhere, and
variables. What streams lead to is shared: who reads a line takes it away from all others with the
same `Channel`. What a process does may end it early: by leaving a loop, a function or the whole
script, or by a signal.
-/

namespace Whittle.Shell

/-- What an open stream leads to. -/
inductive Channel where
  | null
  | file (id offset : Nat) (append : Bool)
  | directory
  /-- What is left to read. -/
  | source (rest : Octets)
  /-- What was written, the last piece first, and how much it is. -/
  | collector (size : Nat) (pieces : List Octets)
  deriving Inhabited

/-- A command in the background. -/
inductive Job where
  | done (code : Nat)
  /-- It starts with a sleep until a time; what it needs to go on then. -/
  | asleep (due : Nat) (body : Command) (bindings : Variables) (cwd : Path)
      (parameters : List Octets) (streams : List (Nat × Nat))

/-- When a command in the background wakes up, unless it is done. -/
def Job.due? : Job → Option Nat
  | .done _ => none
  | .asleep due _ _ _ _ _ => some due

/-- What a shell keeps in mind while it goes through a script. -/
structure Interpreter where
  dialect : Dialect := .plain
  /-- The number by which the script knows itself. -/
  id : Nat := 0
  name : Octets := []
  parameters : List Octets := []
  functions : List (String × Command) := []
  status : Nat := 0
  options : List String := []
  /-- What is to be done at signals, the end of the script being signal 0. Nothing at all means that
  the signal is ignored. -/
  traps : List (Nat × Octets) := []
  /-- For each function that is being run, the variables as they were outside. -/
  scopes : List (List (String × Option Variable)) := []
  loops : Nat := 0
  line : Nat := 0
  /-- What was put in the background, the last one first. -/
  jobs : List (Nat × Job) := []
  lastJob : Option Nat := none
  /-- How many options of the word `OPTIND` counts were gone through. -/
  optionOffset : Nat := 0
  /-- The functions that are being run. -/
  calls : List String := []
  /-- The status from before the trap that is being run. -/
  trapping : Option Nat := none
  /-- The status of the last commands whose output a word took up. -/
  lastOutput : Option Nat := none
  /-- Streams whose content is to be read by commands once the current one is done. -/
  pending : List (Nat × List Command) := []
  /-- The files whose commands are being run, apart from the script itself. -/
  sources : List Octets := []
  /-- Directories to come back to. -/
  stack : List Octets := []
  aliases : List (String × Octets) := []
  random : Nat := 12345
  /-- How many texts are being run inside one another. -/
  level : Nat := 0
  /-- How many parts of the script that run by themselves are around a command. -/
  nesting : Nat := 0
  /-- The last word of the last command. -/
  lastWord : Octets := []

structure Process where
  disk : Disk
  channels : List (Nat × Channel)
  nextChannel : Nat
  /-- Not below the number of any process. -/
  lastId : Nat
  /-- Signals sent to processes that have not acted on them. -/
  sent : List (Nat × Nat)
  cwd : Path
  id : Nat
  /-- The processes that wait for this one. -/
  waiting : List Nat
  streams : List (Nat × Nat)
  bindings : Variables
  shell : Interpreter
  /-- The functions that shells that are started get to see. -/
  shared : List (String × Command) := []
  /-- The thousandths of a second that were slept so far. -/
  clock : Nat := 0
  /-- Whether something was to be written to a stream that is not open. -/
  unwritten : Bool := false
  /-- The permissions that new files do not get. -/
  mask : Nat := 18
  /-- A time that a process may not outlast, and its number. -/
  deadline : Option (Nat × Nat) := none

/-- Why what a process does comes to an end before its last command. -/
inductive Ending where
  | exit (code : Nat)
  /-- A signal ends a process: this one or one that waits for it. -/
  | killed (process signal : Nat)
  /-- Leave so many loops. -/
  | leave (loops : Nat)
  /-- Leave all but one of so many loops, and go on with the next round of that one. -/
  | again (loops : Nat)
  | back (code : Nat)
  /-- Go on with the next line of the script. -/
  | discard
  deriving DecidableEq, Repr

abbrev Doing := ExceptT Ending (StateM Process)

/-- How much a reader may be behind before its writer is stopped. -/
def pipeLimit : Nat := Nat.pow 2 22

namespace Process

def fileOf (p : Process) (name : Octets) : Path :=
  let text := Octets.text name
  if text = "" then ⟨""⟩ else p.cwd.join ⟨text⟩

def valueOf? (p : Process) (name : String) : Option Octets := p.bindings.text? name

def setVariable (p : Process) (name : String) (o : Octets) : Process :=
  { p with bindings := p.bindings.setText name o }

def hasOption (p : Process) (name : String) : Bool := p.shell.options.contains name

def isRich (p : Process) : Bool := p.shell.dialect = .rich

def channel? (p : Process) (stream : Nat) : Option (Nat × Channel) := do
  let key ← Disk.valueAt stream p.streams
  let c ← Disk.valueAt key p.channels
  return (key, c)

def setChannel (p : Process) (key : Nat) (c : Channel) : Process :=
  { p with channels := Disk.assign key c p.channels }

/-- A new channel, and its key. -/
def addChannel (p : Process) (c : Channel) : Nat × Process :=
  (p.nextChannel, { p with channels := (p.nextChannel, c) :: p.channels
                           nextChannel := p.nextChannel + 1 })

def setStream (p : Process) (stream key : Nat) : Process :=
  { p with streams := Disk.assign stream key p.streams }

def closeStream (p : Process) (stream : Nat) : Process :=
  { p with streams := p.streams.filter fun s => s.1 ≠ stream }

/-- Bytes with others written over them from an offset on. -/
def overwrite (content : ByteArray) (offset : Nat) (o : ByteArray) : ByteArray :=
  let front := content.extract 0 offset
  let gap : ByteArray := ⟨(List.replicate (offset - content.size) 0).toArray⟩
  front ++ gap ++ o ++ content.extract (offset + o.size) content.size

/-- Send octets down a channel. -/
def send (p : Process) (key : Nat) (o : Octets) : Except Ending Process :=
  match Disk.valueAt key p.channels with
  | some (.file id offset append) =>
    match p.disk.contentOf? id with
    | some content =>
      let bytes := Octets.toBytes o
      let start := if append then content.size else offset
      let disk := p.disk.setContent id (overwrite content start bytes)
      .ok ({ p with disk := disk }.setChannel key (.file id (start + bytes.size) append))
    | none => .ok p
  | some (.collector size pieces) =>
    if size > pipeLimit then .error (.killed p.id 13)
    else .ok (p.setChannel key (.collector (size + o.length) (o :: pieces)))
  | _ => .ok p

/-- What is left to read in a channel, and the process when it was read. -/
def drain (p : Process) (key : Nat) : Except IoError (Octets × Process) :=
  match Disk.valueAt key p.channels with
  | some .null => .ok ([], p)
  | some (.source rest) => .ok (rest, p.setChannel key (.source []))
  | some .directory => .error (.system .isDirectory)
  | some (.file id offset append) =>
    let content := ((p.disk.contentOf? id).getD ByteArray.empty)
    let rest := content.extract offset content.size
    .ok (Octets.ofBytes rest, p.setChannel key (.file id (offset + rest.size) append))
  | _ => .error (.system .badStream)

/-- Put back what was read too much. -/
def putBack (p : Process) (key : Nat) (o : Octets) : Process :=
  match Disk.valueAt key p.channels with
  | some (.source rest) => p.setChannel key (.source (o ++ rest))
  | some (.file id offset append) => p.setChannel key (.file id (offset - o.length) append)
  | _ => p

/-- The stream that a special file stands for. -/
def specialStream (name : Octets) : Option Nat :=
  match String.ofList name with
  | "/dev/stdin" => some 0
  | "/dev/stdout" => some 1
  | "/dev/stderr" => some 2
  | _ =>
    if "/dev/fd/".toList.isPrefixOf name then Text.readNat (name.drop 8) else none

def openSpecial (p : Process) (stream : Nat) : Except IoError (Nat × Process) :=
  match Disk.valueAt stream p.streams with
  | some key => .ok (key, p)
  | none => .error (.system .notFound)

/-- Open a file for reading: the key of its channel. -/
def openForReading (p : Process) (name : Octets) : Except IoError (Nat × Process) :=
  match specialStream name with
  | some s => p.openSpecial s
  | none =>
    match p.disk.stat (p.fileOf name) with
    | .error e => .error (.system e)
    | .ok (_, .file id _ _) => .ok (p.addChannel (.file id 0 false))
    | .ok (_, .dir) => .ok (p.addChannel .directory)
    | .ok (_, _) => .ok (p.addChannel .null)

/-- Open a file for writing: it is made if it is missing, and emptied unless what is written goes to
its end. -/
def openForWriting (p : Process) (name : Octets) (append : Bool) :
    Except IoError (Nat × Process) :=
  match specialStream name with
  | some s => p.openSpecial s
  | none =>
    let path := p.fileOf name
    let made := if append && p.disk.isFile path && (p.disk.locate .file path).isOk then .ok p.disk
      else p.disk.write path ByteArray.empty false
    match made with
    | .error e => .error e
    | .ok d =>
      match d.stat path with
      | .ok (_, .file id _ _) => .ok ({ p with disk := d }.addChannel (.file id 0 append))
      | .ok (_, _) => .ok (p.addChannel .null)
      | .error e => .error (.system e)

/-- Open a file for both, its content as it is. -/
def openForBoth (p : Process) (name : Octets) : Except IoError (Nat × Process) :=
  match p.openForWriting name true with
  | .error e => .error e
  | .ok (key, p) =>
    match Disk.valueAt key p.channels with
    | some (.file id _ _) => .ok (key, p.setChannel key (.file id 0 false))
    | _ => .ok (key, p)

/-- What outlasts another process that this one waited for. -/
def resume (old new : Process) : Process :=
  { old with disk := new.disk, channels := new.channels, nextChannel := new.nextChannel,
             lastId := new.lastId, sent := new.sent, clock := new.clock }

/-- Forget the channels made since a time, but those that a stream leads to. -/
def forget (p : Process) (since : Nat) : Process :=
  let open_ := p.streams.map Prod.snd
  { p with channels := p.channels.filter fun c => c.1 < since || open_.contains c.1 }

end Process

/-- The names in a directory, in order. -/
def namesIn (d : Disk) (dir : Path) : List Octets :=
  match d.stat dir with
  | .ok (place, .dir) =>
    let names := (d.below place).filterMap fun e =>
      match e.1 with
      | [n] => some (Octets.ofString n)
      | _ => none
    names.mergeSort Octets.isUpTo
  | _ => []

namespace Doing

def setStatus (n : Nat) : Doing Unit := modify fun p => { p with shell := { p.shell with status := n } }

def status : Doing Nat := do return (← get).shell.status

def onShell (f : Interpreter → Interpreter) : Doing Unit :=
  modify fun p => { p with shell := f p.shell }

/-- Write to a stream; the answer is whether it was open. -/
def writeTo (stream : Nat) (o : Octets) : Doing Bool := do
  let p ← get
  match Disk.valueAt stream p.streams with
  | none => return false
  | some key =>
    match p.send key o with
    | .ok p =>
      set p
      return true
    | .error e => throw e

def write (o : Octets) : Doing Unit := do
  if !o.isEmpty && !(← writeTo 1 o) then
    modify fun p => { p with unwritten := true }

def writeText (s : String) : Doing Unit := write (Octets.ofString s)

/-- Write a line to the stream for errors. -/
def complain (s : String) : Doing Unit := do
  let _ ← writeTo 2 (Octets.ofString (s ++ "\n"))

/-- Complain on behalf of the script, with the place it has come to. -/
def object (s : String) : Doing Unit := do
  let i := (← get).shell
  complain (Octets.text i.name ++ (if i.dialect = .rich then ": line " else ": ") ++
    Text.natText i.line ++ ": " ++ s)

/-- The words of a refusal by the system. -/
def wordingOf : IoError → String
  | .system e => e.wording
  | e => e.message

/-- What is left to read in a stream. -/
def readStream (stream : Nat) : Doing (Except IoError Octets) := do
  let p ← get
  match Disk.valueAt stream p.streams with
  | none => return .error (.system .badStream)
  | some key =>
    match p.drain key with
    | .ok (o, p) =>
      set p
      return .ok o
    | .error e => return .error e

/-- Leave octets in the input for who reads next. -/
def leaveInput (o : Octets) : Doing Unit := do
  let p ← get
  match Disk.valueAt 0 p.streams with
  | some key => set (p.putBack key o)
  | none => return ()

/-- The content of a file. -/
def readFile (name : Octets) : Doing (Except IoError Octets) := do
  let p ← get
  match p.openForReading name with
  | .error e => return .error e
  | .ok (key, q) =>
    match q.drain key with
    | .ok (o, q) =>
      set (q.forget p.nextChannel)
      return .ok o
    | .error e => return .error e

/-- The content of a file; a hyphen stands for the input. -/
def contentOf (name : Octets) : Doing (Except IoError Octets) :=
  if name = ['-'] then readStream 0 else readFile name

/-- Change the disk; a refusal is reported under the name of the program. -/
def change (program : String) (subject : Octets) (f : Process → Except IoError Disk) :
    Doing Nat := do
  let p ← get
  match f p with
  | .ok d =>
    set { p with disk := d }
    return 0
  | .error e =>
    complain (program ++ ": " ++ Octets.text subject ++ ": " ++ wordingOf e)
    return 1

/-- Do something for each of several subjects: the status is the worst of them. -/
def forAll {α : Type} (subjects : List α) (f : α → Doing Nat) : Doing Nat := do
  match subjects with
  | [] => return 0
  | s :: rest =>
    let first ← f s
    return max first (← forAll rest f)

/-- Do something with other streams, and bring back the old ones. -/
def keepingStreams {α : Type} (act : Doing α) : Doing α := do
  let p ← get
  let restore : Doing Unit := modify fun q => { q with streams := p.streams }.forget p.nextChannel
  try
    let a ← act
    restore
    return a
  catch e =>
    restore
    throw e

/-- What something writes to its output, and its answer. -/
def capturing {α : Type} (act : Doing α) : Doing (Octets × α) := do
  let p ← get
  let (key, q) := p.addChannel (.collector 0 [])
  set (q.setStream 1 key)
  let collected : Doing Octets := do
    let q ← get
    set { q with streams := p.streams, channels := q.channels.filter fun c => c.1 ≠ key }
    return match Disk.valueAt key q.channels with
      | some (.collector _ pieces) => pieces.reverse.flatten
      | _ => []
  try
    let a ← act
    return (← collected, a)
  catch e =>
    let _ ← collected
    throw e

/-- Repeat something as long as it says so; the number bounds how often. -/
def repeating : Nat → Doing Bool → Doing Unit
  | 0, _ => return ()
  | n + 1, act => do
    if ← act then repeating n act

end Doing

end Whittle.Shell
