import Whittle.Shell.Builtins
import Whittle.Shell.Reader

/-!
# Shell processes

What a shell does to run the parts of a script is an `Engine`: the definitions of this and the next
modules take one for everything that is nested further down, and `engine` builds one of any depth. A
part of a script that runs by itself is a process of its own: it shares the disk and the open files
with the rest, but not its variables. At its end, and when signals come in, a shell does what its
traps say.
-/

namespace Whittle.Shell

open Doing

/-- What the parts of a script are run by. -/
structure Engine where
  /-- Run a command. Where it is guarded its failure is looked at and does not end the script. -/
  exec : (guarded : Bool) → Command → Doing Unit
  /-- Expand a word. In an operand the octets of the script itself may separate fields. -/
  expand : (operand : Bool) → Word → Doing (List Atom)
  /-- Run a program by its content and its words, the first of which is its name. A file that does
  not say what it is may count as a script of a dialect; the number bounds the chain of
  interpreters. -/
  program : Option Dialect → (depth : Nat) → (path content : Octets) → List Octets → Doing Nat

/-- Give up on a script that takes too long. -/
def exhausted {α : Type} : Doing α := do
  let p ← get
  match p.deadline with
  | some (time, id) =>
    set { p with clock := time }
    throw (.killed id 15)
  | none => throw (.killed p.id 9)

/-- An engine for nothing. -/
def Engine.empty : Engine := ⟨fun _ _ => exhausted, fun _ _ => exhausted, fun _ _ _ _ _ => exhausted⟩

/-- How often a part of a script may be repeated. -/
def roundLimit : Nat := Nat.pow 10 7

/-- Run another process, one that starts with what `change` makes of this one; the answer is its
code, that of a signal being above 128. -/
def asChild (change : Process → Process) (act : Doing Nat) : Doing Nat := do
  let p ← get
  let id := p.lastId + 1
  set (change { p with id := id, lastId := id, waiting := p.id :: p.waiting })
  let restore : Doing Unit := modify fun q => (p.resume q).forget p.nextChannel
  try
    let n ← act
    restore
    return n
  catch e =>
    restore
    match e with
    | .killed t n => if t = id then return 128 + n else throw e
    | e => throw e

/-- The traps that a new process keeps: those that do nothing, and an inherited one for failures. -/
def keptTraps (i : Interpreter) : List (Nat × Octets) := i.traps.filter fun t =>
  t.2.isEmpty || (t.1 = errorTrap && i.options.contains "errtrace")

/-- The process of a part of a script that runs by itself. -/
def Process.apart (p : Process) : Process :=
  let loops := if p.isRich then 0 else p.shell.loops
  { p with shell := { p.shell with
      traps := keptTraps p.shell, trapping := none, jobs := [], pending := [], loops := loops
      nesting := p.shell.nesting + 1 } }

/-- The process of a program that is started. -/
def Process.started (p : Process) : Process :=
  { p with bindings := p.bindings.exports
           shell := { traps := p.shell.traps.filter fun t => t.2.isEmpty } }

/-! ### Scripts and traps -/

/-- The first line of a complaint about a script that cannot be read. -/
def objectToScript (where_ : String) (fault : Nat × String) : Doing Unit := do
  let i := (← get).shell
  let rich := i.dialect = .rich
  complain (Octets.text i.name ++ ": " ++ where_ ++ (if rich then "line " else "") ++
    Text.natText fault.1 ++ (if rich then ": syntax error: " else ": Syntax error: ") ++ fault.2)

/-- A script as the shell understands it at the moment. -/
def Source.under (p : Process) (s : Source) : Source :=
  let aliases := if p.isRich && !p.hasOption "expand_aliases" then [] else p.shell.aliases
  { s with groups := p.hasOption "extglob", aliases := aliases }

/-- Run the lines of a script; the number bounds them. If it `resumes`, a line that is given up is
not the end. The answer is whether the script could be read to its end. -/
def runLines (E : Engine) (guarded resumes : Bool) : Nat → Source → Doing Bool
  | 0, _ => exhausted
  | n + 1, s => do
    match (s.under (← get)).next? with
    | .error fault =>
      objectToScript "" fault
      setStatus 2
      return false
    | .ok none => return true
    | .ok (some (line, s)) =>
      try
        for c in line do
          E.exec guarded c
      catch e =>
        if resumes && e = .discard then setStatus 1 else throw e
      runLines E guarded resumes n s

/-- Run a script from its text. -/
def runScript (E : Engine) (guarded resumes : Bool) (o : Octets) : Doing Bool := do
  runLines E guarded resumes (o.length + 1) (.ofText (← get).shell.dialect o)

/-- Run commands given as a text. In the plain dialect a text that cannot be read ends the script. -/
def runText (E : Engine) (guarded : Bool) (o : Octets) : Doing Unit := do
  let dialect := (← get).shell.dialect
  onShell fun i => { i with level := i.level + 1 }
  let restore : Doing Unit := onShell fun i => { i with level := i.level - 1 }
  let whole ← (try
      let whole ← runScript E guarded false o
      restore
      return whole
    catch e =>
      restore
      throw e)
  if !whole && dialect = .plain then throw (.exit 2)

/-- Do what a trap says; the status is the one from before. -/
def runTrap (E : Engine) (status : Nat) (action : Octets) : Doing Unit := do
  let old := (← get).shell
  onShell fun i => { i with trapping := some status, status := status }
  runText E false action
  onShell fun i => { i with trapping := old.trapping, status := old.status }

/-- Do what the trap for the end of a function or of a file of commands says. -/
def runReturnTrap (E : Engine) (code : Nat) : Doing Unit := do
  match Disk.valueAt returnTrap (← get).shell.traps with
  | some action => runTrap E code action
  | none => return ()

/-- Act on the signals that were sent to this process. -/
def deliver (E : Engine) : Doing Unit := do
  if !(← get).sent.isEmpty then
    repeating roundLimit do
      let p ← get
      match p.sent.find? fun s => s.1 = p.id with
      | none => return false
      | some s =>
        set { p with sent := p.sent.erase s }
        match Disk.valueAt s.2 p.shell.traps with
        | some action => if !action.isEmpty then runTrap E p.shell.status action
        | none => if !harmless.contains s.2 then throw (.killed p.id s.2)
        return true

/-- Do what the trap for the end of a process says; the answer is the code it ends with. -/
def runExitTrap (E : Engine) (code : Nat) : Doing Nat := do
  match Disk.valueAt 0 (← get).shell.traps with
  | none => return code
  | some action =>
    onShell fun i => { i with traps := i.traps.filter fun t => t.1 ≠ 0 }
    try
      runTrap E code action
      return code
    catch e =>
      match e with
      | .exit n => return n
      | .killed _ _ => throw e
      | _ => return code

/-- Bring a shell process to its end: its code. -/
def closing (E : Engine) (act : Doing Unit) : Doing Nat := do
  let code : Nat ← (try
      act
      deliver E
      status
    catch e =>
      match e with
      | .exit n => return n
      | .back n => return n
      | .leave _ => status
      | .again _ => status
      | .discard => return 1
      | .killed t n =>
        let p ← get
        if p.isRich ∧ t = p.id ∧ n ≠ 9 ∧ n ≠ 3 then
          let _ ← runExitTrap E (128 + n)
        throw e)
  return (← runExitTrap E code) % 256

/-- Run commands by themselves: their code. -/
def runApart (E : Engine) (guarded : Bool) (body : List Command) : Doing Nat :=
  asChild Process.apart (closing E do
    for c in body do
      E.exec guarded c)

/-! ### The background -/

/-- Go on with a command in the background. -/
def wake (E : Engine) (id : Nat) (job : Job) : Doing Unit := do
  match job with
  | .done _ => return ()
  | .asleep due body bindings cwd parameters streams =>
    let p ← get
    let feed (q : Process) : Process :=
      let (key, q) := q.apart.addChannel .null
      let q := { q with bindings := bindings, cwd := cwd, streams := streams, clock := due
                        shell := { q.shell with parameters := parameters } }
      q.setStream 0 key
    let n ← asChild feed (closing E (E.exec false body))
    modify fun q => { q with clock := max p.clock q.clock }
    onShell fun i => { i with jobs := Disk.assign id (.done n) i.jobs }

/-- Go on with the commands in the background that wake up by a time. -/
def wakeUntil (E : Engine) (time : Nat) : Doing Unit := do
  let sleepers := (← get).shell.jobs.filterMap fun j => j.2.due?.map fun due => (due, j)
  let due := (sleepers.filter fun s => s.1 ≤ time).reverse.mergeSort fun a b => decide (a.1 ≤ b.1)
  for s in due do
    wake E s.2.1 s.2.2

end Whittle.Shell
