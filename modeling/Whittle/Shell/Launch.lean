import Whittle.Settings.Toolchain
import Whittle.Shell.Run
import Whittle.World

/-!
# A host whose tools are scripts

`launch` runs a tool the way a system does: the program is looked up from the directory it is to run
in, without a shell to help if it does not say what it is. A tool that is not where it is expected
is tried nevertheless, after a warning. The code of a tool ended by a signal is above 128.
-/

namespace Whittle.Shell

/-- The environment of a tool: where programs are looked for, if that was said. -/
def environment (searchPath : Option (List Path)) : Variables :=
  match searchPath with
  | none => []
  | some dirs =>
    let text := Octets.ofString (String.intercalate ":" (dirs.map Path.text))
    [("PATH", { value := some (.text text), exported := true })]

/-- The process of a call, before it runs its program. -/
def processOf (searchPath : Option (List Path)) (c : Call) (cwd : Location) (id : Nat) : Process :=
  { disk := c.disk
    channels := [(0, .null), (1, .null), (2, .null)]
    nextChannel := 3
    lastId := id
    sent := []
    cwd := Disk.pathOf cwd
    id := id
    waiting := []
    streams := [(0, 0), (1, 1), (2, 2)]
    bindings := environment searchPath
    shell := {} }

/-- The number by which the end of a process is known. -/
def codeOf : Ending → Nat
  | .exit n => n % 256
  | .back n => n % 256
  | .killed _ signal => 128 + signal
  | _ => 0

/-- Run the program of a call in a directory. -/
def start (searchPath : Option (List Path)) (c : Call) (cwd : Location) (id : Nat) :
    Except Errno (Nat × Disk) := do
  let p := processOf searchPath c cwd id
  let name := Octets.ofString c.program.text
  if name.isEmpty then .error .notFound
  let (path, content) ← findProgram (readStartable p) .notFound (candidates (searchDirs p) name)
  let run : Doing Nat :=
    (engine depthLimit).program none interpreterLimit path content
      (name :: c.argv.map Octets.ofString)
  match run p with
  | (.ok n, p) => return (n % 256, p.disk)
  | (.error e, p) => return (codeOf e, p.disk)

/-- What a call of a tool does on a host with a shell. -/
def launch (searchPath : Option (List Path)) (firstId : Nat) (earlier : List Call) (c : Call) :
    Reply :=
  let notices : List Notice :=
    if (Toolchain.locate searchPath c.disk c.cwd c.program).isNone then
      [⟨.warning, c.program.text ++ " was not found, attempting to run it anyway"⟩]
    else []
  let outcome : Except Errno (Nat × Disk) := do
    if (c.program.text :: c.argv).any (·.contains '\x00') then .error .nulInCommand
    let (place, node) ← c.disk.stat c.cwd
    if !node.isDir then .error .notDirectory
    start searchPath c place (firstId + 1000 * earlier.length)
  match outcome with
  | .ok (code, d) => ⟨notices, .ok code, d⟩
  | .error e => ⟨notices, .error (.notStarted c.program e), c.disk⟩

end Whittle.Shell
