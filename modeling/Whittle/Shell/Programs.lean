import Whittle.Shell.Utility

/-!
# Finding programs

A program is a file that may be run. Its content says what it is: a script names its interpreter in
its first line, and the programs that come with the system are files that hold a mark and their
name.
-/

namespace Whittle.Shell

/-- What the content of a program of the system starts with. -/
def systemMark : Octets := "\x7fsystem ".toList

inductive Kind where
  /-- A program of the system. -/
  | system (name : String)
  /-- A script with its interpreter, and the argument its first line gives to that. -/
  | script (interpreter : Octets) (argument : Option Octets)
  | unknown
  deriving DecidableEq, Repr

def isBlankOctet (c : Char) : Bool := c = ' ' || c = '\t'

/-- What the content of a program says about it. -/
def kindOf (content : Octets) : Kind :=
  if systemMark.isPrefixOf content then .system (String.ofList (content.drop systemMark.length))
  else
    match content with
    | '#' :: '!' :: rest =>
      let line := (rest.takeWhile (· ≠ '\n')).dropWhile isBlankOctet
      let interpreter := line.takeWhile fun c => !isBlankOctet c
      let argument := (line.drop interpreter.length).dropWhile isBlankOctet
      let argument := (argument.reverse.dropWhile isBlankOctet).reverse
      if interpreter.isEmpty then .unknown
      else .script interpreter (if argument.isEmpty then none else some argument)
    | _ => .unknown

/-- Where programs are looked for if nothing says so: for a shell, and for all others. -/
def defaultPath : Octets := "/usr/local/sbin:/usr/local/bin:/usr/sbin:/usr/bin:/sbin:/bin".toList

def defaultDirs : List Octets := ["/bin".toList, "/usr/bin".toList]

/-- The directories of the search path of a process. -/
def searchDirs (p : Process) : List Octets :=
  match p.valueOf? "PATH" with
  | some path => path.splitOn ':'
  | none => defaultDirs

/-- A program as it can be run: its content says how. -/
def readProgram (p : Process) (name : Octets) : Except Errno Octets :=
  match p.disk.stat (p.fileOf name) with
  | .error e => .error e
  | .ok (_, .file _ content true) => .ok (Octets.ofBytes content)
  | .ok _ => .error .permissionDenied

/-- The paths at which a program may stand. -/
def candidates (dirs : List Octets) (name : Octets) : List Octets :=
  if name.contains '/' then [name]
  else if name.isEmpty then []
  else dirs.map fun dir => if dir.isEmpty then name else dir ++ '/' :: name

/-- The first candidate that can be read as a program. A candidate that may not be run is remembered
if nothing better is found. -/
def findProgram (read : Octets → Except Errno Octets) (refusal : Errno) :
    List Octets → Except Errno (Octets × Octets)
  | [] => .error refusal
  | c :: cs =>
    match read c with
    | .ok content => .ok (c, content)
    | .error .permissionDenied => findProgram read .permissionDenied cs
    | .error e =>
      if [.notFound, .notDirectory].contains e then
        findProgram read (if refusal = .permissionDenied then refusal else e) cs
      else .error e

/-- The program that a name stands for, and its content. -/
def lookUp (p : Process) (name : Octets) : Except Errno (Octets × Octets) :=
  findProgram (readProgram p) .notFound (candidates (searchDirs p) name)

/-- Whether the system itself can start a program of a content: a chain of interpreters has to end
with a program of the system. -/
def startable (p : Process) : Nat → Octets → Except Errno Unit
  | 0, _ => .error .tooManyLinks
  | depth + 1, content =>
    match kindOf content with
    | .system _ => .ok ()
    | .unknown => .error .badExecutable
    | .script interpreter _ =>
      match readProgram p interpreter with
      | .ok content => startable p depth content
      | .error e => .error e

/-- How many interpreters may be called by one another. -/
def interpreterLimit : Nat := 5

/-- A program that the system itself can start. -/
def readStartable (p : Process) (name : Octets) : Except Errno Octets := do
  let content ← readProgram p name
  startable p interpreterLimit content
  return content

/-- Whether a program is a script whose interpreter cannot be run. -/
def lacksInterpreter (p : Process) (content : Octets) : Bool :=
  match kindOf content with
  | .script interpreter _ => !(readProgram p interpreter).isOk
  | _ => false

end Whittle.Shell
