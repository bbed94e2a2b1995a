import Whittle.Shell.Builtins

/-!
# Programs of the system

A `Utility` is what a program of the system does with its words. Its options are letters, alone or
several in one word, or long names; what is no option is an operand. A utility may run other programs
through its `Caller`.
-/

namespace Whittle.Shell

open Doing

/-- How a program has others run. -/
structure Caller where
  /-- Run a program by its words: the code it ends with. -/
  run : List Octets → Doing (Except Errno Nat)
  /-- Become another program. -/
  become : List Octets → Doing (Except Errno Nat)
  /-- Have a shell run a text. -/
  script : Octets → Doing Nat

abbrev Utility := Caller → List Octets → Doing Nat

/-- A utility that runs no other programs. -/
def alone (f : List Octets → Doing Nat) : Utility := fun _ ws => f ws

/-! ### Options -/

/-- Which options a program has. -/
structure OptionTable where
  flags : String := ""
  /-- The letters that take a value. -/
  valued : String := ""
  /-- Long names for letters. -/
  long : List (String × Char) := []
  /-- Whether the first operand ends the options. -/
  strict : Bool := false
  deriving Repr

/-- What the words of a program say: its options in order, each with its value if it takes one, and
its operands. -/
structure Arguments where
  options : List (Char × Octets) := []
  operands : List Octets := []
  deriving DecidableEq, Repr

namespace Arguments

def has (a : Arguments) (c : Char) : Bool := a.options.any fun o => o.1 = c

/-- The values of all options of a letter. -/
def values (a : Arguments) (c : Char) : List Octets :=
  (a.options.filter fun o => o.1 = c).map Prod.snd

/-- The value of the last option of a letter. -/
def value? (a : Arguments) (c : Char) : Option Octets := (a.values c).getLast?

/-- The last of some options. -/
def lastOf (a : Arguments) (cs : List Char) : Option Char :=
  ((a.options.filter fun o => cs.contains o.1).getLast?).map Prod.fst

/-- The operands, or a hyphen for the input if there are none. -/
def sources (a : Arguments) : List Octets := if a.operands.isEmpty then [['-']] else a.operands

def addOption (a : Arguments) (c : Char) (value : Octets) : Arguments :=
  { a with options := (c, value) :: a.options }

/-- The options of one word, and the letter of the last one if its value is still to come. -/
def cluster (t : OptionTable) : Octets → Except String (List (Char × Octets) × Option Char)
  | [] => .ok ([], none)
  | c :: cs =>
    if t.valued.toList.contains c then
      .ok (if cs.isEmpty then ([], some c) else ([(c, cs)], none))
    else if t.flags.toList.contains c then do
      let r ← cluster t cs
      return ((c, []) :: r.1, r.2)
    else .error ("invalid option -- '" ++ String.singleton c ++ "'")

/-- The letter of a long name, which may be cut short. -/
def longOption (t : OptionTable) (name : String) : Except String Char :=
  match Disk.valueAt name t.long with
  | some c => .ok c
  | none =>
    let found := (t.long.filter fun l => name.isPrefixOf l.1).map Prod.snd
    match found.eraseDups with
    | [c] => .ok c
    | [] => .error ("unrecognized option '--" ++ name ++ "'")
    | _ => .error ("option '--" ++ name ++ "' is ambiguous")

/-- Sort words into options and operands. -/
def read (t : OptionTable) : List Octets → Except String Arguments
  | [] => .ok {}
  | ['-', '-'] :: rest => .ok { operands := rest }
  | ('-' :: '-' :: word) :: rest => do
    let name := word.takeWhile (· ≠ '=')
    let c ← longOption t (String.ofList name)
    if name.length < word.length then
      return (← read t rest).addOption c (word.drop (name.length + 1))
    else if t.valued.toList.contains c then
      match rest with
      | value :: rest => return (← read t rest).addOption c value
      | [] => .error ("option '--" ++ String.ofList name ++ "' requires an argument")
    else return (← read t rest).addOption c []
  | ('-' :: c :: cs) :: rest => do
    let (options, last) ← cluster t (c :: cs)
    match last, rest with
    | some l, value :: rest =>
      let a ← read t rest
      return { a with options := options ++ (l, value) :: a.options }
    | some l, [] => .error ("option requires an argument -- '" ++ String.singleton l ++ "'")
    | none, rest =>
      let a ← read t rest
      return { a with options := options ++ a.options }
  | w :: rest =>
    if t.strict then .ok { operands := w :: rest }
    else do
      let a ← read t rest
      return { a with operands := w :: a.operands }

end Arguments

/-- Do something with the options and operands of a program, or refuse those it does not have. -/
def withArguments (program : String) (code : Nat) (t : OptionTable) (ws : List Octets)
    (f : Arguments → Doing Nat) : Doing Nat := do
  match Arguments.read t ws with
  | .ok a => f a
  | .error e =>
    if e = "unrecognized option '--version'" || e = "unrecognized option '--help'" then
      writeText (program ++ " (GNU " ++ program ++ ")\n")
      return 0
    complain (program ++ ": " ++ e)
    complain ("Try '" ++ program ++ " --help' for more information.")
    return code

/-- Refuse to work. -/
def refuseTo (program : String) (why : String) (code : Nat) : Doing Nat := do
  complain (program ++ ": " ++ why)
  return code

/-- A name as complaints show it. -/
def quotedName (o : Octets) : String := "'" ++ Octets.text o ++ "'"

/-! ### Sources -/

/-- Read a file on behalf of a program, or complain about it. -/
def readFor (program : String) (name : Octets) : Doing (Option Octets) := do
  match ← contentOf name with
  | .ok o => return some o
  | .error e =>
    complain (program ++ ": " ++ Octets.text name ++ ": " ++ wordingOf e)
    return none

/-- Do something with the content of every source. -/
def eachSource (program : String) (code : Nat) (a : Arguments) (f : Octets → Octets → Doing Unit) :
    Doing Nat :=
  forAll a.sources fun name => do
    match ← readFor program name with
    | some o =>
      f name o
      return 0
    | none => return code

/-- The contents of all sources one after another, and the worst code. -/
def allSources (program : String) (code : Nat) (a : Arguments) : Doing (Octets × Nat) := do
  let mut all : List Octets := []
  let mut status := 0
  for name in a.sources do
    match ← readFor program name with
    | some o => all := o :: all
    | none => status := code
  return (all.reverse.flatten, status)

/-- The lines with their line feeds, which the last one may lack. -/
def rawLines (o : Octets) : List Octets :=
  let parts := o.splitOn '\n'
  let ended := (parts.dropLast).map (· ++ ['\n'])
  match parts.getLast? with
  | some [] => ended
  | some l => ended ++ [l]
  | none => ended

/-! ### Trees -/

/-- The path of a name in a directory. -/
def below (dir name : Octets) : Octets :=
  if dir.getLast? = some '/' then dir ++ name else dir ++ '/' :: name

def isDirectory (p : Process) (name : Octets) : Bool :=
  match p.disk.lstat (p.fileOf name) with
  | .ok (_, .dir) => true
  | _ => false

/-- How deep directories may be inside one another. -/
def treeDepth : Nat := 200

/-- A path and those below it, a directory before what it holds. The number bounds the depth. -/
def pathsBelow (p : Process) : Nat → Octets → List Octets
  | 0, name => [name]
  | depth + 1, name =>
    name :: (if isDirectory p name then
      (namesIn p.disk (p.fileOf name)).flatMap fun n => pathsBelow p depth (below name n) else [])

/-- Write the content of a file anew. -/
def writeFile (program : String) (name content : Octets) : Doing Nat := do
  let p ← get
  match p.openForWriting name false with
  | .error e => refuseTo program (Octets.text name ++ ": " ++ wordingOf e) 1
  | .ok (key, q) =>
    match q.send key content with
    | .ok q =>
      set (q.forget p.nextChannel)
      return 0
    | .error e => throw e

end Whittle.Shell
