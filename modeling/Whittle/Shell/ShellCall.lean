import Whittle.Shell.Programs

/-!
# How a shell is called

The words of a shell are options, then the text or the file that it is to run, then the positional
parameters. Without either it runs its input.
-/

namespace Whittle.Shell

open Doing

structure ShellCall where
  options : List (String × Bool) := []
  /-- Whether the first operand is the text to run. -/
  text : Bool := false
  /-- Whether the input is to be run although there are operands. -/
  input : Bool := false
  operands : List Octets := []
  deriving Repr

namespace ShellCall

/-- The long options of the rich dialect that change nothing here. -/
def idleOptions : List String :=
  ["norc", "noprofile", "login", "noediting", "restricted", "debugger"]

/-- Read the letters of one word; an `o` takes a word of those behind it. -/
def readLetters (dialect : Dialect) (on : Bool) (ws : List Octets) (c : ShellCall) :
    List Char → Except String (List Octets × ShellCall)
  | [] => .ok (ws, c)
  | l :: ls =>
    let rich := dialect = .rich
    let sign := if on then "-" else "+"
    if l = 'c' then readLetters dialect on ws { c with text := true } ls
    else if l = 'l' || (rich && (l = 'D' || l = 'r')) then readLetters dialect on ws c ls
    else if l = 's' then readLetters dialect on ws { c with input := true } ls
    else if l = 'o' then
      match ws with
      | [] => readLetters dialect on [] c ls
      | w :: rest =>
        let name := String.ofList w
        if (longOptions rich).contains name then
          readLetters dialect on rest { c with options := c.options ++ [(name, on)] } ls
        else .error (if rich then name ++ ": invalid option name"
          else "Illegal option " ++ sign ++ "o " ++ name)
    else if rich && l = 'O' then
      let named := (ws.take 1).map fun w => (String.ofList w, on)
      readLetters dialect on (ws.drop 1) { c with options := c.options ++ named } ls
    else
      match optionName? rich l with
      | some name => readLetters dialect on ws { c with options := c.options ++ [(name, on)] } ls
      | none =>
        .error (if rich then sign ++ String.singleton l ++ ": invalid option"
          else "Illegal option " ++ sign ++ String.singleton l)

/-- Read the words of a call; the number bounds them. -/
def readWords (dialect : Dialect) : Nat → List Octets → ShellCall → Except String ShellCall
  | 0, ws, c => .ok { c with operands := ws }
  | fuel + 1, ws, c =>
    match ws with
    | [] => .ok c
    | w :: rest =>
      match w with
      | ['-'] => .ok { c with operands := rest }
      | ['-', '-'] => .ok { c with operands := rest }
      | '-' :: '-' :: name =>
        let name := String.ofList name
        if dialect = .plain then do
          let r ← readLetters dialect true rest c ('-' :: name.toList)
          readWords dialect fuel r.1 r.2
        else if idleOptions.contains name then readWords dialect fuel rest c
        else if name = "posix" || name = "verbose" then
          readWords dialect fuel rest { c with options := c.options ++ [(name, true)] }
        else if name = "rcfile" || name = "init-file" then readWords dialect fuel (rest.drop 1) c
        else .error ("--" ++ name ++ ": invalid option")
      | '-' :: letters => do
        let r ← readLetters dialect true rest c letters
        readWords dialect fuel r.1 r.2
      | '+' :: letters => do
        let r ← readLetters dialect false rest c letters
        readWords dialect fuel r.1 r.2
      | _ => .ok { c with operands := ws }

/-- What the words behind the name of a shell say. -/
def read (dialect : Dialect) (ws : List Octets) : Except String ShellCall :=
  readWords dialect (ws.length + 1) ws {}

end ShellCall

/-- Give a variable a value unless it has one. -/
def Process.defaultVariable (p : Process) (name : String) (o : Octets) : Process :=
  if (p.valueOf? name).isSome then p else p.setVariable name o

/-- A process as a shell starts it, with the variables that shells keep. -/
def Process.asShell (p : Process) (dialect : Dialect) (name : Octets) (parameters : List Octets)
    (options : List (String × Bool)) : Process :=
  let shell : Interpreter :=
    { p.shell with
      dialect := dialect, id := p.id, name := name, parameters := parameters
      functions := if dialect = .rich then p.shared else [], nesting := 0
      status := 0, options := [], scopes := [], loops := 0, line := 1
      jobs := [], lastJob := none, optionOffset := 0, calls := [], sources := []
      trapping := none, pending := [] }
  let shell := options.foldl (fun i o => setOption o.1 o.2 i) shell
  let p := { p with shell := shell }
  let cwd := Octets.ofString p.cwd.text
  let known := match p.valueOf? "PWD" with
    | some o => o.head? = some '/' && (match p.disk.stat ⟨Octets.text o⟩ with
      | .ok (place, .dir) => Disk.pathOf place = p.cwd
      | _ => false)
    | none => false
  let p := if known then p else p.setVariable "PWD" cwd
  let p := { p with bindings := p.bindings.change "PWD" fun v => { v with exported := true } }
  let p := (p.setVariable "IFS" [' ', '\t', '\n']).setVariable "OPTIND" ['1']
  let p := (p.defaultVariable "PATH" defaultPath).defaultVariable "PS4" ['+', ' ']
  match dialect with
  | .plain => (p.defaultVariable "PS1" ['#', ' ']).defaultVariable "PS2" ['>', ' ']
  | .rich =>
    let level := ((p.valueOf? "SHLVL").map fun o => numberOf o + 1).getD 1
    let p := (p.setVariable "SHLVL" (naturalText level)).setVariable "BASH" name
    let p := { p with bindings := p.bindings.change "SHLVL" fun v => { v with exported := true } }
    (p.setVariable "OSTYPE" "linux-gnu".toList).setVariable "HOSTTYPE" "x86_64".toList

end Whittle.Shell
