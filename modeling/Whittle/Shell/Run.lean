import Whittle.Shell.Questions
import Whittle.Shell.Redirections
import Whittle.Shell.ShellCall
import Whittle.Shell.System

/-!
# Running scripts

`execute` runs a command, `invoke` what the words of a simple command ask for, and `runProgram` a
program, which may be a script again. `engine` puts them together: everything that is nested in a
command is run one level further down, and a script that goes too deep is killed.
-/

namespace Whittle.Shell

open Doing

/-! ### Starting programs -/

/-- The code of a program that may end early. -/
def ended (act : Doing Nat) : Doing Nat := do
  try act
  catch e =>
    match e with
    | .exit n => return n % 256
    | .killed _ _ => throw e
    | _ => return 1

/-- Complain about a program that could not be started: the code. -/
def notStarted (name : Octets) (e : Errno) : Doing Nat := do
  let p ← get
  let text := Octets.text name
  let missing := e = .notFound || e = .notDirectory
  if p.isRich then
    object (text ++ (if missing then (if name.contains '/' then ": " ++ e.wording
        else ": command not found")
      else if p.disk.isDir (p.fileOf name) && name.contains '/' then ": Is a directory"
      else ": " ++ e.wording))
  else object (text ++ ": " ++ (if missing then "not found" else e.wording))
  return if missing then 127 else 126

/-- Become the program of a name. -/
def becomeNamed (E : Engine) (lenient : Dialect) (name : Octets) (ws : List Octets) :
    Doing (Except Errno Nat) := do
  match lookUp (← get) name with
  | .error e => return .error e
  | .ok (path, content) =>
    return .ok (← ended (E.program (some lenient) interpreterLimit path content (name :: ws)))

/-- Run the program of a name as a process of its own. -/
def runNamed (E : Engine) (name : Octets) (ws : List Octets) : Doing Nat := do
  let p ← get
  match lookUp p name with
  | .error e => notStarted name e
  | .ok (path, content) =>
    if lacksInterpreter p content then
      if p.isRich then
        object (Octets.text name ++ ": cannot execute: required file not found")
        return 127
      else notStarted name .notFound
    else
      let dialect := p.shell.dialect
      asChild Process.started do
        ended (E.program (some dialect) interpreterLimit path content (name :: ws))

/-- Run the text of a script in a shell that starts with it. -/
def runShellText (E : Engine) (resumes : Bool) (text : Octets) : Doing Nat :=
  closing E do
    if !(← runScript E false resumes text) then throw (.exit 2)

/-- Be a shell of a dialect, called by words. -/
def beShell (E : Engine) (dialect : Dialect) (argv : List Octets) : Doing Nat := do
  let own := argv.headD []
  let front := Octets.text own ++ (if dialect = .rich then ": " else ": 0: ")
  match ShellCall.read dialect (argv.drop 1) with
  | .error e =>
    complain (front ++ e)
    return 2
  | .ok c =>
    if c.text then
      match c.operands with
      | [] =>
        complain (front ++ (if dialect = .rich then "-c: option requires an argument"
          else "-c requires an argument"))
        return 2
      | text :: rest =>
        modify fun p => p.asShell dialect (rest.headD own) (rest.drop 1) c.options
        runShellText E false text
    else
      match c.input, c.operands with
      | false, file :: rest =>
        match ← readFile file with
        | .ok text =>
          modify fun p => p.asShell dialect file rest c.options
          runShellText E true text
        | .error e =>
          complain (front ++ (if dialect = .rich then Octets.text file ++ ": " ++ wordingOf e
            else openingFault false false file e))
          return if dialect = .rich then (if e.isNotFound then 127 else 126) else 2
      | _, ws =>
        match ← readStream 0 with
        | .ok text =>
          modify fun p => p.asShell dialect own ws c.options
          runShellText E true text
        | .error _ => return 0

/-- How a program of the system has others run. -/
def callerOf (E : Engine) : Caller :=
  { run := fun argv => do
      let name := argv.headD []
      match lookUp (← get) name with
      | .error e => return .error e
      | .ok (path, content) =>
        return .ok (← asChild Process.started do
          ended (E.program (some .plain) interpreterLimit path content argv))
    become := fun argv => becomeNamed E .plain (argv.headD []) (argv.drop 1)
    script := fun text => asChild Process.started do
      ended (beShell E .plain ["sh".toList, "-c".toList, text]) }

/-- The shells among the programs of the system. -/
def dialectOf? (name : String) : Option Dialect := Disk.valueAt name shells

/-- Run a program by its content. -/
def runProgram (E : Engine) (lenient : Option Dialect) (depth : Nat) (path content : Octets)
    (argv : List Octets) : Doing Nat := do
  match depth with
  | 0 => return 126
  | depth + 1 =>
    match kindOf content with
    | .system name =>
      match dialectOf? name with
      | some dialect => beShell E dialect argv
      | none =>
        match Disk.valueAt name utilities with
        | some f =>
          modify fun p => { p with unwritten := false }
          let n ← f (callerOf E) (argv.drop 1)
          if n = 0 && (← get).unwritten then
            complain (name ++ ": write error: Bad file descriptor")
            return 1
          else return n
        | none => return 127
    | .script interpreter argument =>
      match readProgram (← get) interpreter with
      | .ok content =>
        E.program lenient depth interpreter content
          (interpreter :: argument.toList ++ path :: argv.drop 1)
      | .error _ => return 127
    | .unknown =>
      match lenient with
      | some dialect => beShell E dialect (argv.headD [] :: "--".toList :: path :: argv.drop 1)
      | none => return 126

/-! ### Commands that change how a script goes on -/

/-- A number written for a code or a count, or the complaint. -/
def numberWord (command : String) (w : Octets) : Doing (Except Nat Int) := do
  let p ← get
  match Text.readNat w with
  | some n => return .ok n
  | none =>
    if p.isRich then
      match Condition.decimalOf? w with
      | some n => return .ok n
      | none =>
        object (command ++ ": " ++ Octets.text w ++ ": numeric argument required")
        return .error 2
    else
      object (command ++ ": Illegal number: " ++ Octets.text w)
      throw (.exit 2)

/-- Leave loops, or go on with their next round. -/
def jump (command : String) (ws : List Octets) : Doing Nat := do
  let p ← get
  let loops := p.shell.loops
  match ← (match ws with
    | [] => return .ok 1
    | w :: _ => numberWord command w) with
  | .error n => throw (.exit n)
  | .ok n =>
    if n ≤ 0 then
      if p.isRich then
        object (command ++ ": " ++ Octets.text (ws.headD []) ++ ": loop count out of range")
        throw (.leave loops)
      else
        object (command ++ ": Illegal number: " ++ Octets.text (ws.headD []))
        throw (.exit 2)
    else if loops = 0 then
      if p.isRich then
        object (command ++ ": only meaningful in a \x60for', \x60while', or \x60until' loop")
      return 0
    else
      setStatus 0
      let n := min n.toNat loops
      throw (if command = "break" then .leave n else .again n)

/-- End the script, or a function. -/
def leaveScript (command : String) (ws : List Octets) : Doing Nat := do
  let p ← get
  let i := p.shell
  let code : Nat ← (match ws with
    | [] => return if command = "exit" then i.trapping.getD i.status else i.status
    | w :: _ => do
      match ← numberWord command w with
      | .ok n => return (if command = "return" && !p.isRich then n else n % 256).toNat
      | .error n => return n)
  if command = "exit" then throw (.exit code)
  else if p.isRich && i.calls.isEmpty && i.sources.isEmpty then
    object "return: can only \x60return' from a function or sourced script"
    return 2
  else throw (.back code)

/-- Run a text as commands of the script. -/
def evalWords (E : Engine) (guarded : Bool) (ws : List Octets) : Doing Nat := do
  setStatus 0
  runText E guarded (List.intercalate [' '] ws)
  status

/-- Where a file of commands is found: on the search path, if it has no slash. -/
def commandFile (p : Process) (name : Octets) : Option Octets :=
  if name.contains '/' then some name
  else
    let places := candidates (searchDirs p) name ++ (if p.isRich then [name] else [])
    places.find? fun o => p.disk.isFile (p.fileOf o)

/-- Run the commands of a file. -/
def sourceFile (E : Engine) (ws : List Octets) : Doing Nat := do
  let p ← get
  let rich := p.isRich
  let fail (text : String) : Doing Nat := do
    object text
    if rich then return 1 else throw (.exit 2)
  match ws with
  | [] => if rich then fail ".: filename argument required" else return 0
  | name :: parameters =>
    match commandFile p name with
    | none =>
      fail (if rich then Octets.text name ++ ": No such file or directory"
        else ".: " ++ Octets.text name ++ ": not found")
    | some file =>
      match ← readFile file with
      | .error e =>
        fail (if rich then Octets.text name ++ ": " ++ wordingOf e
          else ".: " ++ openingFault false false name e)
      | .ok text =>
        let old := p.shell
        let replaces := rich && !parameters.isEmpty
        onShell fun i =>
          { i with sources := file :: i.sources, status := 0, line := 1
                   calls := if rich then "source" :: i.calls else i.calls
                   parameters := if replaces then parameters else i.parameters }
        let restore : Doing Unit := onShell fun i =>
          { i with sources := old.sources, calls := old.calls, line := old.line
                   parameters := if replaces then old.parameters else i.parameters }
        let n ← (try
            runText E false text
            restore
            status
          catch e =>
            restore
            match e with
            | .back n => return n
            | e => throw e)
        runReturnTrap E n
        return n

/-- Give the variables of a function back their old values. -/
def restoreVariables (olds : List (String × Option Variable)) : Doing Unit :=
  modify fun p => olds.foldl (fun p o =>
    match o.2 with
    | some v =>
      if o.1 = optionsName then
        let names := (v.value.map Value.elements).getD []
        { p with shell := { p.shell with options := names.map String.ofList } }
      else { p with bindings := Disk.assign o.1 v p.bindings }
    | none => { p with bindings := p.bindings.erase o.1 }) p

/-- Run a function with positional parameters of its own. -/
def callFunction (E : Engine) (guarded : Bool) (name : String) (body : Command)
    (ws : List Octets) : Doing Nat := do
  let p ← get
  let old := p.shell
  let outer := if p.hasOption "functrace" then none else Disk.valueAt returnTrap old.traps
  onShell fun i =>
    { i with parameters := ws, loops := 0, scopes := [] :: i.scopes, calls := name :: i.calls
             traps := if outer.isSome then i.traps.filter fun t => t.1 ≠ returnTrap else i.traps }
  let restore : Doing Unit := do
    restoreVariables ((← get).shell.scopes.headD [])
    onShell fun i =>
      let own := (Disk.valueAt returnTrap i.traps).isSome
      { i with parameters := old.parameters, loops := old.loops, scopes := old.scopes
               calls := old.calls
               traps := match outer with
                 | some action => if own then i.traps else i.traps ++ [(returnTrap, action)]
                 | none => i.traps }
  try
    E.exec guarded body
    runReturnTrap E (← status)
    restore
    status
  catch e =>
    match e with
    | .back n =>
      runReturnTrap E n
      restore
      return n
    | e =>
      restore
      throw e

/-- Become another program: what the shell would do at its end is not done. -/
def becomeProgram (E : Engine) (ws : List Octets) : Doing Nat := do
  let p ← get
  let ws := if p.isRich && ws.head? = some ['-', 'a'] then ws.drop 2 else ws
  let ws := if ws.head? = some ['-', '-'] then ws.drop 1 else ws
  match ws with
  | [] => return 0
  | name :: arguments =>
    let dialect := p.shell.dialect
    let refused (e : Errno) : Doing Nat := do
      let missing := e = .notFound || e = .notDirectory
      object ("exec: " ++ Octets.text name ++ ": " ++ (if missing then "not found" else e.wording))
      throw (.exit (if missing then 127 else 126))
    match lookUp p name with
    | .error e => refused e
    | .ok (path, content) =>
      if lacksInterpreter p content then refused .notFound
      else
        modify Process.started
        let n ← ended (E.program (some dialect) interpreterLimit path content (name :: arguments))
        onShell fun i => { i with traps := [] }
        throw (.exit n)

/-! ### Names of commands -/

/-- The words of the grammar. -/
def grammarWords (d : Dialect) : List String :=
  ["!", "case", "do", "done", "elif", "else", "esac", "fi", "for", "if", "in", "then", "until",
   "while", "\x7b", "\x7d"] ++
    (if d = .rich then ["[[", "]]", "function", "select", "time"] else [])

/-- What a name stands for, as the shell describes it. -/
def describeName (p : Process) (name : Octets) : Option (String × String) :=
  let text := String.ofList name
  let d := p.shell.dialect
  let aliases := if p.isRich && !p.hasOption "expand_aliases" then [] else p.shell.aliases
  if let some o := Disk.valueAt text aliases then
    some ("alias", text ++ (if p.isRich then " is aliased to \x60" ++ Octets.text o ++ "'"
      else " is an alias for " ++ Octets.text o))
  else if (grammarWords d).contains text then some ("keyword", text ++ " is a shell keyword")
  else if (Disk.valueAt text p.shell.functions).isSome then
    some ("function", text ++ (if p.isRich then " is a function" else " is a shell function"))
  else if isBuiltin d text then
    some ("builtin", text ++ (if !p.isRich && specials.contains text
      then " is a special shell builtin" else " is a shell builtin"))
  else
    match lookUp p name with
    | .ok (path, _) => some ("file", text ++ " is " ++ Octets.text path)
    | .error _ => none

/-- Tell how a name would be understood: by the name or path alone, or in words. -/
def showName (long : Bool) (name : Octets) : Doing Nat := do
  let p ← get
  match describeName p name with
  | some (kind, description) =>
    if long then writeText (description ++ "\n")
    else if kind = "alias" then
      if !p.isRich then writeText "alias "
      let _ ← aliasWords [name]
    else if kind = "file" then
      match lookUp p name with
      | .ok (path, _) => write (path ++ ['\n'])
      | .error _ => return 127
    else write (name ++ ['\n'])
    return 0
  | none =>
    if long then
      if p.isRich then object ("type: " ++ Octets.text name ++ ": not found")
      else writeText (Octets.text name ++ ": not found\n")
    return if p.isRich then 1 else 127

def typeWords (ws : List Octets) : Doing Nat := do
  let p ← get
  let options := if p.isRich then ws.takeWhile fun w => w.head? = some '-' else []
  let names := ws.drop options.length
  let letters := options.flatMap (·.drop 1)
  forAll names fun n => do
    if letters.contains 't' then
      match describeName p n with
      | some (kind, _) =>
        writeText (kind ++ "\n")
        return 0
      | none => return 1
    else if letters.contains 'P' || letters.contains 'p' then
      match lookUp p n with
      | .ok (path, _) =>
        if letters.contains 'P' || (describeName p n).any (fun d => d.1 = "file") then
          write (path ++ ['\n'])
        return 0
      | .error _ => return 1
    else showName true n

/-! ### The background -/

/-- The number of a command in the background that a word names. -/
def jobOf (p : Process) (w : Octets) : Option Nat :=
  match w with
  | '%' :: digits =>
    if !digits.isEmpty && digits.all Text.isDigit then
      (p.shell.jobs.reverse[numberOf digits - 1]?).map Prod.fst
    else p.shell.lastJob
  | w => Text.readNat w

/-- Wait for commands in the background: the code of the last one. -/
def waitFor (E : Engine) (ws : List Octets) : Doing Nat := do
  let p ← get
  let next := p.isRich && ws.contains ['-', 'n']
  let ws := ws.filter fun w => w ≠ ['-', 'n'] && w ≠ ['-', 'f']
  let latest := (p.shell.jobs.filterMap fun j => j.2.due?).foldl max 0
  if ws.isEmpty && !next then
    wakeUntil E latest
    onShell fun i => { i with jobs := [] }
    return 0
  else if next then
    let sleepers := p.shell.jobs.filterMap fun j => j.2.due?.map fun due => (due, j.1)
    let first := sleepers.foldl (fun best s => if best.all fun b => s.1 ≤ b.1 then some s else best) none
    let finished := p.shell.jobs.reverse.find? fun j => j.2.due?.isNone
    let id := (finished.map Prod.fst).or (first.map Prod.snd)
    match id with
    | none => return 127
    | some id =>
      if finished.isNone then wakeUntil E ((first.map Prod.fst).getD 0)
      let jobs := (← get).shell.jobs
      onShell fun i => { i with jobs := jobs.filter fun j => j.1 ≠ id }
      return match Disk.valueAt id jobs with
        | some (.done n) => n
        | _ => 127
  else
    let mut status := 0
    for w in ws do
      let id := (jobOf p w).getD 0
      match (Disk.valueAt id (← get).shell.jobs).bind Job.due? with
      | some due => wakeUntil E due
      | none => pure ()
      match Disk.valueAt id (← get).shell.jobs with
      | some (.done code) => status := code
      | _ =>
        if p.isRich then
          object ("wait: pid " ++ Octets.text w ++ " is not a child of this shell")
        status := 127
    return status

/-! ### Simple commands -/

/-- Run what a word asks for of those that change how the script goes on. -/
def control (E : Engine) (guarded : Bool) (name : String) (ws : List Octets)
    (further : Octets → List Octets → Doing Nat) : Doing Nat := do
  match name with
  | "break" => jump name ws
  | "continue" => jump name ws
  | "exit" => leaveScript name ws
  | "return" => leaveScript name ws
  | "eval" => evalWords E guarded ws
  | "." => sourceFile E ws
  | "source" => sourceFile E ws
  | "exec" => becomeProgram E ws
  | "type" => typeWords ws
  | "wait" => waitFor E ws
  | _ =>
    match ws with
    | ['-', 'p'] :: ws => match ws with
      | [] => return 0
      | n :: ws => further n ws
    | ['-', 'v'] :: names =>
      forAll (if (← get).isRich then names else names.take 1) (showName false)
    | ['-', 'V'] :: names =>
      forAll (if (← get).isRich then names else names.take 1) (showName true)
    | ['-', '-'] :: n :: ws => further n ws
    | n :: ws => further n ws
    | [] => return 0

/-- Run a command of the shell itself, or a program. -/
def invokePlainly (E : Engine) (guarded : Bool) : Nat → Octets → List Octets → Doing Nat
  | 0, _, _ => exhausted
  | n + 1, name, ws => do
    let d := (← get).shell.dialect
    let text := String.ofList name
    if (controls d).contains text then control E guarded text ws (invokePlainly E guarded n)
    else
      match builtin? d text with
      | some f =>
        modify fun p => { p with unwritten := false }
        let n ← (try f ws
          catch e =>
            match e with
            | .discard => return if text = "getopts" then 2 else 1
            | .exit n => if d = .plain && !specials.contains text then return n else throw e
            | e => throw e)
        if n = 0 && (← get).unwritten then
          object (text ++ (if d = .rich then ": write error: Bad file descriptor"
            else ": " ++ text ++ ": I/O error"))
          return 1
        else return n
      | none => runNamed E name ws

/-- Run what words ask for. -/
def invoke (E : Engine) (guarded : Bool) (name : Octets) (ws : List Octets) : Doing Nat := do
  let p ← get
  let text := String.ofList name
  let special := !p.isRich && specials.contains text
  match (if special then none else Disk.valueAt text p.shell.functions) with
  | some body => callFunction E guarded text body ws
  | none => invokePlainly E guarded (ws.length + 2) name ws

/-! ### Tracing -/

/-- The name that an assignment gives a value to. -/
def assignedName : Assignment → String
  | .set name _ _ _ => name
  | .array name _ _ => name

/-- A word as it is shown while commands are traced. -/
def tracedWord (rich : Bool) (o : Octets) : Octets :=
  let plain := !o.isEmpty && o.all fun c =>
    c.isAlphanum || ['_', '-', '.', '/', ':', '=', '@', '%', '+', ',', '^'].contains c
  if !rich || plain then o else reusable o

/-- What stands in front of a command that is shown: its first octet is repeated for texts that are
run inside one another. -/
def traceFront (E : Engine) : Doing Octets := do
  let p ← get
  let text := (p.valueOf? "PS4").getD ['+', ' ']
  let special := text.any fun c => c = '$' || c = '\x60' || c = '\\'
  let front ← (if !special then return text
    else
      match readPieces (4 * text.length + 40) .here false (.ofText p.shell.dialect text) with
      | .ok (w, _) => do
        onShell (setOption "xtrace" false)
        let o ← textOf E w
        onShell (setOption "xtrace" true)
        return o
      | .error _ => return text)
  return List.replicate (if p.isRich then p.shell.level else 0) (front.headD ' ') ++ front

/-- Show words, if commands are to be shown. -/
def traceLine (E : Engine) (ws : List Octets) : Doing Unit := do
  let p ← get
  if p.hasOption "xtrace" && !ws.isEmpty then
    let _ ← writeTo 2 ((← traceFront E) ++ List.intercalate [' '] ws ++ ['\n'])

/-- An assignment as it is shown once it was made. -/
def shownAssignment (p : Process) (a : Assignment) : Octets :=
  (assignedName a).toList ++ '=' :: ((p.valueOf? (assignedName a)).getD [])

/-! ### Assignments -/

/-- The elements that words give to an array, each with its subscript if it has one. -/
def expandElements (E : Engine) (elements : List (Option Word × Word)) :
    Doing (List (Option Octets × Octets)) := do
  let mut all : List (Option Octets × Octets) := []
  for e in elements do
    match e.1 with
    | some i =>
      let key := plainText (← E.expand false i)
      all := all ++ [(some key, ← textOf E e.2)]
    | none => all := all ++ (← fieldsOf E e.2).map fun o => (none, o)
  return all

/-- Put elements into an array: those without a subscript go behind the one before. -/
def putElements (next : Nat) (es : List (Nat × Octets)) :
    List (Option Octets × Octets) → Doing (List (Nat × Octets))
  | [] => return es
  | (index, o) :: rest => do
    let i : Nat ← (match index with
      | some key => do return (← Arithmetic.compute key).toNat
      | none => return next)
    putElements (i + 1) (Value.insert i o es) rest

/-- Put elements into a table: those without a key are keys and values in turn. -/
def putPairs (es : List (Octets × Octets)) :
    List (Option Octets × Octets) → List (Octets × Octets)
  | (some k, o) :: rest => putPairs (Disk.assign k o es) rest
  | (none, k) :: (none, o) :: rest => putPairs (Disk.assign k o es) rest
  | (none, k) :: rest => putPairs (Disk.assign k [] es) rest
  | [] => es

/-- Make an assignment. -/
def assignOne (E : Engine) (a : Assignment) : Doing Unit := do
  match a with
  | .set name index append value =>
    let o ← textOf E value
    let name := (← get).bindings.meant name
    if (← get).isRich && (← get).hasOption "xtrace" then
      let place : Octets ← (match index with
        | none => return []
        | some i => do return '[' :: plainText (← E.expand false i) ++ [']'])
      let mark := if append then ['+', '='] else ['=']
      traceLine E [name.toList ++ place ++ mark ++ (if o.isEmpty then [] else tracedWord true o)]
    let v := (Disk.valueAt name (← get).bindings).getD {}
    let place : Option Value ← (match index with
      | none => return none
      | some i => do return some (← Arithmetic.indexOf name (plainText (← E.expand false i))))
    let p ← get
    let old : Octets := if !append then []
      else (match place with
        | none => p.valueOf? name
        | some i => p.elementOf name i).getD []
    let o ← (if v.integer then do
        let n ← Arithmetic.compute o
        let m ← (if append then Arithmetic.compute old else return 0)
        return integerText (m + n)
      else return old ++ o)
    Arithmetic.assignText name place o
  | .array name append elements =>
    let name := (← get).bindings.meant name
    let v := (Disk.valueAt name (← get).bindings).getD {}
    if v.readonly then Arithmetic.readonlyFault name
    let all ← expandElements E elements
    if (← get).isRich then
      let shown := all.map fun e => (match e.1 with
        | some key => '[' :: key ++ [']', '=']
        | none => []) ++ tracedWord true e.2
      traceLine E [name.toList ++ (if append then ['+', '=', '('] else ['=', '(']) ++
        List.intercalate [' '] shown ++ [')']]
    let value : Value ← (match v.value with
      | some (.table es) => return .table (putPairs (if append then es else []) all)
      | old => do
        let start := if append then (old.map Value.numbered).getD [] else []
        let next := if append then (old.map Value.nextIndex).getD 0 else 0
        return .list (← putElements next start all))
    modify fun p => { p with bindings := p.bindings.change name fun v =>
      { v with value := some value } }

/-! ### Simple commands -/

/-- What a failed command leads to. -/
def check (E : Engine) (guarded : Bool) : Doing Unit := do
  let p ← get
  let n := p.shell.status
  if n ≠ 0 ∧ !guarded then
    match Disk.valueAt errorTrap p.shell.traps with
    | some action => if p.shell.calls.isEmpty || p.hasOption "errtrace" then runTrap E n action
    | none => pure ()
    if p.hasOption "errexit" then throw (.exit n)

/-- The code of a command whose redirections failed. -/
def redirectionFault : Doing Nat := do return if (← get).isRich then 1 else 2

/-- Run a command with assignments that hold for it alone. -/
def withAssignments (E : Engine) (as : List Assignment) (act : Doing Nat) : Doing Nat := do
  if as.isEmpty then act
  else
    let p ← get
    let olds := (as.map assignedName).eraseDups.map fun n => (n, Disk.valueAt n p.bindings)
    for a in as do
      try
        assignOne E a
        modify fun p => { p with bindings := p.bindings.change (assignedName a) fun v =>
          { v with exported := true } }
      catch e =>
        if e = .discard then pure () else throw e
    try
      let n ← act
      restoreVariables olds
      return n
    catch e =>
      restoreVariables olds
      throw e

/-- Run a command whose words are expanded. -/
def executeWords (E : Engine) (guarded : Bool) (as : List Assignment) (rs : List Redirection)
    (name : Octets) (ws : List Octets) : Doing Unit := do
  let p ← get
  let rich := p.isRich
  let text := String.ofList name
  let special := !rich && specials.contains text
  let as ← (if rich || !p.hasOption "xtrace" then return as
    else as.mapM fun a => match a with
      | .set name index append value => do
        return Assignment.set name index append (quoteAll (← textOf E value))
      | a => return a)
  let shownAs : List Octets := as.map fun a => match a with
    | .set name _ _ value => name.toList ++ '=' :: plainOf value
    | .array name _ _ => name.toList
  let shownWords := (name :: ws).map (tracedWord rich)
  if !rich then traceLine E (shownAs ++ shownWords)
  else if as.isEmpty then traceLine E shownWords
  let act (act : Doing Nat) : Doing Nat := do
    if rich && !as.isEmpty then traceLine E shownWords
    act
  if text = "exec" then
    if ← redirect E rs then
      for a in as do
        assignOne E a
      setStatus (← becomeProgram E ws)
    else if rich then setStatus 1
    else throw (.exit 2)
  else
    let worked ← underRedirections E rs do
      if special then
        for a in as do
          assignOne E a
        setStatus (← invoke E guarded name ws)
      else setStatus (← withAssignments E as (act (invoke E guarded name ws)))
    if !worked then
      setStatus (← redirectionFault)
      if special then throw (.exit 2)

/-- Forget the streams that words of a command stood for. -/
def dropChannels (old : List (Nat × Nat)) : Doing Unit :=
  modify fun p => { p with streams := p.streams.filter fun s =>
    s.1 < 40 || s.1 > channelStream || old.any fun o => o.1 = s.1 }

/-- Run a simple command. -/
def executeSimple (E : Engine) (guarded : Bool) (line : Nat) (as : List Assignment)
    (ws : List Word) (rs : List Redirection) : Doing Unit := do
  onShell fun i => { i with line := line, lastOutput := none }
  let p ← get
  let outer := p.shell.pending.length
  match ← fieldsOfAll E ws with
  | [] =>
    let worked ← underRedirections E rs do
      for a in as do
        assignOne E a
      let p ← get
      if !p.isRich then traceLine E (as.map (shownAssignment p))
    let n ← (if worked then return (← get).shell.lastOutput.getD 0 else redirectionFault)
    setStatus n
  | name :: ws =>
    executeWords E guarded as rs name ws
    onShell fun i => { i with lastWord := (name :: ws).getLast?.getD [] }
  if p.isRich then
    settle E outer
    dropChannels p.streams

/-! ### Compound commands -/

/-- Run a round of a loop; the answer is whether another one may follow. -/
def round (act : Doing Unit) : Doing Bool := do
  try
    act
    return true
  catch e =>
    match e with
    | .leave n => if n > 1 then throw (.leave (n - 1)) else return false
    | .again n => if n > 1 then throw (.again (n - 1)) else return true
    | e => throw e

/-- Run a loop, which counts among those that can be left. -/
def inLoop (act : Doing Unit) : Doing Unit := do
  let old := (← get).shell.loops
  onShell fun i => { i with loops := old + 1 }
  let restore : Doing Unit := onShell fun i => { i with loops := old }
  try
    act
    restore
  catch e =>
    restore
    throw e

/-- Run a body as long as a condition holds, or does not; the status is that of the last round. -/
def executeLoop (E : Engine) (guarded negated : Bool) (condition body : Command) : Doing Unit :=
  inLoop do
    let mut last := 0
    for _ in [0:roundLimit] do
      let mut holds := false
      let mut goesOn := true
      try
        E.exec true condition
        holds := ((← get).shell.status = 0) != negated
        if holds then E.exec guarded body
      catch e =>
        match e with
        | .leave n =>
          if n > 1 then throw (.leave (n - 1))
          goesOn := false
          holds := true
        | .again n =>
          if n > 1 then throw (.again (n - 1))
          holds := true
        | e => throw e
      if holds then last := (← get).shell.status
      if !holds || !goesOn then break
    setStatus last

/-- Run a body for each of several values of a variable. -/
def executeEach (E : Engine) (guarded : Bool) (name : String) (body : Command)
    (items : List Octets) : Doing Unit :=
  inLoop do
    for o in items do
      let given : Bool ← (try
          Arithmetic.assignText name none o
          return true
        catch e => if e = .discard then return false else throw e)
      if !given then
        setStatus 1
        break
      if !(← round (E.exec guarded body)) then break

/-- Compute an expression; an empty one has the value that was said. -/
def computeWord (E : Engine) (w : Word) (empty : Int) : Doing Int := do
  let o := plainText (← E.expand false w)
  if o.all isSpaceOctet then return empty else Arithmetic.compute o

/-- Run a body as long as an expression is not zero. -/
def executeCount (E : Engine) (guarded : Bool) (start condition step : Word) (body : Command) :
    Doing Unit :=
  inLoop do
    let _ ← computeWord E start 0
    for _ in [0:roundLimit] do
      if (← computeWord E condition 1) = 0 then break
      if !(← round (E.exec guarded body)) then break
      let _ ← computeWord E step 0

/-- Let the reader of a menu choose among items, and run a body for each choice, up to the end of the
input. -/
def executeMenu (E : Engine) (guarded : Bool) (name : String) (body : Command)
    (items : List Octets) : Doing Unit :=
  inLoop do
    let width := (naturalText items.length).length
    let mut shows := true
    for _ in [0:roundLimit] do
      if shows then
        for (o, i) in items.zipIdx do
          let _ ← writeTo 2 (Shell.padded false ' ' width (naturalText (i + 1)) ++ [')', ' '] ++ o ++ ['\n'])
      let _ ← writeTo 2 (((← get).valueOf? "PS3").getD "#? ".toList)
      if (← readVariables []) ≠ 0 then
        write ['\n']
        setStatus 1
        break
      let reply := ((← get).valueOf? "REPLY").getD []
      if reply.isEmpty then shows := true
      else
        let chosen := match Condition.decimalOf? reply with
          | some n => if n > 0 then items[n.toNat - 1]? else none
          | none => none
        Arithmetic.assignText name none (chosen.getD [])
        if !(← round (E.exec guarded body)) then break
        shows := (((← get).valueOf? "REPLY").getD []).isEmpty

/-- Whether one of the patterns of an arm is that of a text. -/
def armAccepts (E : Engine) (o : Octets) : List Word → Doing Bool
  | [] => return false
  | w :: ws => do
    let marks := marksOf (← E.expand false w)
    if ← matchesPattern false marks o then return true else armAccepts E o ws

/-- Run the arms that a text chooses. `entered` says that the arm before goes on with this one. -/
def executeArms (E : Engine) (guarded : Bool) (o : Octets) (entered : Bool) :
    List (List Word × Command × ArmEnd) → Doing Unit
  | [] => return ()
  | (ws, body, stop) :: arms => do
    if ← (if entered then return true else armAccepts E o ws) then
      E.exec guarded body
      match stop with
      | .done => return ()
      | .goOn => executeArms E guarded o true arms
      | .tryNext => executeArms E guarded o false arms
    else executeArms E guarded o false arms

/-- Run the parts of a pipe one after another, each with what the one before wrote: their codes. -/
def executeParts (E : Engine) (guarded : Bool) (input : Option Octets) :
    List Command → Doing (List Nat)
  | [] => return []
  | c :: cs => do
    let feed (p : Process) : Process :=
      let nesting := match c with
        | .simple .. => p.shell.nesting
        | _ => p.shell.nesting + 1
      let q := { p.apart with shell := { p.apart.shell with nesting := nesting } }
      match input with
      | none => q
      | some o =>
        let (key, q) := q.addChannel (.source o)
        q.setStream 0 key
    let act := asChild feed (closing E (E.exec guarded c))
    if cs.isEmpty then
      let p ← get
      if p.isRich && p.hasOption "lastpipe" then
        keepingStreams do
          match input with
          | none => pure ()
          | some o => modify fun p =>
            let (key, p) := p.addChannel (.source o)
            p.setStream 0 key
          E.exec guarded c
          return [← status]
      else return [← act]
    else
      let (o, n) ← capturing act
      return n :: (← executeParts E guarded (some o) cs)

/-- Keep the codes of a pipe where a script may look for them. -/
def keepCodes (codes : List Nat) : Doing Unit := do
  if (← get).isRich then
    modify fun p => { p with bindings := p.bindings.change "PIPESTATUS" fun v =>
      { v with value := some (Value.ofList (codes.map naturalText)) } }

/-- A time that never comes. -/
def never : Nat := Nat.pow 10 12

/-- How long a command sleeps before it does anything; one that goes on for ever sleeps as long. The
number bounds the functions it may call. -/
def sleepOf? (functions : List (String × Command)) : Nat → Command → Option Nat
  | 0, _ => none
  | fuel + 1, c =>
    let first : List Command → Option Nat
      | c :: _ => sleepOf? functions fuel c
      | [] => none
    match c with
    | .simple _ _ (w :: ws) _ =>
      let name := String.ofList (plainOf w)
      if name = "sleep" then some (ws.foldl (fun n w => n + (durationOf (plainOf w)).getD 1000) 0)
      else if name = "exec" then sleepOf? functions fuel (.simple 0 [] ws [])
      else (Disk.valueAt name functions).bind (sleepOf? functions fuel)
    | .sequence cs => first cs
    | .pipe cs => first cs
    | .redirected c _ => sleepOf? functions fuel c
    | .subshell c => sleepOf? functions fuel c
    | .not c => sleepOf? functions fuel c
    | .andThen c _ => sleepOf? functions fuel c
    | .orElse c _ => sleepOf? functions fuel c
    | .choose c _ _ => sleepOf? functions fuel c
    | .forEach _ _ _ c => sleepOf? functions fuel c
    | .loop negated condition _ =>
      let constant : Bool := match condition with
        | .sequence [.simple _ [] [w] []] =>
          [":", if negated then "false" else "true"].contains (String.ofList (plainOf w))
        | _ => false
      if constant then some never else sleepOf? functions fuel condition
    | _ => none

/-- Run a command in the background: it is done at once, unless it sleeps first. -/
def executeBehind (E : Engine) (guarded : Bool) (body : Command) : Doing Unit := do
  let p ← get
  let id := p.lastId + 1
  let keep (job : Job) : Doing Unit :=
    onShell fun i => { i with jobs := (id, job) :: i.jobs, lastJob := some id, status := 0 }
  match sleepOf? p.shell.functions 100 body with
  | some time =>
    modify fun p => { p with lastId := id }
    keep (.asleep (p.clock + time) body p.bindings p.cwd p.shell.parameters p.streams)
  | none =>
    let feed (p : Process) : Process :=
      let (key, q) := p.apart.addChannel .null
      q.setStream 0 key
    let n ← asChild feed (closing E (E.exec guarded body))
    modify fun q => { q with clock := p.clock }
    keep (.done n)

/-- Do something whose failed computations are failures of a command. -/
def computing (act : Doing Nat) : Doing Nat := do
  try act
  catch e => if e = .discard then return 1 else throw e

/-- Run a command. -/
def execute (E : Engine) (guarded : Bool) (c : Command) : Doing Unit := do
  if (← get).hasOption "noexec" then return ()
  match c with
  | .simple line as ws rs =>
    executeSimple E guarded line as ws rs
    keepCodes [← status]
    deliver E
    let p ← get
    if !p.shell.jobs.isEmpty then wakeUntil E p.clock
    check E guarded
  | .redirected body rs =>
    if !(← underRedirections E rs (E.exec guarded body)) then
      setStatus (← redirectionFault)
      check E guarded
  | .sequence cs =>
    if cs.isEmpty then setStatus 0
    for c in cs do
      E.exec guarded c
  | .background body => executeBehind E guarded body
  | .andThen a b =>
    E.exec true a
    if (← status) = 0 then E.exec guarded b
  | .orElse a b =>
    E.exec true a
    if (← status) ≠ 0 then E.exec guarded b
  | .not body =>
    E.exec true body
    setStatus (if (← status) = 0 then 1 else 0)
  | .pipe parts =>
    let codes ← executeParts E guarded none parts
    let last := codes.getLast?.getD 0
    let failed := (codes.reverse.find? (· ≠ 0)).getD 0
    let p ← get
    setStatus (if p.hasOption "pipefail" then failed else last)
    keepCodes codes
    deliver E
    check E guarded
  | .subshell body =>
    setStatus (← runApart E guarded [body])
    keepCodes [← status]
    deliver E
    check E guarded
  | .choose condition yes no =>
    E.exec true condition
    if (← status) = 0 then E.exec guarded yes else E.exec guarded no
  | .loop negated condition body => executeLoop E guarded negated condition body
  | .forEach line name ws body =>
    onShell fun i => { i with line := line }
    let items ← (match ws with
      | some ws => do return (← ws.mapM (fieldsOf E)).flatten
      | none => do return (← get).shell.parameters)
    setStatus 0
    executeEach E guarded name body items
  | .menu line name ws body =>
    onShell fun i => { i with line := line }
    let items ← (match ws with
      | some ws => do return (← ws.mapM (fieldsOf E)).flatten
      | none => do return (← get).shell.parameters)
    setStatus 0
    if !items.isEmpty then executeMenu E guarded name body items
  | .count line start condition step body =>
    onShell fun i => { i with line := line }
    setStatus 0
    executeCount E guarded start condition step body
  | .select line w arms =>
    onShell fun i => { i with line := line }
    let o ← textOf E w
    setStatus 0
    executeArms E guarded o false arms
  | .define name body =>
    onShell fun i => { i with functions := Disk.assign name body i.functions, status := 0 }
  | .ask line q =>
    onShell fun i => { i with line := line }
    let n ← computing do
      return match ← askQuestion E q with
        | some true => 0
        | some false => 1
        | none => 2
    setStatus n
    check E guarded
  | .compute line e =>
    onShell fun i => { i with line := line }
    if (← get).hasOption "xtrace" then
      traceLine E [['(', '(', ' '] ++ plainText (← E.expand false e) ++ [' ', ')', ')']]
    let n ← computing do return if (← computeWord E e 0) = 0 then 1 else 0
    setStatus n
    check E guarded

/-! ### Putting it together -/

/-- What runs commands that are nested so deep. -/
def engine : Nat → Engine
  | 0 => .empty
  | n + 1 =>
    let E := engine n
    ⟨execute E, expandWord E, runProgram E⟩

/-- How deep commands may be nested. -/
def depthLimit : Nat := 20000

end Whittle.Shell
