import Whittle.Shell.Conditions
import Whittle.Shell.Parameters

/-!
# Commands of the shell itself

These are the commands that a shell runs without starting a program and without running other
commands. In the plain dialect a failed special one ends the script.
-/

namespace Whittle.Shell

open Doing

/-- Object to a command: its code, unless that ends the script. -/
def refuse (special : Bool) (text : String) : Doing Nat := do
  object text
  if (← get).isRich then return 1
  else if special then throw (.exit 2)
  else return 2

/-! ### Output -/

/-- Write the words, their escapes replaced, and a line feed unless `-n` stands in front. -/
def echoEscaped (ws : List Octets) : Doing Nat := do
  let (ws, feed) := match ws with
    | ['-', 'n'] :: ws => (ws, false)
    | ws => (ws, true)
  let (o, stopped) := unescape { zeroFirst := true } 0 (List.intercalate [' '] ws)
  write (if feed && !stopped then o ++ ['\n'] else o)
  return 0

/-- The options in front of what is to be written: no line feed, escapes or none. -/
def echoOptions : List Octets → Bool → Bool → Bool × Bool × List Octets
  | [], feed, escapes => (feed, escapes, [])
  | w :: ws, feed, escapes =>
    match w with
    | '-' :: c :: cs =>
      if (c :: cs).all fun c => c = 'n' || c = 'e' || c = 'E' then
        let escapes := (c :: cs).foldl (fun e c => if c = 'e' then true else if c = 'E' then false
          else e) escapes
        echoOptions ws (feed && !(c :: cs).contains 'n') escapes
      else (feed, escapes, w :: ws)
    | _ => (feed, escapes, w :: ws)

/-- Write the words, their escapes replaced if an option says so. -/
def echoPlain (ws : List Octets) : Doing Nat := do
  let (feed, escapes, ws) := echoOptions ws true false
  let o := List.intercalate [' '] ws
  let (o, stopped) := if escapes then unescape { zeroFirst := true, many := true } 0 o else (o, false)
  write (if feed && !stopped then o ++ ['\n'] else o)
  return 0

/-- Assign a text to what a word names: a variable, or an element of an array. -/
def assignNamed (name : String) (o : Octets) : Doing Unit := do
  match splitSubscript name.toList with
  | (array, some i) => Arithmetic.assignText array (some (← Arithmetic.indexOf array i)) o
  | (name, none) => Arithmetic.assignText name none o

/-- Write words by a format. -/
def printfBuiltin (ws : List Octets) : Doing Nat := do
  let rich := (← get).isRich
  let rules : EscapeRules := { many := rich, quotes := rich, wide := rich }
  let usage : Doing Nat := do
    object "printf: usage: printf format [arguments]"
    return 2
  let (name, behind) : Option Octets × List Octets := match ws with
    | ['-', 'v'] :: name :: rest => if rich then (some name, rest) else (none, ws)
    | ws => (none, ws)
  let closed := behind.head? = some ['-', '-']
  match (if closed then behind.drop 1 else behind) with
  | [] => usage
  | spec :: arguments =>
    if !closed && spec.head? = some '-' && spec.length > 1 then
      object ("printf: " ++ (if rich then Octets.text (spec.take 2) ++ ": invalid option"
        else "Illegal option " ++ Octets.text (spec.take 2)))
      return 2
    let r := format rules spec arguments
    match name with
    | some n => assignNamed (String.ofList n) r.text
    | none => write r.text
    let isTooLarge (o : Octets) : Bool := (splitInteger o).any fun r => r.2.isEmpty
    for o in r.bad do
      object ("printf: " ++
        (if o = ['%'] then (if rich then "\x60%': " else "") ++ "missing format character"
         else if o.head? = some '%' then
           if rich then "\x60" ++ Octets.text (o.drop 1) ++ "': invalid format character"
           else Octets.text o ++ ": invalid directive"
         else if isTooLarge o then
           (if rich then "warning: " else "") ++ Octets.text o ++ ": Numerical result out of range"
         else Octets.text o ++
           (if rich then ": invalid number"
            else if (splitInteger o).isSome then ": not completely converted"
            else ": expected numeric value")))
    let faults := if rich then r.bad.filter fun o => !isTooLarge o else r.bad
    return if faults.isEmpty then 0
      else if !rich && faults.any (fun o => o.head? = some '%') then 2 else 1

def testBuiltin (name : String) (ws : List Octets) : Doing Nat := do
  let rich := (← get).isRich
  match ← testWords rich name ws with
  | .ok n => return n
  | .error e =>
    object (name ++ ": " ++ e)
    return 2

/-! ### Directories -/

/-- A path without dots, as far as its names say. -/
def settlePath (o : Octets) : Octets :=
  let names := (o.splitOn '/').filter fun s => s ≠ [] && s ≠ ['.']
  let kept := names.foldl (fun acc s => if s = ['.', '.'] then acc.drop 1 else s :: acc) []
  '/' :: List.intercalate ['/'] kept.reverse

/-- Go to a directory; the answer is whether that worked. -/
def goTo (name : Octets) (physical : Bool) : Doing Bool := do
  let p ← get
  let current := (p.valueOf? "PWD").getD (Octets.ofString p.cwd.text)
  let full := if name.head? = some '/' then name else current ++ '/' :: name
  let settled := settlePath full
  let target := if physical then p.fileOf name else ⟨Octets.text settled⟩
  match p.disk.stat target, name.isEmpty with
  | .ok (place, .dir), false =>
    let cwd := Disk.pathOf place
    let shown := if physical then Octets.ofString cwd.text else settled
    set (({ p with cwd := cwd }.setVariable "OLDPWD" current).setVariable "PWD" shown)
    return true
  | _, _ => return false

def changeDir (ws : List Octets) : Doing Nat := do
  let p ← get
  let physical := ws.any (· = ['-', 'P'])
  let operands := ws.filter fun w => !([['-', 'P'], ['-', 'L'], ['-', '-']].contains w)
  let fail (name : Octets) : Doing Nat := do
    let q ← get
    if q.isRich then
      let why := match q.disk.stat (q.fileOf name) with
        | .ok _ => "Not a directory"
        | .error e => e.wording
      object ("cd: " ++ Octets.text name ++ ": " ++ why)
      return 1
    else
      object ("cd: can't cd to " ++ Octets.text name)
      return 2
  match operands with
  | [] =>
    match p.valueOf? "HOME" with
    | some home => if ← goTo home physical then return 0 else fail home
    | none =>
      if p.isRich then
        object "cd: HOME not set"
        return 1
      else return 0
  | [['-']] =>
    match p.valueOf? "OLDPWD" with
    | some old =>
      if ← goTo old physical then
        write (((← get).valueOf? "PWD").getD [] ++ ['\n'])
        return 0
      else fail old
    | none =>
      if p.isRich then
        object "cd: OLDPWD not set"
        return 1
      else return 0
  | name :: more =>
    let fixed : Bool := name.head? = some '/' ||
      [['.'], ['.', '.']].contains (name.takeWhile (· ≠ '/'))
    let name := if name.isEmpty then ['.'] else name
    let places := if fixed then [] else (((p.valueOf? "CDPATH").map (·.splitOn ':')).getD [])
    let pathIn (place : Octets) : Octets := if place.isEmpty then name else place ++ '/' :: name
    if p.isRich && !more.isEmpty then
      object "cd: too many arguments"
      return 1
    else
      match places.find? fun o => p.disk.isDir (p.fileOf (pathIn o)) with
      | some place =>
        if ← goTo (pathIn place) physical then
          if !place.isEmpty then write (((← get).valueOf? "PWD").getD [] ++ ['\n'])
          return 0
        else fail name
      | none => if ← goTo name physical then return 0 else fail name

def printDir (ws : List Octets) : Doing Nat := do
  let p ← get
  let shown := if ws.contains ['-', 'P'] then Octets.ofString p.cwd.text
    else (p.valueOf? "PWD").getD (Octets.ofString p.cwd.text)
  write (shown ++ ['\n'])
  return 0

/-! ### Input -/

/-- A line of a text: its marks, and what is left. Unless the line is raw, a backslash quotes what
follows and joins lines. The last component tells whether the line was ended. -/
def takeMarkedLine (raw : Bool) (delimiter : Char) : Nat → Octets → List Mark × Octets × Bool
  | 0, cs => ([], cs, false)
  | fuel + 1, cs =>
    match cs with
    | [] => ([], [], false)
    | c :: rest =>
      if c = delimiter then ([], rest, true)
      else if c = '\\' && !raw then
        match rest with
        | [] => ([], [], false)
        | '\n' :: rest => takeMarkedLine raw delimiter fuel rest
        | d :: rest =>
          let r := takeMarkedLine raw delimiter fuel rest
          (⟨d, true⟩ :: r.1, r.2)
      else
        let r := takeMarkedLine raw delimiter fuel rest
        (⟨c, false⟩ :: r.1, r.2)

/-- What is left of marks behind the separator in front of them, white octets around it included. -/
def dropSeparator (seps : Octets) (ms : List Mark) : List Mark :=
  let white (m : Mark) : Bool := !m.quoted && seps.contains m.char && isWhite m.char
  let rest := ms.dropWhile white
  match rest with
  | m :: more =>
    if !m.quoted && seps.contains m.char then more.dropWhile white else rest
  | [] => []

/-- The parts of a line for so many names; the last one takes what is left. -/
def splitParts (seps : Octets) : Nat → List Mark → List Octets
  | 0, _ => []
  | n + 1, ms =>
    let separates (m : Mark) : Bool := !m.quoted && seps.contains m.char
    let white (m : Mark) : Bool := separates m && isWhite m.char
    let ms := ms.dropWhile white
    let field := ms.takeWhile fun m => !separates m
    if n = 0 then
      let trimmed := (ms.reverse.dropWhile white).reverse
      let rest := trimmed.drop field.length
      let alone := rest.length = 1 && rest.all separates
      [(if alone then field else trimmed).map Mark.char]
    else field.map Mark.char :: splitParts seps n (dropSeparator seps (ms.drop field.length))

structure ReadOptions where
  raw : Bool := false
  delimiter : Char := '\n'
  /-- How many octets are read at most, and whether a delimiter is one of them. -/
  count : Option Nat := none
  exact : Bool := false
  array : Option String := none
  stream : Nat := 0
  names : List String := []

/-- The options with one more that has a value. -/
def ReadOptions.add (r : ReadOptions) (c : Char) (value : Octets) : ReadOptions :=
  match c with
  | 'd' => { r with delimiter := value.headD '\x00' }
  | 'n' => { r with count := some (numberOf value) }
  | 'N' => { r with count := some (numberOf value), exact := true }
  | 'u' => { r with stream := numberOf value }
  | 'a' => { r with array := some (String.ofList value) }
  | _ => r

/-- The options of a call: letters without a value, then one with a value at most. -/
def readReadOptions (rich : Bool) : List Octets → ReadOptions
  | [] => {}
  | ['-', '-'] :: ws => { names := ws.map String.ofList }
  | ('-' :: c :: cs) :: ws =>
    let flags := (c :: cs).takeWhile fun c => c = 'r' || (rich && (c = 's' || c = 'e'))
    let mark (r : ReadOptions) : ReadOptions := if flags.contains 'r' then { r with raw := true } else r
    match (c :: cs).drop flags.length, ws with
    | [], ws => mark (readReadOptions rich ws)
    | [v], value :: ws => mark ((readReadOptions rich ws).add v value)
    | [v], [] => mark (({} : ReadOptions).add v [])
    | v :: value, ws => mark ((readReadOptions rich ws).add v value)
  | ws => { names := ws.map String.ofList }

/-- Read a line of the input into variables; the code tells whether there was one. -/
def readVariables (ws : List Octets) : Doing Nat := do
  let p ← get
  let a := readReadOptions p.isRich ws
  if a.names.isEmpty && !p.isRich then
    object "read: arg count"
    return 2
  else
    match Disk.valueAt a.stream p.streams with
    | none => return 1
    | some key =>
      match p.drain key with
      | .error _ => return 1
      | .ok (text, q) =>
        let (marks, rest, ended) := match a.count with
          | some n =>
            let delimiter := if a.exact then '\uffff' else a.delimiter
            let r := takeMarkedLine a.raw delimiter (text.length + 1) (text.take n)
            (r.1, if r.2.2 then r.2.1 ++ text.drop n else text.drop n, r.2.2 || text.length ≥ n)
          | none => takeMarkedLine a.raw a.delimiter (text.length + 1) text
        set (q.putBack key rest)
        match a.array with
        | some name =>
          let fields := fieldsFrom p.separators none false
            (marks.map fun m => .mark m !m.quoted)
          modify fun p => { p with bindings := p.bindings.change (p.bindings.meant name) fun v =>
            { v with value := some (Value.ofList (fields.map fun f => f.map Mark.char)) } }
        | none =>
          let names := if a.names.isEmpty then ["REPLY"] else a.names
          let parts := if a.names.isEmpty then [marks.map Mark.char]
            else splitParts p.separators names.length marks
          for (n, o) in names.zip parts do
            assignNamed n o
        return if ended then 0 else 1

structure LineOptions where
  trims : Bool := false
  delimiter : Char := '\n'
  /-- How many lines are wanted at most, if that is not zero, and how many come before them. -/
  count : Nat := 0
  skipped : Nat := 0
  /-- The number of the first line in an array that is kept otherwise. -/
  origin : Option Nat := none
  stream : Nat := 0
  name : String := "MAPFILE"

def readLineOptions : List Octets → LineOptions
  | [] => {}
  | ['-', 't'] :: ws => { readLineOptions ws with trims := true }
  | ['-', 'd'] :: d :: ws => { readLineOptions ws with delimiter := d.headD '\x00' }
  | ['-', 'n'] :: n :: ws => { readLineOptions ws with count := numberOf n }
  | ['-', 's'] :: n :: ws => { readLineOptions ws with skipped := numberOf n }
  | ['-', 'O'] :: n :: ws => { readLineOptions ws with origin := some (numberOf n) }
  | ['-', 'u'] :: n :: ws => { readLineOptions ws with stream := numberOf n }
  | ['-', 't', 'n'] :: n :: ws => { readLineOptions ws with trims := true, count := numberOf n }
  | ['-', 't', 'd'] :: d :: ws =>
    { readLineOptions ws with trims := true, delimiter := d.headD '\x00' }
  | ['-', '-'] :: w :: _ => { name := String.ofList w }
  | w :: _ => { name := String.ofList w }

/-- The pieces of a text, each with the delimiter at its end if there is one. -/
def endedPieces (delimiter : Char) (o : Octets) : List Octets :=
  let parts := o.splitOn delimiter
  (parts.dropLast.map (· ++ [delimiter])) ++ (parts.getLast?.toList.filter fun s => !s.isEmpty)

/-- Read the lines of the input into an array. -/
def readLinesInto (ws : List Octets) : Doing Nat := do
  let a := readLineOptions ws
  let p ← get
  let name := p.bindings.meant a.name
  if (Disk.valueAt name p.bindings).any Variable.readonly then Arithmetic.readonlyFault name
  match (Disk.valueAt a.stream p.streams).map fun key => (key, p.drain key) with
  | some (key, .ok (o, q)) =>
    let pieces := endedPieces a.delimiter o
    let taken := if a.count = 0 then pieces else pieces.take (a.skipped + a.count)
    set (q.putBack key (o.drop taken.flatten.length))
    let lines := (taken.drop a.skipped).map fun l =>
      if a.trims && l.getLast? = some a.delimiter then l.dropLast else l
    modify fun p => { p with bindings := p.bindings.change name fun v =>
      match a.origin with
      | none => { v with value := some (Value.ofList lines) }
      | some n =>
        let old := (v.value.map Value.numbered).getD []
        { v with value := some (.list (lines.zipIdx.foldl (fun es l => Value.insert (n + l.2) l.1 es)
          old)) } }
    return 0
  | _ => return 1

/-! ### Variables -/

/-- A word as a name and what is assigned to it, if anything is. -/
def splitAssignment (w : Octets) : String × Option Octets × Bool :=
  let name := w.takeWhile fun c => c ≠ '='
  if name.length = w.length then (String.ofList w, none, false)
  else
    let adds := name.getLast? = some '+'
    (String.ofList (if adds then name.dropLast else name), some (w.drop (name.length + 1)), adds)

/-- A text in double quotes, as declarations show it. -/
def doubleQuoted (o : Octets) : Octets :=
  '"' :: o.flatMap (fun c => if ['"', '\\', '$', '\x60'].contains c then ['\\', c] else [c]) ++ ['"']

/-- A text as declarations show it. -/
def declaredQuoted (o : Octets) : Octets :=
  if needsEscapes o then escapeQuoted o else doubleQuoted o

/-- The key of a table as declarations show it. -/
def declaredKey (o : Octets) : Octets :=
  if !o.isEmpty && o.all (fun c => c.isAlphanum || ['_', '-', '.', '/', ':', '=', '@', '%', '+'].contains c)
  then o else declaredQuoted o

/-- The lines that would declare variables of a kind. -/
def declarations (p : Process) (word : String) (chosen : Variable → Bool) : Octets :=
  let vs := (p.bindings.filter fun v => chosen v.2).mergeSort fun a b => decide (a.1 ≤ b.1)
  vs.flatMap fun v =>
    let value := match v.2.value.bind Value.scalar? with
      | some o => '=' :: (if p.isRich then declaredQuoted o else plainlyQuoted o)
      | none => []
    (word ++ " " ++ v.1).toList ++ value ++ ['\n']

/-- Give names a mark, and the values written behind them. -/
def markAll (command : String) (word : String) (chosen : Variable → Bool)
    (mark : Variable → Variable) (ws : List Octets) : Doing Nat := do
  let p ← get
  let operands := ws.filter fun w => !([['-', 'p'], ['-', '-']].contains w)
  if operands.isEmpty then
    write (declarations p word chosen)
    return 0
  else
    let mut status := 0
    for w in operands do
      let (name, value, adds) := splitAssignment w
      if !isName name.toList then
        status ← refuse true (command ++ ": " ++
          (if p.isRich then "\x60" ++ name ++ "': not a valid identifier"
            else name ++ ": bad variable name"))
      else
        match value with
        | some o =>
          let q ← get
          let old := if adds then (q.valueOf? name).getD [] else []
          Arithmetic.assignText name none (old ++ o)
        | none => pure ()
        modify fun p => { p with bindings := p.bindings.change name mark }
    return status

def exportWords (ws : List Octets) : Doing Nat := do
  let rich := (← get).isRich
  if ws.head? = some ['-', 'n'] then
    modify fun p => { p with bindings := ws.foldl (fun vs w =>
      vs.change (String.ofList w) fun v => { v with exported := false }) p.bindings }
    return 0
  else if ws.head? = some ['-', 'f'] then
    forAll (ws.drop 1) fun w => do
      let p ← get
      let name := String.ofList w
      match Disk.valueAt name p.shell.functions with
      | some body =>
        set { p with shared := Disk.assign name body p.shared }
        return 0
      | none =>
        object ("export: " ++ name ++ ": not a function")
        return 1
  else
    markAll "export" (if rich then "declare -x" else "export") Variable.exported
      (fun v => { v with exported := true }) ws

def readonlyWords (ws : List Octets) : Doing Nat := do
  let rich := (← get).isRich
  markAll "readonly" (if rich then "declare -r" else "readonly") Variable.readonly
    (fun v => { v with readonly := true }) (ws.filter fun w => w ≠ ['-', 'a'] && w ≠ ['-', 'A'])

/-- The name under which the options are kept for the end of a function. -/
def optionsName : String := "-"

/-- Remember a variable for the end of the function that is being run. -/
def rememberVariable (name : String) : Doing Unit :=
  modify fun p =>
    match p.shell.scopes with
    | [] => p
    | scope :: outer =>
      if scope.any fun e => e.1 = name then p
      else
        let options : Variable := { value := some (Value.ofList (p.shell.options.map String.toList)) }
        let old := if name = optionsName then some options else Disk.valueAt name p.bindings
        { p with shell := { p.shell with scopes := ((name, old) :: scope) :: outer } }

/-- The attributes that options give to a variable. -/
def withAttributes (flags : List Char) (v : Variable) : Variable :=
  let v := if flags.contains 'x' then { v with exported := true } else v
  let v := if flags.contains 'r' then { v with readonly := true } else v
  let v := if flags.contains 'i' then { v with integer := true } else v
  let v := if flags.contains 'u' then { v with case := some true } else v
  let v := if flags.contains 'l' then { v with case := some false } else v
  let v := if flags.contains 'n' then { v with reference := true } else v
  if flags.contains 'A' then { v with value := some (v.value.getD (.table [])) }
  else if flags.contains 'a' then { v with value := some (v.value.getD (.list [])) }
  else v

/-- What is declared to be in a variable. -/
def declaredValue : Value → Octets
  | .text o => declaredQuoted o
  | .list es => '(' :: List.intercalate [' '] (es.map fun e =>
      ['['] ++ naturalText e.1 ++ [']', '='] ++ declaredQuoted e.2) ++ [')']
  | .table es => '(' :: ((Value.ordered es).flatMap fun e =>
      ['['] ++ declaredKey e.1 ++ [']', '='] ++ declaredQuoted e.2 ++ [' ']) ++ [')']

/-- The lines that declare one variable, arrays included. -/
def declarationOf (name : String) (v : Variable) : Octets :=
  let letters := (match v.value with
    | some (.list _) => "a"
    | some (.table _) => "A"
    | _ => "") ++ (if v.integer then "i" else "") ++ (if v.reference then "n" else "") ++
    (if v.readonly then "r" else "") ++ (if v.exported then "x" else "")
  let flags := if letters = "" then "--" else "-" ++ letters
  let value : Octets := match v.value with
    | none => []
    | some value => '=' :: declaredValue value
  ("declare " ++ flags ++ " " ++ name).toList ++ value ++ ['\n']

/-- Declare variables, in the function that is being run if there is one. -/
def declareWords (command : String) (ws : List Octets) : Doing Nat := do
  let p ← get
  let options := ws.takeWhile fun w =>
    (w.head? = some '-' || w.head? = some '+') && w.length > 1
  let flags := (options.filter fun w => w.head? = some '-').flatMap (·.drop 1)
  let operands := ws.drop options.length
  let inside := !p.shell.scopes.isEmpty
  if command = "local" && !inside then
    if p.isRich then
      object "local: can only be used in a function"
      return 1
    else
      object "local: not in a function"
      throw (.exit 2)
  else if flags.contains 'f' || flags.contains 'F' then
    return if operands.all fun w => (Disk.valueAt (String.ofList w) p.shell.functions).isSome then 0
      else 1
  else if flags.contains 'p' then
    let names := if operands.isEmpty then
        (p.bindings.map Prod.fst).mergeSort fun a b => decide (a ≤ b)
      else operands.map String.ofList
    let mut status := 0
    for n in names do
      match Disk.valueAt n p.bindings with
      | some v => write (declarationOf n v)
      | none =>
        object (command ++ ": " ++ n ++ ": not found")
        status := 1
    return status
  else
    let mut status := 0
    for w in operands do
      let (name, value, adds) := splitAssignment w
      if name = optionsName && command = "local" then rememberVariable name
      else if !isName name.toList then
        status ← refuse true (command ++ ": " ++
          (if p.isRich then "\x60" ++ Octets.text w ++ "': not a valid identifier"
            else name ++ ": bad variable name"))
      else if inside && p.isRich && !flags.contains 'g' &&
          ((Disk.valueAt name (← get).bindings).any Variable.readonly) then
        object (command ++ ": " ++ name ++ ": readonly variable")
        status := 1
      else
        if inside && !flags.contains 'g' then
          rememberVariable name
          if p.isRich then
            modify fun p => { p with bindings := Disk.assign name {} p.bindings }
        let wanted := flags.filter fun c => c ≠ 'r'
        modify fun p => { p with bindings := p.bindings.change name (withAttributes wanted) }
        match value with
        | some o =>
          if flags.contains 'n' then
            modify fun p => { p with bindings := p.bindings.change name fun v =>
              { v with value := some (.text o), reference := true } }
            continue
          let q ← get
          let old := if adds then (q.valueOf? name).getD [] else []
          let o ← (if flags.contains 'i' then return integerText (← Arithmetic.compute o)
            else return old ++ o)
          Arithmetic.assignText name none o
        | none => pure ()
        if flags.contains 'r' then
          modify fun p =>
            { p with bindings := p.bindings.change name fun v => { v with readonly := true } }
    return status

def unsetWords (ws : List Octets) : Doing Nat := do
  let functions := ws.head? = some ['-', 'f']
  let plainly := ws.head? = some ['-', 'n']
  let operands := ws.filter fun w => !([['-', 'f'], ['-', 'v'], ['-', '-'], ['-', 'n']].contains w)
  let mut status := 0
  for w in operands do
    let p ← get
    let name := if functions || plainly then String.ofList w else p.bindings.meant (String.ofList w)
    let front := w.takeWhile (· ≠ '[')
    if functions then
      set { p with shell := { p.shell with
        functions := p.shell.functions.filter fun f => f.1 ≠ name } }
    else if p.isRich && front.length < w.length then
      let array := String.ofList front
      let inner := (w.drop (front.length + 1)).dropLast
      let index ← Arithmetic.indexOf array inner
      modify fun p => { p with bindings := p.bindings.change (p.bindings.meant array) fun v =>
        { v with value := match index, v.value with
          | .list [(i, _)], some (.list es) => some (.list (es.filter fun e => e.1 ≠ i))
          | .text k, some (.table es) => some (.table (es.filter fun e => e.1 ≠ k))
          | _, old => old } }
    else
      match Disk.valueAt name p.bindings with
      | some v =>
        if v.readonly then
          status ← refuse true ("unset: " ++ name ++
            (if p.isRich then ": cannot unset: readonly variable" else ": is read only"))
        else set { p with bindings := p.bindings.erase name }
      | none =>
        if p.isRich then
          set { p with shell := { p.shell with
            functions := p.shell.functions.filter fun f => f.1 ≠ name } }
  return status

/-- Compute each word; the code tells whether the last value is zero. -/
def letWords (ws : List Octets) : Doing Nat := do
  let mut last : Int := 0
  for w in ws do
    last ← Arithmetic.compute w
  return if last = 0 then 1 else 0

/-! ### Parameters and options -/

def shiftParameters (ws : List Octets) : Doing Nat := do
  let p ← get
  let n : Option Nat := match ws with
    | [] => some 1
    | w :: _ => Text.readNat w
  match n with
  | none =>
    refuse true (if p.isRich then "shift: " ++ Octets.text (ws.headD []) ++ ": numeric argument required"
      else "shift: Illegal number: " ++ Octets.text (ws.headD []))
  | some n =>
    if n > p.shell.parameters.length then
      if p.isRich then return 1 else refuse true "shift: can't shift that many"
    else
      onShell fun i => { i with parameters := i.parameters.drop n }
      return 0

/-- The options by their letters. -/
def optionTable : List (Char × String) :=
  [('a', "allexport"), ('e', "errexit"), ('f', "noglob"), ('n', "noexec"), ('u', "nounset"),
   ('v', "verbose"), ('x', "xtrace"), ('C', "noclobber"), ('m', "monitor"), ('b', "notify"),
   ('I', "ignoreeof"), ('i', "interactive"), ('E', "emacs"), ('V', "vi"), ('s', "stdin")]

/-- Options that only the rich dialect has. -/
def richOptions : List (Char × String) :=
  [('B', "braceexpand"), ('h', "hashall"), ('E', "errtrace"), ('T', "functrace"), ('k', "keyword"),
   ('P', "physical"), ('p', "privileged"), ('t', "onecmd"), ('H', "histexpand")]

def optionName? (rich : Bool) (c : Char) : Option String :=
  Disk.valueAt c ((if rich then richOptions else []) ++ optionTable)

def longOptions (rich : Bool) : List String :=
  optionTable.map Prod.snd ++
    (if rich then richOptions.map Prod.snd ++ ["pipefail", "posix", "history"]
      else ["nolog", "debug"])

def setOption (name : String) (on : Bool) (i : Interpreter) : Interpreter :=
  let others := i.options.filter fun o => o ≠ name
  { i with options := if on then name :: others else others }

/-- Set the options of a word, and with `o` the one that the next word names; the answer is what is
left, or the complaint. -/
def setLetters (on : Bool) (ws : List Octets) : List Char → Doing (Except String (List Octets))
  | [] => return .ok ws
  | c :: cs => do
    let rich := (← get).isRich
    let sign := if on then "-" else "+"
    if c = 'o' then
      match ws with
      | [] => setLetters on [] cs
      | w :: rest =>
        let name := String.ofList w
        if (longOptions rich).contains name then
          onShell (setOption name on)
          setLetters on rest cs
        else
          return .error (if rich then name ++ ": invalid option name"
            else "Illegal option " ++ sign ++ "o " ++ name)
    else
      match optionName? rich c with
      | some name =>
        onShell (setOption name on)
        setLetters on ws cs
      | none =>
        return .error (if rich then sign ++ String.singleton c ++ ": invalid option"
          else "Illegal option " ++ sign ++ String.singleton c)

/-- Set options and positional parameters; the number bounds the words. -/
def setWords : Nat → Bool → List Octets → Doing Nat
  | 0, _, _ => return 0
  | fuel + 1, first, ws => do
    let parameters (ws : List Octets) : Doing Nat := do
      onShell fun i => { i with parameters := ws }
      return 0
    match ws with
    | [] => return 0
    | w :: rest =>
      match w with
      | ['-', '-'] => parameters rest
      | ['-'] => if first then parameters rest else parameters rest
      | '-' :: letters =>
        match ← setLetters true rest letters with
        | .ok ws => setWords fuel false ws
        | .error e =>
          let _ ← refuse true ("set: " ++ e)
          return 2
      | '+' :: letters =>
        if letters.isEmpty then parameters ws
        else
          match ← setLetters false rest letters with
          | .ok ws => setWords fuel false ws
          | .error e =>
            let _ ← refuse true ("set: " ++ e)
            return 2
      | _ => parameters ws

def setBuiltin (ws : List Octets) : Doing Nat := do
  let p ← get
  if ws = [['-', 'o']] ∨ ws = [['+', 'o']] then
    let width := if p.isRich then 15 else 16
    if !p.isRich && ws = [['-', 'o']] then writeText "Current option settings\n"
    for name in shownOptions p.isRich do
      let on := p.hasOption name || (p.isRich && usualOptions.contains name)
      write (if ws = [['-', 'o']] then
          padded true ' ' width name.toList ++ (if p.isRich then ['\t'] else []) ++
            (if on then "on\n" else "off\n").toList
        else ("set " ++ (if on then "-o " else "+o ") ++ name ++ "\n").toList)
    return 0
  else if ws.isEmpty then
    let vs := (p.bindings.filter fun v => v.2.value.isSome).mergeSort fun a b => decide (a.1 ≤ b.1)
    let shown (v : Value) : Octets :=
      match v with
      | .text o =>
        let plain := p.isRich && o.all fun c =>
          c.isAlphanum || ['_', '-', '.', '/', ':', '=', '@', '%', '+', ','].contains c
        if plain then o else quotedIn p.shell.dialect o
      | v => declaredValue v
    write (vs.flatMap fun v => v.1.toList ++ '=' :: ((v.2.value.map shown).getD []) ++ ['\n'])
    return 0
  else setWords (ws.length + 1) true ws

/-- The further options of the rich dialect, and whether a script starts with them. -/
def switches : List (String × Bool) :=
  [("autocd", false), ("assoc_expand_once", false), ("cdable_vars", false), ("cdspell", false),
   ("checkhash", false), ("checkjobs", false), ("checkwinsize", true), ("cmdhist", true),
   ("compat31", false), ("compat32", false), ("compat40", false), ("compat41", false),
   ("compat42", false), ("compat43", false), ("compat44", false), ("complete_fullquote", true),
   ("direxpand", false), ("dirspell", false), ("dotglob", false), ("execfail", false),
   ("expand_aliases", false), ("extdebug", false), ("extglob", false), ("extquote", true),
   ("failglob", false), ("force_fignore", true), ("globasciiranges", true), ("globskipdots", true),
   ("globstar", false), ("gnu_errfmt", false), ("histappend", false), ("histreedit", false),
   ("histverify", false), ("hostcomplete", true), ("huponexit", false), ("inherit_errexit", false),
   ("interactive_comments", true), ("lastpipe", false), ("lithist", false), ("localvar_inherit", false),
   ("localvar_unset", false), ("login_shell", false), ("mailwarn", false),
   ("no_empty_cmd_completion", false), ("nocaseglob", false), ("nocasematch", false),
   ("noexpand_translation", false), ("nullglob", false), ("patsub_replacement", true),
   ("progcomp", true), ("progcomp_alias", false), ("promptvars", true), ("restricted_shell", false),
   ("shift_verbose", false), ("sourcepath", true), ("varredir_close", false), ("xpg_echo", false)]

/-- Switch options of the rich dialect, or show them; the code tells whether all of them are on. -/
def shoptWords (ws : List Octets) : Doing Nat := do
  let options := ws.takeWhile fun w => w.head? = some '-' && w.length > 1
  let letters := options.flatMap (·.drop 1)
  let names := (ws.drop options.length).map String.ofList
  let table : List (String × Bool) := if letters.contains 'o'
    then (shownOptions true).map fun n => (n, usualOptions.contains n) else switches
  let p ← get
  let isOn (e : String × Bool) : Bool := if p.hasOption e.1 then true
    else e.2 && !p.hasOption ("-" ++ e.1)
  let show_ (e : String × Bool) : Doing Unit := do
    if !letters.contains 'q' then
      write (if letters.contains 'p' then
          ((if letters.contains 'o' then (if isOn e then "set -o " else "set +o ")
            else if isOn e then "shopt -s " else "shopt -u ") ++ e.1 ++ "\n").toList
        else padded true ' ' 15 e.1.toList ++ ['\t'] ++ (if isOn e then "on\n" else "off\n").toList)
  let switches_ := letters.contains 's' || letters.contains 'u'
  if names.isEmpty then
    for e in table do
      if !switches_ || isOn e = letters.contains 's' then show_ e
    return 0
  else
    let mut code := 0
    for n in names do
      match table.find? fun e => e.1 = n with
      | none =>
        object ("shopt: " ++ n ++ ": invalid " ++
          (if letters.contains 'o' then "option name" else "shell option name"))
        code := 1
      | some e =>
        if switches_ then
          onShell (setOption n (letters.contains 's'))
          if e.2 then onShell (setOption ("-" ++ n) (letters.contains 'u'))
        else
          show_ e
          if !isOn e then code := 1
    return code

/-- Put a value where the next option of the parameters is to be found. -/
def setOptionIndex (n offset : Nat) : Doing Unit := do
  modify fun p => p.setVariable "OPTIND" (naturalText n)
  onShell fun i => { i with optionOffset := offset }

/-- Find the next option among words. -/
def getOption (ws : List Octets) : Doing Nat := do
  let p ← get
  match ws with
  | spec :: name :: more =>
    let name := String.ofList name
    let words := if more.isEmpty then p.shell.parameters else more
    let index := max 1 (((p.valueOf? "OPTIND").map numberOf).getD 1)
    let offset := p.shell.optionOffset
    let quiet := spec.head? = some ':'
    let word := words.getD (index - 1) []
    let finish (n : Nat) : Doing Nat := do
      setOptionIndex n 0
      Arithmetic.assignText name none ['?']
      return 1
    if index > words.length || word.head? ≠ some '-' || word.length < 2 then finish index
    else if word = ['-', '-'] then finish (index + 1)
    else
      let at_ := if offset = 0 ∨ offset ≥ word.length then 1 else offset
      let c := word.getD at_ '?'
      let last := at_ + 1 ≥ word.length
      let go (n offset : Nat) (letter : Octets) (argument : Option Octets) : Doing Nat := do
        setOptionIndex n offset
        Arithmetic.assignText name none letter
        match argument with
        | some o => Arithmetic.assignText "OPTARG" none o
        | none => modify fun p => { p with bindings := p.bindings.erase "OPTARG" }
        return 0
      let behind := (spec.dropWhile (· ≠ c)).drop 1
      let known := c ≠ ':' && spec.contains c
      let nextN := if last then index + 1 else index
      let nextOffset := if last then 0 else at_ + 1
      if !known then
        if quiet then go nextN nextOffset ['?'] (some [c])
        else
          if p.isRich then
            complain (Octets.text p.shell.name ++ ": illegal option -- " ++ String.singleton c)
          else complain ("Illegal option -" ++ String.singleton c)
          go nextN nextOffset ['?'] none
      else if behind.head? = some ':' then
        if !last then go (index + 1) 0 [c] (some (word.drop (at_ + 1)))
        else
          match words[index]? with
          | some o => go (index + 2) 0 [c] (some o)
          | none =>
            if quiet then go (index + 1) 0 [':'] (some [c])
            else
              if p.isRich then
                complain (Octets.text p.shell.name ++ ": option requires an argument -- " ++
                  String.singleton c)
              else complain ("No arg for -" ++ String.singleton c ++ " option")
              go (index + 1) 0 ['?'] none
      else go nextN nextOffset [c] (some [])
  | _ =>
    object "getopts: Usage: getopts optstring var [arg...]"
    return 2

/-! ### Signals and jobs -/

/-- The names of signals. -/
def signals : List (String × Nat) :=
  [("HUP", 1), ("INT", 2), ("QUIT", 3), ("ILL", 4), ("TRAP", 5), ("ABRT", 6), ("BUS", 7),
   ("FPE", 8), ("KILL", 9), ("USR1", 10), ("SEGV", 11), ("USR2", 12), ("PIPE", 13), ("ALRM", 14),
   ("TERM", 15), ("STKFLT", 16), ("CHLD", 17), ("CONT", 18), ("STOP", 19), ("TSTP", 20),
   ("TTIN", 21), ("TTOU", 22), ("URG", 23), ("XCPU", 24), ("XFSZ", 25), ("VTALRM", 26),
   ("PROF", 27), ("WINCH", 28), ("IO", 29), ("PWR", 30), ("SYS", 31)]

/-- The signals that do nothing to a process that does not wait for them. -/
def harmless : List Nat := [0, 17, 18, 23, 28]

def signalOf (rich : Bool) (o : Octets) : Option Nat :=
  if !o.isEmpty && o.all Text.isDigit then
    if numberOf o < 65 then some (numberOf o) else none
  else
    let name := (String.ofList o).toUpper
    let name := if rich && name.startsWith "SIG" then String.ofList (name.toList.drop 3) else name
    if name = "EXIT" then some 0 else Disk.valueAt name signals

def signalName (n : Nat) : String :=
  if n = 0 then "EXIT"
  else ((signals.find? fun s => s.2 = n).map Prod.fst).getD (Text.natText n)

/-- Send a signal to a process, itself or one that waits for it. -/
def sendSignal (n : Nat) (receiver : Octets) : Doing Nat := do
  let p ← get
  let target : Option Nat :=
    match receiver with
    | '%' :: _ => p.shell.lastJob
    | o => Text.readNat o
  let missing (why : String) : Doing Nat := do
    object ("kill: " ++ why)
    return if p.isRich then 1 else 2
  match target with
  | none => missing ("Illegal number: " ++ Octets.text receiver)
  | some t =>
    if t = p.id then
      match Disk.valueAt n p.shell.traps with
      | some action =>
        if n = 9 then throw (.killed t n)
        if !action.isEmpty then set { p with sent := p.sent ++ [(t, n)] }
        return 0
      | none => if harmless.contains n then return 0 else throw (.killed t n)
    else if p.waiting.contains t then
      if n ≠ 0 then set { p with sent := p.sent ++ [(t, n)] }
      return 0
    else if p.shell.jobs.any fun j => j.1 = t then
      let kills : Bool := ((Disk.valueAt t p.shell.jobs).bind Job.due?).isSome && !harmless.contains n
      if kills then onShell fun i => { i with jobs := Disk.assign t (.done (128 + n)) i.jobs }
      return 0
    else
      object (if p.isRich then "kill: (" ++ Text.natText t ++ ") - No such process"
        else "kill: No such process")
      return 1

def kill (ws : List Octets) : Doing Nat := do
  let rich := (← get).isRich
  let toAll (signal : Option Nat) (word : Octets) (receivers : List Octets) : Doing Nat := do
    match signal with
    | none =>
      if rich then
        object ("kill: " ++ Octets.text word ++ ": invalid signal specification")
        return 1
      else
        object ("kill: Illegal option -" ++ Octets.text (word.take 1))
        return 2
    | some n =>
      if receivers.isEmpty then
        object "kill: usage: kill [-s sigspec | -signum | -sigspec] [pid | job]..."
        return 2
      else forAll receivers (sendSignal n)
  match ws with
  | ['-', 'l'] :: [] =>
    writeText (String.intercalate "\n" (signals.map Prod.fst) ++ "\n")
    return 0
  | ['-', 'l'] :: rest =>
    for w in rest do
      match Text.readNat w with
      | some n => writeText (signalName (if n > 128 then n - 128 else n) ++ "\n")
      | none =>
        match signalOf true w with
        | some n => writeText (Text.natText n ++ "\n")
        | none => pure ()
    return 0
  | ['-', 's'] :: s :: rest => toAll (signalOf rich s) s rest
  | ['-', 'n'] :: s :: rest => toAll (signalOf rich s) s rest
  | ['-', '-'] :: rest => toAll (some 15) [] rest
  | ('-' :: s) :: rest => toAll (signalOf rich s) s rest
  | rest => toAll (some 15) [] rest

/-- The numbers that stand for events that are no signals. -/
def errorTrap : Nat := 1001

def returnTrap : Nat := 1003

def events : List (String × Nat) := [("ERR", errorTrap), ("DEBUG", 1002), ("RETURN", returnTrap)]

/-- The name by which a trap is shown. -/
def trapName (rich : Bool) (n : Nat) : String :=
  match (events.find? fun e => e.2 = n).map Prod.fst with
  | some name => name
  | none => (if rich && n ≠ 0 then "SIG" else "") ++ signalName n

/-- What is to be done at signals. -/
def trapWords (ws : List Octets) : Doing Nat := do
  let p ← get
  let ws := if ws.head? = some ['-', '-'] then ws.drop 1 else ws
  let setOne (action : Option Octets) (n : Nat) : Doing Unit :=
    onShell fun i =>
      let others := i.traps.filter fun t => t.1 ≠ n
      { i with traps := match action with
        | some a => others ++ [(n, a)]
        | none => others }
  let set_ (action : Option Octets) (names : List Octets) : Doing Nat :=
    forAll names fun w => do
      let event := if p.isRich then Disk.valueAt (String.ofList w) events else none
      match (signalOf true w).or event with
      | some n =>
        setOne action n
        return 0
      | none =>
        if p.isRich then object ("trap: " ++ Octets.text w ++ ": invalid signal specification")
        else object ("trap: " ++ Octets.text w ++ ": bad trap")
        return 1
  let list (chosen : Nat → Bool) : Doing Nat := do
    let traps := p.shell.traps.mergeSort fun a b => decide (a.1 ≤ b.1)
    for t in traps do
      if chosen t.1 then
        write ("trap -- ".toList ++ quotedIn p.shell.dialect t.2 ++
          (" " ++ trapName p.isRich t.1 ++ "\n").toList)
    return 0
  let ws := if p.isRich && ws = [['-', 'p']] then [] else ws
  match ws with
  | [] => list fun _ => true
  | ['-', 'p'] :: names =>
    if !p.isRich then set_ (some ['-', 'p']) names
    else
      let numbers := names.filterMap fun w =>
        (signalOf true w).or (Disk.valueAt (String.ofList w) events)
      list numbers.contains
  | [w] => set_ none [w]
  | ['-'] :: names => set_ none names
  | action :: names =>
    if !action.isEmpty && action.all Text.isDigit then set_ none (action :: names)
    else set_ (some action) names

/-- The letters of three permissions. -/
def permissionLetters (n : Nat) : Octets :=
  (if n / 4 % 2 = 1 then ['r'] else []) ++ (if n / 2 % 2 = 1 then ['w'] else []) ++
    (if n % 2 = 1 then ['x'] else [])

/-- The permissions with a change made to them such as `u+x` or `go=`; there are none for a text that
is no change. -/
def changedPermissions (mode : Nat) (clause : Octets) : Option Nat :=
  let who := clause.takeWhile fun c => ['u', 'g', 'o', 'a'].contains c
  let places : List Nat := [('u', 64), ('g', 8), ('o', 1)].filterMap fun e =>
    if who.isEmpty || who.contains 'a' || who.contains e.1 then some e.2 else none
  match clause.drop who.length with
  | operator :: letters =>
    if ['+', '-', '='].contains operator && letters.all fun c => ['r', 'w', 'x', 'X', 's'].contains c
    then
      let bits := (if letters.contains 'r' then 4 else 0) + (if letters.contains 'w' then 2 else 0) +
        (if letters.contains 'x' then 1 else 0)
      some (places.foldl (fun mode place =>
        let old := mode / place % 8
        let new := if operator = '+' then old ||| bits
          else if operator = '-' then old &&& (7 - bits) else bits
        mode - old * place + new * place) mode)
    else none
  | [] => none

def umaskWords (ws : List Octets) : Doing Nat := do
  let p ← get
  let symbolic := ws.contains ['-', 'S']
  match ws.filter fun w => w ≠ ['-', 'S'] && w ≠ ['-', 'p'] && w ≠ ['-', '-'] with
  | [] =>
    let mode := 511 - p.mask
    if symbolic then
      write (['u', '='] ++ permissionLetters (mode / 64) ++ [',', 'g', '='] ++
        permissionLetters (mode / 8 % 8) ++ [',', 'o', '='] ++ permissionLetters (mode % 8) ++ ['\n'])
    else
      let front := if ws.contains ['-', 'p'] then "umask ".toList else []
      write (front ++ padded false '0' 4 (Nat.toDigits 8 p.mask) ++ ['\n'])
    return 0
  | w :: _ =>
    let mask : Option Nat :=
      if w.all isOctal then (if octalValue w < 512 then some (octalValue w) else none)
      else ((w.splitOn ',').foldlM changedPermissions (511 - p.mask)).map (511 - ·)
    match mask with
    | some n =>
      set { p with mask := n }
      return 0
    | none => refuse false ("umask: Illegal mode: " ++ Octets.text w)

/-- Tell the numbers of what runs in the background. -/
def jobWords (ws : List Octets) : Doing Nat := do
  if ws.contains ['-', 'p'] then
    for j in (← get).shell.jobs.reverse do
      if j.2.due?.isSome then write (naturalText j.1 ++ ['\n'])
  return 0

/-- Let words stand for texts, or tell what they stand for. -/
def aliasWords (ws : List Octets) : Doing Nat := do
  let p ← get
  let tell (a : String × Octets) : Doing Unit :=
    write ((if p.isRich then "alias " else "").toList ++ a.1.toList ++ '=' ::
      quotedIn p.shell.dialect a.2 ++ ['\n'])
  let ws := ws.filter fun w => w ≠ ['-', 'p'] && w ≠ ['-', '-']
  if ws.isEmpty then
    for a in p.shell.aliases.mergeSort fun a b => decide (a.1 ≤ b.1) do
      tell a
    return 0
  else
    forAll ws fun w => do
      let name := w.takeWhile (· ≠ '=')
      if name.length < w.length && !name.isEmpty then
        onShell fun i => { i with
          aliases := Disk.assign (String.ofList name) (w.drop (name.length + 1)) i.aliases }
        return 0
      else
        match Disk.valueAt (String.ofList w) p.shell.aliases with
        | some o =>
          tell (String.ofList w, o)
          return 0
        | none =>
          if p.isRich then object ("alias: " ++ Octets.text w ++ ": not found")
          else complain ("alias: " ++ Octets.text w ++ " not found")
          return 1

def unaliasWords (ws : List Octets) : Doing Nat := do
  let p ← get
  if ws.contains ['-', 'a'] then
    onShell fun i => { i with aliases := [] }
    return 0
  else
    forAll ws fun w => do
      let name := String.ofList w
      if (Disk.valueAt name p.shell.aliases).isSome then
        onShell fun i => { i with aliases := i.aliases.filter fun a => a.1 ≠ name }
        return 0
      else
        if p.isRich then object ("unalias: " ++ name ++ ": not found")
        else complain ("unalias: " ++ name ++ " not found")
        return 1

/-- Keep directories to come back to. -/
def pushDir (ws : List Octets) : Doing Nat := do
  let p ← get
  let here := (p.valueOf? "PWD").getD []
  match ws with
  | name :: _ =>
    if ← goTo name false then
      onShell fun i => { i with stack := here :: i.stack }
      let q ← get
      write (List.intercalate [' '] (((q.valueOf? "PWD").getD []) :: q.shell.stack) ++ ['\n'])
      return 0
    else
      object ("pushd: " ++ Octets.text name ++ ": No such file or directory")
      return 1
  | [] =>
    match p.shell.stack with
    | top :: rest =>
      let _ ← goTo top false
      onShell fun i => { i with stack := here :: rest }
      let q ← get
      write (List.intercalate [' '] (((q.valueOf? "PWD").getD []) :: q.shell.stack) ++ ['\n'])
      return 0
    | [] =>
      object "pushd: no other directory"
      return 1

def popDir (_ : List Octets) : Doing Nat := do
  match (← get).shell.stack with
  | top :: rest =>
    let _ ← goTo top false
    onShell fun i => { i with stack := rest }
    let q ← get
    write (List.intercalate [' '] (((q.valueOf? "PWD").getD []) :: rest) ++ ['\n'])
    return 0
  | [] =>
    object "popd: directory stack empty"
    return 1

def printStack (_ : List Octets) : Doing Nat := do
  let q ← get
  write (List.intercalate [' '] (((q.valueOf? "PWD").getD []) :: q.shell.stack) ++ ['\n'])
  return 0

/-! ### The tables -/

abbrev Builtin := List Octets → Doing Nat

def always (n : Nat) : Builtin := fun _ => return n

/-- The commands of both dialects. -/
def commonBuiltins : List (String × Builtin) :=
  [(":", always 0), ("true", always 0), ("false", always 1), ("printf", printfBuiltin),
   ("test", testBuiltin "test"), ("[", testBuiltin "["), ("cd", changeDir), ("pwd", printDir),
   ("read", readVariables), ("export", exportWords), ("readonly", readonlyWords),
   ("local", declareWords "local"), ("unset", unsetWords), ("shift", shiftParameters),
   ("set", setBuiltin), ("getopts", getOption), ("kill", kill), ("trap", trapWords),
    ("umask", umaskWords), ("hash", always 0), ("jobs", jobWords),
   ("ulimit", always 0), ("alias", aliasWords), ("unalias", unaliasWords), ("bg", always 1),
   ("fg", always 1),
   ("times", fun _ => do writeText "0m0.00s 0m0.00s\n0m0.00s 0m0.00s\n"; return 0)]

def plainBuiltins : List (String × Builtin) := [("echo", echoEscaped), ("chdir", changeDir)]

def richBuiltins : List (String × Builtin) :=
  [("echo", echoPlain), ("declare", declareWords "declare"), ("typeset", declareWords "typeset"),
   ("let", letWords), ("shopt", shoptWords), ("mapfile", readLinesInto),
   ("readarray", readLinesInto), ("pushd", pushDir), ("popd", popDir), ("dirs", printStack),
   ("enable", always 0), ("disown", always 0), ("logout", always 0), ("caller", always 1)]

def builtin? (d : Dialect) (name : String) : Option Builtin :=
  Disk.valueAt name ((match d with
    | .plain => plainBuiltins
    | .rich => richBuiltins) ++ commonBuiltins)

/-- The commands that run other commands, or change how the script goes on. -/
def controls (d : Dialect) : List String :=
  [".", "break", "command", "continue", "eval", "exec", "exit", "return", "type", "wait"] ++
    (if d = .rich then ["source", "builtin"] else [])

def isBuiltin (d : Dialect) (name : String) : Bool :=
  (builtin? d name).isSome || (controls d).contains name

/-- The commands whose failure ends a script of the plain dialect, and whose assignments stay. -/
def specials : List String :=
  [".", ":", "break", "continue", "eval", "exec", "exit", "export", "local", "readonly", "return",
   "set", "shift", "times", "trap", "unset"]

/-- The commands whose words are read as assignments. -/
def assigners (d : Dialect) : List String :=
  ["export", "readonly", "local"] ++ (if d = .rich then ["declare", "typeset"] else [])

end Whittle.Shell
