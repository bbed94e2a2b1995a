import Whittle.Shell.EditorScript
import Whittle.Shell.Engine
import Whittle.Shell.FileTools

/-!
# The stream editor

The editor takes its input line by line into a pattern, runs its script on it, and writes it. What it
keeps from line to line is a `Desk`; a command says by a `Course` how the script goes on. Lines
keep in mind whether they were ended, so that a last line without its line feed stays without one.
-/

namespace Whittle.Shell.Editor

open Doing

/-- A line, and whether its end was marked. -/
structure Line where
  text : Octets := []
  ended : Bool := true
  deriving DecidableEq, Repr

/-- Where a range of lines has come to. -/
inductive RangeState where
  | idle
  /-- Within the range, which ends at a line if its number is known. -/
  | active (stop : Option Nat)
  | closed
  deriving DecidableEq, Repr

/-- What is to be written at the end of a round. -/
inductive Later where
  | text (o : Octets)
  | file (name : Octets)
  | line (name : Octets)
  deriving DecidableEq, Repr

/-- A file that is written: its channel, and whether its last line lacks its end. -/
structure Output where
  name : Octets
  key : Nat
  unended : Bool := false
  deriving Repr

/-- What does not change while the editor works. -/
structure Setting where
  program : Array Command
  caller : Caller
  quiet : Bool := false
  stop : Char := '\n'
  width : Nat := 70

/-- What the editor keeps from command to command and from line to line. -/
structure Desk where
  pattern : Line := {}
  hold : Line := {}
  number : Nat := 0
  /-- The file that the line is from. -/
  name : Octets := ['-']
  /-- The lines that follow, by files. -/
  rest : List (Octets × List Line) := []
  later : List Later := []
  ranges : Array RangeState := #[]
  replaced : Bool := false
  regex : Option Regex := none
  /-- The first one is the output of the editor. -/
  outputs : List Output := []
  /-- The lines left in files that are read line by line. -/
  readers : List (Octets × List Octets) := []

/-- How a script goes on. -/
inductive Course where
  | next
  | jump (place : Nat)
  /-- End the round, and write the pattern if it is to be written. -/
  | done (writes : Bool)
  /-- Start over without a new line. -/
  | again
  | quit (writes : Bool) (code : Nat)
  /-- Give up: there is no expression that was used last. -/
  | lost
  deriving DecidableEq, Repr

abbrev Editing := StateT Desk Doing

/-! ### Input and output -/

/-- The lines of a content. -/
def linesOf (stop : Char) (o : Octets) : List Line :=
  let parts := o.splitOn stop
  let ended := parts.dropLast.map fun t => (⟨t, true⟩ : Line)
  match parts.getLast? with
  | some [] => ended
  | some t => ended ++ [⟨t, false⟩]
  | none => ended

/-- Write octets to an output, behind the end of its last line if that is missing. -/
def emit (s : Setting) (name text : Octets) (ended : Bool) : Editing Unit := do
  let e ← get
  match e.outputs.find? fun o => o.name = name with
  | none => return ()
  | some out =>
    let front : Octets := if out.unended then [s.stop] else []
    let p ← getThe Process
    match p.send out.key (front ++ text) with
    | .ok p => set p
    | .error e => throw e
    let settle (o : Output) : Output := if o.name = name then { o with unended := !ended } else o
    set { e with outputs := e.outputs.map settle }

/-- Write a line to an output. -/
def emitLine (s : Setting) (name : Octets) (l : Line) : Editing Unit :=
  emit s name (if l.ended then l.text ++ [s.stop] else l.text) l.ended

def writePattern (s : Setting) : Editing Unit := do
  if !s.quiet then emitLine s [] (← get).pattern

/-- Write what was to be written later. -/
def writeLater (s : Setting) : Editing Unit := do
  let queue := (← get).later.reverse
  modify fun e => { e with later := [] }
  for l in queue do
    match l with
    | .text o => emit s [] o true
    | .file name =>
      let special := if name = "/dev/stdin".toList then ['-'] else name
      match ← (contentOf special : Doing _) with
      | .ok o => if !o.isEmpty then emit s [] o true
      | .error _ => pure ()
    | .line name =>
      let e ← get
      let known := Disk.valueAt name e.readers
      let lines : List Octets ← (match known with
        | some ls => return ls
        | none => do
          match ← (readFile name : Doing _) with
          | .ok o => return Octets.lines o
          | .error _ => return [])
      set { e with readers := Disk.assign name (lines.drop 1) e.readers }
      match lines with
      | l :: _ => emit s [] (l ++ [s.stop]) true
      | [] => pure ()

/-- Whether the line is the last one. -/
def atLast : Editing Bool := do return (← get).rest.all fun f => f.2.isEmpty

/-- The next line, and whether there was one. The pattern so far stays in front of it if it is to be
kept. -/
def advance (s : Setting) (keeps : Bool) : Editing Bool := do
  writeLater s
  let e ← get
  match e.rest.dropWhile fun f => f.2.isEmpty with
  | (name, l :: ls) :: files =>
    let text := if keeps then e.pattern.text ++ s.stop :: l.text else l.text
    set { e with pattern := ⟨text, l.ended⟩, number := e.number + 1, name := name
                 rest := (name, ls) :: files }
    return true
  | _ => return false

/-! ### Addresses -/

/-- Whether an expression has a match in the pattern; that of the last use stands in for none. -/
def found (r : Option Regex) : Editing (Option Bool) := do
  let e ← get
  match r.or e.regex with
  | none => return none
  | some r =>
    set { e with regex := some r }
    return some (r.matchesIn e.pattern.text)

def isAt (a : Address) : Editing (Option Bool) := do
  let n := (← get).number
  match a with
  | .line k => return some (n = k)
  | .last => return some (← atLast)
  | .step first step =>
    return some (if step = 0 then n = first else n ≥ first && (n - first) % step = 0)
  | .found r => found r

def setRange (place : Nat) (r : RangeState) : Editing Unit :=
  modify fun e => { e with ranges := e.ranges.set! place r }

/-- Start a range at the current line. -/
def startRange (place : Nat) (stop : RangeEnd) : Editing Unit := do
  let n := (← get).number
  let upTo (k : Nat) : Editing Unit :=
    setRange place (if n ≥ k then .closed else .active (some k))
  match stop with
  | .line k => upTo k
  | .plus k => upTo (n + k)
  | .multiple k => upTo (if k = 0 then n else (n / k + 1) * k)
  | .last => setRange place (if ← atLast then .closed else .active none)
  | .found _ => setRange place (.active none)

/-- Whether a command is for the current line. -/
def selects (place : Nat) (c : Command) : Editing (Option Bool) := do
  match c.first, c.second with
  | none, _ => return some true
  | some a, none => isAt a
  | some a, some stop =>
    let e ← get
    match e.ranges.getD place .idle with
    | .active (some k) =>
      if e.number ≥ k then setRange place .closed
      return some (e.number ≤ k)
    | .active none =>
      match stop with
      | .found r =>
        match ← found r with
        | none => return none
        | some yes =>
          if yes then setRange place .closed
          return some true
      | _ =>
        if ← atLast then setRange place .closed
        return some true
    | state =>
      let starts : Option Bool ← (match a, stop with
        | .line k, .line m =>
          return some (e.number = k || (e.number > k && e.number ≤ m && state ≠ .closed))
        | .line k, _ => return some (e.number = k || (e.number > k && state ≠ .closed))
        | a, _ => isAt a)
      if starts = some true then startRange place stop
      return starts

/-! ### Replacements -/

/-- The case that a replacement is written in: of all octets, and of the next one. -/
structure Casing where
  all : Option Char := none
  next : Option Char := none

def withCase (letter : Char) (c : Char) : Char :=
  if letter = 'U' || letter = 'u' then c.toUpper else c.toLower

/-- Octets in a case. -/
def Casing.apply (k : Casing) (o : Octets) : Octets :=
  let all := match k.all with
    | some l => o.map (withCase l)
    | none => o
  match k.next, all with
  | some l, c :: cs => withCase l c :: cs
  | _, cs => cs

/-- What the parts of a replacement come to for a match. -/
def replacementText (t : Array Char) (m : Found) (k : Casing) : List ReplacementPart → Octets
  | [] => []
  | .case 'E' :: ps => replacementText t m {} ps
  | .case c :: ps =>
    if c = 'U' || c = 'L' then replacementText t m { all := some c } ps
    else replacementText t m { k with next := some c } ps
  | .text o :: ps => k.apply o ++ replacementText t m { k with next := none } ps
  | .group n :: ps =>
    let o := (m.group? t n).getD []
    k.apply o ++ replacementText t m (if o.isEmpty then k else { k with next := none }) ps

/-- What a shell writes for a text. -/
def outputOf (s : Setting) (o : Octets) : Editing Octets := do
  let (out, _) ← (capturing (s.caller.script o) : Doing _)
  return out

def substitute (s : Setting) (sub : Substitution) : Editing Course := do
  let e ← get
  match sub.regex.or e.regex with
  | none => return .lost
  | some r =>
    let t := e.pattern.text.toArray
    let found := (r.occurrences t (if sub.all then t.size + 1 else sub.number)).drop (sub.number - 1)
    let text := replaceFound t 0 (found.map fun m => (m, replacementText t m {} sub.parts))
    set { e with regex := some r }
    if !found.isEmpty then
      modify fun e => { e with pattern := { e.pattern with text := text }, replaced := true }
      if sub.runs then
        let out ← outputOf s text
        let out := if out.getLast? = some '\n' then out.dropLast else out
        modify fun e => { e with pattern := { e.pattern with text := out } }
      let l := (← get).pattern
      if sub.prints then emitLine s [] l
      match sub.file with
      | some name => emitLine s name l
      | none => pure ()
    return .next

/-! ### Commands -/

/-- How an octet is shown. -/
def shownOctet (c : Char) : Octets :=
  match c with
  | '\\' => ['\\', '\\']
  | '\x07' => ['\\', 'a']
  | '\x08' => ['\\', 'b']
  | '\x0c' => ['\\', 'f']
  | '\n' => ['\\', 'n']
  | '\r' => ['\\', 'r']
  | '\t' => ['\\', 't']
  | '\x0b' => ['\\', 'v']
  | c =>
    if ' ' ≤ c && c ≤ '~' then [c]
    else
      let n := c.toNat
      let digit (k : Nat) := Char.ofNat (48 + k % 8)
      ['\\', digit (n / 64), digit (n / 8), digit n]

/-- A text shown in lines of a width, of which `column` octets are taken. -/
def shownText (width column : Nat) : Octets → Octets
  | [] => ['$', '\n']
  | c :: cs =>
    let o := shownOctet c
    if width > 1 && column + o.length > width - 1 then
      '\\' :: '\n' :: o ++ shownText width o.length cs
    else o ++ shownText width (column + o.length) cs

/-- The text up to the first end of a line, and what follows it if there is one. -/
def cutLine (stop : Char) (o : Octets) : Octets × Option Octets :=
  let front := o.takeWhile (· ≠ stop)
  (front, if front.length < o.length then some (o.drop (front.length + 1)) else none)

/-- Do what a letter alone asks for. -/
def performLetter (s : Setting) (c : Char) : Editing Course := do
  let e ← get
  let text := e.pattern.text
  let become (o : Octets) : Editing Course := do
    set { e with pattern := { e.pattern with text := o } }
    return .next
  match c with
  | '=' =>
    emit s [] (naturalText e.number ++ ['\n']) true
    return .next
  | 'd' => return .done false
  | 'D' =>
    match cutLine s.stop text with
    | (_, none) => return .done false
    | (_, some o) =>
      let _ ← become o
      return .again
  | 'F' =>
    emit s [] (e.name ++ ['\n']) true
    return .next
  | 'g' =>
    set { e with pattern := e.hold }
    return .next
  | 'G' =>
    let ended := e.pattern.ended || e.hold.ended
    set { e with pattern := ⟨text ++ s.stop :: e.hold.text, ended⟩ }
    return .next
  | 'h' =>
    set { e with hold := e.pattern }
    return .next
  | 'H' =>
    let ended := e.hold.ended || e.pattern.ended
    set { e with hold := ⟨e.hold.text ++ s.stop :: text, ended⟩ }
    return .next
  | 'l' =>
    emit s [] (shownText s.width 0 text) true
    return .next
  | 'n' =>
    if ← atLast then return .done true
    writePattern s
    let _ ← advance s false
    return .next
  | 'N' =>
    if ← atLast then return .done true
    let _ ← advance s true
    return .next
  | 'p' =>
    emitLine s [] e.pattern
    return .next
  | 'P' =>
    let (line, rest) := cutLine s.stop text
    emitLine s [] ⟨line, rest.isSome || e.pattern.ended⟩
    return .next
  | 'x' =>
    set { e with pattern := e.hold, hold := e.pattern }
    return .next
  | 'z' => become []
  | _ => return .next

def perform (s : Setting) (place : Nat) (c : Command) : Editing Course := do
  let e ← get
  let later (l : Later) : Editing Course := do
    set { e with later := l :: e.later }
    return .next
  match c.action with
  | .block _ => return .next
  | .close => return .next
  | .label _ => return .next
  | .branch kind name =>
    let jumps := kind = 'b' || e.replaced = (kind = 't')
    if kind ≠ 'b' then set { e with replaced := false }
    if !jumps then return .next
    else
      match labelPlace s.program.toList name with
      | some k => return .jump k
      | none => return .done true
  | .append o => later (.text o)
  | .insert o =>
    emit s [] o true
    return .next
  | .change o =>
    match e.ranges.getD place .idle with
    | .active _ => if c.negated then emit s [] o true
    | _ => emit s [] o true
    return .done false
  | .letter l => performLetter s l
  | .quit silent code => return .quit (!silent) code
  | .readFile name => later (.file name)
  | .readLine name => later (.line name)
  | .writeFile firstLine name =>
    if firstLine then emitLine s name ⟨(cutLine s.stop e.pattern.text).1, true⟩
    else emitLine s name e.pattern
    return .next
  | .substitute sub => substitute s sub
  | .translate table =>
    let text := e.pattern.text.map fun c => (Disk.valueAt c table).getD c
    set { e with pattern := { e.pattern with text := text } }
    return .next
  | .execute o =>
    if o.isEmpty then
      let out ← outputOf s e.pattern.text
      let out := if out.getLast? = some '\n' then out.dropLast else out
      modify fun e => { e with pattern := { e.pattern with text := out } }
    else
      let out ← outputOf s o
      if !out.isEmpty then emit s [] out true
    return .next

/-- Run the commands from a place on; the number bounds how many. -/
def runFrom (s : Setting) : Nat → Nat → Editing Course
  | 0, _ => do throw (.killed (← getThe Process).id 9)
  | fuel + 1, place => do
    match s.program[place]? with
    | none => return .done true
    | some c =>
      match ← selects place c with
      | none => return .lost
      | some yes =>
        if yes = c.negated then
          match c.action with
          | .block behind => runFrom s fuel behind
          | _ => runFrom s fuel (place + 1)
        else
          match ← perform s place c with
          | .next => runFrom s fuel (place + 1)
          | .jump k => runFrom s fuel k
          | course => return course

/-- Go through the lines that are left: whether the editor quit, and with which code. The number bounds
the rounds. -/
def runRounds (s : Setting) : Nat → (fresh : Bool) → Editing (Option Nat)
  | 0, _ => do throw (.killed (← getThe Process).id 9)
  | fuel + 1, fresh => do
    let there ← (if fresh then do
        modify fun e => { e with replaced := false }
        advance s false
      else return true)
    if !there then return none
    else
      match ← runFrom s roundLimit 0 with
      | .quit writes code =>
        if writes then writePattern s
        if writes then writeLater s
        return some code
      | .lost =>
        complain "sed: -e expression #1, char 0: no previous regular expression"
        return some 1
      | .again =>
        writeLater s
        runRounds s fuel false
      | .done writes =>
        if writes then writePattern s
        writeLater s
        runRounds s fuel true
      | _ => runRounds s fuel true

/-- The ranges as they are before the first line. -/
def freshRanges (program : Array Command) : Array RangeState :=
  program.map fun c => match c.first, c.second with
    | some (.line 0), some _ => .active none
    | _, _ => .idle

/-- Go through files as if they were one. -/
def runFiles (s : Setting) (files : List (Octets × List Line)) : Editing (Option Nat) := do
  modify fun e => { e with rest := files, number := 0, hold := {}, ranges := freshRanges s.program }
  runRounds s roundLimit true

/-! ### The program -/

/-- The files that a script writes. -/
def filesWritten (program : Array Command) : List Octets :=
  (program.toList.filterMap fun c => match c.action with
    | .writeFile _ name => some name
    | .substitute sub => sub.file
    | _ => none).eraseDups

/-- Open the outputs of an editor, its own first. The answer is the first name that is refused. -/
def openOutputs : List Octets → Doing (Except Octets (List Output))
  | [] => return .ok []
  | name :: names => do
    let p ← get
    match p.openForWriting name false with
    | .error e =>
      complain ("sed: couldn't open file " ++ Octets.text name ++ ": " ++ wordingOf e)
      return .error name
    | .ok (key, q) =>
      set q
      match ← openOutputs names with
      | .ok os => return .ok (⟨name, key, false⟩ :: os)
      | .error n => return .error n

/-- The words of a call with the suffix of an option for editing in place written in the long form. -/
def spellInPlace : List Octets → List Octets
  | [] => []
  | ['-', '-'] :: rest => ['-', '-'] :: rest
  | ('-' :: c :: cs) :: rest =>
    let flags := (c :: cs).takeWhile fun c => ['n', 'E', 'r', 's', 'u', 'z'].contains c
    match (c :: cs).drop flags.length with
    | 'i' :: suffix =>
      let front : List Octets := if flags.isEmpty then [] else ['-' :: flags]
      front ++ ("--in-place".toList ++ (if suffix.isEmpty then [] else '=' :: suffix)) ::
        spellInPlace rest
    | [_] =>
      match rest with
      | value :: rest => ('-' :: c :: cs) :: value :: spellInPlace rest
      | [] => [('-' :: c :: cs)]
    | _ => ('-' :: c :: cs) :: spellInPlace rest
  | w :: rest => w :: spellInPlace rest

def options : OptionTable :=
  { flags := "nErsuzi", valued := "efl"
    long := [("quiet", 'n'), ("silent", 'n'), ("expression", 'e'), ("file", 'f'),
      ("regexp-extended", 'E'), ("in-place", 'i'), ("line-length", 'l'), ("separate", 's'),
      ("unbuffered", 'u'), ("null-data", 'z'), ("zero-terminated", 'z'), ("posix", 'u'),
      ("debug", 'u'), ("follow-symlinks", 'u'), ("sandbox", 'u')] }

/-- The text of a script, from the options or the first operand. -/
def scriptText (a : Arguments) : Doing (Except Nat (Octets × List Octets)) := do
  let given := a.options.filter fun o => o.1 = 'e' || o.1 = 'f'
  match given, a.operands with
  | [], [] =>
    complain "Usage: sed [OPTION]... \x7bscript-only-if-no-other-script\x7d [input-file]..."
    return .error 1
  | [], script :: files => return .ok (script, files)
  | _, files =>
    let mut parts : List Octets := []
    for (c, o) in given do
      if c = 'e' then parts := o :: parts
      else
        match ← contentOf o with
        | .ok text => parts := (if text.getLast? = some '\n' then text.dropLast else text) :: parts
        | .error e =>
          complain ("sed: couldn't open file " ++ Octets.text o ++ ": " ++ wordingOf e)
          return .error 1
    return .ok (List.intercalate ['\n'] parts.reverse, files)

/-- The code of an editor that cannot go on. -/
def fatalCode : Nat := 4

/-- The lines of a file, or the code if it cannot be read. -/
def loadFile (stop : Char) (name : Octets) : Doing (Except Nat (List Line)) := do
  match ← contentOf name with
  | .ok o => return .ok (linesOf stop o)
  | .error (.system .isDirectory) =>
    complain ("sed: read error on " ++ Octets.text name ++ ": Is a directory")
    return .error fatalCode
  | .error e =>
    complain ("sed: can't read " ++ Octets.text name ++ ": " ++ wordingOf e)
    return .error 2

/-- The path that the old form of a file is kept at. -/
def keptPath (suffix name : Octets) : Octets :=
  let last := lastName name
  let kept := if suffix.contains '*' then suffix.flatMap fun c => if c = '*' then last else [c]
    else last ++ suffix
  if kept.contains '/' || !name.contains '/' then kept
  else name.take (name.length - last.length) ++ kept

/-- Put a new content in the place of a file. -/
def replaceFile (suffix name content : Octets) : Doing Nat := do
  let p ← get
  let executable := match p.disk.stat (p.fileOf name) with
    | .ok (_, .file _ _ x) => x
    | _ => false
  let kept : Except IoError Disk :=
    if suffix.isEmpty then p.disk.unlink (p.fileOf name)
    else p.disk.rename (p.fileOf name) (p.fileOf (keptPath suffix name))
  match kept with
  | .error e => refuseTo "sed" ("cannot rename " ++ Octets.text name ++ ": " ++ wordingOf e) 4
  | .ok d =>
    match d.write (p.fileOf name) (Octets.toBytes content) executable with
    | .ok d =>
      set { p with disk := d }
      return 0
    | .error e => refuseTo "sed" ("couldn't open file " ++ Octets.text name ++ ": " ++ wordingOf e) 4

/-- Edit a file in its place: the state that is left, whether the editor quit, and the worst code. -/
def editInPlace (s : Setting) (suffix : Octets) (e : Desk) :
    List Octets → Nat → Doing Nat
  | [], worst => return worst
  | name :: names, worst => do
    let p ← get
    match p.disk.stat (p.fileOf name) with
    | .error r =>
      complain ("sed: can't read " ++ Octets.text name ++ ": " ++ wordingOf (.system r))
      editInPlace s suffix e names (max worst 2)
    | .ok (_, .file _ _ _) =>
      match ← loadFile s.stop name with
      | .error n => editInPlace s suffix e names (max worst n)
      | .ok lines =>
        let p ← get
        let (key, q) := p.addChannel (.collector 0 [])
        set q
        let own : Output := ⟨[], key, false⟩
        let (quit, e) ← (runFiles s [(name, lines)]).run { e with outputs := own :: e.outputs.drop 1 }
        let p ← get
        let content : Octets := match Disk.valueAt key p.channels with
          | some (.collector _ pieces) => pieces.reverse.flatten
          | _ => []
        let n ← replaceFile suffix name content
        match quit with
        | some code => return code
        | none => editInPlace s suffix e names (max worst n)
    | .ok _ =>
      complain ("sed: couldn't edit " ++ Octets.text name ++ ": not a regular file")
      editInPlace s suffix e names (max worst 4)

/-- Edit files one by one, or all as one. -/
def editAll (s : Setting) (separate : Bool) (e : Desk) (names : List Octets) : Doing Nat := do
  let mut files : List (Octets × List Line) := []
  let mut worst := 0
  for name in names do
    match ← loadFile s.stop name with
    | .ok ls => files := (name, ls) :: files
    | .error n =>
      worst := max worst n
      if n = fatalCode then break
  let groups := if separate then files.reverse.map fun f => [f] else [files.reverse]
  let mut state := e
  for g in groups do
    let (quit, new) ← (runFiles s g).run state
    state := new
    match quit with
    | some code =>
      let rest := (new.rest.filter fun f => f.1 = ['-']).flatMap fun f =>
        f.2.flatMap fun l => if l.ended then l.text ++ [s.stop] else l.text
      if ← inputIsFile then leaveInput rest
      return code
    | none => pure ()
  return worst

/-- The stream editor by its words. -/
def sed : Utility := fun caller ws =>
  withArguments "sed" 1 options (spellInPlace ws) fun a => do
    match ← scriptText a with
    | .error n => return n
    | .ok (text, files) =>
      let line := text.takeWhile (· ≠ '\n')
      match readScript (a.has 'E' || a.has 'r') text with
      | .error e => refuseTo "sed" ("-e expression #1, char 0: " ++ e) 1
      | .ok program =>
        match missingLabel? program with
        | some name =>
          return ← refuseTo "sed" ("can't find label for jump to \x60" ++ Octets.text name ++ "'")
            fatalCode
        | none => pure ()
        let p ← get
        let width := ((a.value? 'l').bind fun o => Text.readNat o).getD 70
        let s : Setting :=
          { program := program, caller := caller, quiet := a.has 'n' || line = ['#', 'n']
            stop := if a.has 'z' then '\x00' else '\n', width := width }
        let own := (Disk.valueAt 1 p.streams).getD p.nextChannel
        let written := filesWritten program
        let shared := "/dev/stdout".toList
        match ← openOutputs written with
        | .error _ => return 4
        | .ok outputs =>
          let e : Desk := { outputs := ⟨[], own, false⟩ :: outputs }
          let n ← (if a.has 'i' then
              (if files.isEmpty then refuseTo "sed" "no input files" 4
              else editInPlace s ((a.value? 'i').getD []) e files 0)
            else
              let direct (c : Command) : Command :=
                match c.action with
                | .writeFile f name => if name = shared then { c with action := .writeFile f [] } else c
                | .substitute sub =>
                  if sub.file = some shared then
                    { c with action := .substitute { sub with file := some [] } }
                  else c
                | _ => c
              editAll { s with program := program.map direct } (a.has 's') e
                (if files.isEmpty then [['-']] else files))
          modify fun q => q.forget p.nextChannel
          return n

end Whittle.Shell.Editor
