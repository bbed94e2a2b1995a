import Whittle.Shell.Programs

/-!
# Programs that run other programs

A program may be run with other variables, with words read from the input, or under a limit.
-/

namespace Whittle.Shell

open Doing

/-- The code for a program that could not be started, after a complaint. -/
def startFault (program : String) (name : Octets) (e : Errno) : Doing Nat := do
  complain (program ++ ": " ++ quotedName name ++ ": " ++ e.wording)
  return if e = .notFound || e = .notDirectory then 127 else 126

/-! ### Variables -/

/-- What a text that is to be split has under way: the words, and the one that has begun. -/
structure SplitState where
  words : List Octets := []
  current : Option Octets := none

namespace SplitState

def push (s : SplitState) (o : Octets) : SplitState :=
  { s with current := some (s.current.getD [] ++ o) }

def close (s : SplitState) : SplitState :=
  { words := s.words ++ s.current.toList }

end SplitState

/-- Split a text into words: quotes keep blanks, a backslash introduces an escape, and a name between
braces behind a dollar sign stands for the value of a variable. The number bounds the steps. -/
def splitText (value : String → Octets) : Nat → Option Char → SplitState → Octets →
    Except String (List Octets)
  | 0, _, s, _ => .ok s.close.words
  | n + 1, quote, s, cs =>
    match cs with
    | [] => if quote.isSome then .error "no terminating quote in -S string" else .ok s.close.words
    | c :: rest =>
      if c = '\\' then
        match rest with
        | [] => .error "invalid backslash at end of string in -S"
        | e :: rest =>
          let go (o : Octets) := splitText value n quote (s.push o) rest
          if quote = some '\'' then
            if e = '\'' || e = '\\' then go [e] else go ['\\', e]
          else
            match e with
            | '_' => if quote.isSome then go [' '] else splitText value n quote s.close rest
            | 'c' => .ok s.close.words
            | 'n' => go ['\n']
            | 't' => go ['\t']
            | 'r' => go ['\r']
            | 'f' => go ['\x0c']
            | 'v' => go ['\x0b']
            | _ =>
              if ['"', '#', '$', '\'', '\\'].contains e then go [e]
              else .error ("invalid sequence '\\" ++ String.singleton e ++ "' in -S")
      else if quote = some c then splitText value n none (s.push []) rest
      else if quote.isNone && (c = '"' || c = '\'') then splitText value n (some c) (s.push []) rest
      else if quote.isNone && isSpaceOctet c then splitText value n quote s.close rest
      else if quote.isNone && c = '#' && s.current.isNone then .ok s.close.words
      else if c = '$' && quote ≠ some '\'' then
        match rest with
        | '\x7b' :: more =>
          let name := more.takeWhile continuesName
          if isName name && (more.drop name.length).head? = some '\x7d' then
            splitText value n quote (s.push (value (String.ofList name)))
              (more.drop (name.length + 1))
          else .error "only $\x7bVARNAME\x7d expansion is supported"
        | _ => .error "only $\x7bVARNAME\x7d expansion is supported"
      else splitText value n quote (s.push [c]) rest

def envOptions : OptionTable :=
  { flags := "i0v", valued := "uSC", strict := true
    long := [("ignore-environment", 'i'), ("unset", 'u'), ("split-string", 'S'), ("chdir", 'C'),
      ("null", '0'), ("debug", 'v')] }

/-- The options and operands of words in which texts to be split are replaced by their parts; the
number bounds how often. -/
def readSplitting (value : String → Octets) : Nat → List Octets → Except String Arguments
  | 0, ws => Arguments.read envOptions ws
  | n + 1, ws => do
    let a ← Arguments.read envOptions ws
    match a.value? 'S' with
    | none => return a
    | some text =>
      let parts ← splitText value (2 * text.length + 4) none {} text
      let others := a.options.filter fun o => o.1 ≠ 'S'
      let b ← readSplitting value n (parts ++ a.operands)
      return { b with options := others ++ b.options }

/-- Run a program with other variables, or show them. -/
def env : Utility := fun caller ws => do
  let p ← get
  let value (name : String) : Octets := (p.valueOf? name).getD []
  match readSplitting value (ws.length + 1) ws with
  | .error e =>
    complain ("env: " ++ e)
    return 125
  | .ok a =>
    let alone := a.operands.head? = some ['-']
    let operands := if alone then a.operands.drop 1 else a.operands
    let settings := operands.takeWhile fun w => w.contains '='
    let command := operands.drop settings.length
    let bindings := if a.has 'i' || alone then [] else p.bindings
    let bindings := (a.values 'u').foldl (fun vs n => Variables.erase vs (String.ofList n)) bindings
    let bindings := settings.foldl (fun vs w =>
      let name := w.takeWhile (· ≠ '=')
      Variables.change vs (Octets.text name) fun v =>
        { v with value := some (.text (w.drop (name.length + 1))), exported := true }) bindings
    set { p with bindings := bindings }
    match a.value? 'C' with
    | some dir =>
      match p.disk.stat (p.fileOf dir) with
      | .ok (place, .dir) => modify fun p => { p with cwd := Disk.pathOf place }
      | _ =>
        complain ("env: cannot change directory to " ++ quotedName dir ++
          ": No such file or directory")
        throw (.exit 125)
    | none => pure ()
    match command with
    | [] =>
      let stop : Octets := if a.has '0' then ['\x00'] else ['\n']
      write (bindings.exports.flatMap fun v =>
        Octets.ofString v.1 ++ '=' :: ((v.2.value.bind Value.scalar?).getD []) ++ stop)
      return 0
    | name :: _ =>
      match ← caller.become command with
      | .ok n => return n
      | .error e => startFault "env" name e

def printenv (ws : List Octets) : Doing Nat := do
  let p ← get
  let names := ws.filter fun w => w.head? ≠ some '-'
  if names.isEmpty then
    write (p.bindings.exports.flatMap fun v =>
      Octets.ofString v.1 ++ '=' :: ((v.2.value.bind Value.scalar?).getD []) ++ ['\n'])
    return 0
  else
    forAll names fun n => do
      match Variables.text? p.bindings.exports (Octets.text n) with
      | some o =>
        write (o ++ ['\n'])
        return 0
      | none => return 1

/-! ### Words from the input -/

/-- The words of a text with quotes and backslashes, line by line. -/
def quotedWords : Nat → Option Char → Option Octets → Octets → Except Char (List (List Octets))
  | 0, _, _, _ => .ok []
  | n + 1, quote, current, cs =>
    let push (o : Octets) : Option Octets := some (current.getD [] ++ o)
    let withWord (rest : Except Char (List (List Octets))) : Except Char (List (List Octets)) :=
      match current with
      | none => rest
      | some w => rest.map fun ls => match ls with
        | l :: ls => (w :: l) :: ls
        | [] => [[w]]
    match cs with
    | [] =>
      match quote with
      | some q => .error q
      | none => withWord (.ok [[]])
    | c :: rest =>
      match quote with
      | some q =>
        if c = q then quotedWords n none (push []) rest
        else if c = '\n' then .error q
        else quotedWords n quote (push [c]) rest
      | none =>
        if c = '\n' then
          withWord ((quotedWords n none none rest).map fun ls => [] :: ls)
        else if isSpaceOctet c then withWord (quotedWords n none none rest)
        else if c = '\'' || c = '"' then quotedWords n (some c) (push []) rest
        else if c = '\\' then
          match rest with
          | d :: rest => quotedWords n none (push [d]) rest
          | [] => quotedWords n none current []
        else quotedWords n none (push [c]) rest

/-- Cut words into groups of a size. -/
def groupsOfSize {α : Type} (size : Nat) : Nat → List α → List (List α)
  | 0, _ => []
  | n + 1, xs => if xs.isEmpty then [] else xs.take size :: groupsOfSize size n (xs.drop size)

/-- A text with another one put in for every occurrence of a mark. -/
def replaceMark (mark by_ : Octets) : Nat → Octets → Octets
  | _, [] => []
  | skip + 1, _ :: cs => replaceMark mark by_ skip cs
  | 0, c :: cs =>
    if !mark.isEmpty && mark.isPrefixOf (c :: cs) then
      by_ ++ replaceMark mark by_ (mark.length - 1) cs
    else c :: replaceMark mark by_ 0 cs

/-- What came of the runs so far: the code, and whether no more may follow. -/
def settleRun (name : Octets) (r : Except Errno Nat) (code : Nat) : Doing (Nat × Bool) := do
  let shown := Octets.text name
  match r with
  | .error e =>
    complain ("xargs: " ++ shown ++ ": " ++ e.wording)
    return (if e = .notFound || e = .notDirectory then 127 else 126, true)
  | .ok n =>
    if n = 0 then return (code, false)
    else if n = 255 then
      complain ("xargs: " ++ shown ++ ": exited with status 255; aborting")
      return (124, true)
    else if n > 128 && n < 160 then
      complain ("xargs: " ++ shown ++ ": terminated by signal " ++ Text.natText (n - 128))
      return (125, true)
    else return (123, false)

/-- Run a program with the words of the input behind its own. -/
def xargs : Utility := fun caller ws =>
  withArguments "xargs" 1
    { flags := "0rtpxoi", valued := "nIdLPsaE", strict := true
      long := [("null", '0'), ("no-run-if-empty", 'r'), ("verbose", 't'), ("max-args", 'n'),
        ("replace", 'I'), ("delimiter", 'd'), ("max-lines", 'L'), ("max-procs", 'P'),
        ("max-chars", 's'), ("arg-file", 'a')] } ws fun a => do
    let read ← (match a.value? 'a' with
      | some f => readFile f
      | none => readStream 0)
    match read with
    | .error e => refuseTo "xargs" (wordingOf e) 1
    | .ok input =>
      let command := if a.operands.isEmpty then ["echo".toList] else a.operands
      let name := command.headD []
      let mark : Option Octets := (a.value? 'I').or (if a.has 'i' then some ['\x7b', '\x7d'] else none)
      let parted (d : Char) : List Octets :=
        let parts := input.splitOn d
        if parts.getLast? = some [] then parts.dropLast else parts
      let groups : Except Char (List (List Octets)) :=
        if a.has '0' then .ok ((parted '\x00').map fun w => [w])
        else match (a.value? 'd') with
          | some d => .ok ((parted ((unescape {} 0 d).1.headD '\n')).map fun w => [w])
          | none =>
            if mark.isSome then
              (quotedWords (input.length + 1) none none
                (input.flatMap fun c => if c = ' ' || c = '\t' then ['\\', c] else [c])).map
                fun ls => (ls.map fun l => l.map fun w => w.dropWhile isBlankOctet).filter
                  fun l => l.any (· ≠ [])
            else (quotedWords (input.length + 1) none none input).map fun ls => ls.filter (· ≠ [])
      match groups, ((a.value? 'n').map Text.readNat) with
      | .error q, _ =>
        refuseTo "xargs" ("unmatched " ++ (if q = '"' then "double" else "single") ++
          " quote; by default quotes are special to xargs unless you use the -0 option") 1
      | _, some none =>
        refuseTo "xargs" ("invalid number \"" ++ Octets.text ((a.value? 'n').getD []) ++
          "\" for -n option") 1
      | .ok lines, count =>
        let words := lines.flatten
        let runs : List (List Octets) :=
          match mark with
          | some m => words.map fun w => name :: (command.drop 1).map fun o => replaceMark m w 0 o
          | none =>
            let batches : List (List Octets) :=
              match (count.getD none), a.value? 'L' with
              | some n, _ => groupsOfSize (max 1 n) (words.length + 1) words
              | none, some n => (groupsOfSize (max 1 (numberOf n)) (lines.length + 1) lines).map
                  List.flatten
              | none, none => groupsOfSize 5000 (words.length + 1) words
            let batches := if batches.isEmpty && !a.has 'r' then [[]] else batches
            batches.map fun b => command ++ b
        let mut code := 0
        for argv in runs do
          if a.has 't' then
            complain (String.intercalate " " (argv.map Octets.text))
          let r ← keepingStreams do
            modify fun p =>
              let (key, p) := p.addChannel .null
              p.setStream 0 key
            caller.run argv
          let (n, done) ← settleRun name r code
          code := n
          if done then break
        return code

/-! ### Limits -/

/-- Run the words behind the options of a program, and nothing else. -/
def runPlainly (program : String) (t : OptionTable) (skip : Nat) (fault : Nat) : Utility :=
  fun caller ws =>
    withArguments program fault { t with strict := true } ws fun a =>
      match a.operands.drop skip with
      | [] => missing
      | name :: arguments => do
        match ← caller.become (name :: arguments) with
        | .ok n => return n
        | .error e =>
          complain (program ++ ": failed to run command " ++ quotedName name ++ ": " ++ e.wording)
          return if e = .notFound || e = .notDirectory then 127 else 126
where
  missing : Doing Nat := do
    complain (program ++ ": missing operand")
    return fault

/-- The thousandths of a second that a text names. -/
def durationOf (o : Octets) : Option Nat :=
  let number := o.takeWhile fun c => Text.isDigit c || c = '.'
  let scale : Option Nat := match o.drop number.length with
    | [] => some 1
    | ['s'] => some 1
    | ['m'] => some 60
    | ['h'] => some 3600
    | ['d'] => some 86400
    | _ => none
  let whole := number.takeWhile Text.isDigit
  let fraction := (number.drop whole.length).drop 1
  if (whole ++ fraction).isEmpty || !fraction.all Text.isDigit then none
  else scale.map fun s =>
    (numberOf whole * 1000 + numberOf (padded true '0' 3 (fraction.take 3) |>.map fun c =>
      if c = ' ' then '0' else c)) * s

/-- Run a program for no longer than a time. Only sleeping takes any. -/
def timeout : Utility := fun caller ws =>
  withArguments "timeout" 125
    { flags := "fvp", valued := "sk", strict := true
      long := [("signal", 's'), ("kill-after", 'k'), ("foreground", 'f'), ("preserve-status", 'p')] }
    ws fun a => do
      match a.operands with
      | time :: name :: arguments =>
        match durationOf time with
        | none =>
          complain ("timeout: invalid time interval " ++ quotedName time)
          return 125
        | some limit =>
          let p ← get
          let end_ := p.clock + limit
          let sooner := p.deadline.any fun d => d.1 ≤ end_
          if limit > 0 && !sooner then set { p with deadline := some (end_, p.lastId + 1) }
          let r ← caller.run (name :: arguments)
          modify fun q => { q with deadline := p.deadline }
          match r with
          | .ok n =>
            let late := limit > 0 && n = 143 && (← get).clock ≥ end_
            let signal := (a.value? 's').getD "TERM".toList
            return if !late || a.has 'p' then n
              else if signal = "KILL".toList || signal = ['9'] then 137 else 124
          | .error e =>
            complain ("timeout: failed to run command " ++ quotedName name ++ ": " ++ e.wording)
            return if e = .notFound || e = .notDirectory then 127 else 126
      | _ =>
        complain "timeout: missing operand"
        return 125

def sleep (ws : List Octets) : Doing Nat := do
  match ws with
  | [] =>
    complain "sleep: missing operand"
    return 1
  | ws =>
    match ws.find? fun w => (durationOf w).isNone with
    | some w => refuseTo "sleep" ("invalid time interval " ++ quotedName w) 1
    | none =>
      let p ← get
      let end_ := p.clock + (ws.filterMap durationOf).foldl (· + ·) 0
      match p.deadline with
      | some (time, id) =>
        if end_ > time then
          set { p with clock := time }
          throw (.killed id 15)
        else
          set { p with clock := end_ }
          return 0
      | none =>
        set { p with clock := end_ }
        return 0

/-! ### Facts about the system -/

/-- The paths of programs. -/
def which (ws : List Octets) : Doing Nat := do
  let p ← get
  let names := ws.filter fun w => w.head? ≠ some '-'
  if names.isEmpty then return 1
  else
    forAll names fun n => do
      match lookUp p n with
      | .ok (path, _) =>
        write (path ++ ['\n'])
        return 0
      | .error _ => return 1

def idWords (ws : List Octets) : Doing Nat := do
  let letters := (ws.filter fun w => w.head? = some '-').flatMap (·.drop 1)
  let text := if letters.contains 'n' then "root"
    else if letters.any fun c => ['u', 'g', 'G'].contains c then "0"
    else "uid=0(root) gid=0(root) groups=0(root)"
  writeText (text ++ "\n")
  return 0

/-- A line that is always the same. -/
def saying (text : String) : List Octets → Doing Nat := fun _ => do
  writeText (text ++ "\n")
  return 0

def uname (ws : List Octets) : Doing Nat := do
  let letters := (ws.filter fun w => w.head? = some '-').flatMap (·.drop 1)
  let parts : List (Char × String) :=
    [('s', "Linux"), ('n', "localhost"), ('r', "6.1.0"), ('v', "#1 SMP"), ('m', "x86_64"),
     ('o', "GNU/Linux")]
  let chosen := parts.filter fun e => letters.contains 'a' || letters.contains e.1 ||
    (letters.isEmpty && e.1 = 's')
  writeText (String.intercalate " " (chosen.map Prod.snd) ++ "\n")
  return 0

/-- Write a line again and again, until no one takes it any more. -/
def yes (ws : List Octets) : Doing Nat := do
  let line := (if ws.isEmpty then ['y'] else List.intercalate [' '] ws) ++ ['\n']
  let block := (List.replicate (4096 / line.length + 1) line).flatten
  for _ in [0:4096] do
    write block
  throw (.killed (← get).id 13)

end Whittle.Shell
