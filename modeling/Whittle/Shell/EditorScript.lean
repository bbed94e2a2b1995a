import Whittle.Shell.RegexText

/-!
# Scripts of the stream editor

A script is a list of commands, each with the lines it is for. A block is a command that jumps behind
its end where it is not for a line, and a branch jumps to a label.
-/

namespace Whittle.Shell.Editor

/-- Lines that a command is for: one by its number, the last one, every so many, or those with a
match. A match without an expression is one of the expression used last. -/
inductive Address where
  | line (n : Nat)
  | last
  | step (first step : Nat)
  | found (r : Option Regex)
  deriving Repr

/-- Where a range of lines ends. -/
inductive RangeEnd where
  | line (n : Nat)
  | last
  | found (r : Option Regex)
  | plus (n : Nat)
  | multiple (n : Nat)
  deriving Repr

/-- A part of a replacement. -/
inductive ReplacementPart where
  | text (o : Octets)
  /-- What a group holds, group 0 being the whole match. -/
  | group (n : Nat)
  /-- A change of case: of all that follows, of the next octet, or none any more. -/
  | case (letter : Char)
  deriving Repr

structure Substitution where
  regex : Option Regex
  parts : List ReplacementPart
  all : Bool := false
  /-- The first match to be replaced. -/
  number : Nat := 1
  prints : Bool := false
  /-- Whether the result is run by a shell, and its output taken instead. -/
  runs : Bool := false
  file : Option Octets := none
  deriving Repr

inductive Action where
  /-- A block, and the place behind its end. -/
  | block (behind : Nat)
  | close
  | label (name : Octets)
  /-- Jump to a label, or to the end: always, or if a replacement was made, or if none was. -/
  | branch (kind : Char) (name : Octets)
  | append (o : Octets)
  | insert (o : Octets)
  | change (o : Octets)
  /-- An action that takes no more than its letter. -/
  | letter (c : Char)
  | quit (silent : Bool) (code : Nat)
  | readFile (name : Octets)
  | readLine (name : Octets)
  | writeFile (firstLine : Bool) (name : Octets)
  | substitute (s : Substitution)
  | translate (table : List (Char × Char))
  /-- Have a shell run a text, or the pattern if there is none. -/
  | execute (o : Octets)
  deriving Repr

structure Command where
  first : Option Address := none
  second : Option RangeEnd := none
  negated : Bool := false
  action : Action
  deriving Repr

/-- What is left of a script. -/
abbrev Rest := Octets

abbrev Reading := Except String

def isSpace (c : Char) : Bool := c = ' ' || ('\t' ≤ c && c ≤ '\r')

def skipSpaces (cs : Rest) : Rest := cs.dropWhile isSpace

def skipBlanks (cs : Rest) : Rest := cs.dropWhile fun c => c = ' ' || c = '\t'

/-- The octets of an escape that names one by its number, and how many octets that takes. -/
def numberedEscape (cs : Octets) : Option (Char × Nat) :=
  match cs with
  | c :: rest =>
    let digits (p : Char → Bool) (most : Nat) := (rest.takeWhile p).take most
    match c with
    | 'x' =>
      let ds := digits (fun d => (hexDigit d).isSome) 2
      if ds.isEmpty then none else some (Char.ofNat (hexValue ds % 256), ds.length + 1)
    | 'd' =>
      let ds := digits Text.isDigit 3
      if ds.isEmpty then none else some (Char.ofNat (numberOf ds % 256), ds.length + 1)
    | 'o' =>
      let ds := digits isOctal 3
      if ds.isEmpty then none else some (Char.ofNat (octalValue ds % 256), ds.length + 1)
    | 'c' =>
      match rest with
      | d :: _ => some (Char.ofNat (d.toUpper.toNat ^^^ 64), 2)
      | [] => none
    | _ => none
  | [] => none

/-- The octets of a set in brackets behind the opening one, its end included. A bracket in front and
those of a named class do not end it. -/
def bracketText (cs : Rest) : Option Octets :=
  let sign := if cs.head? = some '^' then ['^'] else []
  let first := if (cs.drop sign.length).head? = some ']' then sign ++ [']'] else sign
  (inner (cs.length + 1) (cs.drop first.length)).map (first ++ ·)
where
  inner : Nat → Rest → Option Octets
    | 0, _ => none
    | n + 1, cs =>
      match cs with
      | [] => none
      | '\n' :: _ => none
      | ']' :: _ => some [']']
      | '[' :: c :: rest =>
        let name := rest.takeWhile Char.isAlpha
        if c = ':' && ":]".toList.isPrefixOf (rest.drop name.length) then
          (inner n (rest.drop (name.length + 2))).map fun o => '[' :: c :: name ++ [':', ']'] ++ o
        else (inner n (c :: rest)).map ('[' :: ·)
      | c :: rest => (inner n rest).map (c :: ·)

/-- The text up to a delimiter, and what follows it. A backslash before the delimiter goes; in an
expression `\n` becomes a line feed, and a set in brackets may hold the delimiter. The number bounds
the steps. -/
def readDelimited (delimiter : Char) (regex : Bool) : Nat → Rest → Option (Octets × Rest)
  | 0, _ => none
  | _, [] => none
  | n + 1, c :: cs =>
    let go (front : Octets) (rest : Rest) : Option (Octets × Rest) :=
      (readDelimited delimiter regex n rest).map fun r => (front ++ r.1, r.2)
    if c = delimiter then some ([], cs)
    else if c = '\\' then
      match cs with
      | [] => none
      | d :: rest =>
        if d = delimiter then go (if d = '&' && !regex then ['\\', d] else [d]) rest
        else if d = 'n' && regex then go ['\n'] rest
        else go [c, d] rest
    else if c = '\n' then none
    else if c = '[' && regex then
      match bracketText cs with
      | some o => go (c :: o) (cs.drop o.length)
      | none => go [c] cs
    else go [c] cs

/-- An expression with its numbered escapes undone. -/
def settleEscapes : Nat → Octets → Octets
  | _, [] => []
  | skip + 1, _ :: cs => settleEscapes skip cs
  | 0, c :: cs =>
    if c = '\\' then
      match numberedEscape cs with
      | some (d, n) => d :: settleEscapes n cs
      | none =>
        match cs with
        | d :: _ => c :: d :: settleEscapes 1 cs
        | [] => [c]
    else c :: settleEscapes 0 cs

/-- The expression of a text; an empty one is the one used last. -/
def readRegex (extended bothCases byLines : Bool) (o : Octets) : Reading (Option Regex) :=
  if o.isEmpty then .ok none
  else
    let form : RegexForm :=
      { extended := extended, controls := true, bothCases := bothCases, strict := true
        loneClosing := false }
    match Regex.read form (settleEscapes 0 o) with
    | some r => .ok (some (if byLines then r.byLines else r))
    | none => .error "Invalid preceding regular expression"

def readNumber (cs : Rest) : Option (Nat × Rest) :=
  let ds := cs.takeWhile Text.isDigit
  if ds.isEmpty then none else some (numberOf ds, cs.drop ds.length)

/-- An expression as an address, read at its first delimiter. -/
def readFound (extended : Bool) (cs : Rest) : Reading (Option (Option Regex × Rest)) := do
  let start : Option (Char × Rest) := match cs with
    | '/' :: rest => some ('/', rest)
    | '\\' :: c :: rest => some (c, rest)
    | _ => none
  match start with
  | none => return none
  | some (delimiter, rest) =>
    match readDelimited delimiter true (rest.length + 1) rest with
    | none => .error "unterminated address regex"
    | some (o, rest) =>
      let flags := rest.takeWhile fun c => c = 'I' || c = 'M'
      let r ← readRegex extended (flags.contains 'I') (flags.contains 'M') o
      return some (r, rest.drop flags.length)

def readAddress (extended : Bool) (cs : Rest) : Reading (Option (Address × Rest)) := do
  match cs with
  | '$' :: rest => return some (.last, rest)
  | _ =>
    match readNumber cs with
    | some (n, rest) =>
      match rest with
      | '~' :: more =>
        match readNumber more with
        | some (m, rest) => return some (.step n m, rest)
        | none => return some (.step n 0, more)
      | _ => return some (.line n, rest)
    | none =>
      match ← readFound extended cs with
      | some (r, rest) => return some (.found r, rest)
      | none => return none

def readRangeEnd (extended : Bool) (cs : Rest) : Reading (RangeEnd × Rest) := do
  match cs with
  | '$' :: rest => return (.last, rest)
  | '+' :: rest =>
    match readNumber rest with
    | some (n, rest) => return (.plus n, rest)
    | none => .error "expected number"
  | '~' :: rest =>
    match readNumber rest with
    | some (n, rest) => return (.multiple n, rest)
    | none => .error "expected number"
  | _ =>
    match readNumber cs with
    | some (n, rest) => return (.line n, rest)
    | none =>
      match ← readFound extended cs with
      | some (r, rest) => return (.found r, rest)
      | none => .error "unexpected \x60,'"

/-- The text of a command that adds some, up to a line feed without a backslash. -/
def readText : Nat → Rest → Octets × Rest
  | 0, cs => ([], cs)
  | n + 1, cs =>
    match cs with
    | [] => ([], [])
    | '\n' :: rest => ([], rest)
    | '\\' :: c :: rest =>
      let escape := (controlOf c).map fun d => (d, rest)
      let numbered := (numberedEscape (c :: rest)).map fun e => (e.1, (c :: rest).drop e.2)
      let (d, rest) := ((escape.or numbered)).getD (c, rest)
      let r := readText n rest
      (d :: r.1, r.2)
    | c :: rest =>
      let r := readText n rest
      (c :: r.1, r.2)

/-- The text behind the letter of a command that adds some. -/
def readAdded (cs : Rest) : Reading (Octets × Rest) :=
  let body : Option Rest :=
    match skipBlanks cs with
    | [] => none
    | '\\' :: rest =>
      match skipBlanks rest with
      | '\n' :: more => some more
      | _ => some rest
    | '\n' :: _ => none
    | rest => some rest
  match body with
  | none => .error "expected \\ after \x60a', \x60c' or \x60i'"
  | some [] => .ok ([], [])
  | some rest =>
    let (o, rest) := readText (rest.length + 1) rest
    .ok (o ++ ['\n'], rest)

/-- The name of a file, up to the end of the line. -/
def readFileName (cs : Rest) : Reading (Octets × Rest) :=
  let cs := skipBlanks cs
  let name := cs.takeWhile (· ≠ '\n')
  if name.isEmpty then .error "missing filename in r/R/w/W commands"
  else .ok (name, cs.drop (name.length + 1))

/-- The label behind a command. -/
def readLabel (cs : Rest) : Octets × Rest :=
  let cs := skipBlanks cs
  let name := cs.takeWhile fun c => !(isSpace c || c = ';' || c = '\x7d')
  (name, cs.drop name.length)

/-- The parts of a replacement. -/
def readReplacement (sofar : Octets) : Nat → Octets → List ReplacementPart
  | 0, _ => []
  | n + 1, cs =>
    let done : List ReplacementPart := if sofar.isEmpty then [] else [.text sofar.reverse]
    match cs with
    | [] => done
    | '&' :: rest => done ++ .group 0 :: readReplacement [] n rest
    | '\\' :: c :: rest =>
      if Text.isDigit c then
        done ++ .group (Text.digitValue c) :: readReplacement [] n rest
      else if ['U', 'L', 'u', 'l', 'E'].contains c then
        done ++ .case c :: readReplacement [] n rest
      else
        match controlOf c, numberedEscape (c :: rest) with
        | some d, _ => readReplacement (d :: sofar) n rest
        | none, some (d, k) => readReplacement (d :: sofar) n ((c :: rest).drop k)
        | none, none => readReplacement (c :: sofar) n rest
    | c :: rest => readReplacement (c :: sofar) n rest

structure SubstituteFlags where
  all : Bool := false
  number : Option Nat := none
  prints : Bool := false
  runs : Bool := false
  bothCases : Bool := false
  byLines : Bool := false
  file : Option Octets := none

def readFlags (f : SubstituteFlags) : Nat → Rest → Reading (SubstituteFlags × Rest)
  | 0, cs => .ok (f, cs)
  | n + 1, cs =>
    match cs with
    | [] => .ok (f, [])
    | c :: rest =>
      let multiple (what : String) : Reading (SubstituteFlags × Rest) :=
        .error ("multiple " ++ what ++ " options to \x60s' command")
      match c with
      | 'g' => if f.all then multiple "\x60g'" else readFlags { f with all := true } n rest
      | 'p' => if f.prints then multiple "\x60p'" else readFlags { f with prints := true } n rest
      | 'e' => readFlags { f with runs := true } n rest
      | 'i' => readFlags { f with bothCases := true } n rest
      | 'I' => readFlags { f with bothCases := true } n rest
      | 'm' => readFlags { f with byLines := true } n rest
      | 'M' => readFlags { f with byLines := true } n rest
      | 'w' => do
        let (name, rest) ← readFileName rest
        return ({ f with file := some name }, '\n' :: rest)
      | _ =>
        match readNumber cs with
        | some (0, _) => .error "number option to \x60s' command may not be zero"
        | some (k, rest) =>
          if f.number.isSome then multiple "number" else readFlags { f with number := some k } n rest
        | none => .ok (f, cs)

/-- What stands behind an `s`. -/
def readSubstitution (extended : Bool) (cs : Rest) : Reading (Action × Rest) := do
  let unterminated : Reading (Action × Rest) := .error "unterminated \x60s' command"
  match cs with
  | [] => unterminated
  | delimiter :: rest =>
    if delimiter = '\n' || delimiter = '\\' then unterminated
    else
      match readDelimited delimiter true (rest.length + 1) rest with
      | none => unterminated
      | some (pattern, rest) =>
        match readDelimited delimiter false (rest.length + 1) rest with
        | none => unterminated
        | some (replacement, rest) =>
          let (f, rest) ← readFlags {} (rest.length + 1) rest
          match rest with
          | c :: _ =>
            if !(isSpace c || c = ';' || c = '\x7d' || c = '#') then .error "unknown option to \x60s'"
          | [] => pure ()
          let r ← readRegex extended f.bothCases f.byLines pattern
          let parts := readReplacement [] (replacement.length + 1) replacement
          let highest := (parts.map fun p => match p with
            | .group n => n
            | _ => 0).foldl max 0
          if r.any fun r => highest > r.groupCount then
            .error ("invalid reference \\" ++ Text.natText highest ++ " on \x60s' command's RHS")
          return (.substitute
            { regex := r, parts := parts, all := f.all, number := f.number.getD 1
              prints := f.prints, runs := f.runs, file := f.file }, rest)

/-- The octets of a list for an exchange. -/
def exchangeList (delimiter : Char) : Octets → Reading Octets
  | [] => .ok []
  | '\\' :: c :: cs => do
    let rest ← exchangeList delimiter cs
    if c = '\\' || c = delimiter then return c :: rest
    else
      match controlOf c with
      | some d => return d :: rest
      | none => return '\\' :: c :: rest
  | c :: cs => do return c :: (← exchangeList delimiter cs)

def readTranslation (cs : Rest) : Reading (Action × Rest) := do
  let unterminated : Reading (Action × Rest) := .error "unterminated \x60y' command"
  match cs with
  | [] => unterminated
  | delimiter :: rest =>
    match readDelimited delimiter false (rest.length + 1) rest with
    | none => unterminated
    | some (a, rest) =>
      match readDelimited delimiter false (rest.length + 1) rest with
      | none => unterminated
      | some (b, rest) =>
        let xs ← exchangeList delimiter a
        let ys ← exchangeList delimiter b
        if xs.length ≠ ys.length then
          .error "strings for \x60y' command are different lengths"
        else return (.translate (xs.zip ys), rest)

/-- What stands behind the letter of a command. -/
def readAction (extended : Bool) (c : Char) (cs : Rest) : Reading (Action × Rest) := do
  match c with
  | '\x7b' => return (.block 0, cs)
  | '\x7d' => return (.close, cs)
  | ':' =>
    let (name, rest) := readLabel cs
    if name.isEmpty then .error "\":\" lacks a label" else return (.label name, rest)
  | 'a' => return ((fun r => (.append r.1, '\n' :: r.2)) (← readAdded cs))
  | 'i' => return ((fun r => (.insert r.1, '\n' :: r.2)) (← readAdded cs))
  | 'c' => return ((fun r => (.change r.1, '\n' :: r.2)) (← readAdded cs))
  | 'r' => return ((fun r => (.readFile r.1, '\n' :: r.2)) (← readFileName cs))
  | 'R' => return ((fun r => (.readLine r.1, '\n' :: r.2)) (← readFileName cs))
  | 'w' => return ((fun r => (.writeFile false r.1, '\n' :: r.2)) (← readFileName cs))
  | 'W' => return ((fun r => (.writeFile true r.1, '\n' :: r.2)) (← readFileName cs))
  | 's' => readSubstitution extended cs
  | 'y' => readTranslation cs
  | 'e' =>
    let text := (skipBlanks cs).takeWhile (· ≠ '\n')
    return (.execute text, (skipBlanks cs).drop text.length)
  | _ =>
    if c = 'b' || c = 't' || c = 'T' then
      let (name, rest) := readLabel cs
      return (.branch c name, rest)
    else if c = 'q' || c = 'Q' then
      match readNumber (skipBlanks cs) with
      | some (n, rest) => return (.quit (c = 'Q') n, rest)
      | none => return (.quit (c = 'Q') 0, cs)
    else if ['=', 'd', 'D', 'F', 'g', 'G', 'h', 'H', 'l', 'n', 'N', 'p', 'P', 'x', 'z'].contains c then
      return (.letter c, cs)
    else .error ("unknown command: \x60" ++ String.singleton c ++ "'")

/-- What may stand behind a command. -/
def readSeparator (cs : Rest) : Reading Rest :=
  match skipBlanks cs with
  | [] => .ok []
  | c :: rest =>
    if c = '\n' || c = ';' then .ok rest
    else if c = '\x7d' || c = '#' || c = '\r' then .ok (c :: rest)
    else .error "extra characters after command"

/-- The commands of a script; the number bounds them. -/
def readCommands (extended : Bool) : Nat → Rest → Reading (List Command)
  | 0, _ => .ok []
  | n + 1, cs => do
    match cs.dropWhile fun c => isSpace c || c = ';' with
    | [] => return []
    | '#' :: rest => readCommands extended n (rest.dropWhile (· ≠ '\n'))
    | cs =>
      let (first, second, rest) : Option Address × Option RangeEnd × Rest ←
        (do match ← readAddress extended cs with
          | none => return (none, none, cs)
          | some (a, rest) =>
            match skipSpaces rest with
            | ',' :: more =>
              let (b, rest) ← readRangeEnd extended (skipSpaces more)
              match a, b with
              | .line 0, .found _ => return (some a, some b, rest)
              | .line 0, _ => .error "invalid usage of line address 0"
              | _, _ => return (some a, some b, rest)
            | _ =>
              match a with
              | .line 0 => .error "invalid usage of line address 0"
              | _ => return (some a, none, rest))
      let rest := skipSpaces rest
      let marks := rest.takeWhile fun c => c = '!' || isSpace c
      match rest.drop marks.length with
      | [] => .error "missing command"
      | c :: rest =>
        if marks.count '!' > 1 then .error "multiple \x60!'s"
        if first.isSome && (c = ':' || c = '\x7d') then
          .error (if c = ':' then ": doesn't want any addresses"
            else "unexpected \x60\x7d'")
        if second.isSome && (c = 'q' || c = 'Q') then .error "command only uses one address"
        let (action, rest) ← readAction extended c rest
        let rest ← (match action with
          | .block _ => return rest
          | .label _ => return rest
          | .branch _ _ => return rest
          | _ => readSeparator rest)
        let command : Command := ⟨first, second, marks.contains '!', action⟩
        return command :: (← readCommands extended n rest)

/-- How many commands there are up to the end of a block already open. -/
def blockLength (depth : Nat) : List Command → Option Nat
  | [] => none
  | c :: cs =>
    match c.action with
    | .block _ => (blockLength (depth + 1) cs).map (· + 1)
    | .close =>
      match depth with
      | 0 => some 1
      | depth + 1 => (blockLength depth cs).map (· + 1)
    | _ => (blockLength depth cs).map (· + 1)

/-- Let blocks know where they end. The place is that of the first command, and the depth how many
blocks are open. -/
def settleBlocks (place depth : Nat) : List Command → Reading (List Command)
  | [] => .ok []
  | c :: cs => do
    match c.action with
    | .block _ =>
      match blockLength 0 cs with
      | none => .error "unmatched \x60\x7b'"
      | some n =>
        return { c with action := .block (place + 1 + n) } ::
          (← settleBlocks (place + 1) (depth + 1) cs)
    | .close =>
      if depth = 0 then .error "unexpected \x60\x7d'"
      else return c :: (← settleBlocks (place + 1) (depth - 1) cs)
    | _ => return c :: (← settleBlocks (place + 1) depth cs)

/-- Where a label stands. -/
def labelPlace (cs : List Command) (name : Octets) : Option Nat :=
  cs.findIdx? fun c => match c.action with
    | .label n => n = name
    | _ => false

/-- A label that is jumped to but stands nowhere. -/
def missingLabel? (program : Array Command) : Option Octets :=
  program.toList.findSome? fun c => match c.action with
    | .branch _ name =>
      if !name.isEmpty && (labelPlace program.toList name).isNone then some name else none
    | _ => none

/-- A script from its text. -/
def readScript (extended : Bool) (cs : Octets) : Reading (Array Command) := do
  let commands ← readCommands extended (cs.length + 1) cs
  return (← settleBlocks 0 0 commands).toArray

end Whittle.Shell.Editor
