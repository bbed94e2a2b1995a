import Whittle.Shell.Format
import Whittle.Shell.Source

/-!
# Reading a script

Words are read in one of several `Manner`s, which say what quotes and backslashes mean and where the
word ends. Words of the grammar such as `if` are recognised where a command may start. A script is
read line by line, as it is run: what stands on a line that cannot be read, and behind it, is not
part of the script. Reading goes down with a number that is taken from the length of the script.
-/

namespace Whittle.Shell

/-- How the octets of a word are read. -/
structure Manner where
  /-- Whether what is read counts as quoted. -/
  quoted : Bool
  /-- Whether single quotes, and double quotes, quote. -/
  single : Bool
  double : Bool
  /-- The octets that a backslash quotes, or all of them. -/
  escapes : Option (List Char)
  /-- The octets that end the word. -/
  stops : Char → Bool
  /-- Whether a tilde in front, and also behind colons, stands for a home directory. -/
  home : Bool := false
  homes : Bool := false
  /-- Whether parentheses behind a pattern mark, and all parentheses, belong to the word. -/
  groups : Bool := false
  parentheses : Bool := false
  /-- Whether those behind a pattern mark belong to it although patterns have no groups elsewhere. -/
  always : Bool := false

namespace Manner

def word : Manner :=
  { quoted := false, single := true, double := true, escapes := none, stops := endsWord
    home := true, groups := true }

def assigned : Manner := { word with homes := true }

def inQuotes : Manner :=
  { quoted := true, single := false, double := false, escapes := some ['$', '\x60', '"', '\\']
    stops := (· = '"') }

def here : Manner :=
  { quoted := true, single := false, double := false, escapes := some ['$', '\x60', '\\']
    stops := fun _ => false }

def computed : Manner := { here with double := true }

/-- The word behind an operator on a parameter. -/
def operand (quoted : Bool) : Manner :=
  if quoted then
    { quoted := true, single := false, double := true
      escapes := some ['$', '\x60', '"', '\\', '\x7d'], stops := (· = '\x7d') }
  else
    { quoted := false, single := true, double := true, escapes := none, stops := (· = '\x7d')
      home := true }

/-- A pattern up to one of some octets. -/
def pattern (stops : Char → Bool) : Manner :=
  { quoted := false, single := true, double := true, escapes := none, stops := stops }

/-- The expression behind a colon or between square brackets. -/
def expression (stops : Char → Bool) : Manner := { computed with stops := stops }

/-- The text between the brackets of an assignment. -/
def index : Manner :=
  { pattern (fun _ => false) with quoted := true, escapes := some ['$', '\x60', '\\', ']'] }

/-- A regular expression of a conditional command. -/
def regex : Manner := { word with home := false, groups := false, parentheses := true }

end Manner

def quoteAll (cs : Octets) : Word := cs.map fun c => .char c true

/-- The octets of a word without expansions. -/
def plainOf (w : Word) : Octets := w.filterMap fun p =>
  match p with
  | .char c _ => some c
  | _ => none

def isQuoted (w : Word) : Bool := w.any fun p =>
  match p with
  | .char _ quoted => quoted
  | .quotes => true
  | _ => false

/-- Whether a word holds all positional parameters or array elements, each for itself: then it may be
no field at all. -/
def spreads (w : Word) : Bool := w.any fun p =>
  match p with
  | .parameter "@" none _ _ => true
  | .parameter _ (some (.all false)) _ _ => true
  | _ => false

/-- The name of a parameter in front. -/
def readParameterName (braced : Bool) : Reading (Option String) := do
  match ← Reading.peek with
  | none => return none
  | some c =>
    if startsName c then return some (String.ofList (← Reading.takeWhile continuesName))
    else if c.isDigit then
      if braced then return some (String.ofList (← Reading.takeWhile Char.isDigit))
      else
        Reading.skip 1
        return some (String.singleton c)
    else if ['@', '*', '#', '?', '-', '$', '!'].contains c then
      Reading.skip 1
      return some (String.singleton c)
    else return none

/-- The text behind `$'` up to its quote. -/
def readEscapedQuote : Nat → Reading Octets
  | 0 => Reading.flaw "Unterminated quoted string"
  | fuel + 1 => do
    match ← Reading.rest with
    | [] => Reading.flaw "Unterminated quoted string"
    | '\'' :: _ =>
      Reading.skip 1
      return []
    | '\\' :: c :: _ =>
      Reading.skip 2
      return '\\' :: c :: (← readEscapedQuote fuel)
    | c :: _ =>
      Reading.skip 1
      return c :: (← readEscapedQuote fuel)

/-- The commands whose words may be assignments of arrays. -/
def declarers : List String := ["declare", "typeset", "local", "export", "readonly"]

/-- The words of the grammar that end a list of commands. -/
def listEnds : List String := ["then", "do", "done", "fi", "else", "elif", "esac", "\x7d"]

/-- Whether a list of commands ends here. -/
def endsList : Reading Bool := do
  match ← Reading.rest with
  | [] => return true
  | ')' :: _ => return true
  | ';' :: ';' :: _ => return true
  | ';' :: '&' :: _ => return true
  | _ => return listEnds.contains (← Reading.bareWord)

/-- The comparisons of a conditional command. -/
def comparisonWords : List String :=
  ["==", "=", "!=", "=~", "<", ">", "-eq", "-ne", "-lt", "-le", "-gt", "-ge", "-nt", "-ot", "-ef"]

mutual

/-- The pieces of a word up to an octet that ends it. `front` says that nothing has been read yet, or
that the last octet was a colon. -/
def readPieces (fuel : Nat) (m : Manner) (front : Bool) : Reading Word := do
  match fuel with
  | 0 => Reading.flaw "too deep"
  | fuel + 1 =>
    let rest ← Reading.rest
    let quote (c : Char) : Piece := .char c true
    match rest with
    | [] => return []
    | c :: cs =>
      if m.parentheses && (c = '(' || c = ')' || c = '|') then
        if c = '(' then
          Reading.skip 1
          let inner ← readPieces fuel { m with stops := fun c => c = ')' } false
          Reading.expect ")"
          let ps ← readPieces fuel m false
          return .char '(' false :: inner ++ .char ')' false :: ps
        else if m.stops c && c ≠ '|' then return []
        else
          Reading.skip 1
          return .char c false :: (← readPieces fuel m false)
      else if m.stops c then
        let opens ← (do
          return (← Reading.isRich) && m.groups && !m.quoted && (c = '<' || c = '>') &&
            cs.head? = some '(')
        if opens then
          Reading.skip 2
          let body ← readCommands fuel false
          Reading.expect ")"
          return .channel (c = '<') body :: (← readPieces fuel m false)
        else return []
      else if c = '\\' then
        match cs with
        | [] =>
          Reading.skip 1
          return [quote c]
        | d :: _ =>
          if d = '\n' then
            Reading.skip 2
            readPieces fuel m front
          else if m.escapes.all (·.contains d) then
            Reading.skip 2
            return quote d :: (← readPieces fuel m false)
          else
            Reading.skip 1
            return quote c :: (← readPieces fuel m false)
      else if c = '$' then
        Reading.skip 1
        let first ← readDollar fuel m
        return first ++ (← readPieces fuel m false)
      else if c = '\x60' then
        Reading.skip 1
        let text ← Reading.backquoted m.quoted fuel
        let body ← Reading.within text (readWhole fuel)
        return .output body m.quoted :: (← readPieces fuel m false)
      else if c = '\'' && m.single then
        Reading.skip 1
        let text ← Reading.takeWhile (· ≠ '\'')
        if !(← Reading.accept "'") then Reading.flaw "Unterminated quoted string"
        return .quotes :: quoteAll text ++ (← readPieces fuel m false)
      else if c = '"' && m.double then
        Reading.skip 1
        let inner ← readPieces fuel .inQuotes false
        if !(← Reading.accept "\"") then Reading.flaw "Unterminated quoted string"
        let ps ← readPieces fuel m false
        return (if spreads inner then inner else .quotes :: inner) ++ ps
      else if c = '~' && front && m.home then
        let user := cs.takeWhile fun c =>
          !(m.stops c || c = '/' || (m.homes && c = ':'))
        if user.all continuesName then
          Reading.skip (1 + user.length)
          return .home user :: (← readPieces fuel m false)
        else
          Reading.skip 1
          return .char c m.quoted :: (← readPieces fuel m false)
      else
        let group ← (do
          return (← Reading.isRich) && ['?', '*', '+', '@', '!'].contains c &&
            cs.head? = some '(' && (m.groups && (← get).groups || m.always))
        if group then
          Reading.skip 2
          let inner ← readPieces fuel
            { Manner.pattern (fun c => c = ')') with groups := true, always := m.always } false
          Reading.expect ")"
          let ps ← readPieces fuel m false
          return .char c false :: .char '(' false :: inner ++ .char ')' false :: ps
        else
          Reading.skip 1
          return .char c m.quoted :: (← readPieces fuel m (c = ':' && m.homes))

/-- What a dollar sign introduces. -/
def readDollar (fuel : Nat) (m : Manner) : Reading Word := do
  match fuel with
  | 0 => Reading.flaw "too deep"
  | fuel + 1 =>
    let rest ← Reading.rest
    let rich ← Reading.isRich
    match rest with
    | '(' :: '(' :: inner =>
      match Reading.computedLength 0 none inner with
      | some n =>
        Reading.skip 2
        let text := (← Reading.rest).take n
        Reading.skip (n + 2)
        let e ← Reading.within text (readPieces fuel .computed false)
        return [.arithmetic e m.quoted]
      | none =>
        Reading.skip 1
        let body ← readCommands fuel false
        Reading.expect ")"
        return [.output body m.quoted]
    | '(' :: _ =>
      Reading.skip 1
      let body ← readCommands fuel false
      Reading.expect ")"
      return [.output body m.quoted]
    | '\x7b' :: _ =>
      Reading.skip 1
      let p ← readBraced fuel m
      Reading.expect "\x7d"
      return [p]
    | '\'' :: _ =>
      if rich && m.single then
        Reading.skip 1
        let text ← readEscapedQuote fuel
        let rules : EscapeRules := { many := true, quotes := true, controls := true }
        return .quotes :: quoteAll ((unescape rules 0 text).1.takeWhile (· ≠ '\x00'))
      else return [.char '$' m.quoted]
    | '[' :: inner =>
      match (if rich then Reading.subscriptLength 0 none inner else none) with
      | some n =>
        Reading.skip (n + 2)
        return [.arithmetic (← Reading.within (inner.take n) (readPieces fuel .computed false)) m.quoted]
      | none => return [.char '$' m.quoted]
    | '"' :: _ => if rich && m.double then return [] else return [.char '$' m.quoted]
    | _ =>
      match ← readParameterName false with
      | some name => return [.parameter name none .value m.quoted]
      | none => return [.char '$' m.quoted]

/-- A parameter between braces. -/
def readBraced (fuel : Nat) (m : Manner) : Reading Piece := do
  match fuel with
  | 0 => Reading.flaw "too deep"
  | fuel + 1 =>
    let rich ← Reading.isRich
    let rest ← Reading.rest
    match rest with
    | '#' :: c :: _ =>
      if c = '\x7d' then
        Reading.skip 1
        return .parameter "#" none .value m.quoted
      else if c = '#' || c = '%' || c = ':' || c = '=' || c = '+' ||
          (c = '-' || c = '?') && (rest.drop 2).head? ≠ some '\x7d' then
        Reading.skip 1
        return .parameter "#" none (← readUse fuel m) m.quoted
      else
        Reading.skip 1
        match ← readParameterName true with
        | some name =>
          let s ← readSubscript fuel
          if (← Reading.peek) = some '\x7d' then return .parameter name s .length m.quoted
          else return .parameter name s (← readImpossible fuel m) m.quoted
        | none => return .parameter "#" none (← readImpossible fuel m) m.quoted
    | '!' :: c :: _ =>
      if rich && (startsName c || c.isDigit || c = '#') then
        Reading.skip 1
        match ← readParameterName true with
        | some name =>
          match ← Reading.rest with
          | '*' :: '\x7d' :: _ =>
            Reading.skip 1
            return .parameter name none (.named true) m.quoted
          | '@' :: '\x7d' :: _ =>
            Reading.skip 1
            return .parameter name none (.named false) m.quoted
          | _ =>
            match ← readSubscript fuel with
            | some (.all joined) => return .parameter name (some (.all joined)) .keys m.quoted
            | s => return .parameter name s (.indirect (← readUse fuel m)) m.quoted
        | none => return .parameter "!" none (← readImpossible fuel m) m.quoted
      else
        Reading.skip 1
        return .parameter "!" none (← readUse fuel m) m.quoted
    | _ =>
      match ← readParameterName true with
      | some name =>
        let s ← readSubscript fuel
        return .parameter name s (← readUse fuel m) m.quoted
      | none => return .parameter "" none (← readImpossible fuel m) m.quoted

/-- The subscript of an array, if there is one. -/
def readSubscript (fuel : Nat) : Reading (Option Subscript) := do
  match fuel with
  | 0 => Reading.flaw "too deep"
  | fuel + 1 =>
    if !(← Reading.isRich) || (← Reading.peek) ≠ some '[' then return none
    else
      Reading.skip 1
      if ← Reading.accept "@]" then return some (.all false)
      else if ← Reading.accept "*]" then return some (.all true)
      else
        let w ← readPieces fuel
          { Manner.pattern (· = ']') with quoted := true, escapes := some ['$', '\x60', '\\', ']'] }
          false
        Reading.expect "]"
        return some (.element w)

/-- What follows the name of a parameter between braces. -/
def readUse (fuel : Nat) (m : Manner) : Reading Use := do
  match fuel with
  | 0 => Reading.flaw "too deep"
  | fuel + 1 =>
    let rich ← Reading.isRich
    let upToBrace : Reading Word := readPieces fuel (.operand m.quoted) true
    let pattern : Reading Word := readPieces fuel (.pattern (· = '\x7d')) false
    let emptyToo ← (do
      match ← Reading.rest with
      | ':' :: c :: _ =>
        if ['-', '=', '?', '+'].contains c then
          Reading.skip 1
          return true
        else return false
      | _ => return false)
    match ← Reading.rest with
    | '-' :: _ => Reading.skip 1; return .orElse emptyToo (← upToBrace)
    | '=' :: _ => Reading.skip 1; return .orAssign emptyToo (← upToBrace)
    | '?' :: _ => Reading.skip 1; return .orFail emptyToo (← upToBrace)
    | '+' :: _ => Reading.skip 1; return .ifSet emptyToo (← upToBrace)
    | '#' :: '#' :: _ => Reading.skip 2; return .dropFront true (← pattern)
    | '#' :: _ => Reading.skip 1; return .dropFront false (← pattern)
    | '%' :: '%' :: _ => Reading.skip 2; return .dropBack true (← pattern)
    | '%' :: _ => Reading.skip 1; return .dropBack false (← pattern)
    | '\x7d' :: _ => return .value
    | c :: _ =>
      if !rich then readImpossible fuel m
      else
        match c with
        | ':' =>
          Reading.skip 1
          let offset ← readPieces fuel (.expression fun c => c = ':' || c = '\x7d') false
          if ← Reading.accept ":" then
            let n ← readPieces fuel (.expression fun c => c = '\x7d') false
            return .part offset (some n)
          else return .part offset none
        | '/' =>
          Reading.skip 1
          let all ← Reading.accept "/"
          let anchor ← (do
            if all then return none
            else if ← Reading.accept "#" then return some true
            else if ← Reading.accept "%" then return some false
            else return none)
          let p ← readPieces fuel (.pattern fun c => c = '/' || c = '\x7d') false
          if ← Reading.accept "/" then
            return .replace all anchor p (← readPieces fuel (.pattern (· = '\x7d')) false)
          else return .replace all anchor p []
        | '^' => readRecase fuel '^'
        | ',' => readRecase fuel ','
        | '~' => readRecase fuel '~'
        | '@' =>
          Reading.skip 1
          match ← Reading.peek with
          | some c =>
            Reading.skip 1
            return .transform c
          | none => Reading.flaw "Missing '\x7d'"
        | _ => readImpossible fuel m
    | [] => Reading.flaw "Missing '\x7d'"

/-- What is no use of a parameter, up to the closing brace. -/
def readImpossible (fuel : Nat) (m : Manner) : Reading Use := do
  match fuel with
  | 0 => Reading.flaw "too deep"
  | fuel + 1 =>
    let _ ← readPieces fuel (.operand m.quoted) false
    return .impossible

/-- A change of case, of one letter or, behind a doubled mark, of all. -/
def readRecase (fuel : Nat) (c : Char) : Reading Use := do
  match fuel with
  | 0 => Reading.flaw "too deep"
  | fuel + 1 =>
    Reading.skip 1
    let all ← Reading.accept (String.singleton c)
    return .recase c all (← readPieces fuel (.pattern (· = '\x7d')) false)

/-- A redirection, if one stands here. -/
def readRedirection (fuel : Nat) : Reading (Option Redirection) := do
  match fuel with
  | 0 => Reading.flaw "too deep"
  | fuel + 1 =>
    let rest ← Reading.rest
    let rich ← Reading.isRich
    let digits := rest.takeWhile Char.isDigit
    let stream : Option Nat := if digits = [] then none
      else some (digits.foldl (fun n c => 10 * n + (c.toNat - '0'.toNat)) 0)
    let word : Reading Word := do
      Reading.skipBlanks
      let w ← readPieces fuel .word true
      if w.isEmpty then Reading.flaw "redirection target expected" else return w
    let here (dropTabs : Bool) : Reading Redirection := do
      let w ← word
      let body ← Reading.takeHere (plainOf w) dropTabs
      if isQuoted w then return .here stream (quoteAll body)
      else return .here stream (← Reading.within body (readPieces fuel .here false))
    let back (n : Nat) : Reading Unit := Reading.skip (digits.length + n)
    match rest.drop digits.length with
    | '<' :: '<' :: '<' :: _ =>
      if rich then back 3; return some (.line stream (← word))
      else Reading.flaw "redirection unexpected"
    | '<' :: '<' :: '-' :: _ => back 3; return some (← here true)
    | '<' :: '<' :: _ => back 2; return some (← here false)
    | '<' :: '&' :: _ => back 2; return some (.same (stream.getD 0) (← word))
    | '<' :: '>' :: _ => back 2; return some (.readWrite stream (← word))
    | '<' :: '(' :: _ =>
      if rich && digits.isEmpty then return none
      else back 1; return some (.read stream (← word))
    | '<' :: _ => back 1; return some (.read stream (← word))
    | '>' :: '(' :: _ =>
      if rich && digits.isEmpty then return none
      else back 1; return some (.write stream false false (← word))
    | '>' :: '>' :: _ => back 2; return some (.write stream true false (← word))
    | '>' :: '&' :: _ =>
      back 2
      let w ← word
      if rich && stream.isNone && !((plainOf w).all fun c => c.isDigit || c = '-') then
        return some (.both false w)
      else return some (.same (stream.getD 1) w)
    | '>' :: '|' :: _ => back 2; return some (.write stream false true (← word))
    | '>' :: _ => back 1; return some (.write stream false false (← word))
    | '\x7b' :: cs =>
      let name := cs.takeWhile continuesName
      let behind := (cs.drop name.length).drop 1
      if rich && digits.isEmpty && isName name && (cs.drop name.length).head? = some '\x7d' &&
          (behind.head? = some '<' || behind.head? = some '>') then
        Reading.skip (name.length + 2)
        return (← readRedirection fuel).map (.named (String.ofList name))
      else return none
    | '&' :: '>' :: '>' :: _ =>
      if rich && digits.isEmpty then back 3; return some (.both true (← word)) else return none
    | '&' :: '>' :: _ =>
      if rich && digits.isEmpty then back 2; return some (.both false (← word)) else return none
    | _ => return none

/-- The redirections in front. -/
def readRedirections (fuel : Nat) : Reading (List Redirection) := do
  match fuel with
  | 0 => Reading.flaw "too deep"
  | fuel + 1 =>
    Reading.skipBlanks
    match ← readRedirection fuel with
    | none => return []
    | some r => return r :: (← readRedirections fuel)

/-- The words up to the end of a command. -/
def readWords (fuel : Nat) : Reading (List Word) := do
  match fuel with
  | 0 => Reading.flaw "too deep"
  | fuel + 1 =>
    Reading.skipBlanks
    let w ← readPieces fuel .word true
    if w.isEmpty then return [] else return w :: (← readWords fuel)

/-- The elements of an array up to the closing parenthesis. -/
def readElements (fuel : Nat) : Reading (List (Option Word × Word)) := do
  match fuel with
  | 0 => Reading.flaw "too deep"
  | fuel + 1 =>
    Reading.skipAllLines
    if ← Reading.accept ")" then return []
    else
      let rest ← Reading.rest
      let indexed : Option Nat := match rest with
        | '[' :: cs => (Reading.subscriptLength 0 none cs).filter fun n =>
          (cs.drop (n + 1)).head? = some '='
        | _ => none
      match indexed with
      | some n =>
        Reading.skip (n + 3)
        let i ← Reading.within ((rest.drop 1).take n) (readPieces fuel .index false)
        let w ← readPieces fuel .assigned true
        return (some i, w) :: (← readElements fuel)
      | none =>
        let w ← readPieces fuel .word true
        if w.isEmpty then Reading.flaw "word unexpected"
        else return (none, w) :: (← readElements fuel)

/-- An assignment, if one stands here. -/
def readAssignment (fuel : Nat) : Reading (Option Assignment) := do
  match fuel with
  | 0 => Reading.flaw "too deep"
  | fuel + 1 =>
    let rest ← Reading.rest
    let rich ← Reading.isRich
    let name := rest.takeWhile continuesName
    let behind := rest.drop name.length
    if !isName name then return none
    else
      let named := String.ofList name
      match behind with
      | '=' :: '(' :: _ =>
        if rich then
          Reading.skip (name.length + 2)
          return some (.array named false (← readElements fuel))
        else
          Reading.skip (name.length + 1)
          return some (.set named none false (← readPieces fuel .assigned true))
      | '+' :: '=' :: '(' :: _ =>
        if rich then
          Reading.skip (name.length + 3)
          return some (.array named true (← readElements fuel))
        else return none
      | '=' :: _ =>
        Reading.skip (name.length + 1)
        return some (.set named none false (← readPieces fuel .assigned true))
      | '+' :: '=' :: _ =>
        if rich then
          Reading.skip (name.length + 2)
          return some (.set named none true (← readPieces fuel .assigned true))
        else return none
      | '[' :: cs =>
        let size := (Reading.subscriptLength 0 none cs).getD cs.length
        let after := cs.drop (size + 1)
        let plain := after.head? = some '='
        let adds := "+=".toList.isPrefixOf after
        if rich && (plain || adds) then
          Reading.skip (name.length + size + (if plain then 3 else 4))
          let i ← Reading.within (cs.take size) (readPieces fuel .index false)
          return some (.set named (some i) adds (← readPieces fuel .assigned true))
        else return none
      | _ => return none

/-- A simple command behind the parts already read: assignments, words, redirections, and the arrays
that words of it assign. -/
def readSimple (fuel : Nat) (line : Nat) (as : List Assignment) (ws : List Word)
    (rs : List Redirection) (late : List Assignment) : Reading Command := do
  match fuel with
  | 0 => Reading.flaw "too deep"
  | fuel + 1 =>
    Reading.skipBlanks
    if ws.isEmpty then Reading.replaceFirst else Reading.replaceNext
    match ← readRedirection fuel with
    | some r => readSimple fuel line as ws (rs ++ [r]) late
    | none =>
      let rest ← Reading.rest
      let done : Reading Command := do
        let c : Command := .simple line as ws rs
        return if late.isEmpty then c else .sequence [c, .simple line late [] []]
      match rest with
      | [] => done
      | _ =>
        let declares := (← Reading.isRich) && match ws with
          | w :: _ => declarers.contains (String.ofList (plainOf w))
          | [] => false
        let name := rest.takeWhile continuesName
        let array := declares && isName name && ("=(".toList.isPrefixOf (rest.drop name.length) ||
          "+=(".toList.isPrefixOf (rest.drop name.length))
        let assignment ← (if ws.isEmpty || array then readAssignment fuel else return none)
        match assignment with
        | some a =>
          if array then
            readSimple fuel line as (ws ++ [name.map fun c => .char c false]) rs (late ++ [a])
          else readSimple fuel line (as ++ [a]) ws rs late
        | none =>
          let w ← readPieces fuel .word true
          if w.isEmpty then done else readSimple fuel line as (ws ++ [w]) rs late

/-- The branches behind `if` or `elif`. -/
def readBranches (fuel : Nat) : Reading Command := do
  match fuel with
  | 0 => Reading.flaw "too deep"
  | fuel + 1 =>
    let condition ← readList fuel
    Reading.expectWord "then"
    let yes ← readList fuel
    Reading.skipAllLines
    if ← Reading.acceptWord "elif" then
      return .choose (.sequence condition) (.sequence yes) (← readBranches fuel)
    else if ← Reading.acceptWord "else" then
      let no ← readList fuel
      Reading.expectWord "fi"
      return .choose (.sequence condition) (.sequence yes) (.sequence no)
    else
      Reading.expectWord "fi"
      return .choose (.sequence condition) (.sequence yes) (.sequence [])

/-- The patterns of an arm up to its parenthesis. -/
def readPatterns (fuel : Nat) : Reading (List Word) := do
  match fuel with
  | 0 => Reading.flaw "too deep"
  | fuel + 1 =>
    Reading.skipBlanks
    let w ← readPieces fuel .word true
    Reading.skipBlanks
    if w.isEmpty then Reading.flaw "word expected"
    else if ← Reading.accept "|" then return w :: (← readPatterns fuel)
    else
      Reading.expect ")"
      return [w]

/-- The arms of a choice up to its end. -/
def readArms (fuel : Nat) : Reading (List (List Word × Command × ArmEnd)) := do
  match fuel with
  | 0 => Reading.flaw "too deep"
  | fuel + 1 =>
    Reading.skipAllLines
    if ← Reading.acceptWord "esac" then return []
    else
      let _ ← Reading.accept "("
      let ws ← readPatterns fuel
      let body ← readListOrNone fuel
      Reading.skipAllLines
      let stop : ArmEnd ← (do
        if ← Reading.accept ";;&" then return .tryNext
        else if ← Reading.accept ";;" then return .done
        else if ← Reading.accept ";&" then return .goOn
        else
          if (← Reading.bareWord) ≠ "esac" then Reading.flaw "word unexpected (expecting \";;\")"
          return .done)
      return (ws, .sequence body, stop) :: (← readArms fuel)

/-- A question of a conditional command: parts joined by `||`. -/
def readQuestion (fuel : Nat) : Reading Question := do
  match fuel with
  | 0 => Reading.flaw "too deep"
  | fuel + 1 =>
    let p ← readConjunction fuel
    Reading.skipAllLines
    if ← Reading.accept "||" then return .or p (← readQuestion fuel) else return p

def readConjunction (fuel : Nat) : Reading Question := do
  match fuel with
  | 0 => Reading.flaw "too deep"
  | fuel + 1 =>
    let p ← readSingleQuestion fuel
    Reading.skipAllLines
    if ← Reading.accept "&&" then return .and p (← readConjunction fuel) else return p

def readSingleQuestion (fuel : Nat) : Reading Question := do
  match fuel with
  | 0 => Reading.flaw "too deep"
  | fuel + 1 =>
    Reading.skipAllLines
    let rest ← Reading.rest
    match rest with
    | '!' :: c :: _ =>
      if c = ' ' || c = '\t' || c = '\n' then
        Reading.skip 1
        return .not (← readSingleQuestion fuel)
      else readComparison fuel
    | '(' :: _ =>
      Reading.skip 1
      let q ← readQuestion fuel
      Reading.skipAllLines
      Reading.expect ")"
      return q
    | '-' :: c :: d :: _ =>
      if c.isAlpha && (d = ' ' || d = '\t') then
        Reading.skip 2
        Reading.skipBlanks
        let w ← readPieces fuel .word true
        if w.isEmpty then return .holds [.char '-' false, .char c false]
        else return .unary (String.ofList ['-', c]) w
      else readComparison fuel
    | _ => readComparison fuel

def readComparison (fuel : Nat) : Reading Question := do
  match fuel with
  | 0 => Reading.flaw "too deep"
  | fuel + 1 =>
    let a ← readPieces fuel .word true
    if a.isEmpty then Reading.flaw "unexpected argument to conditional"
    else
      Reading.skipAllLines
      let rest ← Reading.rest
      match comparisonWords.find? fun w =>
          w.toList.isPrefixOf rest && (rest.drop w.length).head?.all fun c =>
            c = ' ' || c = '\t' || c = '\n' with
      | some operator =>
        Reading.skip operator.length
        Reading.skipAllLines
        let b ← readPieces fuel (if operator = "=~" then .regex
          else { Manner.word with always := true }) true
        return .binary operator a b
      | none => return .holds a

/-- A compound command, a definition, or a simple command. -/
def readCommand (fuel : Nat) : Reading Command := do
  match fuel with
  | 0 => Reading.flaw "too deep"
  | fuel + 1 =>
    Reading.skipBlanks
    Reading.replaceFirst
    let s ← get
    let rich := s.dialect = .rich
    let compound (c : Command) : Reading Command := do
      let rs ← readRedirections fuel
      return if rs.isEmpty then c else .redirected c rs
    let body : Reading Command := do
      Reading.skipAllLines
      if rich && (← Reading.bareWord) = "\x7b" then
        Reading.skip 1
        let c ← readList fuel
        Reading.expectWord "\x7d"
        return .sequence c
      else
        Reading.expectWord "do"
        let c ← readList fuel
        Reading.expectWord "done"
        return .sequence c
    match s.rest with
    | '(' :: '(' :: inner =>
      let n : Option Nat := if rich then Reading.computedLength 0 none inner else none
      match n with
      | some n =>
        Reading.skip 2
        let text := (← Reading.rest).take n
        Reading.skip (n + 2)
        compound (.compute s.line (← Reading.within text (readPieces fuel .computed false)))
      | none =>
        Reading.skip 1
        let c ← readList fuel
        Reading.expect ")"
        compound (.subshell (.sequence c))
    | '(' :: _ =>
      Reading.skip 1
      let c ← readList fuel
      Reading.expect ")"
      compound (.subshell (.sequence c))
    | _ =>
      match ← Reading.bareWord with
      | "\x7b" =>
        Reading.skip 1
        let c ← readList fuel
        Reading.expectWord "\x7d"
        compound (.sequence c)
      | "if" =>
        Reading.skip 2
        compound (← readBranches fuel)
      | "while" =>
        Reading.skip 5
        let condition ← readList fuel
        compound (.loop false (.sequence condition) (← body))
      | "until" =>
        Reading.skip 5
        let condition ← readList fuel
        compound (.loop true (.sequence condition) (← body))
      | "for" =>
        Reading.skip 3
        Reading.skipBlanks
        if rich && "((".toList.isPrefixOf (← Reading.rest) then
          Reading.skip 2
          match Reading.computedLength 0 none (← Reading.rest) with
          | none => Reading.flaw "Bad for loop"
          | some n =>
            let parts := ((← Reading.rest).take n).splitOn ';'
            Reading.skip (n + 2)
            let part (i : Nat) : Reading Word :=
              Reading.within (parts.getD i []) (readPieces fuel .computed false)
            let start ← part 0
            let condition ← part 1
            let step ← part 2
            Reading.skipBlanks
            let _ ← Reading.accept ";"
            compound (.count s.line start condition step (← body))
        else
          match ← readParameterName true with
          | none => Reading.flaw "Bad for loop variable"
          | some name =>
            Reading.skipAllLines
            if ← Reading.acceptWord "in" then
              let ws ← readWords fuel
              let _ ← Reading.accept ";"
              compound (.forEach s.line name (some ws) (← body))
            else
              let _ ← Reading.accept ";"
              compound (.forEach s.line name none (← body))
      | "select" =>
        if rich then
          Reading.skip 6
          Reading.skipBlanks
          match ← readParameterName true with
          | none => Reading.flaw "Bad for loop variable"
          | some name =>
            Reading.skipAllLines
            if ← Reading.acceptWord "in" then
              let ws ← readWords fuel
              let _ ← Reading.accept ";"
              compound (.menu s.line name (some ws) (← body))
            else
              let _ ← Reading.accept ";"
              compound (.menu s.line name none (← body))
        else readSimple fuel s.line [] [] [] []
      | "case" =>
        Reading.skip 4
        Reading.skipBlanks
        let w ← readPieces fuel .word true
        Reading.expectWord "in"
        compound (.select s.line w (← readArms fuel))
      | word =>
        if rich && word = "[[" then
          Reading.skip 2
          let q ← readQuestion fuel
          Reading.skipAllLines
          Reading.expect "]]"
          compound (.ask s.line q)
        else if rich && word = "function" then
          Reading.skip 8
          Reading.skipBlanks
          let name ← Reading.takeWhile fun c => !endsWord c
          Reading.skipBlanks
          if ← Reading.accept "(" then
            Reading.skipBlanks
            Reading.expect ")"
          Reading.skipAllLines
          return .define (String.ofList name) (← readCommand fuel)
        else if listEnds.contains word || word = "!" then
          Reading.flaw ("\"" ++ word ++ "\" unexpected")
        else
          let behind := s.rest.drop word.length
          let opens := (behind.drop (Reading.blanksIn behind)).head? = some '('
          let named := isName word.toList || (rich && word ≠ "" && !word.contains '=')
          if opens && named then
            Reading.skip word.length
            Reading.skipBlanks
            Reading.expect "("
            Reading.skipBlanks
            Reading.expect ")"
            Reading.skipAllLines
            return .define word (← readCommand fuel)
          else
            let c ← readSimple fuel s.line [] [] [] []
            match c with
            | .simple _ [] [] [] =>
              match ← Reading.peek with
              | some c => Reading.flaw ("\"" ++ String.singleton c ++ "\" unexpected")
              | none => Reading.flaw "end of file unexpected"
            | c => return c

/-- The commands between pipes. -/
def readPipeParts (fuel : Nat) : Reading (List Command) := do
  match fuel with
  | 0 => Reading.flaw "too deep"
  | fuel + 1 =>
    let c ← readCommand fuel
    Reading.skipBlanks
    match ← Reading.rest with
    | '|' :: '|' :: _ => return [c]
    | '|' :: '&' :: _ =>
      if ← Reading.isRich then
        Reading.skip 2
        Reading.skipAllLines
        return .redirected c [.same 2 [.char '1' false]] :: (← readPipeParts fuel)
      else
        Reading.skip 1
        Reading.skipAllLines
        return c :: (← readPipeParts fuel)
    | '|' :: _ =>
      Reading.skip 1
      Reading.skipAllLines
      return c :: (← readPipeParts fuel)
    | _ => return [c]

/-- Commands joined by pipes, negated if there is a mark in front. -/
def readPipeline (fuel : Nat) : Reading Command := do
  match fuel with
  | 0 => Reading.flaw "too deep"
  | fuel + 1 =>
    Reading.skipBlanks
    if ← Reading.acceptWord "!" then return .not (← readPipeline fuel)
    else if (← Reading.isRich) && (← Reading.bareWord) = "time" then
      Reading.skip 4
      Reading.skipBlanks
      let _ ← Reading.acceptWord "-p"
      readPipeline fuel
    else
      match ← readPipeParts fuel with
      | [c] => return c
      | cs => return .pipe cs

/-- Pipelines joined by `&&` and `||`, which bind alike and to the left. -/
def readJoined (fuel : Nat) (sofar : Command) : Reading Command := do
  match fuel with
  | 0 => Reading.flaw "too deep"
  | fuel + 1 =>
    Reading.skipBlanks
    if ← Reading.accept "&&" then
      Reading.skipAllLines
      readJoined fuel (.andThen sofar (← readPipeline fuel))
    else if ← Reading.accept "||" then
      Reading.skipAllLines
      readJoined fuel (.orElse sofar (← readPipeline fuel))
    else return sofar

/-- The commands up to the end of a list, or of the line. -/
def readCommands (fuel : Nat) (oneLine : Bool) : Reading (List Command) := do
  match fuel with
  | 0 => Reading.flaw "too deep"
  | fuel + 1 =>
    if oneLine then Reading.skipBlanks else Reading.skipAllLines
    let ends ← (do
      if oneLine then return ((← Reading.peek).all (· = '\n'))
      else endsList)
    if ends then return []
    else
      let c ← readJoined fuel (← readPipeline fuel)
      Reading.skipBlanks
      match ← Reading.rest with
      | ';' :: ';' :: _ => return [c]
      | ';' :: '&' :: _ => return [c]
      | '&' :: _ =>
        Reading.skip 1
        return .background c :: (← readCommands fuel oneLine)
      | ';' :: _ =>
        Reading.skip 1
        return c :: (← readCommands fuel oneLine)
      | '\n' :: _ => if oneLine then return [c] else return c :: (← readCommands fuel oneLine)
      | _ => return [c]

/-- A list of commands that may be empty. -/
def readListOrNone (fuel : Nat) : Reading (List Command) := do
  match fuel with
  | 0 => Reading.flaw "too deep"
  | fuel + 1 => readCommands fuel false

/-- A list of at least one command. -/
def readList (fuel : Nat) : Reading (List Command) := do
  match fuel with
  | 0 => Reading.flaw "too deep"
  | fuel + 1 =>
    match ← readCommands fuel false with
    | [] =>
      let w ← Reading.bareWord
      let next := ((← Reading.peek).map String.singleton).getD ""
      Reading.flaw (if next = "" then "end of file unexpected"
        else "\"" ++ (if w = "" then next else w) ++ "\" unexpected")
    | cs => return cs

/-- All commands of a text. -/
def readWhole (fuel : Nat) : Reading (List Command) := do
  match fuel with
  | 0 => Reading.flaw "too deep"
  | fuel + 1 =>
    let cs ← readCommands fuel false
    match ← Reading.peek with
    | none => return cs
    | some c => Reading.flaw ("\"" ++ String.singleton c ++ "\" unexpected")

end

/-- The commands of one line, its line feed taken too. -/
def readLine (fuel : Nat) : Reading (List Command) := do
  let cs ← readCommands fuel true
  match ← Reading.peek with
  | none => return cs
  | some '\n' =>
    Reading.skip 1
    return cs
  | some c =>
    let w ← Reading.bareWord
    Reading.flaw ("\"" ++ (if w = "" then String.singleton c else w) ++ "\" unexpected")

namespace Source

/-- A script from its text. -/
def ofText (dialect : Dialect) (cs : Octets) : Source := ⟨cs, 1, 0, dialect, false, [], [], none⟩

/-- The commands of the next line that has any, and what is left behind it. -/
def next? (s : Source) : Except Flaw (Option (List Command × Source)) := do
  let ((), s) ← Reading.skipAllLines s
  if s.rest.isEmpty then return none
  else
    let room := s.aliases.foldl (fun n a => n + a.2.length + 1) 0
    return some (← readLine (4 * (s.rest.length + 1) * (room + 1) + 40) s)

end Source

end Whittle.Shell
