import Whittle.Shell.Script

/-!
# The text of a script while it is read

A `Source` is what is left of a script. Reading takes octets off its front and may fail with the line
it has come to. The lines of a here-document are taken out behind the line that asks for them.
Where a command starts, a word may stand for a text that is read in its place.
-/

namespace Whittle.Shell

structure Source where
  rest : Octets
  line : Nat
  /-- Lines taken out behind the current one. -/
  taken : Nat
  dialect : Dialect
  /-- Whether patterns may have groups. -/
  groups : Bool := false
  /-- The texts that words stand for where a command starts. -/
  aliases : List (String × Octets) := []
  /-- The words whose texts are being read, each with how much is left behind its text. -/
  replaced : List (String × Nat) := []
  /-- What is left behind a text after which one more word may stand for another. -/
  chained : Option Nat := none

/-- Why a script cannot be read: the line, and the words of the complaint. -/
abbrev Flaw := Nat × String

abbrev Reading := StateT Source (Except Flaw)

/-- The octets that end a word unless they are quoted. -/
def endsWord (c : Char) : Bool :=
  [' ', '\t', '\n', ';', '&', '|', '<', '>', '(', ')'].contains c

namespace Reading

def flaw {α : Type} (text : String) : Reading α := do throw ((← get).line, text)

def isRich : Reading Bool := do return (← get).dialect = .rich

def rest : Reading Octets := do return (← get).rest

def peek : Reading (Option Char) := do return (← get).rest.head?

/-- Take one octet off the front. -/
def step (s : Source) : Source :=
  match s.rest with
  | [] => s
  | c :: cs =>
    if c = '\n' then { s with rest := cs, line := s.line + 1 + s.taken, taken := 0 }
    else { s with rest := cs }

def skip (n : Nat) : Reading Unit := modify fun s => Nat.repeat step n s

/-- Take a text off the front, if it is there. -/
def accept (text : String) : Reading Bool := do
  if text.toList.isPrefixOf (← rest) then
    skip text.length
    return true
  else return false

def expect (text : String) : Reading Unit := do
  if !(← accept text) then
    flaw (match ← peek with
      | none => "end of file unexpected (expecting \"" ++ text ++ "\")"
      | some c => "\"" ++ String.singleton c ++ "\" unexpected (expecting \"" ++ text ++ "\")")

/-- Take the octets in front that are of a kind. -/
def takeWhile (p : Char → Bool) : Reading Octets := do
  let o := (← rest).takeWhile p
  skip o.length
  return o

/-- Read another text, and go on with the old one. -/
def within {α : Type} (text : Octets) (r : Reading α) : Reading α := do
  let s ← get
  set { s with rest := text, taken := 0, replaced := [], chained := none }
  let a ← r
  set s
  return a

/-- How many octets of blanks and joined lines are in front. -/
def blanksIn : Octets → Nat
  | '\\' :: '\n' :: cs => blanksIn cs + 2
  | c :: cs => if c = ' ' ∨ c = '\t' then blanksIn cs + 1 else 0
  | [] => 0

/-- Skip blanks, joined lines, and a comment. -/
def skipBlanks : Reading Unit := do
  skip (blanksIn (← rest))
  if (← peek) = some '#' then
    let _ ← takeWhile (· ≠ '\n')

/-- Skip blank lines too; the number bounds them. -/
def skipLines : Nat → Reading Unit
  | 0 => return ()
  | n + 1 => do
    skipBlanks
    if (← peek) = some '\n' then
      skip 1
      skipLines n

def skipAllLines : Reading Unit := do skipLines ((← rest).length + 1)

/-- The word in front, if nothing in it is quoted or expanded. -/
def bareWord : Reading String := do
  let w := (← rest).takeWhile fun c => !endsWord c
  return if w.any fun c => ['\'', '"', '\\', '$', '\x60'].contains c then "" else String.ofList w

/-- Put the text that the word in front stands for in its place, and go on with the first word of that
text; the number bounds the words. -/
def replaceWord : Nat → Reading Unit
  | 0 => return ()
  | n + 1 => do
    let w ← bareWord
    let s ← get
    match s.aliases.lookup w with
    | none => return ()
    | some text =>
      let behind := s.rest.drop w.length
      if !s.replaced.any fun r => r.1 = w && r.2 < s.rest.length then
        let chained := if text.getLast?.any fun c => c = ' ' || c = '\t' then some behind.length
          else none
        set { s with rest := text ++ behind, replaced := (w, behind.length) :: s.replaced
                     chained := chained }
        skipBlanks
        replaceWord n

/-- Replace the word in front where a command starts. -/
def replaceFirst : Reading Unit := do replaceWord ((← get).aliases.length + 1)

/-- Replace the word in front, if it stands behind a text that says so. -/
def replaceNext : Reading Unit := do
  let s ← get
  if s.chained.any fun n => s.rest.length ≤ n then
    set { s with chained := none }
    replaceFirst

/-- Take a word of the grammar, if it is there. -/
def acceptWord (w : String) : Reading Bool := do
  if (← bareWord) = w then
    skip w.length
    return true
  else return false

/-- Take a word of the grammar that has to come next, on this line or a later one. -/
def expectWord (w : String) : Reading Unit := do
  skipAllLines
  if !(← acceptWord w) then
    let found ← bareWord
    flaw ((if (← rest).isEmpty then "end of file"
      else if found = "" then "word" else "\"" ++ found ++ "\"") ++
        " unexpected (expecting \"" ++ w ++ "\")")

/-- The lines up to a delimiter, what follows it, and how many lines were gone through. -/
def splitHere (delimiter : Octets) (dropTabs : Bool) :
    List Octets → List Octets × List Octets × Nat
  | [] => ([], [], 0)
  | l :: ls =>
    let l := if dropTabs then l.dropWhile (· = '\t') else l
    if l = delimiter then ([], ls, 1)
    else
      let r := splitHere delimiter dropTabs ls
      (l :: r.1, r.2.1, r.2.2 + 1)

/-- Take the lines of a here-document out of what follows the current line. -/
def takeHere (delimiter : Octets) (dropTabs : Bool) : Reading Octets := do
  let s ← get
  let line := s.rest.takeWhile (· ≠ '\n')
  let behind := s.rest.drop (line.length + 1)
  let r := splitHere delimiter dropTabs (Octets.lines behind)
  set { s with rest := line ++ '\n' :: Octets.unlines r.2.1, taken := s.taken + r.2.2 }
  return Octets.unlines r.1

/-- The length of the text up to the parentheses that close two already open, quotes and nested
parentheses skipped; there is none if only one of them closes. -/
def computedLength (depth : Nat) (quote : Option Char) : Octets → Option Nat
  | [] => none
  | c :: cs =>
    let more (depth : Nat) (quote : Option Char) : Option Nat :=
      (computedLength depth quote cs).map (· + 1)
    match quote with
    | some q => more depth (if c = q then none else quote)
    | none =>
      if c = '\'' ∨ c = '"' then more depth (some c)
      else if c = '(' then more (depth + 1) none
      else if c = ')' then
        match depth with
        | 0 => if cs.head? = some ')' then some 0 else none
        | depth + 1 => more depth none
      else more depth none

/-- The length of the text up to the bracket that closes one already open, on the same line and with
quotes skipped. -/
def subscriptLength (depth : Nat) (quote : Option Char) : Octets → Option Nat
  | [] => none
  | '\\' :: _ :: cs => (subscriptLength depth quote cs).map (· + 2)
  | c :: cs =>
    let more (depth : Nat) (quote : Option Char) : Option Nat :=
      (subscriptLength depth quote cs).map (· + 1)
    match quote with
    | some q => more depth (if c = q then none else quote)
    | none =>
      if c = '\'' ∨ c = '"' then more depth (some c)
      else if c = '\n' then none
      else if c = '[' then more (depth + 1) none
      else if c = ']' then
        match depth with
        | 0 => some 0
        | depth + 1 => more depth none
      else more depth none

/-- The text between two backquotes, its escapes undone. Inside double quotes a double quote may be
escaped too. -/
def backquoted (quoted : Bool) : Nat → Reading Octets
  | 0 => flaw "EOF in backquote substitution"
  | fuel + 1 => do
    match ← rest with
    | [] => flaw "EOF in backquote substitution"
    | '\x60' :: _ =>
      skip 1
      return []
    | '\\' :: c :: _ =>
      skip 2
      let more ← backquoted quoted fuel
      return if ['$', '\x60', '\\'].contains c || (quoted && c = '"') then c :: more
        else '\\' :: c :: more
    | c :: _ =>
      skip 1
      return c :: (← backquoted quoted fuel)

end Reading

end Whittle.Shell
