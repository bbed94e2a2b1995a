import Whittle.Shell.Filters
import Whittle.Shell.Glob
import Whittle.Shell.RegexText

/-!
# Searching for lines

A search writes the lines in which one of its patterns is found, or what was found in them, how many
they are, or only where they are.
-/

namespace Whittle.Shell

open Doing

/-- How the patterns of a search are meant. -/
structure Search where
  patterns : List Regex
  /-- Whether a line, or a word of it, has to be a match as a whole. -/
  line : Bool
  word : Bool
  negated : Bool

namespace Search

def isWordAt (t : Array Char) (i : Nat) : Bool := (t[i]?).any isWordOctet

/-- Whether nothing of a word stands around a stretch. -/
def standsAlone (t : Array Char) (i j : Nat) : Bool :=
  !(i > 0 && isWordAt t (i - 1)) && !isWordAt t j

/-- The longest match of a pattern at a position that is a word. -/
def wordAt (r : Regex) (t : Array Char) (i : Nat) : Option Found :=
  let s := r.stops t (Places.single i)
  if s = 0 then none
  else
    (((List.range (t.size + 1 - i)).reverse.map (i + ·)).find? fun j =>
      s.testBit j && standsAlone t i j).map fun j => ⟨i, j, []⟩

/-- The longer of two matches. -/
def longer (a b : Option Found) : Option Found :=
  match a, b with
  | some x, some y => if y.stop > x.stop then b else a
  | some _, none => a
  | none, _ => b

/-- The longest match of a pattern at a position. -/
def matchAt (s : Search) (t : Array Char) (i : Nat) : Option Found :=
  (s.patterns.map fun r => if s.word then wordAt r t i else r.findAt t i).foldl longer none

/-- What is found in a line, from a position on. -/
def findFrom (s : Search) (t : Array Char) (first : Nat) : Option Found :=
  if s.line then
    if first = 0 && s.patterns.any fun r => r.matchesAll t.toList then some ⟨0, t.size, []⟩ else none
  else if !s.word && !s.patterns.any fun r => (r.search t first).isSome then none
  else ((List.range (t.size + 1 - first)).map (first + ·)).findSome? (s.matchAt t)

/-- Whether a line is selected. -/
def selects (s : Search) (line : Octets) : Bool :=
  let found := if s.line then s.patterns.any fun r => r.matchesAll line
    else if s.word then (s.findFrom line.toArray 0).isSome
    else s.patterns.any fun r => r.matchesIn line
  found != s.negated

/-- The stretches of a line that are found, from a position on; empty ones do not count. -/
def matchesFrom (s : Search) (t : Array Char) : Nat → Nat → List Found
  | 0, _ => []
  | n + 1, first =>
    match s.findFrom t first with
    | none => []
    | some m =>
      if m.stop = m.start then
        if m.start ≥ t.size then [] else s.matchesFrom t n (m.start + 1)
      else m :: s.matchesFrom t n m.stop

end Search

/-- The options of a search. -/
def searchOptions : OptionTable :=
  { flags := "EFGPivywxclLqsnHhorRabzTZU", valued := "efmABCdD!?^@"
    long := [("extended-regexp", 'E'), ("fixed-strings", 'F'), ("basic-regexp", 'G'),
      ("perl-regexp", 'P'), ("ignore-case", 'i'), ("invert-match", 'v'), ("word-regexp", 'w'),
      ("line-regexp", 'x'), ("count", 'c'), ("files-with-matches", 'l'),
      ("files-without-match", 'L'), ("quiet", 'q'), ("silent", 'q'), ("no-messages", 's'),
      ("line-number", 'n'), ("with-filename", 'H'), ("no-filename", 'h'), ("only-matching", 'o'),
      ("recursive", 'r'), ("dereference-recursive", 'R'), ("text", 'a'), ("byte-offset", 'b'),
      ("regexp", 'e'), ("file", 'f'), ("max-count", 'm'), ("after-context", 'A'),
      ("before-context", 'B'), ("context", 'C'), ("include", '!'), ("exclude", '?'),
      ("exclude-dir", '^'), ("null-data", 'z'), ("null", 'Z')] }

/-- Words with a count of context lines such as `-3` written out, and without colours. -/
def settleSearchWords (ws : List Octets) : List Octets :=
  (ws.filter fun w => !("--color".toList.isPrefixOf w || "--colour".toList.isPrefixOf w)).map fun w =>
    match w with
    | '-' :: d :: ds => if (d :: ds).all Text.isDigit then '-' :: 'C' :: d :: ds else w
    | _ => w

/-- The expression of one pattern. -/
def searchPattern (extended fixed bothCases : Bool) (o : Octets) : Option Regex :=
  let r := if fixed then some (.literal o)
    else Regex.read { extended := extended, dropsRepeats := true } o
  r.map fun r => if bothCases then r.withBothCases else r

/-- Whether a name is one that patterns for names let through. -/
def passesNames (a : Arguments) (name : Octets) : Bool :=
  let last := ((name.splitOn '/').getLast?).getD name
  let accepts (g : Octets) : Bool := (Glob.read false (plainMarks g)).matchesAll last
  (!a.has '!' || (a.values '!').any accepts) && !(a.values '?').any accepts

/-- The files of a search: those below directories, if it goes down, and whether each name was given
as it is. -/
def searchFiles (a : Arguments) (names : List Octets) (p : Process) : List Octets :=
  if a.has 'r' || a.has 'R' then
    let excluded (top name : Octets) : Bool :=
      ((name.drop top.length).splitOn '/').dropLast.any fun n =>
        (a.values '^').any fun g => (Glob.read false (plainMarks g)).matchesAll n
    let go (shown : Octets → Octets) (top : Octets) : List Octets :=
      ((pathsBelow p treeDepth top).filter fun n =>
        (n = top && !isDirectory p n) || (!isDirectory p n && !excluded top n &&
          (match p.disk.lstat (p.fileOf n) with
            | .ok (_, .file _ _ _) => true
            | .ok (_, .link _) => a.has 'R'
            | _ => n = top) && passesNames a n)).map shown
    if names.isEmpty then go (fun n => n.drop 2) ['.'] else names.flatMap (go id)
  else if names.isEmpty then [['-']]
  else names.filter fun n => !(a.has '!' || a.has '?') || passesNames a n

/-- A line of output: the name and the number in front of it, with a mark behind each that tells a
selected line from one around it. -/
def searchLine (a : Arguments) (label : Octets) (mark : Char) (number offset : Nat)
    (line : Octets) : Octets :=
  let named : Octets := if label.isEmpty then [] else label ++ [mark]
  let counted : Octets := if a.has 'n' then naturalText number ++ [mark] else []
  let placed : Octets := if a.has 'b' then naturalText offset ++ [mark] else []
  let front := named ++ counted ++ placed
  front ++ (if a.has 'T' && !front.isEmpty then ['\t'] else []) ++ line ++ ['\n']

/-- The numbers of the lines to be shown around some lines. -/
def withContext (before after count : Nat) (hits : List Nat) : List Nat :=
  (List.range count).filter fun i => hits.any fun h => h ≤ i + before && i ≤ h + after

/-- Show selected lines with those around them; two hyphens stand between groups. -/
def showContext (a : Arguments) (label : Octets) (lines : Array Octets) (offsets : Array Nat)
    (hits shown : List Nat) : Octets :=
  (shown.zip ((none :: shown.map some))).flatMap fun e =>
    let i := e.1
    let gap := e.2.any fun j => j + 1 < i
    (if gap then "--\n".toList else []) ++
      searchLine a label (if hits.contains i then ':' else '-') (i + 1) (offsets[i]?.getD 0)
        (lines[i]?.getD [])

/-- The text of what is found in one file: what is written, and how many lines were selected. -/
def searchText? (a : Arguments) (s : Search) (label : Octets) (o : Octets) : Octets × Nat :=
  let lines := Octets.lines o
  let offsets := (lines.foldl (fun (acc : List Nat × Nat) l => (acc.2 :: acc.1, acc.2 + l.length + 1))
    ([], 0)).1.reverse.toArray
  let found := (lines.zipIdx.filter fun l => s.selects l.1).map Prod.snd
  let hits := match a.value? 'm' with
    | some n => found.take (numberOf n)
    | none => found
  let around (c : Char) : Nat := (((a.value? c).or (a.value? 'C')).map numberOf).getD 0
  let table := lines.toArray
  let text : Octets :=
    if a.has 'o' then
      if s.negated then []
      else hits.flatMap fun i =>
        let t := (table[i]?.getD []).toArray
        (s.matchesFrom t (t.size + 2) 0).flatMap fun m =>
          searchLine a label ':' (i + 1) ((offsets[i]?.getD 0) + m.start) (m.text t)
    else
      let last := match a.value? 'm', hits.getLast? with
        | some _, some h => if hits.length < found.length then min table.size (h + 1 + around 'A')
          else table.size
        | _, _ => table.size
      let shown := if around 'A' = 0 ∧ around 'B' = 0 then hits
        else withContext (around 'B') (around 'A') last hits
      let separated := a.has 'A' || a.has 'B' || a.has 'C'
      if separated then showContext a label table offsets hits shown
      else shown.flatMap fun i =>
        searchLine a label ':' (i + 1) (offsets[i]?.getD 0) (table[i]?.getD [])
  (text, hits.length)

/-- Search files for lines. The code tells whether there was one, or that the search failed. -/
def searchWith (program : String) (preset : List (Char × Octets)) (ws : List Octets) :
    Doing Nat :=
  withArguments "grep" 2 searchOptions (settleSearchWords ws) fun a => do
    let a := { a with options := preset ++ a.options }
    let mut given : Option (List Octets) := none
    if a.has 'e' then given := some ((a.values 'e').flatMap (·.splitOn '\n'))
    for f in a.values 'f' do
      match ← readFor program f with
      | some o => given := some (given.getD [] ++ Octets.lines o)
      | none => return 2
    let (patterns, names) : Option (List Octets) × List Octets := match given with
      | some ps => (some ps, a.operands)
      | none => (a.operands.head?.map (·.splitOn '\n'), a.operands.drop 1)
    match patterns with
    | none =>
      complain "Usage: grep [OPTION]... PATTERNS [FILE]..."
      complain "Try 'grep --help' for more information."
      return 2
    | some patterns =>
      let kind := a.lastOf ['E', 'F', 'G', 'P']
      let read := searchPattern (kind = some 'E' || kind = some 'P') (kind = some 'F')
        (a.has 'i' || a.has 'y')
      match patterns.mapM read with
      | none => refuseTo program "Invalid regular expression" 2
      | some rs =>
        let s : Search := ⟨rs, a.has 'x', a.has 'w', a.has 'v'⟩
        let goesDown := a.has 'r' || a.has 'R'
        let p ← get
        let files := searchFiles a names p
        let labelled := if a.has 'h' then false
          else a.has 'H' || names.length > 1 ||
            (goesDown && (names.isEmpty || names.any (isDirectory p)))
        let mut found := false
        let mut failed := false
        for name in files do
          let shown := if name = ['-'] then "(standard input)".toList else name
          let listing := ['q', 'l', 'L', 'c'].any a.has
          if !listing && (← isOutput name) then
            complain (program ++ ": " ++ Octets.text shown ++ ": input file is also the output")
            failed := true
            continue
          match ← contentOf name with
          | .error e =>
            if !a.has 's' then complain (program ++ ": " ++ Octets.text name ++ ": " ++ wordingOf e)
            failed := true
          | .ok o =>
            let (text, n) := searchText? a s (if labelled then shown else []) o
            found := found || n > 0
            if a.has 'q' then
              if n > 0 then return 0
            else if a.has 'l' then
              if n > 0 then write (shown ++ ['\n'])
            else if a.has 'L' then
              if n = 0 then write (shown ++ ['\n'])
            else if a.has 'c' then
              write ((if labelled then shown ++ [':'] else []) ++ naturalText n ++ ['\n'])
            else if o.contains '\x00' && !a.has 'a' && !a.has 'z' then
              if n > 0 then complain (program ++ ": " ++ Octets.text shown ++ ": binary file matches")
            else write text
        return if failed then 2 else if found then 0 else 1

def grep (ws : List Octets) : Doing Nat := searchWith "grep" [] ws

def egrep (ws : List Octets) : Doing Nat := searchWith "grep" [('E', [])] ws

def fgrep (ws : List Octets) : Doing Nat := searchWith "grep" [('F', [])] ws

end Whittle.Shell
