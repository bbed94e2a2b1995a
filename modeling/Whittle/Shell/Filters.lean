import Whittle.Shell.Utility

/-!
# Programs that copy text

Each reads the files it is given, or its input if there are none, and writes some of it: the first or
last lines, lines with numbers, lines turned around, or how many there are.
-/

namespace Whittle.Shell

open Doing

/-- Whether the input is a file, so that what was read too much can be given back. -/
def inputIsFile : Doing Bool := do
  match (← get).channel? 0 with
  | some (_, .file _ _ _) => return true
  | _ => return false

/-- The file that the output goes to. -/
def outputFile? : Doing (Option Nat) := do
  match (← get).channel? 1 with
  | some (_, .file id _ _) => return some id
  | _ => return none

/-- Whether a name is that of the file that the output goes to. -/
def isOutput (name : Octets) : Doing Bool := do
  let p ← get
  match ← outputFile?, p.disk.stat (p.fileOf name) with
  | some id, .ok (_, .file i _ _) => return id = i && name ≠ ['-']
  | _, _ => return false

/-! ### Copies -/

/-- The octets of a line, those that cannot be seen shown by signs. -/
def visible (tabs : Bool) (o : Octets) : Octets :=
  o.flatMap fun c =>
    let n := c.toNat
    let low (n : Nat) : Octets :=
      if n < 32 then ['^', Char.ofNat (n + 64)] else if n = 127 then ['^', '?'] else [Char.ofNat n]
    if c = '\t' && !tabs then [c]
    else if n < 128 then low n
    else 'M' :: '-' :: low (n - 128)

/-- Lines with the marks that options ask for; the number is that of the line before. -/
def markLines (a : Arguments) : Nat → Nat → List Octets → List Octets
  | _, _, [] => []
  | n, blanks, l :: ls =>
    let ended := l.getLast? = some '\n'
    let text := if ended then l.dropLast else l
    let blanks := if text.isEmpty && ended then blanks + 1 else 0
    if a.has 's' && blanks > 1 then markLines a n blanks ls
    else
      let counted := a.has 'b' && !text.isEmpty || a.has 'n' && !a.has 'b'
      let front : Octets :=
        if counted then padded false ' ' 6 (naturalText (n + 1)) ++ ['\t'] else []
      let all := a.has 'A'
      let shows := all || a.has 'v' || a.has 'e' || a.has 't'
      let tabs := all || a.has 'T' || a.has 't'
      let text := if shows then visible tabs text
        else if tabs then text.flatMap fun c => if c = '\t' then ['^', 'I'] else [c]
        else text
      let stop : Octets := if !ended then []
        else if all || a.has 'E' || a.has 'e' then ['$', '\n'] else ['\n']
      (front ++ text ++ stop) :: markLines a (if counted then n + 1 else n) blanks ls

def cat (ws : List Octets) : Doing Nat :=
  withArguments "cat" 1
    { flags := "nbsEATvetu"
      long := [("number", 'n'), ("number-nonblank", 'b'), ("squeeze-blank", 's'), ("show-all", 'A'),
        ("show-ends", 'E'), ("show-tabs", 'T'), ("show-nonprinting", 'v')] } ws fun a => do
    if a.options.all fun o => o.1 = 'u' then
      forAll a.sources fun name => do
        match ← readFor "cat" name with
        | none => return 1
        | some o =>
          if !o.isEmpty && (← isOutput name) then
            refuseTo "cat" (Octets.text name ++ ": input file is output file") 1
          else
            write o
            return 0
    else
      let (o, n) ← allSources "cat" 1 a
      write (markLines a 0 0 (rawLines o)).flatten
      return n

/-- The parts of a text, each with the separator behind it, which the last one may lack. The number
bounds them. -/
def separatedParts (separator : Octets) : Nat → Octets → List Octets
  | 0, o => [o]
  | n + 1, o =>
    match (List.range (o.length + 1)).find? fun i => separator.isPrefixOf (o.drop i) with
    | some i =>
      let size := i + separator.length
      o.take size :: separatedParts separator n (o.drop size)
    | none => if o.isEmpty then [] else [o]

def tac (ws : List Octets) : Doing Nat :=
  withArguments "tac" 1 { flags := "br", valued := "s", long := [("separator", 's')] } ws fun a =>
    eachSource "tac" 1 a fun _ o =>
      match a.value? 's' with
      | some (c :: cs) => write (separatedParts (c :: cs) o.length o).reverse.flatten
      | _ => write (rawLines o).reverse.flatten

def rev (ws : List Octets) : Doing Nat :=
  withArguments "rev" 1 {} ws fun a =>
    eachSource "rev" 1 a fun _ o =>
      write ((rawLines o).flatMap fun l =>
        if l.getLast? = some '\n' then l.dropLast.reverse ++ ['\n'] else l.reverse)

/-- Copy the input to the output and to files. -/
def tee (ws : List Octets) : Doing Nat :=
  withArguments "tee" 1 { flags := "aip", long := [("append", 'a'), ("ignore-interrupts", 'i')] } ws
    fun a => do
      match ← readStream 0 with
      | .error _ => return 1
      | .ok o =>
        write o
        forAll a.operands fun name => do
          let p ← get
          match p.openForWriting name (a.has 'a') with
          | .error e => refuseTo "tee" (Octets.text name ++ ": " ++ wordingOf e) 1
          | .ok (key, q) =>
            match q.send key o with
            | .ok q =>
              set (q.forget p.nextChannel)
              return 0
            | .error e => throw e

/-! ### Fronts and backs -/

/-- A count given as `-N` in front. -/
def shortCount (ws : List Octets) : List Octets × Option Octets :=
  match ws with
  | ('-' :: d :: ds) :: rest =>
    let digits := (d :: ds).takeWhile Text.isDigit
    let letters := (d :: ds).drop digits.length
    if digits.isEmpty || !letters.all fun c => ['c', 'q', 'v', 'n'].contains c then (ws, none)
    else ((if letters.isEmpty then rest else ('-' :: letters ++ (if letters.getLast? = some 'c' ∨
      letters.getLast? = some 'n' then digits else [])) :: rest), some digits)
  | _ => (ws, none)

/-- The number that a count is, which may end in a letter for its scale. -/
def scaledCount (o : Octets) : Option Nat :=
  let o := o.dropWhile isSpaceOctet
  let digits := o.takeWhile Text.isDigit
  let scale : Option Nat := match String.ofList (o.drop digits.length) with
    | "" => some 1
    | "b" => some 512
    | "k" => some 1024
    | "K" => some 1024
    | "KiB" => some 1024
    | "kB" => some 1000
    | "KB" => some 1000
    | "M" => some (Nat.pow 1024 2)
    | "MB" => some (Nat.pow 1000 2)
    | "G" => some (Nat.pow 1024 3)
    | _ => none
  if digits.isEmpty then none else scale.map fun s => numberOf digits * s

/-- A count with the sign in front of it. -/
def signedCount (o : Octets) : Option (Option Char × Nat) :=
  match o.dropWhile isSpaceOctet with
  | '+' :: n => (scaledCount n).map fun n => (some '+', n)
  | '-' :: n => (scaledCount n).map fun n => (some '-', n)
  | n => (scaledCount n).map fun n => (none, n)

/-- The table of options of the programs for fronts and backs. -/
def frontOptions : OptionTable :=
  { flags := "qvz", valued := "nc"
    long := [("lines", 'n'), ("bytes", 'c'), ("quiet", 'q'), ("silent", 'q'), ("verbose", 'v'),
      ("zero-terminated", 'z')] }

/-- Write a part of every source, under headings if there are several. -/
def eachPart (program : String) (a : Arguments) (take : Octets → Octets → Doing Octets) :
    Doing Nat := do
  let headed := (a.operands.length > 1 && !a.has 'q') || a.has 'v'
  let mut first := true
  let mut status := 0
  for name in a.sources do
    match ← contentOf name with
    | .ok o =>
      let shown := if name = ['-'] then "standard input".toList else name
      if headed then
        write ((if first then [] else ['\n']) ++ "==> ".toList ++ shown ++ " <==\n".toList)
      first := false
      write (← take name o)
    | .error e =>
      let text := Octets.text name
      complain (if e = .system .isDirectory
        then program ++ ": error reading '" ++ text ++ "': " ++ wordingOf e
        else program ++ ": cannot open '" ++ text ++ "' for reading: " ++ wordingOf e)
      status := 1
  return status

/-- What a program for fronts or backs counts, and how much of it: lines unless said otherwise. -/
def countOf (program : String) (a : Arguments) (short : Option Octets) :
    Doing (Option (Bool × Option Char × Nat)) := do
  let octets := (a.lastOf ['n', 'c']) = some 'c'
  let given := if octets then a.value? 'c' else (a.value? 'n').or short
  let text := given.getD ['1', '0']
  match signedCount text with
  | some (sign, n) => return some (octets, sign, n)
  | none =>
    complain (program ++ ": invalid number of " ++ (if octets then "bytes" else "lines") ++ ": " ++
      quotedName text)
    return none

def head (ws : List Octets) : Doing Nat := do
  let (ws, short) := shortCount ws
  withArguments "head" 1 frontOptions ws fun a => do
    match ← countOf "head" a short with
    | none => return 1
    | some (octets, sign, n) =>
      let most (size : Nat) : Nat := if sign = some '-' then size - n else n
      eachPart "head" a fun name o => do
        let taken := if octets then o.take (most o.length)
          else
            let ls := rawLines o
            (ls.take (most ls.length)).flatten
        if name = ['-'] && (← inputIsFile) then leaveInput (o.drop taken.length)
        return taken

def tail (ws : List Octets) : Doing Nat := do
  let (ws, short) := match ws with
    | ('+' :: d :: ds) :: rest =>
      if (d :: ds).all Text.isDigit && rest.length < 2 then (rest, some ('+' :: d :: ds))
      else shortCount ws
    | ws => shortCount ws
  withArguments "tail" 1 { frontOptions with flags := "qvzfF" } ws fun a => do
    match ← countOf "tail" a short with
    | none => return 1
    | some (octets, sign, n) =>
      let cut {α : Type} (xs : List α) : List α :=
        xs.drop (if sign = some '+' then n - 1 else xs.length - n)
      eachPart "tail" a fun _ o =>
        return if octets then cut o else (cut (rawLines o)).flatten

/-! ### Counts -/

/-- The number of words of a text: the stretches without white space. -/
def wordCount (o : Octets) : Nat :=
  (o.foldl (fun s c => if isSpaceOctet c then (s.1, false) else (if s.2 then s.1 else s.1 + 1, true))
    (0, false)).1

/-- The columns that the longest line takes. -/
def widestLine (o : Octets) : Nat :=
  ((o.splitOn '\n').map fun l =>
    l.foldl (fun n c => if c = '\t' then n + 8 - n % 8 else n + 1) 0).foldl max 0

/-- How many lines, words, characters and octets a text has, and how wide it is. -/
def counts (o : Octets) : List (Char × Nat) :=
  [('l', o.count '\n'), ('w', wordCount o), ('m', o.length), ('c', o.length), ('L', widestLine o)]

/-- Count lines, words and octets. The columns are as wide as the sizes of the files need, and wider
if the input is none. -/
def wc (ws : List Octets) : Doing Nat :=
  withArguments "wc" 1
    { flags := "lwcmL"
      long := [("lines", 'l'), ("words", 'w'), ("bytes", 'c'), ("chars", 'm'),
        ("max-line-length", 'L')] } ws fun a => do
    let chosen (c : Char × Nat) : Bool :=
      if a.options.isEmpty then ['l', 'w', 'c'].contains c.1 else a.has c.1
    let columns := ((counts []).filter chosen).length
    let mut rows : List (Octets × List Nat) := []
    let mut status := 0
    let mut sizes := 0
    let mut wide := false
    for name in a.sources do
      if name = ['-'] then wide := wide || !(← inputIsFile)
      let p ← get
      sizes := sizes + (if name = ['-'] then 0
        else ((p.disk.size (p.fileOf name)).toOption.getD 0))
      match ← readFor "wc" name with
      | some o =>
        if name = ['-'] then sizes := sizes + o.length
        rows := rows ++ [(if a.operands.isEmpty then [] else name,
          ((counts o).filter chosen).map Prod.snd)]
      | none => status := 1
    let totals := (List.range columns).map fun i =>
      let column := rows.map fun r => r.2.getD i 0
      if i + 1 = columns && a.has 'L' then column.foldl max 0 else column.foldl (· + ·) 0
    let width := if columns = 1 ∧ a.sources.length = 1 then 1
      else max (if wide then 7 else 1) (naturalText sizes).length
    let all := if a.sources.length > 1 then rows ++ [("total".toList, totals)] else rows
    for r in all do
      let cells := r.2.map fun n => padded false ' ' width (naturalText n)
      write (List.intercalate [' '] (if r.1.isEmpty then cells else cells ++ [r.1]) ++ ['\n'])
    return status

/-! ### Numbers and widths -/

/-- Lines with numbers in front. -/
def numberLines (all : Bool) (width step : Nat) (separator : Octets) (style : Octets) :
    Nat → List Octets → List Octets
  | _, [] => []
  | n, l :: ls =>
    let counted := all || !(l.all (· = '\n'))
    let number := naturalText n
    let cell := if style = ['l', 'n'] then padded true ' ' width number
      else if style = ['r', 'z'] then padded false '0' width number
      else padded false ' ' width number
    let l := if l.getLast? = some '\n' then l else l ++ ['\n']
    (if counted then cell ++ separator ++ l
      else List.replicate (width + separator.length) ' ' ++ l) ::
      numberLines all width step separator style (if counted then n + step else n) ls

def nl (ws : List Octets) : Doing Nat :=
  withArguments "nl" 1
    { flags := "p", valued := "bwsnviflhd"
      long := [("body-numbering", 'b'), ("number-width", 'w'), ("number-separator", 's'),
        ("number-format", 'n'), ("starting-line-number", 'v'), ("line-increment", 'i')] } ws
    fun a => do
      let (o, status) ← allSources "nl" 1 a
      let number (c : Char) (d : Nat) : Nat := ((a.value? c).map numberOf).getD d
      write (numberLines (a.value? 'b' = some ['a']) (number 'w' 6) (number 'i' 1)
        ((a.value? 's').getD ['\t']) ((a.value? 'n').getD ['r', 'n']) (number 'v' 1)
        (rawLines o)).flatten
      return status

/-- A line cut into pieces of a width, if it may be after blanks; the number bounds the pieces. -/
def foldLine (width : Nat) (blanks : Bool) : Nat → Octets → Octets
  | 0, l => l
  | n + 1, l =>
    if l.length ≤ width then l
    else
      let front := l.take width
      let kept := (front.reverse.dropWhile fun c => !isBlankOctet c).length
      let size := if blanks && kept > 0 then kept else width
      l.take size ++ '\n' :: foldLine width blanks n (l.drop size)
where
  isBlankOctet (c : Char) : Bool := c = ' ' || c = '\t'

def fold (ws : List Octets) : Doing Nat :=
  withArguments "fold" 1
    { flags := "sb", valued := "w", long := [("width", 'w'), ("spaces", 's'), ("bytes", 'b')] } ws
    fun a => do
      let width := max 1 (((a.value? 'w').map numberOf).getD 80)
      eachSource "fold" 1 a fun _ o =>
        write ((rawLines o).flatMap fun l =>
          let ended := l.getLast? = some '\n'
          let text := if ended then l.dropLast else l
          foldLine width (a.has 's') (text.length + 1) text ++ (if ended then ['\n'] else []))

/-! ### Columns -/

/-- The ranges of a list such as `1,3-5,-7,9-`. -/
def readSelection (list : Octets) : Option (List (Nat × Option Nat)) :=
  ((list.map fun c => if c = ' ' then ',' else c).splitOn ',').mapM fun item =>
    match item.splitOn '-' with
    | [a] => if !a.isEmpty && a.all Text.isDigit then some (numberOf a, some (numberOf a)) else none
    | [a, b] =>
      if (a ++ b).isEmpty || !(a ++ b).all Text.isDigit then none
      else
        let first := if a.isEmpty then 1 else numberOf a
        let last := if b.isEmpty then none else some (numberOf b)
        if last.any (· < first) then none else some (first, last)
    | _ => none

def selects (ranges : List (Nat × Option Nat)) (n : Nat) : Bool :=
  ranges.any fun r => r.1 ≤ n && r.2.all (n ≤ ·)

/-- The items whose numbers, from 1 on, are selected. -/
def selected {α : Type} (chosen : Nat → Bool) (xs : List α) : List α :=
  ((xs.zipIdx 1).filter fun x => chosen x.2).map Prod.fst

def cutLine (a : Arguments) (chosen : Nat → Bool) (line : Octets) : Option Octets :=
  let glue := a.value? 'O'
  if a.has 'f' then
    let d := ((a.value? 'd').bind List.head?).getD '\t'
    if !line.contains d then if a.has 's' then none else some line
    else some (List.intercalate (glue.getD [d]) (selected chosen (line.splitOn d)))
  else some (selected chosen line)

def cut (ws : List Octets) : Doing Nat :=
  withArguments "cut" 1
    { flags := "snzC", valued := "fdcbO"
      long := [("fields", 'f'), ("delimiter", 'd'), ("characters", 'c'), ("bytes", 'b'),
        ("only-delimited", 's'), ("complement", 'C'), ("output-delimiter", 'O')] } ws fun a => do
    let refuse (why : String) : Doing Nat := refuseTo "cut" why 1
    match ((a.value? 'f').or (a.value? 'c')).or (a.value? 'b') with
    | none => refuse "you must specify a list of bytes, characters, or fields"
    | some list =>
      match readSelection list with
      | none =>
        refuse ((if a.has 'f' then "invalid field value " else "invalid byte/character position ") ++
          quotedName list)
      | some ranges =>
        if ranges.any fun r => r.1 = 0 ∨ r.2 = some 0 then refuse "fields are numbered from 1"
        else if (a.value? 'd').any fun d => d.length > 1 then
          refuse "the delimiter must be a single character"
        else if !a.has 'f' && (a.has 'd' || a.has 's') then
          refuse "an input delimiter may be specified only when operating on fields"
        else
          let chosen (n : Nat) : Bool := selects ranges n != a.has 'C'
          eachSource "cut" 1 a fun _ o =>
            write (Octets.unlines ((Octets.lines o).filterMap (cutLine a chosen)))

/-- The delimiters of a list with escapes; an empty one is none at all. -/
def readDelimiters : Octets → List Octets
  | '\\' :: 'n' :: cs => ['\n'] :: readDelimiters cs
  | '\\' :: 't' :: cs => ['\t'] :: readDelimiters cs
  | '\\' :: '0' :: cs => [] :: readDelimiters cs
  | '\\' :: c :: cs => [c] :: readDelimiters cs
  | c :: cs => [c] :: readDelimiters cs
  | [] => []

/-- Put delimiters in turn between items. -/
def glueInTurn (ds : List Octets) : Nat → List Octets → Octets
  | _, [] => []
  | _, [x] => x
  | n, x :: y :: xs => x ++ ds.getD (n % ds.length) [] ++ glueInTurn ds (n + 1) (y :: xs)

/-- The lines of several columns side by side, as long as one of them has any. -/
def sideBySide (ds : List Octets) : Nat → List (List Octets) → List Octets
  | 0, _ => []
  | n + 1, columns =>
    if columns.all List.isEmpty then []
    else
      glueInTurn ds 0 (columns.map fun c => c.headD []) :: sideBySide ds n (columns.map (·.drop 1))

/-- The lines of the columns that read the same text by turns. -/
def dealLines (k : Nat) (i : Nat) (ls : List Octets) : List Octets :=
  ((ls.zipIdx).filter fun l => l.2 % k = i).map Prod.fst

def paste (ws : List Octets) : Doing Nat :=
  withArguments "paste" 1
    { flags := "sz", valued := "d", long := [("delimiters", 'd'), ("serial", 's')] } ws fun a => do
    let ds := (a.value? 'd').map readDelimiters |>.getD [['\t']]
    let ds := if ds.isEmpty then [[]] else ds
    let hyphens := a.sources.count ['-']
    let mut columns : List (List Octets) := []
    let mut input : Option (List Octets) := none
    let mut dealt := 0
    for name in a.sources do
      if name = ['-'] && !a.has 's' then
        let ls ← (match input with
          | some ls => return ls
          | none => do return ((← readStream 0).toOption.map Octets.lines).getD [])
        input := some ls
        columns := columns ++ [dealLines hyphens dealt ls]
        dealt := dealt + 1
      else
        match ← readFor "paste" name with
        | some o => columns := columns ++ [Octets.lines o]
        | none => return 1
    if a.has 's' then write (Octets.unlines (columns.map (glueInTurn ds 0)))
    else
      let longest := (columns.map List.length).foldl max 0
      write (Octets.unlines (sideBySide ds (longest + 1) columns))
    return 0

end Whittle.Shell
