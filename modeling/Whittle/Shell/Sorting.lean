import Whittle.Shell.Filters

/-!
# Sorting lines, and comparing sorted lines

Lines are ordered by keys, each a stretch of the line and a way to compare, and where all keys are
alike by their octets. What is compared with a sorted text is gone through line by line beside it.
-/

namespace Whittle.Shell

open Doing

/-! ### Ways to compare -/

/-- A decimal number that a text starts with, as a whole number and the places it is to be shifted. -/
def decimalStart (o : Octets) : Int × Nat :=
  let o := o.dropWhile isBlank
  let (negative, o) := match o with
    | '-' :: o => (true, o)
    | o => (false, o)
  let whole := o.takeWhile Text.isDigit
  let fraction := match o.drop whole.length with
    | '.' :: o => o.takeWhile Text.isDigit
    | _ => []
  let n : Int := numberOf (whole ++ fraction)
  (if negative then -n else n, fraction.length)
where
  isBlank (c : Char) : Bool := c = ' ' || c = '\t'

def compareDecimals (a b : Octets) : Ordering :=
  let (m, i) := decimalStart a
  let (n, j) := decimalStart b
  compare (m * Nat.pow 10 j) (n * Nat.pow 10 i)

/-- How far a letter behind a number scales it. -/
def scaleRank (o : Octets) : Nat :=
  let o := o.dropWhile isSpaceOctet
  let o := if o.head? = some '-' then o.drop 1 else o
  let behind := (o.dropWhile Text.isDigit)
  let behind := match behind with
    | '.' :: rest => rest.dropWhile Text.isDigit
    | rest => rest
  match behind.head? with
  | some 'k' => 1
  | some c => ((("KMGTPEZY".toList).zipIdx.find? fun e => e.1 = c).map fun e => e.2 + 1).getD 0
  | none => 0

def compareScaled (a b : Octets) : Ordering :=
  let sign (o : Octets) : Int := let n := (decimalStart o).1; if n < 0 then -1 else if n = 0 then 0 else 1
  (compare (sign a) (sign b)).then
    (let by_ := compare (scaleRank a) (scaleRank b)
     if sign a < 0 then by_.swap else by_) |>.then (compareDecimals a b)

/-- What a text is as a floating number: nothing, no number, or its value. -/
def generalRank (o : Octets) : Nat × Float :=
  match splitDecimal o with
  | none => (0, 0)
  | some (.nan, _) => (1, 0)
  | some (x, _) => (2, x.toFloat)

def compareGeneral (a b : Octets) : Ordering :=
  let (i, x) := generalRank a
  let (j, y) := generalRank b
  (compare i j).then (if x < y then .lt else if y < x then .gt else .eq)

def months : List String :=
  ["JAN", "FEB", "MAR", "APR", "MAY", "JUN", "JUL", "AUG", "SEP", "OCT", "NOV", "DEC"]

def monthRank (o : Octets) : Nat :=
  let name := String.ofList (((o.dropWhile isSpaceOctet).take 3).map Char.toUpper)
  ((months.zipIdx.find? fun m => m.1 = name).map fun m => m.2 + 1).getD 0

/-- Where an octet of a version stands: a tilde first, then the end, letters, and all others. -/
def versionRank : Option Char → Nat
  | none => 1
  | some '~' => 0
  | some c => if Text.isDigit c then 1 else if c.isAlpha then c.toNat + 2 else c.toNat + 300

/-- Compare two versions: numbers in them by their values, what stands between octet by octet. -/
def compareVersions : Nat → Octets → Octets → Ordering
  | 0, _, _ => .eq
  | n + 1, a, b =>
    let isWord (o : Octets) : Bool := o.head?.any fun c => !Text.isDigit c
    if isWord a || isWord b then
      (compare (versionRank a.head?) (versionRank b.head?)).then
        (compareVersions n (if isWord a then a.drop 1 else a) (if isWord b then b.drop 1 else b))
    else if a.isEmpty && b.isEmpty then .eq
    else
      let x := a.takeWhile Text.isDigit
      let y := b.takeWhile Text.isDigit
      (compare (numberOf x) (numberOf y)).then
        (compareVersions n (a.drop x.length) (b.drop y.length))

/-- Compare two keys in the way that letters say. -/
def compareKeys (flags : List Char) (a b : Octets) : Ordering :=
  let kept (o : Octets) : Octets :=
    let o := if flags.contains 'd' then o.filter fun c => c.isAlphanum || c = ' ' || c = '\t'
      else if flags.contains 'i' then o.filter fun c => ' ' ≤ c && c ≤ '~' else o
    if flags.contains 'f' then o.map Char.toUpper else o
  let o := if flags.contains 'n' then compareDecimals a b
    else if flags.contains 'h' then compareScaled a b
    else if flags.contains 'g' then compareGeneral a b
    else if flags.contains 'M' then compare (monthRank a) (monthRank b)
    else if flags.contains 'V' then compareVersions (a.length + b.length + 2) a b
    else compareLex (kept a) (kept b)
  if flags.contains 'r' then o.swap else o
where
  compareLex (a b : Octets) : Ordering := if a < b then .lt else if b < a then .gt else .eq

/-! ### Keys -/

/-- A stretch of a line from one field and octet of it to another. -/
structure SortKey where
  startField : Nat := 0
  startChar : Nat := 0
  startBlanks : Bool := false
  stopField : Option Nat := none
  /-- No octet means the end of the field. -/
  stopChar : Nat := 0
  stopBlanks : Bool := false
  flags : List Char := []
  deriving Repr

/-- How far into a line a number of fields reaches, the separator behind the last of them included
if `past` says so. -/
def fieldEnd (tab : Option Char) (past : Bool) : Nat → Octets → Nat
  | 0, _ => 0
  | n + 1, o =>
    match tab with
    | some t =>
      let size := (o.takeWhile (· ≠ t)).length
      if size ≥ o.length then o.length
      else if n = 0 && !past then size
      else size + 1 + fieldEnd tab past n (o.drop (size + 1))
    | none =>
      let blanks := (o.takeWhile isBlank).length
      let word := ((o.drop blanks).takeWhile fun c => !isBlank c).length
      blanks + word + fieldEnd tab past n (o.drop (blanks + word))
where
  isBlank (c : Char) : Bool := c = ' ' || c = '\t'

namespace SortKey

def blanksAt (o : Octets) (i : Nat) : Nat :=
  ((o.drop i).takeWhile fun c => c = ' ' || c = '\t').length

/-- The stretch of a line that a key is. -/
def text (k : SortKey) (tab : Option Char) (o : Octets) : Octets :=
  let first := fieldEnd tab true k.startField o
  let first := if k.startBlanks then first + blanksAt o first else first
  let first := min o.length (first + k.startChar)
  let last := match k.stopField with
    | none => o.length
    | some f =>
      if k.stopChar = 0 then fieldEnd tab false (f + 1) o
      else
        let i := fieldEnd tab true f o
        let i := if k.stopBlanks then i + blanksAt o i else i
        min o.length (i + k.stopChar)
  (o.take last).drop first

/-- A position in a line: a field, an octet of it, and the letters behind. -/
def readPosition (o : Octets) : Option (Nat × Option Nat × Octets) :=
  let field := o.takeWhile Text.isDigit
  let rest := o.drop field.length
  if field.isEmpty then none
  else
    match rest with
    | '.' :: rest =>
      let c := rest.takeWhile Text.isDigit
      if c.isEmpty then none else some (numberOf field, some (numberOf c), rest.drop c.length)
    | _ => some (numberOf field, none, rest)

def isFlag (c : Char) : Bool := "bdfgiMhnRrV".toList.contains c

/-- Read a key such as `2,3.1nr`. -/
def read (o : Octets) : Except String SortKey :=
  let shown := quotedName o
  match readPosition o with
  | none => .error ("invalid number at field start: invalid count at start of " ++ shown)
  | some (field, char, rest) =>
    let front := rest.takeWhile isFlag
    let behind := rest.drop front.length
    if field = 0 then .error ("field number is zero: invalid field specification " ++ shown)
    else if char = some 0 then .error ("character offset is zero: invalid field specification " ++ shown)
    else
      let k : SortKey :=
        { startField := field - 1, startChar := (char.getD 1) - 1
          startBlanks := front.contains 'b', flags := front.filter (· ≠ 'b') }
      match behind with
      | [] => .ok k
      | ',' :: more =>
        match readPosition more with
        | none => .error ("invalid number after ',': invalid count at start of " ++ quotedName more)
        | some (field, char, rest) =>
          if field = 0 then .error ("field number is zero: invalid field specification " ++ shown)
          else if !rest.all isFlag then
            .error ("stray character in field spec: invalid field specification " ++ shown)
          else
            .ok { k with
              stopField := some (field - 1), stopChar := char.getD 0
              stopBlanks := rest.contains 'b', flags := k.flags ++ rest.filter (· ≠ 'b') }
      | _ => .error ("stray character in field spec: invalid field specification " ++ shown)

end SortKey

/-- How lines are ordered. -/
structure LineOrder where
  keys : List SortKey
  tab : Option Char
  /-- Whether lines with like keys are alike. -/
  keysOnly : Bool
  reversed : Bool

def LineOrder.compareKeys (s : LineOrder) (a b : Octets) : Ordering :=
  s.keys.foldl (fun o k => o.then (Shell.compareKeys k.flags (k.text s.tab a) (k.text s.tab b))) .eq

def LineOrder.compare (s : LineOrder) (a b : Octets) : Ordering :=
  (s.compareKeys a b).then
    (if s.keysOnly then .eq
     else
       let o : Ordering := if a < b then .lt else if b < a then .gt else .eq
       if s.reversed then o.swap else o)

/-! ### The programs -/

/-- The first of every run of lines that are alike. -/
def firstOfRuns (alike : Octets → Octets → Bool) : List Octets → List Octets
  | a :: b :: ls =>
    if alike a b then firstOfRuns alike (a :: ls) else a :: firstOfRuns alike (b :: ls)
  | ls => ls

def sort (ws : List Octets) : Doing Nat :=
  withArguments "sort" 2
    { flags := "bdfgiMhnRrVcCmsuz", valued := "kotST"
      long := [("numeric-sort", 'n'), ("reverse", 'r'), ("unique", 'u'), ("key", 'k'),
        ("field-separator", 't'), ("output", 'o'), ("stable", 's'), ("ignore-case", 'f'),
        ("ignore-leading-blanks", 'b'), ("dictionary-order", 'd'), ("general-numeric-sort", 'g'),
        ("human-numeric-sort", 'h'), ("month-sort", 'M'), ("version-sort", 'V'), ("check", 'c'),
        ("merge", 'm'), ("zero-terminated", 'z'), ("ignore-nonprinting", 'i')] } ws fun a => do
    let flags := "dfgiMhnRrV".toList.filter a.has
    let tab : Except String (Option Char) := match a.value? 't' with
      | none => .ok none
      | some [c] => .ok (some c)
      | some ['\\', '0'] => .ok (some '\x00')
      | some [] => .error "empty tab"
      | some t => .error ("multi-character tab " ++ quotedName t)
    match tab, (a.values 'k').mapM SortKey.read with
    | .error e, _ => refuseTo "sort" e 2
    | _, .error e => refuseTo "sort" e 2
    | .ok tab, .ok keys =>
      let settle (k : SortKey) : SortKey :=
        if k.flags.isEmpty && !k.startBlanks && !k.stopBlanks then
          { k with flags := flags, startBlanks := a.has 'b', stopBlanks := a.has 'b' }
        else k
      let keys := if keys.isEmpty then
          (if flags.isEmpty && !a.has 'b' then [] else [{ flags := flags, startBlanks := a.has 'b' }])
        else keys.map settle
      let order : LineOrder := ⟨keys, tab, a.has 'u' || a.has 's', a.has 'r'⟩
      let order := if keys.isEmpty && a.has 'u' then { order with keysOnly := false } else order
      let stop := if a.has 'z' then '\x00' else '\n'
      let mut all : List Octets := []
      for name in a.sources do
        match ← contentOf name with
        | .ok o =>
          let parts := o.splitOn stop
          all := all ++ (if parts.getLast? = some [] then parts.dropLast else parts)
        | .error e =>
          return (← refuseTo "sort" ("cannot read: " ++ Octets.text name ++ ": " ++ wordingOf e) 2)
      if a.has 'c' || a.has 'C' then
        let pairs := (all.zip (all.drop 1)).zipIdx
        match pairs.find? fun p =>
            let o := order.compare p.1.1 p.1.2
            o = .gt || (a.has 'u' && o = .eq) with
        | none => return 0
        | some p =>
          if !a.has 'C' then
            complain ("sort: " ++ Octets.text (a.operands.headD ['-']) ++ ":" ++
              Text.natText (p.2 + 2) ++ ": disorder: " ++ Octets.text p.1.2)
          return 1
      else
        let sorted := all.mergeSort fun x y => order.compare x y ≠ .gt
        let kept := if a.has 'u' then firstOfRuns (fun x y => order.compare x y = .eq) sorted
          else sorted
        let text := kept.flatMap (· ++ [stop])
        match a.value? 'o' with
        | some name => writeFile "sort" name text
        | none =>
          write text
          return 0

/-- A line without some fields and octets in front. -/
def withoutFront (fields chars : Nat) (o : Octets) : Octets :=
  (o.drop (fieldEnd none true fields o)).drop chars

/-- The runs of lines that are alike. -/
def runsOf (alike : Octets → Octets → Bool) : List Octets → List (List Octets)
  | [] => []
  | l :: ls =>
    match runsOf alike ls with
    | (m :: ms) :: runs => if alike l m then (l :: m :: ms) :: runs else [l] :: (m :: ms) :: runs
    | runs => [l] :: runs

def uniq (ws : List Octets) : Doing Nat :=
  withArguments "uniq" 1
    { flags := "cduiDz", valued := "fsw"
      long := [("count", 'c'), ("repeated", 'd'), ("unique", 'u'), ("ignore-case", 'i'),
        ("all-repeated", 'D'), ("skip-fields", 'f'), ("skip-chars", 's'), ("check-chars", 'w')] } ws
    fun a => do
      match a.operands.drop 2 with
      | extra :: _ =>
        complain ("uniq: extra operand " ++ quotedName extra)
        return 1
      | [] =>
        match ← readFor "uniq" (a.operands.headD ['-']) with
        | none => return 1
        | some o =>
          let number (c : Char) : Nat := ((a.value? c).map numberOf).getD 0
          let key (l : Octets) : Octets :=
            let l := withoutFront (number 'f') (number 's') l
            let l := match a.value? 'w' with
              | some n => l.take (numberOf n)
              | none => l
            if a.has 'i' then l.map Char.toLower else l
          let runs := runsOf (fun x y => key x = key y) (Octets.lines o)
          let chosen := runs.filter fun r =>
            if a.has 'd' || a.has 'D' then r.length > 1 && !a.has 'u'
            else !a.has 'u' || r.length = 1
          let shown (r : List Octets) : List Octets :=
            if a.has 'D' then r
            else if a.has 'c' then
              [padded false ' ' 7 (naturalText r.length) ++ ' ' :: r.headD []]
            else [r.headD []]
          let text := Octets.unlines (chosen.flatMap shown)
          match a.operands[1]? with
          | some name => if name = ['-'] then write text; return 0 else writeFile "uniq" name text
          | none =>
            write text
            return 0

/-- The lines of two sorted texts, each with the number of the column it belongs to: those of the
first alone, those of the second alone, and those of both. -/
def mergeColumns : Nat → List Octets → List Octets → List (Nat × Octets)
  | 0, _, _ => []
  | _ + 1, [], ys => ys.map fun y => (2, y)
  | _ + 1, xs, [] => xs.map fun x => (1, x)
  | n + 1, x :: xs, y :: ys =>
    if x = y then (3, x) :: mergeColumns n xs ys
    else if x < y then (1, x) :: mergeColumns n xs (y :: ys)
    else (2, y) :: mergeColumns n (x :: xs) ys

def isAscending (ls : List Octets) : Bool := (ls.zip (ls.drop 1)).all fun p => Octets.isUpTo p.1 p.2

def comm (ws : List Octets) : Doing Nat :=
  withArguments "comm" 1
    { flags := "123z", valued := "O", long := [("output-delimiter", 'O')] } ws fun a => do
    match a.operands with
    | [x, y] =>
      match ← readFor "comm" x, ← readFor "comm" y with
      | some x, some y =>
        let xs := Octets.lines x
        let ys := Octets.lines y
        let glue := (a.value? 'O').getD ['\t']
        let hidden (n : Nat) : Bool := a.has (Char.ofNat ('0'.toNat + n))
        let front (n : Nat) : Octets :=
          (((List.range n).map (· + 1)).filter fun i => i < n && !hidden i).flatMap fun _ => glue
        write ((mergeColumns (xs.length + ys.length + 1) xs ys).flatMap fun e =>
          if hidden e.1 then [] else front e.1 ++ e.2 ++ ['\n'])
        let mut status := 0
        for (ls, name) in [(xs, "1"), (ys, "2")] do
          if !isAscending ls then
            complain ("comm: file " ++ name ++ " is not in sorted order")
            status := 1
        if status > 0 then complain "comm: input is not in sorted order"
        return status
      | _, _ => return 1
    | [] =>
      complain "comm: missing operand"
      return 1
    | [x] =>
      complain ("comm: missing operand after " ++ quotedName x)
      return 1
    | _ :: _ :: z :: _ =>
      complain ("comm: extra operand " ++ quotedName z)
      return 1

/-- The fields of a line to be joined. -/
def joinFields (tab : Option Char) (l : Octets) : List Octets :=
  match tab with
  | some t => l.splitOn t
  | none => ((l.map fun c => if c = '\t' then ' ' else c).splitOn ' ').filter (· ≠ [])

/-- A row of a join: what both lines share, and the lines. -/
structure JoinedRow where
  key : Octets
  first : Option (List Octets)
  second : Option (List Octets)

def joinRows (i j : Nat) (xs ys : List (List Octets)) : List JoinedRow :=
  let keyOf (n : Nat) (fs : List Octets) : Octets := fs.getD n []
  let both := xs.flatMap fun x =>
    match ys.filter fun y => keyOf j y = keyOf i x with
    | [] => [⟨keyOf i x, some x, none⟩]
    | found => found.map fun y => ⟨keyOf i x, some x, some y⟩
  let lone := (ys.filter fun y => !xs.any fun x => keyOf i x = keyOf j y).map fun y =>
    (⟨keyOf j y, none, some y⟩ : JoinedRow)
  (both ++ lone).mergeSort fun a b => Octets.isUpTo a.key b.key

def join (ws : List Octets) : Doing Nat :=
  withArguments "join" 1 { flags := "iz", valued := "12jtaveo" } ws fun a => do
    match a.operands with
    | [x, y] =>
      match ← readFor "join" x, ← readFor "join" y with
      | some x, some y =>
        let tab := (a.value? 't').bind List.head?
        let glue := [tab.getD ' ']
        let field (c : Char) : Nat := (((a.value? c).or (a.value? 'j')).map numberOf).getD 1 - 1
        let xs := (Octets.lines x).map (joinFields tab)
        let ys := (Octets.lines y).map (joinFields tab)
        let lone (side : Char) : Bool :=
          (a.values 'a' ++ a.values 'v').any fun w => w = [side]
        let rows := (joinRows (field '1') (field '2') xs ys).filter fun r =>
          match r.first, r.second with
          | some _, some _ => !a.has 'v'
          | some _, none => lone '1'
          | _, _ => lone '2'
        let filler := (a.value? 'e').getD []
        let others (n : Nat) (fs : Option (List Octets)) : List Octets :=
          (fs.map fun fs => fs.eraseIdx n).getD []
        let pick (r : JoinedRow) (spec : Octets) : Octets :=
          let o : Octets := match spec with
            | ['0'] => r.key
            | '1' :: '.' :: n => ((r.first.getD []).getD (numberOf n - 1) [])
            | '2' :: '.' :: n => ((r.second.getD []).getD (numberOf n - 1) [])
            | _ => []
          if o.isEmpty then filler else o
        let specs := ((a.value? 'o').map fun o =>
          ((o.map fun c => if c = ' ' then ',' else c).splitOn ',')).getD []
        write (Octets.unlines (rows.map fun r =>
          List.intercalate glue (if specs.isEmpty then
            r.key :: others (field '1') r.first ++ others (field '2') r.second
          else specs.map (pick r))))
        return 0
      | _, _ => return 1
    | _ =>
      complain "join: missing operand"
      return 1

/-! ### Sorting by relations -/

/-- A word that others may have to come before, and how many of them are left. -/
structure Related where
  word : Octets
  waits : Nat := 0
  /-- The words that come after it, the last one named first. -/
  after_ : List Octets := []

/-- Add that one word comes before another one. -/
def relate (items : List Related) (pair : Octets × Octets) : List Related :=
  let known (items : List Related) (w : Octets) : List Related :=
    if items.any fun i => i.word = w then items else items ++ [{ word := w }]
  let items := known (known items pair.1) pair.2
  if pair.1 = pair.2 then items
  else items.map fun i =>
    let i := if i.word = pair.1 then { i with after_ := pair.2 :: i.after_ } else i
    if i.word = pair.2 then { i with waits := i.waits + 1 } else i

/-- The words in an order that keeps to the relations, as far as there is one, and those left over;
`queue` has what no word has to come before. The number bounds the steps. -/
def ordered (items : List Related) : Nat → List Octets → List Octets × List Related
  | 0, _ => ([], items)
  | n + 1, queue =>
    match queue with
    | [] => ([], items)
    | w :: queue =>
      let after_ := ((items.find? fun i => i.word = w).map Related.after_).getD []
      let step (s : List Related × List Octets) (x : Octets) : List Related × List Octets :=
        let items := s.1.map fun i => if i.word = x then { i with waits := i.waits - 1 } else i
        let free := items.any fun i => i.word = x && i.waits = 0
        (items, if free then s.2 ++ [x] else s.2)
      let s := after_.foldl step (items.filter fun i => i.word ≠ w, queue)
      let r := ordered s.1 n s.2
      (w :: r.1, r.2)

/-- The pairs of words. -/
def pairsOf : List Octets → List (Octets × Octets)
  | a :: b :: ws => (a, b) :: pairsOf ws
  | _ => []

def tsort (ws : List Octets) : Doing Nat := do
  let name := ws.headD ['-']
  match ← contentOf name with
  | .error e => refuseTo "tsort" (Octets.text name ++ ": " ++ wordingOf e) 1
  | .ok o =>
    let words := (o.splitOnP isSpaceOctet).filter (· ≠ [])
    if words.length % 2 = 1 then
      refuseTo "tsort" (Octets.text name ++ ": input contains an odd number of tokens") 1
    else
      let items := ((pairsOf words).foldl relate []).mergeSort fun a b => Octets.isUpTo a.word b.word
      let free := (items.filter fun i => i.waits = 0).map Related.word
      let (sorted, left) := ordered items (items.length + 1) free
      write (Octets.unlines sorted)
      if left.isEmpty then return 0
      else
        complain ("tsort: " ++ Octets.text name ++ ": input contains a loop:")
        for i in left do
          complain ("tsort: " ++ Octets.text i.word)
        write (Octets.unlines (left.map Related.word))
        return 1

end Whittle.Shell
