import Whittle.Shell.Filters

/-!
# Octets as numbers and blocks

The octets of a file are shown as numbers, written with few letters, cut into files, or copied in
blocks.
-/

namespace Whittle.Shell

open Doing

/-! ### Dumps -/

/-- How octets are shown: how many make a number, and how wide it is. -/
structure DumpFormat where
  size : Nat
  width : Nat
  show_ : Nat → Octets

def escapedOctet (n : Nat) : Octets :=
  match n with
  | 0 => ['\\', '0']
  | 7 => ['\\', 'a']
  | 8 => ['\\', 'b']
  | 9 => ['\\', 't']
  | 10 => ['\\', 'n']
  | 11 => ['\\', 'v']
  | 12 => ['\\', 'f']
  | 13 => ['\\', 'r']
  | n => if n ≥ 32 ∧ n < 127 then [Char.ofNat n] else padded false '0' 3 (Nat.toDigits 8 n)

namespace DumpFormat

def octal (size : Nat) : DumpFormat :=
  let w := (8 * size + 2) / 3
  ⟨size, w, fun n => padded false '0' w (Nat.toDigits 8 n)⟩

def hex (size : Nat) : DumpFormat :=
  ⟨size, 2 * size, fun n => padded false '0' (2 * size) (Nat.toDigits 16 n)⟩

def unsigned (size : Nat) : DumpFormat :=
  let w := (naturalText (Nat.pow 256 size - 1)).length
  ⟨size, w, naturalText⟩

def signed (size : Nat) : DumpFormat :=
  let w := (naturalText (Nat.pow 256 size / 2)).length + 1
  ⟨size, w, fun n => integerText (if n ≥ Nat.pow 256 size / 2 then (n : Int) - Nat.pow 256 size else n)⟩

def chars : DumpFormat := ⟨1, 3, escapedOctet⟩

/-- The format of a type such as `x1` or `c`. -/
def ofType (o : Octets) : Option DumpFormat :=
  match o with
  | ['c'] => some chars
  | k :: ds =>
    let size := match ds with
      | ['C'] => 1
      | ['S'] => 2
      | ['I'] => 4
      | ['L'] => 8
      | [] => 4
      | ds => numberOf ds
    if !([1, 2, 4, 8].contains size) then none
    else
      match k with
      | 'x' => some (hex size)
      | 'o' => some (octal size)
      | 'u' => some (unsigned size)
      | 'd' => some (signed size)
      | _ => none
  | [] => none

/-- The numbers that octets are, the lowest octet first. -/
def numbers (f : DumpFormat) (o : Octets) : List Nat :=
  let rec go : Nat → Octets → List Nat
    | 0, _ => []
    | n + 1, o =>
      if o.isEmpty then []
      else ((o.take f.size).foldr (fun c m => c.toNat + 256 * m) 0) :: go n (o.drop f.size)
  go (o.length + 1) o

def line (f : DumpFormat) (o : Octets) : Octets :=
  (f.numbers o).flatMap fun n => ' ' :: padded false ' ' f.width (f.show_ n)

end DumpFormat

/-- The lines of a dump: sixteen octets each, and a star for lines that repeat the one before. -/
def dumpLines (formats : List DumpFormat) (address : Nat → Octets) (all : Bool) :
    Nat → Nat → Option Octets → Bool → Octets → List Octets
  | 0, _, _, _, _ => []
  | n + 1, at_, last, starred, o =>
    if o.isEmpty then (if (address at_).isEmpty then [] else [address at_])
    else
      let piece := o.take 16
      let rest := o.drop 16
      if !all && last = some piece && !rest.isEmpty then
        (if starred then [] else [['*']]) ++
          dumpLines formats address all n (at_ + 16) last true rest
      else
        let blank := List.replicate (address at_).length ' '
        (formats.zipIdx.map fun f =>
          (if f.2 = 0 then address at_ else blank) ++ f.1.line piece) ++
          dumpLines formats address all n (at_ + piece.length) (some piece) false rest

def od (ws : List Octets) : Doing Nat :=
  withArguments "od" 1
    { flags := "bcdxosv", valued := "AtNjw"
      long := [("address-radix", 'A'), ("format", 't'), ("read-bytes", 'N'), ("skip-bytes", 'j'),
        ("output-duplicates", 'v')] } ws fun a => do
    let (o, status) ← allSources "od" 1 a
    let skip := ((a.value? 'j').bind scaledCount).getD 0
    let o := o.drop skip
    let o := match (a.value? 'N').bind scaledCount with
      | some n => o.take n
      | none => o
    let chosen := a.options.filterMap fun e =>
      match e.1 with
      | 'b' => some (DumpFormat.octal 1)
      | 'c' => some DumpFormat.chars
      | 'd' => some (DumpFormat.unsigned 2)
      | 'x' => some (DumpFormat.hex 2)
      | 'o' => some (DumpFormat.octal 2)
      | 's' => some (DumpFormat.signed 2)
      | 't' => DumpFormat.ofType e.2
      | _ => none
    let formats := if chosen.isEmpty then [DumpFormat.octal 2] else chosen
    let address (n : Nat) : Octets := match a.value? 'A' with
      | some ['n'] => []
      | some ['d'] => padded false '0' 7 (naturalText n)
      | some ['x'] => padded false '0' 6 (Nat.toDigits 16 n)
      | _ => padded false '0' 7 (Nat.toDigits 8 n)
    write (Octets.unlines (dumpLines formats address (a.has 'v') (o.length + 2) skip none false o))
    return status

/-! ### Sixty-four letters -/

def letters64 : Array Char :=
  ("ABCDEFGHIJKLMNOPQRSTUVWXYZabcdefghijklmnopqrstuvwxyz0123456789+/".toList).toArray

def encode64 : Octets → Octets
  | a :: b :: c :: rest =>
    let n := a.toNat * 65536 + b.toNat * 256 + c.toNat
    [n / 262144, n / 4096 % 64, n / 64 % 64, n % 64].map (fun i => letters64[i]?.getD '=') ++
      encode64 rest
  | [a, b] =>
    let n := a.toNat * 65536 + b.toNat * 256
    [n / 262144, n / 4096 % 64, n / 64 % 64].map (fun i => letters64[i]?.getD '=') ++ ['=']
  | [a] =>
    let n := a.toNat * 65536
    [n / 262144, n / 4096 % 64].map (fun i => letters64[i]?.getD '=') ++ ['=', '=']
  | [] => []

def decode64 : List Nat → Octets
  | a :: b :: c :: d :: rest =>
    let n := a * 262144 + b * 4096 + c * 64 + d
    octet (n / 65536) ++ octet (n / 256) ++ octet n ++ decode64 rest
  | [a, b, c] =>
    let n := a * 262144 + b * 4096 + c * 64
    octet (n / 65536) ++ octet (n / 256)
  | [a, b] => octet ((a * 262144 + b * 4096) / 65536)
  | _ => []

def base64 (ws : List Octets) : Doing Nat :=
  withArguments "base64" 1
    { flags := "di", valued := "w", long := [("decode", 'd'), ("wrap", 'w')] } ws fun a => do
    match ← readFor "base64" (a.operands.headD ['-']) with
    | none => return 1
    | some o =>
      if a.has 'd' then
        let kept := o.filter fun c => c ≠ '\n'
        let body := kept.takeWhile (· ≠ '=')
        let values := body.filterMap fun c => letters64.idxOf? c
        write (decode64 values)
        if values.length < body.length || values.length % 4 = 1 then
          refuseTo "base64" "invalid input" 1
        else return 0
      else
        let width := ((a.value? 'w').map numberOf).getD 76
        let text := encode64 o
        if width = 0 then write text
        else if !text.isEmpty then write (foldLine width false (text.length + 1) text ++ ['\n'])
        return 0

/-- Thirty-two letters, each for five bits. -/
def letters32 : Array Char := ("ABCDEFGHIJKLMNOPQRSTUVWXYZ234567".toList).toArray

/-- The letters of octets, five of which make eight. -/
def encode32 (o : Octets) : Octets :=
  (groupsOf 5 (o.length + 1) o).flatMap fun g =>
    let n := (g ++ List.replicate (5 - g.length) '\x00').foldl (fun n c => 256 * n + c.toNat) 0
    let letters := (List.range 8).map fun i => letters32[n / Nat.pow 32 (7 - i) % 32]?.getD '='
    let kept := (8 * g.length + 4) / 5
    letters.take kept ++ List.replicate (8 - kept) '='
where
  groupsOf (size : Nat) : Nat → Octets → List Octets
    | 0, _ => []
    | n + 1, xs => if xs.isEmpty then [] else xs.take size :: groupsOf size n (xs.drop size)

def decode32 (values : List Nat) : Octets :=
  let n := values.foldl (fun n v => 32 * n + v) 0
  let size := 5 * values.length / 8
  let n := n / Nat.pow 2 (5 * values.length - 8 * size)
  (List.range size).map fun i => Char.ofNat (n / Nat.pow 256 (size - 1 - i) % 256)

def base32 (ws : List Octets) : Doing Nat :=
  withArguments "base32" 1
    { flags := "di", valued := "w", long := [("decode", 'd'), ("wrap", 'w')] } ws fun a => do
    match ← readFor "base32" (a.operands.headD ['-']) with
    | none => return 1
    | some o =>
      if a.has 'd' then
        let body := (o.filter fun c => c ≠ '\n').takeWhile (· ≠ '=')
        let values := body.filterMap fun c => letters32.idxOf? c
        write (decode32 values)
        if values.length < body.length then refuseTo "base32" "invalid input" 1 else return 0
      else
        let width := ((a.value? 'w').map numberOf).getD 76
        let text := encode32 o
        if width = 0 then write text
        else if !text.isEmpty then write (foldLine width false (text.length + 1) text ++ ['\n'])
        return 0

/-! ### Files from blocks -/

/-- Cut a list into pieces of a size. -/
def piecesOf {α : Type} (size : Nat) : Nat → List α → List (List α)
  | 0, _ => []
  | n + 1, xs => if xs.isEmpty then [] else xs.take size :: piecesOf size n (xs.drop size)

/-- The ending of the name of a piece: letters of a length that count up. -/
def pieceName (digits : Bool) : Nat → Nat → Octets
  | 0, _ => []
  | width + 1, i =>
    let base := if digits then 10 else 26
    let start := if digits then '0' else 'a'
    pieceName digits width (i / base) ++ [Char.ofNat (start.toNat + i % base)]

def split (ws : List Octets) : Doing Nat :=
  withArguments "split" 1
    { flags := "dx", valued := "lbanS"
      long := [("lines", 'l'), ("bytes", 'b'), ("suffix-length", 'a'), ("numeric-suffixes", 'd'),
        ("additional-suffix", 'S')] } ws fun a => do
    match ← readFor "split" (a.operands.headD ['-']) with
    | none => return 1
    | some o =>
      let front := a.operands.getD 1 ['x']
      let pieces := match (a.value? 'b').bind scaledCount with
        | some n => piecesOf (max 1 n) (o.length + 1) o
        | none =>
          let ls := rawLines o
          (piecesOf (max 1 (((a.value? 'l').bind scaledCount).getD 1000)) (ls.length + 1) ls).map
            List.flatten
      let width := ((a.value? 'a').map numberOf).getD 2
      forAll pieces.zipIdx fun e =>
        writeFile "split" (front ++ pieceName (a.has 'd') width e.2 ++ (a.value? 'S').getD []) e.1

/-- Copy in blocks. -/
def dd (ws : List Octets) : Doing Nat := do
  let setting (name : String) : Option Octets :=
    ((ws.filter fun w => (name ++ "=").toList.isPrefixOf w).getLast?).map
      fun w => w.drop (name.length + 1)
  let known := ["if", "of", "bs", "ibs", "obs", "count", "skip", "seek", "conv", "status", "iflag",
    "oflag", "cbs"]
  match ws.find? fun w => !known.any fun n => (n ++ "=").toList.isPrefixOf w with
  | some w =>
    complain ("dd: unrecognized operand " ++ quotedName w)
    return 1
  | none =>
    let number (name : String) : Option Nat := (setting name).bind scaledCount
    let size := ((number "bs").or (number "ibs")).getD 512
    match ← contentOf ((setting "if").getD ['-']) with
    | .error e =>
      refuseTo "dd" ("failed to open " ++ quotedName ((setting "if").getD []) ++ ": " ++
        wordingOf e) 1
    | .ok o =>
      let o := o.drop (size * (number "skip").getD 0)
      let o := match number "count" with
        | some n => o.take (n * size)
        | none => o
      let conversions := ((setting "conv").getD []).splitOn ','
      let o := if conversions.contains "ucase".toList then o.map Char.toUpper
        else if conversions.contains "lcase".toList then o.map Char.toLower else o
      let code ← (match setting "of" with
        | none => do
          write o
          return 0
        | some name => do
          let p ← get
          let old := ((p.disk.read (p.fileOf name)).toOption).getD ByteArray.empty
          let start := ((number "obs").getD size) * (number "seek").getD 0
          let keeps := conversions.contains "notrunc".toList
          let base := if keeps then old else old.extract 0 start
          let content := Process.overwrite base start (Octets.toBytes o)
          match p.disk.write (p.fileOf name) content false with
          | .ok d =>
            set { p with disk := d }
            return 0
          | .error e =>
            refuseTo "dd" ("failed to open " ++ quotedName name ++ ": " ++ wordingOf e) 1)
      if code = 0 ∧ setting "status" ≠ some "none".toList then
        let counted := Text.natText (o.length / size) ++ "+" ++
          (if o.length % size = 0 then "0" else "1")
        complain (counted ++ " records in")
        complain (counted ++ " records out")
      return code

/-- Write tabs as blanks. -/
def expandTabs (width : Nat) : Nat → Octets → Octets
  | _, [] => []
  | n, c :: cs =>
    if c = '\t' then
      let gap := width - n % width
      List.replicate gap ' ' ++ expandTabs width (n + gap) cs
    else c :: expandTabs width (if c = '\n' then 0 else n + 1) cs

def expand (ws : List Octets) : Doing Nat :=
  withArguments "expand" 1 { flags := "i", valued := "t", long := [("tabs", 't')] } ws fun a =>
    eachSource "expand" 1 a fun _ o =>
      write (expandTabs (max 1 (((a.value? 't').map numberOf).getD 8)) 0 o)

/-- Write a run of blanks between two columns with tabs where that saves anything. -/
def tabsBetween (width first last : Nat) (hasTab : Bool) : Octets :=
  let stop := last / width * width
  if stop > first && (stop - first ≥ 2 || hasTab) then
    List.replicate (stop / width - first / width) '\t' ++ List.replicate (last - stop) ' '
  else List.replicate (last - first) ' '

/-- Write blanks as tabs: those in front of a line, or all of them. `run` is where the current run
began and whether it has a tab; the number is the column. -/
def collectTabs (width : Nat) (all : Bool) :
    Option (Nat × Bool) → Bool → Nat → Octets → Octets
  | run, _, n, [] => (run.map fun r => tabsBetween width r.1 n r.2).getD []
  | run, front, n, c :: cs =>
    let begun := run.getD (n, false)
    if (front || all) && c = ' ' then collectTabs width all (some begun) front (n + 1) cs
    else if (front || all) && c = '\t' then
      collectTabs width all (some (begun.1, true)) front (n / width * width + width) cs
    else
      (run.map fun r => tabsBetween width r.1 n r.2).getD [] ++
        c :: collectTabs width all none (c = '\n') (if c = '\n' then 0 else n + 1) cs

def unexpand (ws : List Octets) : Doing Nat :=
  withArguments "unexpand" 1
    { flags := "af", valued := "t", long := [("all", 'a'), ("first-only", 'f'), ("tabs", 't')] } ws
    fun a =>
      let width := max 1 (((a.value? 't').map numberOf).getD 8)
      let all := (a.has 'a' || (a.value? 't').isSome) && !a.has 'f'
      eachSource "unexpand" 1 a fun _ o => write (collectTabs width all none true 0 o)

end Whittle.Shell
