import Whittle.Shell.Utility

/-!
# Digests

A digest is a number of fixed size that is computed from the octets of a file, block by block. Words
are natural numbers below a power of two. The constants of the newer digests are fractional parts of
roots of primes, those of the oldest one values of the sine.
-/

namespace Whittle.Shell

open Doing

namespace Digest

/-! ### Words -/

/-- The last so many bits of a number. -/
def kept (bits n : Nat) : Nat := n % Nat.pow 2 bits

/-- Turn a word of so many bits to the left. -/
def rotateLeft (bits n x : Nat) : Nat := kept bits (x <<< n ||| x >>> (bits - n))

def rotateRight (bits n x : Nat) : Nat := rotateLeft bits (bits - n) x

def complement (bits x : Nat) : Nat := Nat.pow 2 bits - 1 - x

/-- The number that octets are, the first one weighing most. -/
def ofOctets (o : Octets) : Nat := o.foldl (fun n c => 256 * n + c.toNat) 0

/-- The octets of a number, the last one weighing least. -/
def toOctets (size n : Nat) : Octets :=
  ((List.range size).map fun i => Char.ofNat (n / Nat.pow 256 i % 256)).reverse

/-- A text filled up to whole blocks: behind it stand one bit, zeros, and its length in bits. -/
def padMessage (block field : Nat) (bigFirst : Bool) (o : Octets) : Octets :=
  let size := toOctets field (8 * o.length)
  let gap := (2 * block - (o.length + 1 + field) % block) % block
  o ++ '\x80' :: List.replicate gap '\x00' ++ (if bigFirst then size else size.reverse)

/-- The pieces of a size that a text is cut into; the number bounds them. -/
def blocks (size : Nat) : Nat → Octets → List Octets
  | 0, _ => []
  | n + 1, o => if o.isEmpty then [] else o.take size :: blocks size n (o.drop size)

/-! ### Roots of primes -/

def isPrime (n : Nat) : Bool := n ≥ 2 && (List.range n).all fun d => d < 2 || n % d ≠ 0

/-- The primes in order. -/
def primes : List Nat := (List.range 410).filter isPrime

/-- The greatest number whose power is not above another one, found bit by bit. -/
def root (power n : Nat) : Nat → Nat
  | 0 => 0
  | bit + 1 =>
    let high := root power (n / Nat.pow 2 power) bit * 2
    if Nat.pow (high + 1) power ≤ n then high + 1 else high

/-- The first bits behind the point of a root. -/
def fractionOfRoot (power bits n : Nat) : Nat :=
  kept bits (root power (n * Nat.pow 2 (power * bits)) (bits + 5))

/-! ### The family with sizes in its name -/

/-- The member of a family of digests whose words have so many bits. -/
structure Member where
  bits : Nat
  rounds : Nat
  /-- How far words are turned, or shifted in the last place, where the schedule is extended. -/
  early : Nat × Nat × Nat
  late : Nat × Nat × Nat
  /-- How far words are turned in a round. -/
  upper : Nat × Nat × Nat
  lower : Nat × Nat × Nat

def short : Member := ⟨32, 64, (7, 18, 3), (17, 19, 10), (2, 13, 22), (6, 11, 25)⟩

def long : Member := ⟨64, 80, (1, 8, 7), (19, 61, 6), (28, 34, 39), (14, 18, 41)⟩

namespace Member

def mixed (m : Member) (t : Nat × Nat × Nat) (x : Nat) : Nat :=
  rotateRight m.bits t.1 x ^^^ rotateRight m.bits t.2.1 x ^^^ rotateRight m.bits t.2.2 x

def shifted (m : Member) (t : Nat × Nat × Nat) (x : Nat) : Nat :=
  rotateRight m.bits t.1 x ^^^ rotateRight m.bits t.2.1 x ^^^ x >>> t.2.2

def constants (m : Member) : List Nat :=
  (primes.take m.rounds).map (fractionOfRoot 3 m.bits)

/-- Extend a schedule, the last word first, by so many words. -/
def extend (m : Member) : Nat → List Nat → List Nat
  | 0, ws => ws
  | n + 1, ws =>
    let at_ (i : Nat) : Nat := ws.getD (i - 1) 0
    let sum := m.shifted m.late (at_ 2) + at_ 7 + m.shifted m.early (at_ 15) + at_ 16
    extend m n (kept m.bits sum :: ws)

/-- A round on eight words. -/
def round (m : Member) (s : List Nat) (k : Nat × Nat) : List Nat :=
  match s with
  | [a, b, c, d, e, f, g, h] =>
    let choice := (e &&& f) ^^^ (complement m.bits e &&& g)
    let majority := (a &&& b) ^^^ (a &&& c) ^^^ (b &&& c)
    let t := h + m.mixed m.lower e + choice + k.1 + k.2
    [kept m.bits (t + m.mixed m.upper a + majority), a, b, c, kept m.bits (d + t), e, f, g]
  | s => s

def compress (m : Member) (constants : List Nat) (s : List Nat) (block : Octets) : List Nat :=
  let ws := (blocks (m.bits / 8) 16 block).map ofOctets
  let schedule := (m.extend (m.rounds - 16) ws.reverse).reverse
  let t := (constants.zip schedule).foldl m.round s
  s.zipWith (fun x y => kept m.bits (x + y)) t

/-- The digest of a text from its first words, of so many octets. -/
def digest (m : Member) (first : List Nat) (size : Nat) (o : Octets) : Octets :=
  let block := 2 * m.bits
  let padded := padMessage block (m.bits / 4) true o
  let constants := m.constants
  let last := (blocks block (padded.length / block) padded).foldl (m.compress constants) first
  (last.flatMap (toOctets (m.bits / 8))).take size

end Member

def sha224 : Octets → Octets :=
  short.digest (((primes.drop 8).take 8).map fun p => kept 32 (fractionOfRoot 2 64 p)) 28

def sha256 : Octets → Octets := short.digest ((primes.take 8).map (fractionOfRoot 2 32)) 32

def sha384 : Octets → Octets := long.digest (((primes.drop 8).take 8).map (fractionOfRoot 2 64)) 48

def sha512 : Octets → Octets := long.digest ((primes.take 8).map (fractionOfRoot 2 64)) 64

/-! ### Older ones -/

/-- Extend a schedule of the older digest, the last word first. -/
def extendOld : Nat → List Nat → List Nat
  | 0, ws => ws
  | n + 1, ws =>
    let at_ (i : Nat) : Nat := ws.getD (i - 1) 0
    extendOld n (rotateLeft 32 1 (at_ 3 ^^^ at_ 8 ^^^ at_ 14 ^^^ at_ 16) :: ws)

/-- A round on five words. -/
def roundOld (s : List Nat) (k : Nat × Nat) : List Nat :=
  match s with
  | [a, b, c, d, e] =>
    let r : Nat × Nat := match k.1 / 20 with
      | 0 => ((b &&& c) ||| (complement 32 b &&& d), 0x5a827999)
      | 1 => (b ^^^ c ^^^ d, 0x6ed9eba1)
      | 2 => ((b &&& c) ||| (b &&& d) ||| (c &&& d), 0x8f1bbcdc)
      | _ => (b ^^^ c ^^^ d, 0xca62c1d6)
    [kept 32 (rotateLeft 32 5 a + r.1 + e + r.2 + k.2), a, rotateLeft 32 30 b, c, d]
  | s => s

def sha1 (o : Octets) : Octets :=
  let first := [0x67452301, 0xefcdab89, 0x98badcfe, 0x10325476, 0xc3d2e1f0]
  let padded := padMessage 64 8 true o
  let compress (s : List Nat) (block : Octets) : List Nat :=
    let ws := (extendOld 64 ((blocks 4 16 block).map ofOctets).reverse).reverse
    let t := (ws.zipIdx.map fun w => (w.2, w.1)).foldl roundOld s
    s.zipWith (fun x y => kept 32 (x + y)) t
  ((blocks 64 (padded.length / 64) padded).foldl compress first).flatMap (toOctets 4)

/-- How far words are turned in the rounds of the oldest digest. -/
def turns (i : Nat) : Nat :=
  let row := match i / 16 with
    | 0 => [7, 12, 17, 22]
    | 1 => [5, 9, 14, 20]
    | 2 => [4, 11, 16, 23]
    | _ => [6, 10, 15, 21]
  row.getD (i % 4) 0

/-- The whole part of a sine, taken 2³² times. -/
def sineConstant (i : Nat) : Nat := ((Float.sin (i + 1).toFloat).abs * 4294967296.0).toUInt64.toNat

def roundOldest (ws : List Nat) (s : List Nat) (k : Nat × Nat) : List Nat :=
  match s with
  | [a, b, c, d] =>
    let i := k.1
    let r : Nat × Nat := match i / 16 with
      | 0 => ((b &&& c) ||| (complement 32 b &&& d), i)
      | 1 => ((d &&& b) ||| (complement 32 d &&& c), (5 * i + 1) % 16)
      | 2 => (b ^^^ c ^^^ d, (3 * i + 5) % 16)
      | _ => (c ^^^ (b ||| complement 32 d), 7 * i % 16)
    let sum := kept 32 (a + r.1 + k.2 + ws.getD r.2 0)
    [d, kept 32 (b + rotateLeft 32 (turns i) sum), b, c]
  | s => s

def md5 (o : Octets) : Octets :=
  let first := [0x67452301, 0xefcdab89, 0x98badcfe, 0x10325476]
  let padded := padMessage 64 8 false o
  let constants := (List.range 64).map fun i => (i, sineConstant i)
  let compress (s : List Nat) (block : Octets) : List Nat :=
    let ws := (blocks 4 16 block).map fun b => ofOctets b.reverse
    s.zipWith (fun x y => kept 32 (x + y)) (constants.foldl (roundOldest ws) s)
  ((blocks 64 (padded.length / 64) padded).foldl compress first).flatMap fun n =>
    (toOctets 4 n).reverse

/-- The remainder of octets by a polynomial, one bit after another. -/
def remainder (n : Nat) (c : Char) : Nat :=
  (List.range 8).foldl (fun n _ =>
    if n ≥ Nat.pow 2 31 then kept 32 (2 * n) ^^^ 0x04c11db7 else 2 * n) (n ^^^ c.toNat <<< 24)

/-- The check sum of a text: its length stands behind it, the low octets first. -/
def checkSum (o : Octets) : Nat :=
  let size := ((toOctets 8 o.length).dropWhile (· = '\x00')).reverse
  complement 32 ((o ++ size).foldl remainder 0)

/-! ### Programs -/

def hexText (o : Octets) : Octets :=
  o.flatMap fun c => padded false '0' 2 (Nat.toDigits 16 c.toNat)

/-- A line of a list of digests: the digest and the name. -/
def splitLine (l : Octets) : Option (Octets × Octets) :=
  let digits := l.takeWhile fun c => (hexDigit c).isSome
  match l.drop digits.length with
  | ' ' :: c :: name =>
    if (c = ' ' || c = '*') && !digits.isEmpty && !name.isEmpty then some (digits.map Char.toLower, name)
    else none
  | _ => none

/-- Compare the digests that a list names with those of the files. -/
def checkList (program : String) (f : Octets → Octets) (quiet silent : Bool) (source : Octets) :
    Doing Nat := do
  match ← contentOf source with
  | .error e =>
    complain (program ++ ": " ++ Octets.text source ++ ": " ++ wordingOf e)
    return 1
  | .ok text =>
    let entries := (Octets.lines text).filterMap splitLine
    if entries.isEmpty then
      complain (program ++ ": " ++ Octets.text source ++ ": no properly formatted checksum lines found")
      return 1
    else
      let mut missing := 0
      let mut failed := 0
      for (digits, name) in entries do
        match ← readFile name with
        | .error e =>
          complain (program ++ ": " ++ Octets.text name ++ ": " ++ wordingOf e)
          if !silent then write (name ++ ": FAILED open or read\n".toList)
          missing := missing + 1
        | .ok o =>
          let right : Bool := hexText (f o) = digits
          if !right then failed := failed + 1
          if !silent && !(right && quiet) then
            write (name ++ (if right then ": OK\n" else ": FAILED\n").toList)
      return if missing + failed = 0 then 0 else 1

/-- The program that shows or checks digests. -/
def tool (program : String) (f : Octets → Octets) : List Octets → Doing Nat := fun ws =>
  withArguments program 1
    { flags := "bctwzqs"
      long := [("binary", 'b'), ("check", 'c'), ("text", 't'), ("warn", 'w'), ("zero", 'z'),
        ("quiet", 'q'), ("status", 's'), ("tag", 'T')] } ws fun a => do
    if a.has 'c' then forAll a.sources (checkList program f (a.has 'q') (a.has 's'))
    else
      forAll a.sources fun name => do
        match ← contentOf name with
        | .error e =>
          complain (program ++ ": " ++ Octets.text name ++ ": " ++ wordingOf e)
          return 1
        | .ok o =>
          let mark := if a.has 'b' then [' ', '*'] else [' ', ' ']
          write (hexText (f o) ++ mark ++ name ++ [if a.has 'z' then '\x00' else '\n'])
          return 0

/-- The program that shows check sums. -/
def checkSumTool (ws : List Octets) : Doing Nat :=
  withArguments "cksum" 1 {} ws fun a => do
    forAll a.sources fun name => do
      match ← contentOf name with
      | .error e =>
        complain ("cksum: " ++ Octets.text name ++ ": " ++ wordingOf e)
        return 1
      | .ok o =>
        let shown := if a.operands.isEmpty then [] else ' ' :: name
        write (naturalText (checkSum o) ++ ' ' :: naturalText o.length ++ shown ++ ['\n'])
        return 0

end Digest

end Whittle.Shell
