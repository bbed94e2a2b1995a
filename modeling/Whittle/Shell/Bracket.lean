import Whittle.Shell.Octets

/-!
# Sets of octets

A set of octets is written between brackets, in patterns of file names as in regular expressions:
single octets, ranges, and named classes. An octet that was quoted stands for itself.
-/

namespace Whittle.Shell

/-- An octet of a text, and whether it was quoted. -/
structure Mark where
  char : Char
  quoted : Bool
  deriving DecidableEq, Repr

def Mark.is (m : Mark) (c : Char) : Bool := !m.quoted && m.char = c

/-- Octets that are not quoted. -/
def plainMarks (o : Octets) : List Mark := o.map fun c => ⟨c, false⟩

/-- Closed ranges of octets. -/
abbrev Ranges := List (Char × Char)

namespace Ranges

def holds (r : Ranges) (c : Char) : Bool := r.any fun p => p.1 ≤ c && c ≤ p.2

/-- The ranges of a named class. -/
def ofClass? (name : String) : Option Ranges :=
  match name with
  | "space" => some [('\t', '\r'), (' ', ' ')]
  | "blank" => some [('\t', '\t'), (' ', ' ')]
  | "digit" => some [('0', '9')]
  | "lower" => some [('a', 'z')]
  | "upper" => some [('A', 'Z')]
  | "alpha" => some [('a', 'z'), ('A', 'Z')]
  | "alnum" => some [('a', 'z'), ('A', 'Z'), ('0', '9')]
  | "xdigit" => some [('a', 'f'), ('A', 'F'), ('0', '9')]
  | "punct" => some [('!', '/'), (':', '@'), ('[', '\x60'), ('\x7b', '~')]
  | "cntrl" => some [('\x00', '\x1f'), ('\x7f', '\x7f')]
  | "graph" => some [('!', '~')]
  | "print" => some [(' ', '~')]
  | _ => none

/-- The octets of names and numbers. -/
def word : Ranges := [('a', 'z'), ('A', 'Z'), ('0', '9'), ('_', '_')]

def space : Ranges := [('\t', '\r'), (' ', ' ')]

/-- The part of a range that lies in another one, moved by a distance. -/
def shifted (low high : Char) (distance : Int) (p : Char × Char) : Ranges :=
  let a := if p.1 < low then low else p.1
  let b := if high < p.2 then high else p.2
  let move (c : Char) : Char := Char.ofNat ((c.toNat : Int) + distance).toNat
  if a ≤ b then [(move a, move b)] else []

/-- The ranges with both cases of each letter in them. -/
def withBothCases (r : Ranges) : Ranges :=
  r ++ r.flatMap (shifted 'a' 'z' (-32)) ++ r.flatMap (shifted 'A' 'Z' 32)

end Ranges

def isWordOctet (c : Char) : Bool := Ranges.word.holds c

/-- A range that holds nothing, because its end is before its start. -/
def Ranges.emptyRange : Char × Char := ('\x01', '\x00')

/-- A named class read behind its `[:`, and the marks it takes, its `:]` included. A class that is
not known is empty. Between equals signs or points an octet stands for itself. -/
def readClass (sign : Char) (ms : List Mark) : Option (Ranges × Nat) :=
  let name := ms.takeWhile fun m => !m.is sign
  let named := String.ofList (name.map Mark.char)
  match ms.drop name.length with
  | c :: d :: _ =>
    if c.is sign && d.is ']' then
      let ranges : Ranges :=
        if sign = ':' then (Ranges.ofClass? named).getD [Ranges.emptyRange]
        else
          match name with
          | [m] => [(m.char, m.char)]
          | _ => [Ranges.emptyRange]
      some (ranges, name.length + 2)
    else none
  | _ => none

/-- The ranges up to a closing bracket, and the marks read, the bracket included. A bracket in front
stands for itself. -/
def readRanges (first : Bool) (read : Nat) : Nat → List Mark → Option (Ranges × Nat)
  | 0, _ => none
  | fuel + 1, ms =>
    let go (range : Char × Char) (n : Nat) : Option (Ranges × Nat) :=
      (readRanges false (read + n) fuel (ms.drop n)).map fun r => (range :: r.1, r.2)
    match ms with
    | [] => none
    | m :: rest =>
      if m.is ']' && !first then some ([], read + 1)
      else
        let named : Option (Ranges × Nat) :=
          match rest with
          | c :: inner =>
            if m.is '[' && (c.is ':' || c.is '=' || c.is '.') then readClass c.char inner else none
          | [] => none
        match named with
        | some (ranges, n) =>
          (readRanges false (read + n + 2) fuel (ms.drop (n + 2))).map fun r => (ranges ++ r.1, r.2)
        | none =>
          match rest with
          | dash :: last :: _ =>
            if dash.is '-' && !last.is ']' then go (m.char, last.char) 3 else go (m.char, m.char) 1
          | _ => go (m.char, m.char) 1

/-- A set read behind its opening bracket: whether it is the complement of what is written, the
ranges written, and the marks read. -/
def readBracket (negation : List Char) (ms : List Mark) : Option (Bool × Ranges × Nat) :=
  match ms with
  | [] => none
  | m :: rest =>
    if !m.quoted && negation.contains m.char then
      (readRanges true 1 (rest.length + 1) rest).map fun r => (true, r.1, r.2)
    else (readRanges true 0 (ms.length + 1) ms).map fun r => (false, r.1, r.2)

end Whittle.Shell
