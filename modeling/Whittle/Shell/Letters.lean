import Whittle.Shell.Bracket
import Whittle.Shell.Utility

/-!
# Exchanging octets

A set of octets is a list in which ranges, classes, escapes and repeats are written out. Octets are
exchanged for those at the same place of a second set, left out, or written once where they repeat.
-/

namespace Whittle.Shell

open Doing

/-- An item of a set. -/
inductive LetterItem where
  | one (c : Char)
  | span (first last : Char)
  | kind (name : String)
  /-- An octet many times, or as often as there is room. -/
  | many (c : Char) (count : Nat)
  deriving DecidableEq, Repr

namespace LetterItem

/-- The octet in front, escapes undone, and how many octets it takes. -/
def readOne : Octets → Option (Char × Nat)
  | '\\' :: c :: cs =>
    if isOctal c then
      let digits := ((c :: cs).takeWhile isOctal).take 3
      some (Char.ofNat (octalValue digits % 256), digits.length + 1)
    else
      some (match c with
        | 'a' => '\x07'
        | 'b' => '\x08'
        | 'f' => '\x0c'
        | 'n' => '\n'
        | 'r' => '\r'
        | 't' => '\t'
        | 'v' => '\x0b'
        | c => c, 2)
  | c :: _ => some (c, 1)
  | [] => none

/-- An item in front that stands between brackets, and how many octets it takes. -/
def readBracketed (cs : Octets) : Option (LetterItem × Nat) :=
  match cs with
  | '[' :: ':' :: rest =>
    let name := rest.takeWhile (· ≠ ':')
    if ":]".toList.isPrefixOf (rest.drop name.length) then
      some (.kind (String.ofList name), name.length + 4)
    else none
  | '[' :: '=' :: c :: '=' :: ']' :: _ => some (.one c, 5)
  | '[' :: rest =>
    match readOne rest with
    | some (c, n) =>
      match rest.drop n with
      | '*' :: more =>
        let count := more.takeWhile (· ≠ ']')
        if (more.drop count.length).head? = some ']' && count.all Text.isDigit then
          let value := if count.head? = some '0' then octalValue count else numberOf count
          some (.many c value, n + count.length + 3)
        else none
      | _ => none
    | none => none
  | _ => none

/-- The items of a set. -/
def readAll : Nat → Octets → List LetterItem
  | _, [] => []
  | skip + 1, _ :: cs => readAll skip cs
  | 0, c :: cs =>
    match readBracketed (c :: cs) with
    | some (i, n) => i :: readAll (n - 1) cs
    | none =>
      match readOne (c :: cs) with
      | none => []
      | some (first, n) =>
        match (c :: cs).drop n with
        | '-' :: rest =>
          match readOne rest with
          | some (last, m) => .span first last :: readAll (n + m) cs
          | none => .one first :: readAll (n - 1) cs
        | _ => .one first :: readAll (n - 1) cs

end LetterItem

/-- All octets in order. -/
def allOctets : Octets := (List.range 256).map Char.ofNat

def charsBetween (a b : Char) : Octets :=
  ((List.range (b.toNat + 1)).drop a.toNat).map Char.ofNat

/-- The octets of a set. A repeat without a count takes the room that is left. -/
def letterSet (room : Nat) (text : Octets) : Except String Octets := do
  let items := LetterItem.readAll 0 text
  let parts ← items.mapM fun (i : LetterItem) =>
    match i with
    | .one c => (.ok (some [c]) : Except String (Option Octets))
    | .span a b =>
      if a > b then .error ("range-endpoints of '" ++ String.ofList [a, '-', b] ++
        "' are in reverse collating sequence order")
      else .ok (some (charsBetween a b))
    | .kind name =>
      match Ranges.ofClass? name with
      | some r => .ok (some (allOctets.filter r.holds))
      | none => .error ("invalid character class '" ++ name ++ "'")
    | .many c n => .ok (if n = 0 then none else some (List.replicate n c))
  let known := (parts.flatMap fun p => p.getD []).length
  let fill := room - known
  return (items.zip parts).flatMap fun p =>
    match p.2, p.1 with
    | some o, _ => o
    | none, .many c _ => List.replicate fill c
    | none, _ => []

/-- The items of a set with the octets in front of each. -/
def placedItems (text : Octets) : List (Nat × LetterItem) :=
  let size : LetterItem → Nat
    | .one _ => 1
    | .span a b => b.toNat + 1 - a.toNat
    | .kind name => ((Ranges.ofClass? name).map fun r => (allOctets.filter r.holds).length).getD 0
    | .many _ n => n
  ((LetterItem.readAll 0 text).foldl (fun s i => (s.1 + size i, s.2 ++ [(s.1, i)])) (0, [])).2

/-- Whether the classes of a second set are those of a case, each at the place of one of the first
set; the complaint otherwise. -/
def classesFault (first second : Octets) : Option String :=
  let cases : List LetterItem := [.kind "upper", .kind "lower"]
  let classes := (placedItems second).filter fun e => match e.2 with
    | .kind _ => true
    | _ => false
  let places := ((placedItems first).filter fun e => cases.contains e.2).map Prod.fst
  if classes.any fun e => !cases.contains e.2 then
    some "when translating, the only character classes that may appear in\nstring2 are 'upper' and 'lower'"
  else if classes.any fun e => !places.contains e.1 then
    some "misaligned [:upper:] and/or [:lower:] construct"
  else none

/-- Write once what stands several times in a row. -/
def squeezeRuns (isMember : Char → Bool) : Option Char → Octets → Octets
  | _, [] => []
  | last, c :: cs =>
    if last = some c && isMember c then squeezeRuns isMember last cs
    else c :: squeezeRuns isMember (some c) cs

def tr (ws : List Octets) : Doing Nat :=
  withArguments "tr" 1
    { flags := "cCdst", strict := true
      long := [("complement", 'c'), ("delete", 'd'), ("squeeze-repeats", 's'),
        ("truncate-set1", 't')] } ws fun a => do
    let complain' (lines : List String) : Doing Nat := do
      for l in lines do
        complain l
      return 1
    let deletes := a.has 'd'
    let squeezes := a.has 's'
    let needed := if deletes == squeezes then 2 else 1
    let allowed := if deletes && !squeezes then 1 else 2
    match a.operands with
    | [] => complain' ["tr: missing operand"]
    | first :: more =>
      if a.operands.length < needed then
        complain' ["tr: missing operand after " ++ quotedName first,
          if deletes then "Two strings must be given when both deleting and squeezing repeats."
          else "Two strings must be given when translating."]
      else if a.operands.length > allowed then
        complain' ["tr: extra operand " ++ quotedName (a.operands.getD allowed [])]
      else
        match letterSet 0 first with
        | .error e => complain' ["tr: " ++ e]
        | .ok set =>
          let set := if a.has 'c' || a.has 'C' then allOctets.filter fun c => !set.contains c else set
          let second := more.head?
          match letterSet set.length (second.getD []) with
          | .error e => complain' ["tr: " ++ e]
          | .ok by_ =>
            match ← readStream 0 with
            | .error e => refuseTo "tr" ("read error: " ++ wordingOf e) 1
            | .ok o =>
              let translates := !deletes && second.isSome
              if let some why := (if translates then classesFault first (second.getD []) else none) then
                complain' ["tr: " ++ why]
              else if translates && by_.isEmpty && !a.has 't' then
                complain' ["tr: when not truncating set1, string2 must be non-empty"]
              else
                let last := by_.getLast?.getD ' '
                let table : Array Char := (allOctets.map fun c =>
                  match (set.zipIdx.filter fun e => e.1 = c).getLast? with
                  | none => c
                  | some (_, i) =>
                    if a.has 't' && i ≥ by_.length then c else by_.getD i last).toArray
                let o := if deletes then o.filter fun c => !set.contains c
                  else if translates then o.map fun c => table[c.toNat]?.getD c
                  else o
                let squeezed := if second.isSome then by_ else set
                write (if squeezes then squeezeRuns squeezed.contains none o else o)
                return 0

end Whittle.Shell
