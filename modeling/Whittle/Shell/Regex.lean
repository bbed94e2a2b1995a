import Whittle.Shell.Bracket

/-!
# Regular expressions

`Regex.stops` gives the positions where matches stop that start at given positions, all of them at
once: a set of positions is a number whose bits say which belong to it. A search takes the leftmost
match, and of those the longest. `Regex.walk` then finds what the groups of that match hold, each
item taking as much as it can.
-/

namespace Whittle.Shell

/-- A place between two octets, by what stands around it. -/
inductive Edge where
  | wordStart
  | wordStop
  | boundary
  | inside
  | lineStart
  | lineStop
  deriving DecidableEq, Repr

inductive Regex where
  | empty
  | one (negated : Bool) (ranges : Ranges)
  | start
  | stop
  | edge (kind : Edge)
  | seq (first second : Regex)
  | alt (first second : Regex)
  | times (body : Regex) (least : Nat) (most : Option Nat)
  | group (number : Nat) (body : Regex)
  /-- What a group held. -/
  | again (number : Nat)
  /-- Any text but those of the body. -/
  | except (body : Regex)
  deriving DecidableEq, Repr

/-- A set of positions. -/
abbrev Places := Nat

namespace Places

def single (i : Nat) : Places := 1 <<< i

/-- The positions from one on, up to another one. -/
def span (first last : Nat) : Places := (1 <<< (last + 1)) - (1 <<< first)

/-- The positions of the octets of a kind. -/
def where_ (t : Array Char) (p : Char → Bool) : Places :=
  t.foldr (fun c m => (m <<< 1) ||| (if p c then 1 else 0)) 0

/-- Add what a step reaches until nothing is new. -/
def closure (step : Places → Places) : Nat → Places → Places
  | 0, s => s
  | fuel + 1, s =>
    let s' := s ||| step s
    if s' = s then s else closure step fuel s'

/-- Add what a step reaches so many times. -/
def upTo (step : Places → Places) : Nat → Places → Places
  | 0, s => s
  | n + 1, s => s ||| upTo step n (step s)

/-- The positions of a kind of edge. -/
def ofEdge (t : Array Char) (e : Edge) : Places :=
  let next := where_ t isWordOctet
  let last := next <<< 1
  match e with
  | .wordStart => next ^^^ (next &&& last)
  | .wordStop => last ^^^ (last &&& next)
  | .boundary => next ^^^ last
  | .inside => span 0 t.size ^^^ (next ^^^ last)
  | .lineStart => 1 ||| (where_ t (· = '\n') <<< 1)
  | .lineStop => single t.size ||| where_ t (· = '\n')

end Places

/-- What groups hold, as start and stop, the last one found first. -/
abbrev Groups := List (Nat × Nat × Nat)

/-- A match, and what its groups hold. -/
structure Found where
  start : Nat
  stop : Nat
  groups : Groups
  deriving Repr

namespace Regex

/-- Where matches stop that start at one of the positions. What a group held is not known here: any
text may be it. -/
def stops (t : Array Char) : Regex → Places → Places
  | empty, s => s
  | one negated ranges, s => (s &&& Places.where_ t fun c => ranges.holds c != negated) <<< 1
  | start, s => s &&& 1
  | stop, s => s &&& Places.single t.size
  | edge e, s => s &&& Places.ofEdge t e
  | seq a b, s => stops t b (stops t a s)
  | alt a b, s => stops t a s ||| stops t b s
  | times a least most, s =>
    let base := Nat.repeat (stops t a) least s
    match most with
    | none => Places.closure (stops t a) (t.size + 1) base
    | some m => Places.upTo (stops t a) (m - least) base
  | group _ a, s => stops t a s
  | again _, s => Places.closure (· <<< 1) t.size s &&& Places.span 0 t.size
  | except a, s =>
    (List.range (t.size + 1)).foldl (fun r i =>
      if s.testBit i then
        let all := Places.span i t.size
        r ||| (all ^^^ (all &&& stops t a (Places.single i)))
      else r) 0

/-- Whether two stretches of a text are equal. -/
def sameStretch (t : Array Char) (i j length : Nat) : Bool :=
  (List.range length).all fun n => t[i + n]? = t[j + n]?

/-- Repeat a step as often as possible, and less often where what follows asks for it. -/
def walkTimes (step : Nat → Groups → (Nat → Groups → Option Groups) → Option Groups) :
    Nat → Nat → Option Nat → Nat → Groups → (Nat → Groups → Option Groups) → Option Groups
  | 0, least, _, i, g, k => if least = 0 then k i g else none
  | fuel + 1, least, most, i, g, k =>
    let further :=
      if most = some 0 then none
      else step i g fun j g' =>
        if j = i && least = 0 then none
        else walkTimes step fuel (least - 1) (most.map (· - 1)) j g' k
    further.or (if least = 0 then k i g else none)

/-- Match from a position and go on with `k`: the groups of the first way that leads to an end. -/
def walk (t : Array Char) :
    Regex → Nat → Groups → (Nat → Groups → Option Groups) → Option Groups
  | empty, i, g, k => k i g
  | one negated ranges, i, g, k =>
    match t[i]? with
    | some c => if ranges.holds c != negated then k (i + 1) g else none
    | none => none
  | start, i, g, k => if i = 0 then k i g else none
  | stop, i, g, k => if i = t.size then k i g else none
  | edge e, i, g, k => if (Places.ofEdge t e).testBit i then k i g else none
  | seq a b, i, g, k => walk t a i g fun j g => walk t b j g k
  | alt a b, i, g, k =>
    let s := Places.single i
    if Nat.log2 (stops t a s) < Nat.log2 (stops t b s) then
      (walk t b i g k).or (walk t a i g k)
    else (walk t a i g k).or (walk t b i g k)
  | times a least most, i, g, k =>
    walkTimes (fun j g k => walk t a j g k) (t.size - i + least + 1) least most i g k
  | group n a, i, g, k => walk t a i g fun j g => k j ((n, i, j) :: g)
  | again n, i, g, k =>
    match g.find? fun e => e.1 = n with
    | some (_, from_, to_) =>
      if i + (to_ - from_) ≤ t.size && sameStretch t from_ i (to_ - from_) then k (i + (to_ - from_)) g
      else none
    | none => none
  | except a, i, g, k =>
    let bad := stops t a (Places.single i)
    ((List.range (t.size + 1 - i)).map (i + ·)).reverse.findSome? fun j =>
      if bad.testBit j then none else k j g

/-- Whether a match has to be walked through: it has groups or looks back at them. -/
def hasGroups : Regex → Bool
  | seq a b => a.hasGroups || b.hasGroups
  | alt a b => a.hasGroups || b.hasGroups
  | times a _ _ => a.hasGroups
  | group _ _ => true
  | again _ => true
  | except a => a.hasGroups
  | _ => false

def looksBack : Regex → Bool
  | seq a b => a.looksBack || b.looksBack
  | alt a b => a.looksBack || b.looksBack
  | times a _ _ => a.looksBack
  | group _ a => a.looksBack
  | again _ => true
  | except a => a.looksBack
  | _ => false

/-- The highest number of a group. -/
def groupCount : Regex → Nat
  | seq a b => max a.groupCount b.groupCount
  | alt a b => max a.groupCount b.groupCount
  | times a _ _ => a.groupCount
  | group n a => max n a.groupCount
  | except a => a.groupCount
  | _ => 0

/-- The highest number of a group that is looked back at. -/
def highestLookBack : Regex → Nat
  | seq a b => max a.highestLookBack b.highestLookBack
  | alt a b => max a.highestLookBack b.highestLookBack
  | times a _ _ => a.highestLookBack
  | group _ a => a.highestLookBack
  | again n => n
  | except a => a.highestLookBack
  | _ => 0

/-- The groups of a match between two positions. -/
def groupsOf? (r : Regex) (t : Array Char) (i j : Nat) : Option Groups :=
  r.walk t i [] fun k g => if k = j then some g else none

/-- The longest match at a position. -/
def findAt (r : Regex) (t : Array Char) (i : Nat) : Option Found :=
  let s := r.stops t (Places.single i)
  if s = 0 then none
  else if !r.hasGroups then some ⟨i, Nat.log2 s, []⟩
  else if !r.looksBack then
    some ⟨i, Nat.log2 s, (r.groupsOf? t i (Nat.log2 s)).getD []⟩
  else
    ((List.range (t.size + 1 - i)).map (i + ·)).reverse.findSome? fun j =>
      if s.testBit j then (r.groupsOf? t i j).map fun g => ⟨i, j, g⟩ else none

/-- The leftmost match that does not start before a position. -/
def search (r : Regex) (t : Array Char) (first : Nat) : Option Found :=
  if r.stops t (Places.span first t.size) = 0 then none
  else ((List.range (t.size + 1 - first)).map (first + ·)).findSome? (r.findAt t)

/-- So many matches one after another, from a position on; right behind a match there is none of
nothing. The first number bounds the steps. -/
def findAll (r : Regex) (t : Array Char) : Nat → (most first : Nat) → Option Nat → List Found
  | 0, _, _, _ => []
  | _, 0, _, _ => []
  | steps + 1, most + 1, first, last =>
    if first > t.size then []
    else
      match r.search t first with
      | none => []
      | some m =>
        if m.start < m.stop then m :: findAll r t steps most m.stop (some m.stop)
        else if last = some m.start then findAll r t steps (most + 1) (m.stop + 1) none
        else m :: findAll r t steps most (m.stop + 1) none

/-- The first matches of an expression, so many at most. -/
def occurrences (r : Regex) (t : Array Char) (most : Nat) : List Found :=
  r.findAll t (2 * t.size + 3) most 0 none

def matchesIn (r : Regex) (cs : Octets) : Bool :=
  if r.looksBack then (r.search cs.toArray 0).isSome
  else r.stops cs.toArray (Places.span 0 cs.length) ≠ 0

/-- Whether the whole text is a match. -/
def matchesAll (r : Regex) (cs : Octets) : Bool :=
  let t := cs.toArray
  if r.looksBack then (r.groupsOf? t 0 t.size).isSome
  else (r.stops t 1).testBit t.size

def char (c : Char) : Regex := .one false [(c, c)]

def anyChar : Regex := .one true []

def anyText : Regex := .times anyChar 0 none

/-- A text taken literally. -/
def literal (cs : Octets) : Regex := cs.foldr (fun c r => .seq (.char c) r) .empty

/-- The expression with both cases of every letter. -/
def withBothCases : Regex → Regex
  | one negated ranges => one negated ranges.withBothCases
  | seq a b => seq a.withBothCases b.withBothCases
  | alt a b => alt a.withBothCases b.withBothCases
  | times a least most => times a.withBothCases least most
  | group n a => group n a.withBothCases
  | except a => except a.withBothCases
  | r => r

/-- The expression with anchors at the start and the end of every line. -/
def byLines : Regex → Regex
  | start => edge .lineStart
  | stop => edge .lineStop
  | seq a b => seq a.byLines b.byLines
  | alt a b => alt a.byLines b.byLines
  | times a least most => times a.byLines least most
  | group n a => group n a.byLines
  | except a => except a.byLines
  | r => r

end Regex

/-- The stretch of a text that a match covers. -/
def Found.text (m : Found) (t : Array Char) : Octets := (t.extract m.start m.stop).toList

/-- A text from a position on with the stretches of matches replaced. -/
def replaceFound (t : Array Char) (first : Nat) : List (Found × Octets) → Octets
  | [] => (t.extract first t.size).toList
  | (m, o) :: rest => (t.extract first m.start).toList ++ o ++ replaceFound t m.stop rest

/-- What a group holds, if it took part in the match; group 0 is the match itself. -/
def Found.group? (m : Found) (t : Array Char) (n : Nat) : Option Octets :=
  if n = 0 then some (m.text t)
  else (m.groups.find? fun e => e.1 = n).map fun e => (t.extract e.2.1 e.2.2).toList

end Whittle.Shell
