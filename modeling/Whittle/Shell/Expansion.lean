import Whittle.Shell.Format
import Whittle.Shell.Glob
import Whittle.Shell.Process

/-!
# From expanded words to fields

An expanded word is a list of atoms. It is cut into fields where an expansion that was not quoted
brought a separator, and between the positional parameters. A field with unquoted pattern octets
then stands for the files whose names the pattern accepts, if there are any.
-/

namespace Whittle.Shell

inductive Atom where
  /-- `splits` says that the octet came from an expansion that was not quoted. -/
  | mark (m : Mark) (splits : Bool)
  /-- There is a field here even if it is empty. -/
  | present
  /-- The place between two results, and what stands there if the word is not cut. -/
  | boundary (joint : Option Char)
  deriving DecidableEq, Repr

/-- The atoms of the result of an expansion. -/
def atomsOf (quoted : Bool) (o : Octets) : List Atom := o.map fun c => .mark ⟨c, quoted⟩ !quoted

/-- The atoms of results that are fields of their own. -/
def atomsOfAll (quoted : Bool) (joint : Option Char) (os : List Octets) : List Atom :=
  List.intercalate [.boundary joint] (os.map fun o =>
    if quoted then .present :: atomsOf true o else atomsOf false o)

/-- The octets of a word that is not cut into fields. -/
def marksOf (as : List Atom) : List Mark := as.filterMap fun a =>
  match a with
  | .mark m _ => some m
  | .present => none
  | .boundary joint => joint.map fun c => ⟨c, true⟩

def plainText (as : List Atom) : Octets := (marksOf as).map Mark.char

def isWhite (c : Char) : Bool := c = ' ' || c = '\t' || c = '\n'

/-- Cut atoms into fields. `field` is what the current one has so far, the last mark first, if it has
begun; `white` says that white separators ended the one before, so that another separator may still
belong to them. -/
def fieldsFrom (separators : Octets) (field : Option (List Mark)) (white : Bool) :
    List Atom → List (List Mark)
  | [] => (field.map List.reverse).toList
  | a :: as =>
    match a with
    | .present => fieldsFrom separators (some (field.getD [])) white as
    | .boundary _ => (field.map List.reverse).toList ++ fieldsFrom separators none false as
    | .mark m splits =>
      if splits && separators.contains m.char then
        match field with
        | some f => f.reverse :: fieldsFrom separators none (isWhite m.char) as
        | none =>
          if isWhite m.char then fieldsFrom separators none white as
          else if white then fieldsFrom separators none false as
          else [] :: fieldsFrom separators none false as
      else fieldsFrom separators (some (m :: field.getD [])) white as

/-! ### Names of files -/

/-- Cut marks at the slashes. -/
def segmentsOf (f : List Mark) : List (List Mark) := f.splitOnP fun m => m.char = '/'

/-- Whether a segment stands for any number of directories. -/
def isDeep (p : Process) (s : List Mark) : Bool :=
  p.hasOption "globstar" && s = [⟨'*', false⟩, ⟨'*', false⟩]

/-- The paths below a directory, of directories alone or of all files. -/
def deepPaths (p : Process) (front : Octets) (onlyDirs : Bool) : List Octets :=
  match p.disk.stat (p.fileOf (if front.isEmpty then ['.'] else front)) with
  | .ok (place, .dir) =>
    (p.disk.below place).filterMap fun e =>
      let hidden : Bool := e.1.any (·.startsWith ".") && !p.hasOption "dotglob"
      let isDir : Bool := match e.2 with
        | .dir => true
        | _ => false
      if e.1.isEmpty || hidden || (onlyDirs && !isDir) then none
      else some (List.intercalate ['/'] (e.1.map Octets.ofString))
  | _ => []

/-- The names of one segment below a directory. -/
def namesOfSegment (p : Process) (groups : Bool) (front : Octets) (s : List Mark) : List Octets :=
  if Glob.isPattern groups s then
    let r := Glob.read groups s
    let hidden := (s.head?.map Mark.char) = some '.' || p.hasOption "dotglob"
    (namesIn p.disk (p.fileOf (if front.isEmpty then ['.'] else front))).filter fun n =>
      (n.head? ≠ some '.' || hidden) && r.matchesAll n
  else
    let n := s.map Mark.char
    let there := if n.isEmpty then front.isEmpty || front.all (· = '/') || p.disk.isDir (p.fileOf front)
      else (p.disk.lstat (p.fileOf (front ++ n))).isOk
    if there then [n] else []

/-- The paths a pattern stands for; `front` is the part of the path already settled, with the slash
at its end. -/
def matching (p : Process) (groups : Bool) (front : Octets) : List (List Mark) → List Octets
  | [] => [front]
  | [last] =>
    let names := if isDeep p last then deepPaths p front false else namesOfSegment p groups front last
    names.map fun n => front ++ n
  | s :: rest =>
    if isDeep p s then
      matching p groups front rest ++ (deepPaths p front true).flatMap fun n =>
        matching p groups (front ++ n ++ ['/']) rest
    else (namesOfSegment p groups front s).flatMap fun n => matching p groups (front ++ n ++ ['/']) rest

/-- The texts a field stands for; there may have to be some. -/
def textsOf? (p : Process) (f : List Mark) : Option (List Octets) :=
  let text := f.map Mark.char
  let groups := p.hasOption "extglob"
  if p.hasOption "noglob" || !Glob.isPattern groups f then some [text]
  else
    match (matching p groups [] (segmentsOf f)).mergeSort Octets.isUpTo with
    | [] =>
      if p.hasOption "failglob" then none
      else some (if p.hasOption "nullglob" then [] else [text])
    | found => some found

/-! ### Braces -/

/-- The number of pieces up to the brace that closes one already open. -/
def braceLength (depth : Nat) : Word → Option Nat
  | [] => none
  | p :: ps =>
    match p with
    | .char '\x7b' false => (braceLength (depth + 1) ps).map (· + 1)
    | .char '\x7d' false =>
      match depth with
      | 0 => some 0
      | depth + 1 => (braceLength depth ps).map (· + 1)
    | _ => (braceLength depth ps).map (· + 1)

/-- The parts between commas that are not inside braces. -/
def splitCommas (depth : Nat) (sofar : Word) : Word → List Word
  | [] => [sofar.reverse]
  | p :: ps =>
    match p with
    | .char '\x7b' false => splitCommas (depth + 1) (p :: sofar) ps
    | .char '\x7d' false => splitCommas (depth - 1) (p :: sofar) ps
    | .char ',' false =>
      if depth = 0 then sofar.reverse :: splitCommas 0 [] ps else splitCommas depth (p :: sofar) ps
    | _ => splitCommas depth (p :: sofar) ps

/-- The octets of a word that has only unquoted ones. -/
def bareText? (w : Word) : Option Octets := w.mapM fun p =>
  match p with
  | .char c false => some c
  | _ => none

/-- The numbers from one to another by steps. -/
def countBetween (first last step : Int) : List Int :=
  let size := if step = 0 then 1 else step.natAbs
  let n := (last - first).natAbs / size
  (List.range (n + 1)).map fun (i : Nat) =>
    if first ≤ last then first + (i * size : Nat) else first - (i * size : Nat)

/-- The texts of a sequence such as `1..5`, `a..e` or `01..10..3`. -/
def sequenceTexts (o : Octets) : Option (List Octets) :=
  let parts := (Octets.text o).splitOn ".."
  let number (s : String) : Option Int := s.toInt?
  let go (a b : String) (step : Int) : Option (List Octets) :=
    match number a, number b with
    | some m, some n =>
      let digits (s : String) : Octets := s.toList.filter Char.isDigit
      let padded := [a, b].any fun s => (digits s).length > 1 && (digits s).head? = some '0'
      let width := if padded then max a.length b.length else 0
      some ((countBetween m n step).map fun i =>
        let sign : Octets := if i < 0 then ['-'] else []
        sign ++ Shell.padded false '0' (width - sign.length) (naturalText i.natAbs))
    | _, _ =>
      match a.toList, b.toList with
      | [c], [d] =>
        if c.isAlpha && d.isAlpha then
          some ((countBetween c.toNat d.toNat step).map fun i => [Char.ofNat i.toNat])
        else none
      | _, _ => none
  match parts with
  | [a, b] => go a b 1
  | [a, b, s] => (number s).bind fun n => go a b n
  | _ => none

/-- The alternatives between braces, if it is that. -/
def braceParts (inner : Word) : Option (List Word) :=
  match splitCommas 0 [] inner with
  | [_] =>
    ((bareText? inner).bind sequenceTexts).map fun os => os.map fun o => o.map fun c => .char c false
  | parts => some parts

/-- The words that a word with braces stands for. -/
def expandBraces : Nat → Word → List Word
  | 0, w => [w]
  | fuel + 1, w =>
    match w with
    | [] => [[]]
    | p :: ps =>
      let found : Option (List Word × Word) :=
        match p with
        | .char '\x7b' false =>
          (braceLength 0 ps).bind fun n => (braceParts (ps.take n)).map fun a => (a, ps.drop (n + 1))
        | _ => none
      match found with
      | some (alternatives, behind) =>
        let backs := expandBraces fuel behind
        (alternatives.flatMap (expandBraces fuel)).flatMap fun a => backs.map fun b => a ++ b
      | none => (expandBraces fuel ps).map (p :: ·)

end Whittle.Shell
