/-!
# Paths as they are written

A `Path` keeps its text, which is what messages show. What it names is its list of `parts`:
repeated slashes, slashes at the end and single dots behind the first name are not parts. Two paths
are the `same` if their parts are.
-/

namespace Whittle

structure Path where
  text : String
  deriving DecidableEq, Repr, Inhabited

namespace Path

inductive Part where
  | root
  | here
  | up
  | name (n : String)
  deriving DecidableEq, Repr

/-- The texts between slashes, from the one before the first slash to the one after the last. -/
def segmentChars (cs : List Char) : List (List Char) :=
  cs.splitOn '/'

def segments (p : Path) : List String := (segmentChars p.text.toList).map String.ofList

def isAbsolute (p : Path) : Bool := p.text.toList.head? = some '/'

/-- Whether the segment at an index is a part: not empty, and a dot only in front. -/
def counts (index : Nat) (segment : String) : Bool :=
  segment ≠ "" ∧ (segment ≠ "." ∨ index = 0)

def partOf (segment : String) : Part :=
  if segment = "." then .here else if segment = ".." then .up else .name segment

/-- The segments that are parts, with their indices. -/
def significant (p : Path) : List (String × Nat) :=
  p.segments.zipIdx.filter fun s => counts s.2 s.1

def parts (p : Path) : List Part :=
  let named := p.significant.map fun s => partOf s.1
  if p.isAbsolute then .root :: named else named

def same (p q : Path) : Bool := p.parts = q.parts

/-- Whether `q` is `p` or an ancestor of `p`, part by part. -/
def startsWith (p q : Path) : Bool := q.parts.isPrefixOf p.parts

/-- The last part, if it is a name. -/
def fileName (p : Path) : Option String :=
  match p.significant.getLast? with
  | some s => match partOf s.1 with
    | .name n => some n
    | _ => none
  | none => none

/-- The text up to the last of the first `n` segments that is a part. -/
def textUpTo (p : Path) (n : Nat) : Path :=
  let kept := (p.segments.take n).zipIdx.reverse.dropWhile fun s => !counts s.2 s.1
  if kept.isEmpty then ⟨if p.isAbsolute then "/" else ""⟩
  else ⟨String.intercalate "/" (kept.reverse.map fun s => s.1)⟩

/-- The path without its last part; a root, and a path without parts, has no parent. -/
def parent (p : Path) : Option Path :=
  p.significant.getLast?.map fun s => p.textUpTo s.2

/-- A relative path is looked up from `p`; an absolute one stands for itself. -/
def join (p q : Path) : Path :=
  if q.isAbsolute then q
  else if p.text = "" ∨ p.text.toList.getLast? = some '/' then ⟨p.text ++ q.text⟩
  else ⟨p.text ++ "/" ++ q.text⟩

/-- A name is cut at its last dot, unless the dot is in front or there is none. -/
def splitName (name : String) : String × Option String :=
  let reversed := name.toList.reverse
  let ext := (reversed.takeWhile (· ≠ '.')).reverse
  let stem := ((reversed.dropWhile (· ≠ '.')).drop 1).reverse
  if stem = [] then (name, none) else (String.ofList stem, some (String.ofList ext))

def stem (p : Path) : Option String := p.fileName.map fun n => (splitName n).1

def extension (p : Path) : Option String := p.fileName.bind fun n => (splitName n).2

end Path

end Whittle
