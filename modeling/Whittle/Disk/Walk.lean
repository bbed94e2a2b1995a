import Whittle.Disk.Basic

/-!
# From a path to a location

`walk` follows the names of a path one by one. A link on the way is replaced by the names of its
target; what happens to a link at the end is for the purpose of the walk to say. The last name may be
missing, everything before it must be a directory. At most `linkBudget` links are followed.
-/

namespace Whittle.Disk

def linkBudget : Nat := 40

/-- Longest name, and one more than the longest path, in bytes. -/
def nameLimit : Nat := 255
def pathLimit : Nat := 4096

/-- The names of a path, dots included. -/
def namesOf (text : String) : List String :=
  (Path.segments ⟨text⟩).filter (· ≠ "")

def endsInSlash (text : String) : Bool := text.toList.getLast? = some '/'

/-- The names of a path, and an empty one for a slash at the end: it asks for a directory. -/
def stepsOf (text : String) : List String :=
  let names := namesOf text
  if names ≠ [] ∧ endsInSlash text then names ++ [""] else names

/-- What a walk is for. -/
inductive Purpose where
  /-- What the path leads to, a link at the end followed. -/
  | target
  /-- The entry that the path names, be it a link. -/
  | entry
  /-- A file that may have to be made: no slash may follow its name. -/
  | file
  deriving DecidableEq, Repr

def isAbsoluteText (text : String) : Bool := (Path.mk text).isAbsolute

/-- Follow `names` from the directory `here` up to the first link that is to be followed; `follow`
goes on from there. -/
def walkNames (d : Disk) (purpose : Purpose)
    (follow : Location → List String → Except Errno Location) (here : Location) :
    List String → Except Errno Location
  | [] => .ok here
  | name :: rest =>
    if name = "" ∨ name = "." then walkNames d purpose follow here rest
    else if name = ".." then walkNames d purpose follow here.dropLast rest
    else if purpose = .file ∧ rest = [""] then .error .isDirectory
    else if name.utf8ByteSize > nameLimit then .error .nameTooLong
    else
      match d.get? (here ++ [name]) with
      | none => if rest = [] then .ok (here ++ [name]) else .error .notFound
      | some .dir => walkNames d purpose follow (here ++ [name]) rest
      | some (.link target) =>
        if rest = [] ∧ purpose = .entry then .ok (here ++ [name])
        else follow (if isAbsoluteText target then [] else here) (stepsOf target ++ rest)
      | some _ => if rest = [] then .ok (here ++ [name]) else .error .notDirectory

/-- Follow `names` from the directory `here`, and as many links on the way as are allowed. The
result may be a place where nothing stands. -/
def walk (d : Disk) (purpose : Purpose) : Nat → Location → List String → Except Errno Location
  | 0 => walkNames d purpose fun _ _ => .error .tooManyLinks
  | links + 1 => walkNames d purpose (walk d purpose links)

def startOf (d : Disk) (text : String) : Location := if isAbsoluteText text then [] else d.cwd

/-- Refusals that do not depend on what is on the disk. -/
def checkText (text : String) : Except Errno Unit :=
  if '\x00' ∈ text.toList then .error .nulInName
  else if text = "" then .error .notFound
  else if text.utf8ByteSize ≥ pathLimit then .error .nameTooLong
  else .ok ()

/-- Where a path leads; nothing need stand there. -/
def locate (d : Disk) (purpose : Purpose) (p : Path) : Except Errno Location := do
  checkText p.text
  walk d purpose linkBudget (d.startOf p.text) (stepsOf p.text)

/-- The entry that the last name of a path stands for, a slash at the end set aside. -/
def locateEntry (d : Disk) (p : Path) : Except Errno Location := do
  checkText p.text
  walk d .entry linkBudget (d.startOf p.text) (namesOf p.text)

/-- What a path leads to, links at the end followed. -/
def stat (d : Disk) (p : Path) : Except Errno (Location × Node) := do
  let l ← d.locate .target p
  match d.get? l with
  | some n => .ok (l, n)
  | none => .error .notFound

/-- What a path leads to, a link at the end not followed. -/
def lstat (d : Disk) (p : Path) : Except Errno (Location × Node) := do
  let l ← d.locate .entry p
  match d.get? l with
  | some n => .ok (l, n)
  | none => .error .notFound

def pathExists (d : Disk) (p : Path) : Bool := (d.stat p).isOk

def isFile (d : Disk) (p : Path) : Bool :=
  match d.stat p with
  | .ok (_, n) => n.isFile
  | .error _ => false

def isDir (d : Disk) (p : Path) : Bool :=
  match d.stat p with
  | .ok (_, n) => n.isDir
  | .error _ => false

/-- The absolute path without links, dots and repeated slashes of something that is there. -/
def canonical (d : Disk) (p : Path) : Except IoError Path :=
  match d.stat p with
  | .ok (l, _) => .ok (pathOf l)
  | .error e => .error (.system e)

end Whittle.Disk
