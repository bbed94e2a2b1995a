import Whittle.Disk.Walk

/-!
# Reading and changing a disk

Each operation says which entry it touches. Those that can fail half way (`makeDirs`,
`removeTree`) return the disk as they leave it beside their result; the others return a disk only
if they succeed.
-/

namespace Whittle.Disk

/-- The bytes a path leads to. -/
def read (d : Disk) (p : Path) : Except IoError ByteArray :=
  match d.stat p with
  | .ok (_, .file _ content _) => .ok content
  | .ok (_, .sink) => .ok ByteArray.empty
  | .ok (_, _) => .error (.system .isDirectory)
  | .error e => .error (.system e)

def readText (d : Disk) (p : Path) : Except IoError String :=
  match d.read p with
  | .ok content =>
    match String.fromUTF8? content with
    | some s => .ok s
    | none => .error .notText
  | .error e => .error e

/-- Length in bytes of the file or directory a path leads to; a directory counts as non-empty. -/
def size (d : Disk) (p : Path) : Except IoError Nat :=
  match d.stat p with
  | .ok (_, .file _ content _) => .ok content.size
  | .ok (_, .sink) => .ok 0
  | .ok (_, _) => .ok pathLimit
  | .error e => .error (.system e)

/-- Give the file at a path new content, making it if nothing is there. A file that is there keeps
its identity and its mode. -/
def write (d : Disk) (p : Path) (content : ByteArray) (executable : Bool) : Except IoError Disk :=
  match d.locate .file p with
  | .error e => .error (.system e)
  | .ok l =>
    match d.get? l with
    | some (.file id _ x) => .ok (d.put l (.file id content x))
    | some .sink => .ok d
    | some _ => .error (.system .isDirectory)
    | none =>
      .ok { d.put l (.file d.nextId content executable) with nextId := d.nextId + 1 }

def writeText (d : Disk) (p : Path) (text : String) : Except IoError Disk :=
  d.write p text.toUTF8 false

/-- The bytes of the file at a location; none if no file stands there. -/
def contentAt (d : Disk) (l : Location) : ByteArray :=
  match d.get? l with
  | some (.file _ content _) => content
  | _ => ByteArray.empty

/-- Copy the content and the mode of a regular file. The target is emptied before the source is
read, so a file copied to itself ends up empty. -/
def copy (d : Disk) (source target : Path) : Except IoError Disk :=
  match d.stat source with
  | .error e => .error (.system e)
  | .ok (from_, .file _ _ executable) =>
    match d.write target ByteArray.empty executable with
    | .error e => .error e
    | .ok emptied =>
      match emptied.locate .file target with
      | .error e => .error (.system e)
      | .ok goal =>
        match emptied.get? goal with
        | some (.file id _ _) =>
          .ok (emptied.put goal (.file id (emptied.contentAt from_) executable))
        | some .sink => .ok emptied
        | _ => .error (.system .isDirectory)
  | .ok (_, _) => .error .notRegular

/-- Remove a file or a link. -/
def unlink (d : Disk) (p : Path) : Except IoError Disk :=
  match d.locateEntry p with
  | .error e => .error (.system e)
  | .ok l =>
    match d.get? l with
    | none => .error (.system .notFound)
    | some .dir => .error (.system .isDirectory)
    | some _ => if endsInSlash p.text then .error (.system .notDirectory) else .ok (d.erase l)

/-- Make one directory. -/
def makeDir (d : Disk) (p : Path) : Except IoError Disk :=
  match d.locateEntry p with
  | .error e => .error (.system e)
  | .ok l =>
    match d.get? l with
    | some _ => .error (.system .alreadyExists)
    | none => .ok (d.put l .dir)

/-- Remove an empty directory. -/
def removeDir (d : Disk) (p : Path) : Except IoError Disk :=
  match d.locateEntry p with
  | .error e => .error (.system e)
  | .ok l =>
    match (namesOf p.text).getLast? with
    | none => .error (.system .busy)
    | some "." => .error (.system .invalidArgument)
    | some ".." => .error (.system .notEmpty)
    | some _ =>
      match d.get? l with
      | none => .error (.system .notFound)
      | some .dir => if d.hasChildren l then .error (.system .notEmpty) else .ok (d.erase l)
      | some _ => .error (.system .notDirectory)

/-- Make a directory and the ancestors it lacks; `fuel` bounds the number of its parts. -/
def makeDirsFrom (d : Disk) (p : Path) : Nat → Except IoError Unit × Disk
  | 0 => (.error .noAncestor, d)
  | fuel + 1 =>
    if p.parts = [] then (.ok (), d)
    else
      match d.makeDir p with
      | .ok d' => (.ok (), d')
      | .error e =>
        if e.isNotFound then
          match p.parent with
          | none => (.error .noAncestor, d)
          | some parent =>
            match d.makeDirsFrom parent fuel with
            | (.error e', d') => (.error e', d')
            | (.ok (), d') =>
              match d'.makeDir p with
              | .ok d'' => (.ok (), d'')
              | .error e' => if d'.isDir p then (.ok (), d') else (.error e', d')
        else if d.isDir p then (.ok (), d) else (.error e, d)

def makeDirs (d : Disk) (p : Path) : Except IoError Unit × Disk :=
  d.makeDirsFrom p (p.parts.length + 1)

/-- Remove a directory with everything below it, or a link without following it. What has gone
when the directory itself is to be removed does not count as a failure. -/
def removeTree (d : Disk) (p : Path) : Except IoError Unit × Disk :=
  match d.lstat p with
  | .error e => (.error (.system e), d)
  | .ok (l, .link _) => (.ok (), d.erase l)
  | .ok (l, .dir) =>
    let emptied : Disk :=
      { d with entries := d.entries.filter fun e => !(l.isPrefixOf e.1) || e.1 = l }
    match emptied.removeDir p with
    | .ok d' => (.ok (), d')
    | .error e => if e.isNotFound then (.ok (), emptied) else (.error e, emptied)
  | .ok (_, _) => (.error (.system .notDirectory), d)

/-- Whether the last name of a path is the name of an entry, and not a dot, two dots or nothing. -/
def endsInName (p : Path) : Bool :=
  match (namesOf p.text).getLast? with
  | none => false
  | some n => n ≠ "." ∧ n ≠ ".."

/-- Whether an entry of one kind may take the place of another: a file or link that of a file or
link, a directory that of an empty directory. -/
def replaces (d : Disk) (n : Node) (t : Location) : Except Errno Unit :=
  match n.isDir, d.get? t with
  | _, none => .ok ()
  | false, some .dir => .error .isDirectory
  | false, some _ => .ok ()
  | true, some .dir => if d.hasChildren t then .error .notEmpty else .ok ()
  | true, some _ => .error .notDirectory

/-- Where an entry is to be moved from and to. A slash at the end is for directories only, and none
may go below itself. -/
def checkMove (d : Disk) (source target : Path) : Except Errno (Location × Location) := do
  let s ← d.locateEntry source
  let t ← d.locateEntry target
  if !endsInName source || !endsInName target then .error .busy
  match d.get? s with
  | none => .error .notFound
  | some .sink => .error .acrossDevices
  | some n =>
    if !n.isDir && (endsInSlash source.text || endsInSlash target.text) then .error .notDirectory
    else if s = t then .ok (s, t)
    else if s.isPrefixOf t then .error .invalidArgument
    else if t.isPrefixOf s then .error .notEmpty
    else
      d.replaces n t
      .ok (s, t)

/-- Give an entry, with what is below it, another place. -/
def rename (d : Disk) (source target : Path) : Except IoError Disk :=
  match d.checkMove source target with
  | .error e => .error (.system e)
  | .ok (s, t) => .ok (if s = t then d else (d.erase t).moveTree s t)

/-- The content of the file of an identity, wherever it stands. -/
def contentOf? (d : Disk) (id : Nat) : Option ByteArray :=
  d.entries.findSome? fun e =>
    match e.2 with
    | .file i content _ => if i = id then some content else none
    | _ => none

/-- Give the file of an identity new content, wherever it stands. -/
def setContent (d : Disk) (id : Nat) (content : ByteArray) : Disk :=
  { d with entries := d.entries.map fun e =>
      match e.2 with
      | .file i c x => (e.1, .file i (if i = id then content else c) x)
      | n => (e.1, n) }

/-- Take the exclusive lock of a file, if no one holds it. -/
def tryLock (d : Disk) (id : Nat) : Option Disk :=
  if id ∈ d.locked then none else some { d with locked := id :: d.locked }

def unlock (d : Disk) (id : Nat) : Disk := { d with locked := d.locked.filter (· ≠ id) }

end Whittle.Disk
