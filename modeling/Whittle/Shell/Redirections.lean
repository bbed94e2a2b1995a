import Whittle.Shell.Words

/-!
# Redirections

A redirection lets a stream lead elsewhere. Those of a command hold until it is done; the first one
that fails keeps the command from running.
-/

namespace Whittle.Shell

open Doing

/-- Why a file could not be opened, in the words of a dialect. -/
def openingFault (rich making : Bool) (name : Octets) (e : IoError) : String :=
  let text := Octets.text name
  if rich then text ++ ": " ++ wordingOf e
  else
    let missing := match e with
      | .system .notFound => true
      | .system .notDirectory => true
      | _ => false
    if making then
      "cannot create " ++ text ++ ": " ++ (if missing then "Directory nonexistent" else wordingOf e)
    else "cannot open " ++ text ++ ": " ++ (if missing then "No such file" else wordingOf e)

/-- The name of a file that a word stands for: in the rich dialect it has to be one field. -/
def targetOf (E : Engine) (w : Word) : Doing (Option Octets) := do
  if (← get).isRich then
    match ← fieldsOf E w with
    | [o] => return some o
    | _ =>
      object (Octets.text (plainOf w) ++ ": ambiguous redirect")
      return none
  else return some (← textOf E w)

/-- Let a stream lead to what a file was opened as. -/
def lead (stream : Nat) (making : Bool) (name : Octets)
    (opened : Process → Except IoError (Nat × Process)) : Doing Bool := do
  let p ← get
  match opened p with
  | .ok (key, p) =>
    set (p.setStream stream key)
    return true
  | .error e =>
    object (openingFault p.isRich making name e)
    return false

/-- Whether a file may not be written over. -/
def isProtected (p : Process) (clobber : Bool) (name : Octets) : Bool :=
  !clobber && p.hasOption "noclobber" && p.disk.isFile (p.fileOf name)

/-- Let a stream lead where another one goes, or close it. -/
def leadAlike (stream : Nat) (other : Octets) : Doing Bool := do
  let p ← get
  let moves := other.getLast? = some '-'
  let source := if moves then other.dropLast else other
  if moves && source.isEmpty then
    set (p.closeStream stream)
    return true
  else
    match Text.readNat source with
    | none =>
      if p.isRich then
        object (Octets.text other ++ ": ambiguous redirect")
        return false
      else
        object "Syntax error: Bad fd number"
        throw (.exit 2)
    | some n =>
      match Disk.valueAt n p.streams with
      | some key =>
        let p := p.setStream stream key
        set (if moves ∧ n ≠ stream then p.closeStream n else p)
        return true
      | none =>
        object (Octets.text source ++ ": Bad file descriptor")
        return false

/-- A redirection, of the stream of a number. -/
def Redirection.on (n : Nat) : Redirection → Redirection
  | .read _ w => .read (some n) w
  | .write _ append clobber w => .write (some n) append clobber w
  | .readWrite _ w => .readWrite (some n) w
  | .here _ w => .here (some n) w
  | .line _ w => .line (some n) w
  | .same _ w => .same n w
  | r => r

/-- Whether a redirection closes a stream. -/
def Redirection.closes : Redirection → Bool
  | .same _ w => plainOf w = ['-']
  | _ => false

/-- Do what a redirection says, one of a named stream aside; the answer is whether that worked. -/
def redirectPlainly (E : Engine) (r : Redirection) : Doing Bool := do
  match r with
  | .named _ _ => return false
  | .here stream content =>
    let o ← textOf E content
    modify fun p =>
      let (key, p) := p.addChannel (.source o)
      p.setStream (stream.getD 0) key
    return true
  | .line stream content =>
    let o ← textOf E content
    modify fun p =>
      let (key, p) := p.addChannel (.source (o ++ ['\n']))
      p.setStream (stream.getD 0) key
    return true
  | .read stream file =>
    match ← targetOf E file with
    | none => return false
    | some name => lead (stream.getD 0) false name fun p => p.openForReading name
  | .readWrite stream file =>
    match ← targetOf E file with
    | none => return false
    | some name => lead (stream.getD 0) true name fun p => p.openForBoth name
  | .write stream append clobber file =>
    match ← targetOf E file with
    | none => return false
    | some name =>
      let p ← get
      if !append && isProtected p clobber name then
        object (if p.isRich then Octets.text name ++ ": cannot overwrite existing file"
          else "cannot create " ++ Octets.text name ++ ": File exists")
        return false
      else lead (stream.getD 1) true name fun p => p.openForWriting name append
  | .both append file =>
    match ← targetOf E file with
    | none => return false
    | some name =>
      if ← lead 1 true name fun p => p.openForWriting name append then leadAlike 2 ['1']
      else return false
  | .same stream other => leadAlike stream (← textOf E other)

/-- Do what a redirection says; the answer is whether that worked. -/
def redirectOne (E : Engine) (r : Redirection) : Doing Bool := do
  match r with
  | .named name r =>
    let p ← get
    if r.closes then
      set (p.closeStream (numberOf ((p.valueOf? name).getD [])))
      return true
    else
      let free := (List.range 30).map (· + 10)
      let n := (free.find? fun n => (Disk.valueAt n p.streams).isNone).getD 39
      if ← redirectPlainly E (r.on n) then
        Arithmetic.assignText name none (naturalText n)
        return true
      else return false
  | r => redirectPlainly E r

/-- Do what redirections say, up to the first one that fails. -/
def redirect (E : Engine) : List Redirection → Doing Bool
  | [] => return true
  | r :: rs => do if ← redirectOne E r then redirect E rs else return false

/-- Run the commands that wait for what was written to their streams, but those of an outer command:
so many are theirs. -/
def settle (E : Engine) (outer : Nat) : Doing Unit := do
  let p ← get
  let mine := p.shell.pending.take (p.shell.pending.length - outer)
  if !mine.isEmpty then
    onShell fun i => { i with pending := i.pending.drop mine.length }
    for (stream, body) in mine.reverse do
      let q ← get
      let o : Octets := match q.channel? stream with
        | some (_, .collector _ pieces) => pieces.reverse.flatten
        | _ => []
      let feed (q : Process) : Process :=
        let (key, q) := q.apart.addChannel (.source o)
        q.setStream 0 key
      let _ ← asChild feed (closing E do
        for c in body do
          E.exec false c)
      modify fun q => q.closeStream stream

/-- Do something under redirections; afterwards the streams are the old ones. The answer is whether
all of them worked. -/
def underRedirections (E : Engine) (rs : List Redirection) (act : Doing Unit) : Doing Bool := do
  let outer := (← get).shell.pending.length
  if rs.isEmpty then
    act
    return true
  else
    keepingStreams do
      if ← redirect E rs then
        act
        settle E outer
        return true
      else
        settle E outer
        return false

end Whittle.Shell
