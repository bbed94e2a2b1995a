import Whittle.CommandLine.Request

/-!
# Reading the words of a command line

An option is `--name=value`, `--name value`, or for some `-nvalue`, `-n=value` or `-n value`, and
each may stand once. A value in a word of its own is looked at only when the next option or the end
is reached, so an unknown word before that wins over a value that is refused. Asking for help or
for the version ends the reading at once. Nothing may follow a `--`.
-/

namespace Whittle.CommandLine

/-- Why a command line leads to no request. -/
inductive Halt where
  | help
  | version
  | refused (reason : Refusal)
  deriving DecidableEq, Repr

namespace Halt

def exitCode : Halt → Nat
  | help => 0
  | version => 0
  | refused _ => 2

end Halt

/-- What a word is, taken by itself. -/
inductive Shape where
  | escape
  | long (name : String) (value : Option String)
  | short (letter : Char) (value : Option String)
  | plain
  deriving DecidableEq, Repr

/-- The text behind the first equals sign. -/
def valueBehindEquals (cs : List Char) : Option String :=
  match cs.dropWhile (· ≠ '=') with
  | _ :: value => some (String.ofList value)
  | [] => none

/-- A value that follows its letter at once may be set off by an equals sign. -/
def attachedValue : List Char → Option String
  | [] => none
  | '=' :: value => some (String.ofList value)
  | value => some (String.ofList value)

def shapeOf (word : String) : Shape :=
  match word.toList with
  | ['-', '-'] => .escape
  | '-' :: '-' :: cs =>
    .long (String.ofList (cs.takeWhile (· ≠ '='))) (valueBehindEquals cs)
  | '-' :: c :: cs => .short c (attachedValue cs)
  | _ => .plain

/-- How far the reading has come. `pending` is an option whose value has a word of its own, with
that word once it was read. -/
structure Reading where
  request : Request := {}
  given : List Opt := []
  pending : Option (Opt × Option String) := none

namespace Reading

def refuse {α : Type} (r : Refusal) : Except Halt α := .error (.refused r)

/-- Take a value for an option. -/
def take (r : Reading) (o : Opt) (value : String) : Except Halt Reading :=
  if o ∈ r.given then refuse .repeated
  else
    match o.set value r.request with
    | .ok request => .ok { r with request := request, given := o :: r.given }
    | .error e => refuse e

/-- Take the value of the pending option. -/
def settle (r : Reading) : Except Halt Reading :=
  match r.pending with
  | none => .ok r
  | some (_, none) => refuse .valueMissing
  | some (o, some value) => take { r with pending := none } o value

/-- The pending option that still has no value. -/
def awaiting (r : Reading) : Option Opt :=
  match r.pending with
  | some (o, none) => some o
  | _ => none

/-- Start an option. -/
def start (r : Reading) (o : Opt) (value : Option String) : Except Halt Reading := do
  let r ← r.settle
  match value with
  | some v => r.take o v
  | none => return { r with pending := some (o, none) }

def halt (r : Reading) (h : Halt) : Except Halt Reading := do
  let _ ← r.settle
  .error h

def long (r : Reading) (name : String) (value : Option String) : Except Halt Reading :=
  if name = "help" ∨ name = "version" then
    if value.isSome then refuse .valueUnwanted
    else r.halt (if name = "help" then .help else .version)
  else
    match Opt.ofLong name with
    | some o => r.start o value
    | none => refuse .unknownArgument

def short (r : Reading) (letter : Char) (value : Option String) : Except Halt Reading :=
  if letter = 'h' then r.halt .help
  else if letter = 'V' then r.halt .version
  else
    match Opt.ofShort letter with
    | some o => r.start o value
    | none => refuse .unknownArgument

/-- Read the words that are left. -/
def readWords (r : Reading) : List String → Except Halt Reading
  | [] => r.settle
  | word :: rest =>
    match r.awaiting with
    | some o =>
      if o.takesHyphens || shapeOf word == .plain then
        readWords { r with pending := some (o, some word) } rest
      else step r word rest
    | none => step r word rest
where
  /-- A word that is not the value of the option before it. -/
  step (r : Reading) (word : String) (rest : List String) : Except Halt Reading :=
    match shapeOf word with
    | .escape => if rest = [] then r.settle else refuse .unknownArgument
    | .long name value => do readWords (← r.long name value) rest
    | .short letter value => do readWords (← r.short letter value) rest
    | .plain => refuse .unknownArgument

end Reading

/-- The request of a command line. -/
def read (words : List String) : Except Halt Request := do
  let r ← Reading.readWords {} words
  if Opt.required.all (· ∈ r.given) then return r.request
  else Reading.refuse .optionMissing

def programName : String := "autopie"

/-- What can stand on a command line. -/
def usage : String :=
  let line (o : Opt) : String :=
    let short := (o.short.map fun c => "-" ++ String.singleton c ++ ", ").getD "    "
    let mark := if o ∈ Opt.required then " (required)" else ""
    "  " ++ short ++ "--" ++ o.long ++ " <value>" ++ mark
  "Usage: " ++ programName ++ " [OPTIONS]\n\nOptions:\n" ++
    String.intercalate "\n" (Opt.all.map line) ++ "\n  -h, --help\n  -V, --version"

end Whittle.CommandLine
