import Whittle.Disk.Basic
import Whittle.Shell.Script
import Whittle.Text.Numeral

/-!
# Variables

A variable holds a text, or texts by number or by key. One that was only declared holds nothing yet.
-/

namespace Whittle.Shell

def naturalText (n : Nat) : Octets := (Text.natText n).toList

def integerText (n : Int) : Octets := (Text.intText n).toList

inductive Value where
  | text (o : Octets)
  /-- Texts by number, in ascending order. -/
  | list (es : List (Nat × Octets))
  | table (es : List (Octets × Octets))
  deriving DecidableEq, Repr

namespace Value

/-- The part of a table that a key belongs to. -/
def partOfKey (key : Octets) : Nat :=
  let word (c : Char) : Nat := if c.toNat < 128 then c.toNat else Nat.pow 2 32 - 256 + c.toNat
  key.foldl (fun h c => ((h * 16777619) % Nat.pow 2 32) ^^^ word c) 2166136261 % 1024

/-- The entries of a table in the order in which they are gone through: by their parts, and in each of
them the last one first. -/
def ordered (es : List (Octets × Octets)) : List (Octets × Octets) :=
  let marked := es.reverse.map fun e => (partOfKey e.1, e)
  (marked.mergeSort fun a b => decide (a.1 ≤ b.1)).map Prod.snd

def ofList (os : List Octets) : Value := .list (os.zipIdx.map fun e => (e.2, e.1))

/-- Put an element where its number belongs. -/
def insert (i : Nat) (o : Octets) : List (Nat × Octets) → List (Nat × Octets)
  | [] => [(i, o)]
  | e :: es =>
    if e.1 = i then (i, o) :: es
    else if i < e.1 then (i, o) :: e :: es
    else e :: insert i o es

def elements : Value → List Octets
  | text o => [o]
  | list es => es.map Prod.snd
  | table es => (ordered es).map Prod.snd

def keys : Value → List Octets
  | text _ => [['0']]
  | list es => es.map fun e => naturalText e.1
  | table es => (ordered es).map Prod.fst

/-- The text that the name alone stands for. -/
def scalar? : Value → Option Octets
  | text o => some o
  | list es => Disk.valueAt 0 es
  | table es => Disk.valueAt ['0'] es

/-- One more than the last number. -/
def nextIndex : Value → Nat
  | text _ => 1
  | list es => (es.getLast?.map fun e => e.1 + 1).getD 0
  | table es => es.length

/-- The elements by number; a text is the first one. -/
def numbered : Value → List (Nat × Octets)
  | text o => [(0, o)]
  | list es => es
  | table _ => []

end Value

structure Variable where
  value : Option Value := none
  exported : Bool := false
  readonly : Bool := false
  /-- Whether what is assigned is computed first. -/
  integer : Bool := false
  /-- Whether what is assigned gets letters of one case. -/
  case : Option Bool := none
  /-- Whether the value is the name of the variable that is meant. -/
  reference : Bool := false
  deriving DecidableEq, Repr

abbrev Variables := List (String × Variable)

namespace Variables

/-- The name that a variable refers to, if it refers to one. -/
def referred? (vs : Variables) (name : String) : Option String :=
  match Disk.valueAt name vs with
  | some v => if v.reference then (v.value.bind Value.scalar?).map String.ofList else none
  | none => none

/-- The name of the variable that is meant by a name: references are followed, so many at most. -/
def followed (vs : Variables) : Nat → String → String
  | 0, name => name
  | n + 1, name =>
    match referred? vs name with
    | some other => followed vs n other
    | none => name

/-- The name of the variable that is meant by a name. -/
def meant (vs : Variables) (name : String) : String := followed vs 8 name

def text? (vs : Variables) (name : String) : Option Octets :=
  ((Disk.valueAt (meant vs name) vs).bind Variable.value).bind Value.scalar?

/-- The variables with a change made to one of them, or to a new one. -/
def change (vs : Variables) (name : String) (f : Variable → Variable) : Variables :=
  Disk.assign name (f ((Disk.valueAt name vs).getD {})) vs

def setText (vs : Variables) (name : String) (o : Octets) : Variables :=
  vs.change name fun v => { v with value := some (match v.value with
    | some (.list es) => .list (Value.insert 0 o es)
    | some (.table es) => .table (Disk.assign ['0'] o es)
    | _ => .text o) }

def erase (vs : Variables) (name : String) : Variables := vs.filter fun v => v.1 ≠ name

/-- What a program that is started gets to see. -/
def exports (vs : Variables) : Variables :=
  (vs.filter fun v => v.2.exported && (v.2.value.bind Value.scalar?).isSome).map fun v =>
    (v.1, { value := (v.2.value.bind Value.scalar?).map .text, exported := true })

end Variables

end Whittle.Shell
