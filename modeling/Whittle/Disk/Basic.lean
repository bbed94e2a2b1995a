import Whittle.Disk.Errno

/-!
# Directories and files

A `Disk` lists what stands at each `Location`, a location being the names from the root down; the
root itself is a directory that is not listed. Every regular file has an identity of its own, which
a new file at the same place does not share: an exclusive lock belongs to the identity, so a file
that is removed takes its lock out of reach. A relative path starts from `cwd`.
-/

namespace Whittle

abbrev Location := List String

/-- Contents are compared octet by octet. -/
instance decidableEqContent : DecidableEq ByteArray := ByteArray.instDecidableEq

inductive Node where
  | file (id : Nat) (content : ByteArray) (executable : Bool)
  | dir
  | link (target : String)
  /-- A device that is empty to a reader and takes whatever is written. -/
  | sink
  deriving DecidableEq, Inhabited

namespace Node

def isDir : Node → Bool
  | dir => true
  | _ => false

def isFile : Node → Bool
  | file .. => true
  | _ => false

end Node

structure Disk where
  entries : List (Location × Node)
  cwd : Location
  /-- Above the identity of every file. -/
  nextId : Nat
  /-- The identities under an exclusive lock. -/
  locked : List Nat
  deriving Inhabited

namespace Disk

def empty : Disk := ⟨[], [], 0, []⟩

/-- The value at the first pair with a key. -/
def valueAt {α β : Type} [DecidableEq α] (k : α) : List (α × β) → Option β
  | [] => none
  | e :: es => if e.1 = k then some e.2 else valueAt k es

/-- What stands at a location. -/
def get? (d : Disk) (l : Location) : Option Node :=
  if l = [] then some .dir else valueAt l d.entries

/-- The pairs with the value at one key replaced, or added at the end. -/
def assign {α β : Type} [DecidableEq α] (k : α) (v : β) : List (α × β) → List (α × β)
  | [] => [(k, v)]
  | e :: es => if e.1 = k then (k, v) :: es else e :: assign k v es

def put (d : Disk) (l : Location) (n : Node) : Disk :=
  { d with entries := assign l n d.entries }

/-- The disk without the entry at a location. -/
def erase (d : Disk) (l : Location) : Disk :=
  { d with entries := d.entries.filter fun e => e.1 ≠ l }

/-- The disk without the entries at and below a location. -/
def eraseTree (d : Disk) (l : Location) : Disk :=
  { d with entries := d.entries.filter fun e => !l.isPrefixOf e.1 }

/-- The entries below a location, each with its names from there. -/
def below (d : Disk) (l : Location) : List (Location × Node) :=
  d.entries.filterMap fun e =>
    if l.isPrefixOf e.1 ∧ e.1 ≠ l then some (e.1.drop l.length, e.2) else none

def hasChildren (d : Disk) (l : Location) : Bool := !(d.below l).isEmpty

/-- The entries at and below one location, placed at and below another. -/
def moveTree (d : Disk) (source target : Location) : Disk :=
  { d with entries := d.entries.map fun e =>
      if source.isPrefixOf e.1 then (target ++ e.1.drop source.length, e.2) else e }

/-- The absolute path of a location. -/
def pathOf (l : Location) : Path := ⟨"/" ++ String.intercalate "/" l⟩

theorem valueAt_assign {α β : Type} [DecidableEq α] (k k' : α) (v : β) (es : List (α × β)) :
    valueAt k' (assign k v es) = if k' = k then some v else valueAt k' es := by
  induction es with
  | nil => by_cases h : k = k' <;> simp [assign, valueAt, h, eq_comm]
  | cons e es ih =>
    by_cases ha : e.1 = k
    · by_cases h : k' = k
      · simp [assign, valueAt, ha, h]
      · simp [assign, valueAt, ha, h, Ne.symm h]
    · by_cases h : k' = k
      · subst h; simp [assign, valueAt, ha, ih]
      · simp [assign, valueAt, ha, ih, h]

theorem valueAt_filter {α β : Type} [DecidableEq α] (p : α → Bool) (k : α)
    (es : List (α × β)) :
    valueAt k (es.filter fun e => p e.1) = if p k then valueAt k es else none := by
  induction es with
  | nil => simp [valueAt]
  | cons e es ih =>
    by_cases h : e.1 = k
    · cases hp : p k <;> simp_all [valueAt]
    · cases hp : p e.1 <;> simp [valueAt, hp, h, ih]

theorem get?_put (d : Disk) {l : Location} (hl : l ≠ []) (n : Node) (l' : Location) :
    (d.put l n).get? l' = if l' = l then some n else d.get? l' := by
  by_cases h : l' = []
  · subst h; simp [get?, Ne.symm hl]
  · simp [get?, put, h, valueAt_assign]

theorem get?_erase (d : Disk) {l : Location} (hl : l ≠ []) (l' : Location) :
    (d.erase l).get? l' = if l' = l then none else d.get? l' := by
  by_cases h : l' = []
  · subst h; simp [get?, Ne.symm hl]
  · have := valueAt_filter (fun k => decide (k ≠ l)) l' d.entries
    simp only [get?, erase, h, ↓reduceIte]
    rw [this]
    by_cases hk : l' = l <;> simp [hk]

theorem get?_eraseTree (d : Disk) {l : Location} (hl : l ≠ []) (l' : Location) :
    (d.eraseTree l).get? l' = if l.isPrefixOf l' then none else d.get? l' := by
  by_cases h : l' = []
  · subst h
    cases l with
    | nil => exact absurd rfl hl
    | cons a as => simp [get?, List.isPrefixOf]
  · have := valueAt_filter (fun k => !l.isPrefixOf k) l' d.entries
    simp only [get?, eraseTree, h, ↓reduceIte]
    rw [this]
    by_cases hk : l.isPrefixOf l' <;> simp [hk]

end Disk

end Whittle
