import Whittle.Text.Blank
import Whittle.Text.Lines
import Whittle.World

/-!
# Files of line numbers

A slice file holds one decimal line number on a line. `readLineNumbers` passes over whatever else
it finds: blank lines, other text, zero, and numbers that no line can have. The union of several
slices is written in ascending order.
-/

namespace Whittle.Slice

open Text

/-- The number on one line of a slice file. -/
def lineNumber (cs : List Char) : Option Nat :=
  (readNat (trimChars cs)).filter fun n => 0 < n && n < lineLimit

def readLineNumbers (s : String) : List Nat := (lineChars s.toList).filterMap lineNumber

def writeLineNumbers (ns : List Nat) : String :=
  String.ofList (unlinesChars (ns.map writeNat))

/-- The line number a tool reports for the failure: the only thing in its file. -/
def readSingle (s : String) : Option Nat := lineNumber s.toList

def load (p : Path) : Action (List Nat) := do
  return readLineNumbers (← Action.ask (·.readText p))

/-- No number if the file is missing, is not text, or holds anything but one. -/
def readSingleFile (d : Disk) (p : Path) : Option Nat :=
  match d.readText p with
  | .ok s => readSingle s
  | .error _ => none

def store (p : Path) (ns : List Nat) : Action Unit :=
  Action.change (·.writeText p (writeLineNumbers ns))

/-- Add a number to an ascending list, unless it is there. -/
def insert (n : Nat) : List Nat → List Nat
  | [] => [n]
  | m :: ms => if n < m then n :: m :: ms else if n = m then m :: ms else m :: insert n ms

/-- The numbers in ascending order, each once. -/
def ascending (ns : List Nat) : List Nat := ns.foldr insert []

theorem mem_insert {n k : Nat} {ms : List Nat} : k ∈ insert n ms ↔ k = n ∨ k ∈ ms := by
  induction ms with
  | nil => simp [insert]
  | cons m ms ih =>
    unfold insert
    split
    · simp
    · split
      · rename_i h; subst h; simp
      · simp only [List.mem_cons, ih]; exact or_left_comm

theorem mem_ascending {ns : List Nat} {k : Nat} : k ∈ ascending ns ↔ k ∈ ns := by
  induction ns with
  | nil => simp [ascending]
  | cons n ns ih => simp only [ascending, List.foldr_cons, mem_insert, List.mem_cons] at *; rw [ih]

theorem pairwise_insert {n : Nat} {ms : List Nat} (h : ms.Pairwise (· < ·)) :
    (insert n ms).Pairwise (· < ·) := by
  induction ms with
  | nil => simp [insert]
  | cons m ms ih =>
    obtain ⟨hm, hs⟩ := List.pairwise_cons.mp h
    unfold insert
    split
    · rename_i hlt
      refine List.pairwise_cons.mpr ⟨fun k hk => ?_, h⟩
      rcases List.mem_cons.mp hk with rfl | hk
      · exact hlt
      · exact Nat.lt_trans hlt (hm k hk)
    · rename_i hlt
      split
      · exact h
      · rename_i hne
        refine List.pairwise_cons.mpr ⟨fun k hk => ?_, ih hs⟩
        rcases mem_insert.mp hk with rfl | hk
        · omega
        · exact hm k hk

theorem pairwise_ascending (ns : List Nat) : (ascending ns).Pairwise (· < ·) := by
  induction ns with
  | nil => exact .nil
  | cons n ns ih => exact pairwise_insert ih

/-- The numbers of the files that can be read, and how many files those are. -/
def gather : List Path → Action (Nat × List Nat)
  | [] => return (0, [])
  | p :: ps => do
    match ← Action.attempt (load p) with
    | .ok ns =>
      let rest ← gather ps
      return (rest.1 + 1, ns ++ rest.2)
    | .error e =>
      Action.warn ("Skipping slice " ++ p.text ++ ": " ++ e.message)
      gather ps

/-- Write the union of slice files to `output`. Files that cannot be read are passed over; with no
file, no readable file, or no number in any, nothing is written. -/
def unify (files : List Path) (output : Path) : Action (List Nat) := do
  if files = [] then throw .nothingToUnify
  let (readable, ns) ← gather files
  if readable = 0 then throw .nothingReadable
  let union := ascending ns
  if union = [] then throw .emptyUnion
  store output union
  return union

end Whittle.Slice
