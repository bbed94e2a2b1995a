import Whittle.Disk.Basic

/-!
# What has changed on a disk

`changes` lists what has to be done to one disk so that it holds what another one holds: what is
gone, or has become something else, is removed from the deepest place up; what is new is made from
the top down.
-/

namespace Whittle

inductive Change where
  | remove (place : Location) (dir : Bool)
  | makeDir (place : Location)
  | write (place : Location) (content : ByteArray) (executable : Bool)
  | link (place : Location) (target : String)
  deriving DecidableEq

namespace Disk

/-- Whether a node can become another one without being removed first. -/
def canBecome : Node → Node → Bool
  | .file .., .file .. => true
  | .dir, .dir => true
  | .link s, .link t => s = t
  | .sink, .sink => true
  | _, _ => false

def sameContent : Node → Node → Bool
  | .file _ c x, .file _ c' x' => c = c' && x = x'
  | .dir, .dir => true
  | .link s, .link t => s = t
  | .sink, .sink => true
  | _, _ => false

/-- What makes a node at a place; devices are not made. -/
def making? (place : Location) : Node → Option Change
  | .file _ content x => some (.write place content x)
  | .dir => some (.makeDir place)
  | .link target => some (.link place target)
  | .sink => none

def removals (before after : Disk) : List Change :=
  let gone := before.entries.filter fun e =>
    match after.get? e.1 with
    | some n => !canBecome e.2 n
    | none => true
  (gone.mergeSort fun a b => decide (b.1.length ≤ a.1.length)).map fun e =>
    .remove e.1 e.2.isDir

def additions (before after : Disk) : List Change :=
  let new := after.entries.filter fun e =>
    match before.get? e.1 with
    | some n => !sameContent n e.2
    | none => true
  (new.mergeSort fun a b => decide (a.1.length ≤ b.1.length)).filterMap fun e =>
    making? e.1 e.2

def changes (before after : Disk) : List Change := removals before after ++ additions before after

end Disk

end Whittle
