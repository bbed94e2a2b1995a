import Whittle.Shell.FileTools

/-!
# Differences between texts

Two texts share a longest common subsequence of lines. What stands between shared lines is a change:
lines of the first text that are replaced by lines of the second.
-/

namespace Whittle.Shell

open Doing

/-- The lengths of the longest common subsequences of what is left of two texts, a row for each line
of the first one from the last on, and a column for each place of the second one. -/
def commonRow (ys : Array Octets) (x : Octets) (below : Array Nat) : Array Nat :=
  let step (acc : List Nat × Nat) (j : Nat) : List Nat × Nat :=
    let n := if ys[j]?.any (· = x) then below.getD (j + 1) 0 + 1 else max (below.getD j 0) acc.2
    (n :: acc.1, n)
  ((List.range ys.size).reverse.foldl step ([0], 0)).1.toArray

def commonTable (xs : List Octets) (ys : Array Octets) : List (Array Nat) :=
  xs.foldr (fun x rows => commonRow ys x (rows.headD #[]) :: rows)
    [(List.replicate (ys.size + 1) 0).toArray]

/-- A change: where it stands in each text, and the lines there. -/
structure Change where
  first : Nat
  removed : List Octets
  second : Nat
  added : List Octets
  deriving Repr

/-- What to do with the next line of a text or of both. -/
inductive LineStep where
  | keep
  | remove
  | add
  deriving DecidableEq, Repr

/-- The steps from one text to another. -/
def stepsBetween (key : Octets → Octets) (ys : Array Octets) :
    Nat → List Octets → List (Array Nat) → Nat → List LineStep
  | 0, _, _, _ => []
  | n + 1, xs, rows, j =>
    match xs with
    | [] => List.replicate (ys.size - j) .add
    | x :: xs' =>
      match ys[j]? with
      | none => xs.map fun _ => .remove
      | some y =>
        let below := (rows.drop 1).headD #[]
        let here := rows.headD #[]
        if key x = key y then .keep :: stepsBetween key ys n xs' (rows.drop 1) (j + 1)
        else if below.getD j 0 ≥ here.getD (j + 1) 0 then
          .remove :: stepsBetween key ys n xs' (rows.drop 1) j
        else .add :: stepsBetween key ys n xs rows (j + 1)

/-- The changes that steps make, given what is left of both texts and where that stands. -/
def changesOf (open_ : Option Change) (i j : Nat) :
    List LineStep → List Octets → List Octets → List Change
  | [], _, _ => open_.toList
  | s :: ss, xs, ys =>
    let c := open_.getD ⟨i, [], j, []⟩
    match s with
    | .keep => open_.toList ++ changesOf none (i + 1) (j + 1) ss (xs.drop 1) (ys.drop 1)
    | .remove =>
      changesOf (some { c with removed := c.removed ++ xs.take 1 }) (i + 1) j ss (xs.drop 1) ys
    | .add => changesOf (some { c with added := c.added ++ ys.take 1 }) i (j + 1) ss xs (ys.drop 1)

/-- The changes between two texts. `key` says which lines are alike. -/
def changesBetween (key : Octets → Octets) (xs ys : List Octets) : List Change :=
  let keys := (ys.map key).toArray
  let rows := commonTable (xs.map key) keys
  let steps := stepsBetween id keys (xs.length + ys.length + 1) (xs.map key) rows 0
  changesOf none 0 0 steps xs ys

/-- The lines from one on, as a change names them. -/
def lineSpan (first count : Nat) : Octets :=
  if count = 0 then naturalText first
  else if count = 1 then naturalText (first + 1)
  else naturalText (first + 1) ++ ',' :: naturalText (first + count)

/-- A line of a text with a mark in front; one that was not ended is told so. -/
def markedLine (mark : String) (l : Octets) : Octets :=
  mark.toList ++ (if l.getLast? = some '\n' then l
    else l ++ "\n\\ No newline at end of file\n".toList)

def showChange (c : Change) : Octets :=
  let letter := if c.removed.isEmpty then 'a' else if c.added.isEmpty then 'd' else 'c'
  lineSpan c.first c.removed.length ++ letter :: lineSpan c.second c.added.length ++ ['\n'] ++
    c.removed.flatMap (markedLine "< ") ++
    (if letter = 'c' then "---\n".toList else []) ++ c.added.flatMap (markedLine "> ")

/-- A stretch of both texts around changes, as a unified listing shows it. -/
structure Hunk where
  first : Nat
  second : Nat
  lines : List (Char × Octets)

/-- All lines with a mark for each. -/
def markedLines : List LineStep → List Octets → List Octets → List (Char × Octets)
  | [], _, _ => []
  | .keep :: ss, xs, ys => (' ', xs.headD []) :: markedLines ss (xs.drop 1) (ys.drop 1)
  | .remove :: ss, xs, ys => ('-', xs.headD []) :: markedLines ss (xs.drop 1) ys
  | .add :: ss, xs, ys => ('+', ys.headD []) :: markedLines ss xs (ys.drop 1)

/-- Cut marked lines into hunks: lines stay that are not far from a change. -/
def hunksOf (around : Nat) (all : Array (Char × Octets)) : Nat → Nat → Nat → Nat → Option Hunk →
    List Hunk
  | 0, _, _, _, h => h.toList
  | n + 1, i, x, y, h =>
    match all[i]? with
    | none => h.toList
    | some l =>
      let near := ((List.range (2 * around + 1)).any fun d =>
        i + d ≥ around && (all[i + d - around]?).any fun m => m.1 ≠ ' ')
      let x' := if l.1 = '+' then x else x + 1
      let y' := if l.1 = '-' then y else y + 1
      if near then
        let h := h.getD ⟨x, y, []⟩
        hunksOf around all n (i + 1) x' y' (some { h with lines := h.lines ++ [l] })
      else h.toList ++ hunksOf around all n (i + 1) x' y' none

def showHunk (h : Hunk) : Octets :=
  let span (first : Nat) (mark : Char) : Octets :=
    let count := (h.lines.filter fun l => l.1 = ' ' || l.1 = mark).length
    naturalText (if count = 0 then first else first + 1) ++
      (if count = 1 then [] else ',' :: naturalText count)
  "@@ -".toList ++ span h.first '-' ++ " +".toList ++ span h.second '+' ++ " @@\n".toList ++
    h.lines.flatMap fun l => markedLine (String.singleton l.1) l.2

/-- Compare two texts and show how they differ: the code. -/
def diffTexts (a : Arguments) (x y : Octets) (s t : Octets) : Doing Nat := do
  let key (l : Octets) : Octets :=
    let l := if a.has 'i' then l.map Char.toLower else l
    if a.has 'w' then l.filter fun c => !isSpaceOctet c
    else if a.has 'b' then
      List.intercalate [' '] ((l.splitOnP isSpaceOctet).filter (· ≠ []))
    else l
  let kept (o : Octets) : List Octets :=
    let ls := rawLines o
    if a.has 'B' then ls.filter (· ≠ ['\n']) else ls
  let xs := kept s
  let ys := kept t
  if xs.map key = ys.map key then
    if a.has 's' then
      writeText ("Files " ++ Octets.text x ++ " and " ++ Octets.text y ++ " are identical\n")
    return 0
  else if a.has 'q' || (s ++ t).contains '\x00' then
    writeText ((if a.has 'q' then "Files " else "Binary files ") ++ Octets.text x ++ " and " ++
      Octets.text y ++ " differ\n")
    return 1
  else if a.has 'u' || a.has 'U' then
    let keys := (ys.map key).toArray
    let steps := stepsBetween id keys (xs.length + ys.length + 1) (xs.map key)
      (commonTable (xs.map key) keys) 0
    let all := (markedLines steps xs ys).toArray
    let around := ((a.value? 'U').map numberOf).getD 3
    let labels := a.values 'L'
    write ("--- ".toList ++ labels.getD 0 x ++ "\n+++ ".toList ++ labels.getD 1 y ++ ['\n'] ++
      (hunksOf around all (all.size + 1) 0 0 0 none).flatMap showHunk)
    return 1
  else
    write ((changesBetween key xs ys).flatMap showChange)
    return 1

/-- Compare what two paths lead to, directories name by name; the number bounds their depth. -/
def diffPaths (a : Arguments) (headed : Bool) : Nat → Octets → Octets → Doing Nat
  | 0, _, _ => return 2
  | n + 1, x, y => do
    let p ← get
    let dirX := x ≠ ['-'] && p.disk.isDir (p.fileOf x)
    let dirY := y ≠ ['-'] && p.disk.isDir (p.fileOf y)
    if dirX && dirY then
      let xs := namesIn p.disk (p.fileOf x)
      let ys := namesIn p.disk (p.fileOf y)
      let names := (xs ++ ys.filter fun n => !xs.contains n).mergeSort fun a b => decide (a ≤ b)
      forAll names fun name => do
        let only (dir : Octets) : Doing Nat := do
          writeText ("Only in " ++ Octets.text dir ++ ": " ++ Octets.text name ++ "\n")
          return 1
        if !ys.contains name then only x
        else if !xs.contains name then only y
        else
          let q ← get
          let both := q.disk.isDir (q.fileOf (below x name)) && q.disk.isDir (q.fileOf (below y name))
          if both && !a.has 'r' then
            writeText ("Common subdirectories: " ++ Octets.text (below x name) ++ " and " ++
              Octets.text (below y name) ++ "\n")
            return 0
          else diffPaths a true n (below x name) (below y name)
    else
      let x' := if dirX && !dirY then below x (lastName y) else x
      let y' := if dirY && !dirX then below y (lastName x) else y
      let s ← contentOf x'
      let t ← contentOf y'
      let empty := a.has 'N'
      match s, t with
      | .ok s, .ok t =>
        if headed && s ≠ t && !a.has 'q' then
          write ("diff ".toList ++ (if a.has 'r' then "-r ".toList else []) ++ x' ++ ' ' :: y' ++
            ['\n'])
        diffTexts a x' y' s t
      | .error _, .ok t =>
        if empty then diffTexts a x' y' [] t
        else refuseTo "diff" (Octets.text x' ++ ": No such file or directory") 2
      | .ok s, .error _ =>
        if empty then diffTexts a x' y' s []
        else refuseTo "diff" (Octets.text y' ++ ": No such file or directory") 2
      | .error _, .error _ =>
        complain ("diff: " ++ Octets.text x' ++ ": No such file or directory")
        refuseTo "diff" (Octets.text y' ++ ": No such file or directory") 2

def diff (ws : List Octets) : Doing Nat :=
  withArguments "diff" 2
    { flags := "qsiwbBurNaEZtdpceny", valued := "ULCIxW"
      long := [("brief", 'q'), ("report-identical-files", 's'), ("ignore-case", 'i'),
        ("ignore-all-space", 'w'), ("ignore-space-change", 'b'), ("ignore-blank-lines", 'B'),
        ("recursive", 'r'), ("new-file", 'N'), ("text", 'a'), ("label", 'L'), ("unified", 'u')] } ws
    fun a =>
      match a.operands with
      | [x, y] => diffPaths a false treeDepth x y
      | [] => refuseTo "diff" "missing operand after 'diff'" 2
      | [x] => refuseTo "diff" ("missing operand after " ++ quotedName x) 2
      | _ :: _ :: z :: _ => refuseTo "diff" ("extra operand " ++ quotedName z) 2

end Whittle.Shell
