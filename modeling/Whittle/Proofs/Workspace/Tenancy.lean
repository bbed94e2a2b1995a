import Whittle.Proofs.Workspace.Contest

/-!
# Runs that share a directory

Any number of runs want one directory to work in, each by a path of its own. Each takes the steps of
`Workspace.acquire` and later those of `Workspace.release`, one at a time (`Tenancy.advance`), works
there while it holds the directory, and may die between any two steps. The steps of one run, with
none of another between them, are what `Workspace.acquire` and `Workspace.release` do
(`runs_acquire`, `runs_release`).
-/

namespace Whittle

open Disk

/-- What a run knows of the directory: its path without links, and whether it found it missing. -/
structure Tenure where
  root : Path
  created : Bool
  deriving DecidableEq

/-- How far a run has come with the directory. -/
inductive Stay where
  | waiting
  /-- Whether the directory is missing was asked. -/
  | tested (created : Bool)
  | made (created : Bool)
  | rooted (t : Tenure)
  | opened (t : Tenure) (id : Nat)
  | locked (t : Tenure) (id : Nat)
  /-- The directory was acquired, and its release has not begun. -/
  | holding (t : Tenure) (id : Nat) (ledger : Ledger)
  /-- These artifacts are still to be removed. -/
  | sweeping (t : Tenure) (id : Nat) (left : List Artifact)
  /-- The lock file was removed; it is still locked. -/
  | unlinked (t : Tenure) (id : Nat)
  /-- The lock was given back, or not had; a directory that was missing is still to be removed. -/
  | leaving (t : Tenure)
  | ended
  deriving DecidableEq

namespace Stay

def tenure : Stay → Option Tenure
  | rooted t => some t
  | opened t _ => some t
  | locked t _ => some t
  | holding t _ _ => some t
  | sweeping t _ _ => some t
  | unlinked t _ => some t
  | leaving t => some t
  | _ => none

/-- Whether a run found the directory missing. -/
def created : Stay → Bool
  | tested b => b
  | made b => b
  | s => s.tenure.any (·.created)

/-- What a run that holds the directory or releases it has registered. -/
def artifacts : Stay → List Artifact
  | holding _ _ ledger => ledger.artifacts
  | sweeping _ _ left => left
  | _ => []

/-- How far a run has come with the lock. -/
def phase : Stay → Phase
  | opened _ id => .opened id
  | locked _ id => .locked id
  | holding _ id _ => .holding id
  | sweeping _ id _ => .holding id
  | unlinked _ id => .removed id
  | leaving _ => .ended
  | ended => .ended
  | _ => .waiting

/-- A run with a workspace, or one that did not get it. -/
def ofAcquired : Except Fault Workspace → Stay
  | .ok w =>
    match w.lock with
    | some lock => .holding ⟨w.root, w.createdRoot⟩ lock.id w.ledger
    | none => .ended
  | .error _ => .ended

end Stay

/-- The runs, by numbers, and the disk they share. -/
structure Tenancy where
  disk : Disk
  stay : Nat → Stay

namespace Tenancy

def start (d : Disk) : Tenancy := ⟨d, fun _ => .waiting⟩

def move (c : Tenancy) (i : Nat) (s : Stay) (d : Disk) : Tenancy :=
  ⟨d, Function.update c.stay i s⟩

/-- The runs as they contend for the lock. -/
def locks (c : Tenancy) : Contest := ⟨c.disk, fun i => (c.stay i).phase⟩

section

variable (c : Tenancy) (i : Nat) (s : Stay) (d : Disk)

@[simp] theorem disk_move : (c.move i s d).disk = d := rfl

@[simp] theorem stay_move : (c.move i s d).stay i = s := by simp [move]

theorem stay_move_other {j : Nat} (h : j ≠ i) : (c.move i s d).stay j = c.stay j := by
  simp [move, h]

@[simp] theorem move_move (t : Stay) (e : Disk) : (c.move i s d).move i t e = c.move i t e := by
  simp [move, Function.update_idem]

@[simp] theorem disk_locks : c.locks.disk = c.disk := rfl

theorem phase_locks : c.locks.phase i = (c.stay i).phase := rfl

theorem locks_move : (c.move i s d).locks = c.locks.move i s.phase d := by
  simp only [locks, move, Contest.move, Contest.mk.injEq, true_and]
  funext j
  by_cases h : j = i
  · subst h; simp
  · simp [h]

theorem move_self (h : c.stay i = s) : c.move i s c.disk = c := by
  simp [move, ← h]

end

/-- The next step of a run. To acquire the directory: ask whether it is missing, make it, find its
path without links, open the lock file, lock it, write who holds it. To release it: remove the
artifacts, the last one first, remove the lock file, close it. A run that found the directory
missing removes it in the end, also if it could not have the lock. -/
def advance (dirs : Nat → Path) (info : LockInfo) (i : Nat) (c : Tenancy) : Tenancy :=
  match c.stay i with
  | .waiting => c.move i (.tested (!c.disk.pathExists (dirs i))) c.disk
  | .tested created =>
    match c.disk.makeDirs (dirs i) with
    | (.ok (), d) => c.move i (.made created) d
    | (.error _, d) => c.move i .ended d
  | .made created =>
    match c.disk.canonical (dirs i) with
    | .ok root => c.move i (.rooted ⟨root, created⟩) c.disk
    | .error _ => c.move i .ended c.disk
  | .rooted t =>
    match c.disk.openLockFile (HeldLock.pathIn t.root) with
    | .ok (id, d) => c.move i (.opened t id) d
    | .error _ => c.move i (.leaving t) c.disk
  | .opened t id =>
    match c.disk.tryLock id with
    | some d => c.move i (.locked t id) d
    | none => c.move i (.leaving t) c.disk
  | .locked t id => c.move i (.holding t id .empty) (c.disk.setContent id info.text.toUTF8)
  | .holding t id ledger => c.move i (.sweeping t id ledger.artifacts.reverse) c.disk
  | .sweeping t id (a :: left) =>
    c.move i (.sweeping t id left) (c.disk.removeArtifact a.path).2
  | .sweeping t id [] =>
    c.move i (.unlinked t id)
      ((c.disk.unlink (HeldLock.pathIn t.root)).toOption.getD c.disk)
  | .unlinked t id => c.move i (.leaving t) (c.disk.unlock id)
  | .leaving t => c.move i .ended (if t.created then (c.disk.removeTree t.root).2 else c.disk)
  | .ended => c

/-- A run that dies closes its file. -/
def die (i : Nat) (c : Tenancy) : Tenancy :=
  match (c.stay i).phase.lockedFile with
  | some id => c.move i .ended (c.disk.unlock id)
  | none => c.move i .ended c.disk

/-- The place of the lock file of a directory. -/
def lockPlace (root : Location) : Location := root ++ [Artifacts.lockFile]

/-- What a run may do to the disk while it holds the directory. -/
structure Works (root : Location) (d d' : Disk) : Prop where
  links : SameLinks d d'
  locked : d'.locked = d.locked
  lock : ∀ id, d.LeadsTo (HeldLock.pathIn (pathOf root)) id →
    d'.LeadsTo (HeldLock.pathIn (pathOf root)) id

/-- The steps of run `i`. What it registers lies in the directory, and is not the lock file. -/
inductive Step (dirs : Nat → Path) (root : Location) (i : Nat) (c : Tenancy) : Tenancy → Prop
  | advance (info : LockInfo) : Step dirs root i c (c.advance dirs info i)
  | die : Step dirs root i c (c.die i)
  | work {t : Tenure} {id : Nat} {ledger : Ledger} (hholds : c.stay i = .holding t id ledger)
    (d : Disk) (hworks : Works root c.disk d) (ledger' : Ledger)
    (hledger : ∀ a ∈ ledger'.artifacts, a.path.Misses root (lockPlace root)) :
    Step dirs root i c (c.move i (.holding t id ledger') d)

/-- The tenancies to which steps of the runs lead from a disk, if `P` holds after each step. -/
inductive Reachable (dirs : Nat → Path) (root : Location) (P : Tenancy → Prop) (d : Disk) :
    Tenancy → Prop
  | start : Reachable dirs root P d (.start d)
  | step {c c' : Tenancy} {i : Nat} (h : Reachable dirs root P d c) (hs : Step dirs root i c c')
    (hP : P c') : Reachable dirs root P d c'

/-! ## The steps of one run -/

/-- Steps of one run lead from one tenancy to another. -/
def Runs (dirs : Nat → Path) (info : LockInfo) (i : Nat) (c c' : Tenancy) : Prop :=
  ∃ n, (advance dirs info i)^[n] c = c'

namespace Runs

variable {dirs : Nat → Path} {info : LockInfo} {i : Nat} {c c₁ c' : Tenancy}

theorem refl (c : Tenancy) : Runs dirs info i c c := ⟨0, rfl⟩

theorem next (h : c.advance dirs info i = c₁) (h₁ : Runs dirs info i c₁ c') :
    Runs dirs info i c c' := by
  obtain ⟨n, hn⟩ := h₁
  exact ⟨n + 1, by rw [Function.iterate_succ_apply, h, hn]⟩

theorem last (h : c.advance dirs info i = c') : Runs dirs info i c c' := .next h (.refl c')

theorem trans (h : Runs dirs info i c c₁) (h₁ : Runs dirs info i c₁ c') :
    Runs dirs info i c c' := by
  obtain ⟨n, rfl⟩ := h
  obtain ⟨m, rfl⟩ := h₁
  exact ⟨m + n, Function.iterate_add_apply _ m n c⟩

end Runs

end Tenancy

theorem heldLock_acquire_apply (host : Host) (dir : Path) (w : World) :
    HeldLock.acquire host dir w =
      match w.disk.openLockFile (HeldLock.pathIn dir) with
      | .error e => (.error (.io e), w)
      | .ok (id, d) =>
        match d.tryLock id with
        | none => (.error (.workspaceBusy dir), { w with disk := d })
        | some locked =>
          (.ok ⟨HeldLock.pathIn dir, id⟩, { w with
            disk := locked.setContent id
              (LockInfo.text ⟨host.processId, host.now, programVersion⟩).toUTF8 }) := by
  rw [HeldLock.acquire]
  have hask := Action.ask_apply (·.openLockFile (HeldLock.pathIn dir)) w
  cases hopen : w.disk.openLockFile (HeldLock.pathIn dir) with
  | error e =>
    rw [hopen] at hask
    rw [bind_of_error hask]
  | ok opened =>
    obtain ⟨id, d⟩ := opened
    rw [hopen] at hask
    have hset : Action.setDisk d w = (.ok (), { w with disk := d }) := rfl
    rw [bind_of_ok hask]
    dsimp only
    rw [bind_of_ok hset]
    cases d.tryLock id <;> rfl

theorem Workspace.acquire_apply (host : Host) (dir : Path) (w : World) :
    Workspace.acquire host dir w =
      match w.disk.makeDirs dir with
      | (.error e, d) => (.error (.io (.makingWorkspace dir e)), { w with disk := d })
      | (.ok (), d) =>
        match d.canonical dir with
        | .error e => (.error (.io e), { w with disk := d })
        | .ok root =>
          match HeldLock.acquire host root { w with disk := d } with
          | (.ok lock, w') =>
            (.ok ⟨host.freshId w'.drawn, root, !w.disk.pathExists dir, .empty, some lock, none⟩,
              { w' with drawn := w'.drawn + 1 })
          | (.error e, w') =>
            (.error e, { w' with
              disk := if !w.disk.pathExists dir then (w'.disk.removeTree root).2 else w'.disk }) := by
  rw [Workspace.acquire, bind_of_ok (Action.getDisk_apply w)]
  cases hmade : w.disk.makeDirs dir with
  | mk r d =>
    cases r with
    | error e =>
      rw [bind_of_error (by rw [Action.transact_apply, hmade])]
    | ok _ =>
      rw [bind_of_ok (by rw [Action.transact_apply, hmade])]
      have hask := Action.ask_apply (·.canonical dir) { w with disk := d }
      dsimp only at hask ⊢
      cases hroot : d.canonical dir with
      | error e =>
        rw [hroot] at hask
        rw [bind_of_error hask]
      | ok root =>
        rw [hroot] at hask
        rw [bind_of_ok hask]
        dsimp only
        cases hacquire : HeldLock.acquire host root { w with disk := d } with
        | mk r w' =>
          have hattempt : Action.attempt (HeldLock.acquire host root) { w with disk := d } =
              (.ok r, w') := by
            rw [Action.attempt, hacquire]
          rw [bind_of_ok hattempt]
          cases r with
          | ok lock => rfl
          | error e => cases !w.disk.pathExists dir <;> rfl

namespace Tenancy

/-- The steps of a run that waits are what it does to acquire the directory. -/
theorem runs_acquire (dirs : Nat → Path) (host : Host) (w : World) {c : Tenancy} {i : Nat}
    (hdisk : c.disk = w.disk) (hstay : c.stay i = .waiting) :
    Runs dirs ⟨host.processId, host.now, programVersion⟩ i c
      (c.move i (.ofAcquired (Workspace.acquire host (dirs i) w).1)
        (Workspace.acquire host (dirs i) w).2.disk) := by
  rw [Workspace.acquire_apply]
  refine .next (by simp only [advance, hstay]; rfl) ?_
  rw [hdisk]
  cases hmade : w.disk.makeDirs (dirs i) with
  | mk r d =>
    cases r with
    | error e => exact .last (by simp only [advance, stay_move, disk_move, hmade, move_move]; rfl)
    | ok _ =>
      refine .next (by simp only [advance, stay_move, disk_move, hmade, move_move]; rfl) ?_
      dsimp only
      cases hroot : d.canonical (dirs i) with
      | error e =>
        exact .last (by simp only [advance, stay_move, disk_move, hroot, move_move]; rfl)
      | ok root =>
        refine .next (by simp only [advance, stay_move, disk_move, hroot, move_move]; rfl) ?_
        dsimp only
        rw [heldLock_acquire_apply]
        dsimp only
        cases hopen : d.openLockFile (HeldLock.pathIn root) with
        | error e =>
          refine .next (by simp only [advance, stay_move, disk_move, hopen, move_move]; rfl) ?_
          exact .last (by simp only [advance, stay_move, disk_move, move_move]; rfl)
        | ok opened =>
          obtain ⟨id, d'⟩ := opened
          refine .next (by simp only [advance, stay_move, disk_move, hopen, move_move]; rfl) ?_
          dsimp only
          cases hlock : d'.tryLock id with
          | none =>
            refine .next (by simp only [advance, stay_move, disk_move, hlock, move_move]; rfl) ?_
            exact .last (by simp only [advance, stay_move, disk_move, move_move]; rfl)
          | some locked =>
            refine .next (by simp only [advance, stay_move, disk_move, hlock, move_move]; rfl) ?_
            exact .last (by simp only [advance, stay_move, disk_move, move_move]; rfl)

/-- The disk without some artifacts, the first one removed first. -/
def swept (d : Disk) (artifacts : List Artifact) : Disk :=
  artifacts.foldl (fun d a => (d.removeArtifact a.path).2) d

theorem disk_cleanup (l : Ledger) (w : World) :
    (l.cleanup w).2.disk = swept w.disk l.artifacts.reverse := by
  obtain ⟨artifacts⟩ := l
  show (artifacts.foldr Ledger.sweepOne (CleanupReport.empty, w)).2.disk = _
  rw [swept, List.foldl_reverse]
  induction artifacts with
  | nil => rfl
  | cons a as ih => rw [List.foldr_cons, List.foldr_cons, (sweepOne_world a _).1, ih]

theorem disk_release (l : HeldLock) (w : World) :
    (l.release w).disk = ((w.disk.unlink l.path).toOption.getD w.disk).unlock l.id := by
  unfold HeldLock.release
  cases w.disk.unlink l.path <;> rfl

theorem runs_sweep (dirs : Nat → Path) (info : LockInfo) {i id : Nat} {t : Tenure}
    (left : List Artifact) {c : Tenancy} (hstay : c.stay i = .sweeping t id left) :
    Runs dirs info i c (c.move i (.sweeping t id []) (swept c.disk left)) := by
  induction left generalizing c with
  | nil =>
    rw [show swept c.disk [] = c.disk from rfl, move_self c i _ hstay]
    exact .refl c
  | cons a left ih =>
    refine .next (by simp only [advance, hstay]; rfl) ?_
    have hrest := ih (c := c.move i (.sweeping t id left) (c.disk.removeArtifact a.path).2)
      (stay_move ..)
    rwa [move_move, disk_move] at hrest

/-- The steps of a run that holds the directory are what it does to release it. -/
theorem runs_release (dirs : Nat → Path) (info : LockInfo) {c : Tenancy} {i : Nat} {s : Site}
    {lock : HeldLock} (hlock : s.workspace.lock = some lock)
    (hpath : lock.path = HeldLock.pathIn s.workspace.root) (hreport : s.workspace.report = none)
    (hdisk : c.disk = s.world.disk) (hstay : c.stay i = .ofAcquired (.ok s.workspace)) :
    Runs dirs info i c (c.move i .ended (Workspace.release s).2.world.disk) := by
  simp only [Stay.ofAcquired, hlock] at hstay
  rw [release_disk hlock hreport, disk_release, disk_cleanup, hpath]
  refine .next (by simp only [advance, hstay]; rfl) ?_
  refine .trans (runs_sweep dirs info _ (stay_move ..)) ?_
  rw [move_move, disk_move, hdisk]
  refine .next (by simp only [advance, stay_move, disk_move, move_move]; rfl) ?_
  refine .next (by simp only [advance, stay_move, disk_move, move_move]; rfl) ?_
  exact .last (by simp only [advance, stay_move, disk_move, move_move])

/-! ## What a step can do -/

/-- What becomes of run `i` and of the disk in one step. -/
inductive Change (dir : Path) (root : Location) (c : Tenancy) (i : Nat) : Stay → Disk → Prop
  | tested (hstay : c.stay i = .waiting) :
    Change dir root c i (.tested (!c.disk.pathExists dir)) c.disk
  | made {created : Bool} (hstay : c.stay i = .tested created) {s : Stay}
    (hs : s = .made created ∨ s = .ended) : Change dir root c i s (c.disk.makeDirs dir).2
  | rooted {created : Bool} (hstay : c.stay i = .made created) {p : Path}
    (hp : c.disk.canonical dir = .ok p) : Change dir root c i (.rooted ⟨p, created⟩) c.disk
  | opened {t : Tenure} {id : Nat} {d : Disk} (hstay : c.stay i = .rooted t)
    (hopen : c.disk.openLockFile (HeldLock.pathIn t.root) = .ok (id, d)) :
    Change dir root c i (.opened t id) d
  | barred {t : Tenure} (hstay : c.stay i = .rooted t ∨ ∃ id, c.stay i = .opened t id) :
    Change dir root c i (.leaving t) c.disk
  | locked {t : Tenure} {id : Nat} {d : Disk} (hstay : c.stay i = .opened t id)
    (hlock : c.disk.tryLock id = some d) : Change dir root c i (.locked t id) d
  | signed {t : Tenure} {id : Nat} (hstay : c.stay i = .locked t id) (content : ByteArray) :
    Change dir root c i (.holding t id .empty) (c.disk.setContent id content)
  | worked {t : Tenure} {id : Nat} {ledger ledger' : Ledger} {d : Disk}
    (hstay : c.stay i = .holding t id ledger) (hworks : Works root c.disk d)
    (hledger : ∀ a ∈ ledger'.artifacts, a.path.Misses root (lockPlace root)) :
    Change dir root c i (.holding t id ledger') d
  | began {t : Tenure} {id : Nat} {ledger : Ledger} (hstay : c.stay i = .holding t id ledger) :
    Change dir root c i (.sweeping t id ledger.artifacts.reverse) c.disk
  | swept {t : Tenure} {id : Nat} {a : Artifact} {left : List Artifact}
    (hstay : c.stay i = .sweeping t id (a :: left)) :
    Change dir root c i (.sweeping t id left) (c.disk.removeArtifact a.path).2
  | unlinked {t : Tenure} {id : Nat} (hstay : c.stay i = .sweeping t id []) :
    Change dir root c i (.unlinked t id)
      ((c.disk.unlink (HeldLock.pathIn t.root)).toOption.getD c.disk)
  | closed {t : Tenure} {id : Nat} (hstay : c.stay i = .unlinked t id) :
    Change dir root c i (.leaving t) (c.disk.unlock id)
  | left {t : Tenure} (hstay : c.stay i = .leaving t) :
    Change dir root c i .ended (if t.created then (c.disk.removeTree t.root).2 else c.disk)
  | died {id : Nat} (hlocked : (c.stay i).phase.lockedFile = some id) :
    Change dir root c i .ended (c.disk.unlock id)
  | gaveUp (hlocked : (c.stay i).phase.lockedFile = none) : Change dir root c i .ended c.disk

theorem step_cases {dirs : Nat → Path} {root : Location} {i : Nat} {c c' : Tenancy}
    (h : Step dirs root i c c') : ∃ s d, Change (dirs i) root c i s d ∧ c' = c.move i s d := by
  cases h with
  | advance info =>
    unfold advance
    cases hstay : c.stay i with
    | waiting => exact ⟨_, _, .tested hstay, rfl⟩
    | tested created =>
      have hmade {s : Stay} := @Change.made (dirs i) root c i created hstay s
      dsimp only
      cases hdirs : c.disk.makeDirs (dirs i) with
      | mk r d =>
        rw [hdirs] at hmade
        cases r with
        | ok _ => exact ⟨_, _, hmade (.inl rfl), rfl⟩
        | error e => exact ⟨_, _, hmade (.inr rfl), rfl⟩
    | made created =>
      dsimp only
      split
      · rename_i hp
        exact ⟨_, _, .rooted hstay hp, rfl⟩
      · exact ⟨_, _, .gaveUp (by rw [hstay]; rfl), rfl⟩
    | rooted t =>
      dsimp only
      split
      · rename_i hopen
        exact ⟨_, _, .opened hstay hopen, rfl⟩
      · exact ⟨_, _, .barred (.inl hstay), rfl⟩
    | opened t id =>
      dsimp only
      split
      · rename_i hlock
        exact ⟨_, _, .locked hstay hlock, rfl⟩
      · exact ⟨_, _, .barred (.inr ⟨id, hstay⟩), rfl⟩
    | locked t id => exact ⟨_, _, .signed hstay _, rfl⟩
    | holding t id ledger => exact ⟨_, _, .began hstay, rfl⟩
    | sweeping t id left =>
      cases left with
      | nil => exact ⟨_, _, .unlinked hstay, rfl⟩
      | cons a left => exact ⟨_, _, .swept hstay, rfl⟩
    | unlinked t id => exact ⟨_, _, .closed hstay, rfl⟩
    | leaving t => exact ⟨_, _, .left hstay, rfl⟩
    | ended => exact ⟨_, _, .gaveUp (by rw [hstay]; rfl), (move_self c i _ hstay).symm⟩
  | die =>
    unfold die
    split
    · rename_i hlocked
      exact ⟨_, _, .died hlocked, rfl⟩
    · rename_i hnone
      exact ⟨_, _, .gaveUp hnone, rfl⟩
  | work hholds d hworks ledger' hledger =>
    exact ⟨_, _, .worked hholds hworks hledger, rfl⟩

end Tenancy

end Whittle
