import Mathlib.Logic.Function.Basic
import Whittle.Proofs.Disk.Ways
import Whittle.Proofs.Workspace.Acquire

/-!
# Runs that contend for a lock

Any number of runs want the lock of one directory. Each takes the steps of `HeldLock.acquire`, and
later those of `HeldLock.release`, one at a time (`Contest.advance`), and may die between any two of
them; a contest is `Reachable` if steps of the runs lead to it in any order.

A lock belongs to a file, and a run finds the file by its path. No two runs ever have one file
locked (`Exclusive`). If whatever is locked is the file that the path leads to at that moment
(`Prompt`), no two runs hold the lock of the directory (`holder_unique`). Nothing sees to that: a
run that has opened the file still locks it when the holder has removed it, while the next run makes
a file of its own (`two_holders`).
-/

namespace Whittle

open Disk

namespace Disk

/-! ## The file that a path leads to -/

def LeadsTo (d : Disk) (p : Path) (id : Nat) : Prop :=
  ∃ l content x, d.locate .file p = .ok l ∧ d.get? l = some (.file id content x)

theorem ways_setContent (d : Disk) (id : Nat) (content : ByteArray) :
    Ways d (d.setContent id content) where
  cwd := rfl
  dir l hl := by rw [get?_setContent, hl]; rfl
  link l target := by
    rw [get?_setContent]
    cases d.get? l with
    | none => simp
    | some n => cases n <;> simp [withContent]

theorem locked_openLockFile {d d' : Disk} {p : Path} {id : Nat}
    (h : d.openLockFile p = .ok (id, d')) : d'.locked = d.locked := by
  unfold openLockFile at h
  split at h
  · cases h
  · split at h <;> cases h <;> rfl

theorem ways_openLockFile {d d' : Disk} {p : Path} {id : Nat}
    (h : d.openLockFile p = .ok (id, d')) : Ways d d' := by
  unfold openLockFile at h
  split at h
  · cases h
  · rename_i l hl
    split at h
    · cases h
      exact .refl d
    · cases h
    · rename_i hn
      cases h
      have hroot : l ≠ [] := by
        rintro rfl
        rw [get?_nil] at hn
        cases hn
      exact .of_change (by simp [hn]) (by simp [hn]) (fun _ e => by cases e) rfl
        (get?_put d hroot (.file d.nextId ByteArray.empty false))

/-- A path leads to the file that was opened by it, be it a new one. -/
theorem leadsTo_openLockFile {d d' : Disk} {p : Path} {id : Nat}
    (h : d.openLockFile p = .ok (id, d')) : d'.LeadsTo p id := by
  have hways := ways_openLockFile h
  obtain ⟨l, hl, ⟨content, x, hn, rfl⟩ | ⟨-, -, halters⟩⟩ := openLockFile_ok h
  · exact ⟨l, content, x, hl, hn⟩
  · exact ⟨l, _, _, hways.locate hl, halters.self⟩

namespace LeadsTo

variable {d d' : Disk} {p : Path} {id id' : Nat}

theorem unique (h : d.LeadsTo p id) (h' : d.LeadsTo p id') : id = id' := by
  obtain ⟨l, content, x, hl, hn⟩ := h
  obtain ⟨l', content', x', hl', hn'⟩ := h'
  rw [hl] at hl'
  cases hl'
  rw [hn] at hn'
  cases hn'
  rfl

theorem of_get? (h : d.LeadsTo p id) (hcwd : d'.cwd = d.cwd) (hget : ∀ l, d'.get? l = d.get? l) :
    d'.LeadsTo p id := by
  obtain ⟨l, content, x, hl, hn⟩ := h
  exact ⟨l, content, x, (Ways.of_get? hcwd hget).locate hl, (hget l).trans hn⟩

theorem setContent (h : d.LeadsTo p id) (k : Nat) (bytes : ByteArray) :
    (d.setContent k bytes).LeadsTo p id := by
  obtain ⟨l, content, x, hl, hn⟩ := h
  refine ⟨l, if id = k then bytes else content, x, (ways_setContent d k bytes).locate hl, ?_⟩
  rw [get?_setContent, hn]
  rfl

theorem tryLock (h : d.LeadsTo p id) {k : Nat} (hlock : d.tryLock k = some d') :
    d'.LeadsTo p id := by
  unfold Disk.tryLock at hlock
  split at hlock <;> cases hlock
  exact h.of_get? rfl fun _ => rfl

theorem unlock (h : d.LeadsTo p id) (k : Nat) : (d.unlock k).LeadsTo p id :=
  h.of_get? rfl fun _ => rfl

/-- A lock file that is there is opened as it is. -/
theorem openLockFile (h : d.LeadsTo p id) (hopen : d.openLockFile p = .ok (id', d')) : d' = d := by
  obtain ⟨l, content, x, hl, hn⟩ := h
  rw [Disk.openLockFile, hl] at hopen
  dsimp only at hopen
  rw [hn] at hopen
  cases hopen
  rfl

end LeadsTo

end Disk

/-- How far a run has come with the lock. -/
inductive Phase where
  | waiting
  | opened (id : Nat)
  /-- The file is locked; it does not say by whom. -/
  | locked (id : Nat)
  /-- The lock was acquired, and is not being given back. -/
  | holding (id : Nat)
  /-- The file was removed; it is still locked. -/
  | removed (id : Nat)
  | ended
  deriving DecidableEq

namespace Phase

/-- The file that a run has locked. -/
def lockedFile : Phase → Option Nat
  | locked id => some id
  | holding id => some id
  | removed id => some id
  | _ => none

/-- The file that a run has locked and not removed. -/
def claimed : Phase → Option Nat
  | locked id => some id
  | holding id => some id
  | _ => none

theorem lockedFile_of_claimed {p : Phase} {id : Nat} (h : p.claimed = some id) :
    p.lockedFile = some id := by
  cases p <;> first | exact h | cases h

end Phase

/-- The runs, by numbers, and the disk they share. -/
structure Contest where
  disk : Disk
  phase : Nat → Phase

namespace Contest

def start (d : Disk) : Contest := ⟨d, fun _ => .waiting⟩

def move (c : Contest) (i : Nat) (p : Phase) (d : Disk) : Contest :=
  ⟨d, Function.update c.phase i p⟩

section

variable (c : Contest) (i : Nat) (p : Phase) (d : Disk)

@[simp] theorem disk_move : (c.move i p d).disk = d := rfl

@[simp] theorem phase_move : (c.move i p d).phase i = p := by simp [move]

theorem phase_move_other {j : Nat} (h : j ≠ i) : (c.move i p d).phase j = c.phase j := by
  simp [move, h]

theorem move_move (q : Phase) (e : Disk) : (c.move i p d).move i q e = c.move i q e := by
  simp [move, Function.update_idem]

end

/-- The next step of a run: open the file, lock it or give up, write who holds it; remove it, and
close it. -/
def advance (dir : Path) (info : LockInfo) (i : Nat) (c : Contest) : Contest :=
  match c.phase i with
  | .waiting =>
    match c.disk.openLockFile (HeldLock.pathIn dir) with
    | .ok (id, d) => c.move i (.opened id) d
    | .error _ => c.move i .ended c.disk
  | .opened id =>
    match c.disk.tryLock id with
    | some d => c.move i (.locked id) d
    | none => c.move i .ended c.disk
  | .locked id => c.move i (.holding id) (c.disk.setContent id info.text.toUTF8)
  | .holding id =>
    c.move i (.removed id) ((c.disk.unlink (HeldLock.pathIn dir)).toOption.getD c.disk)
  | .removed id => c.move i .ended (c.disk.unlock id)
  | .ended => c

/-- A run that dies closes its file. -/
def die (i : Nat) (c : Contest) : Contest :=
  match (c.phase i).lockedFile with
  | some id => c.move i .ended (c.disk.unlock id)
  | none => c.move i .ended c.disk

inductive Step (dir : Path) (c : Contest) : Contest → Prop
  | advance (info : LockInfo) (i : Nat) : Step dir c (c.advance dir info i)
  | die (i : Nat) : Step dir c (c.die i)

/-- The contests to which steps of the runs lead from a disk, if `P` holds after each step. -/
inductive Reachable (dir : Path) (P : Contest → Prop) (d : Disk) : Contest → Prop
  | start : Reachable dir P d (.start d)
  | step {c c' : Contest} (h : Reachable dir P d c) (hs : Step dir c c') (hP : P c') :
    Reachable dir P d c'

/-! ## The steps of one run -/

theorem advance_ended {dir : Path} {info : LockInfo} {i : Nat} {c : Contest}
    (h : c.phase i = .ended) : c.advance dir info i = c := by
  simp only [advance, h]

/-- Three steps of a run that waits are what it does to acquire the lock. -/
theorem advance_acquire (host : Host) (dir : Path) (w : World) {c : Contest} {i : Nat}
    (hdisk : c.disk = w.disk) (hphase : c.phase i = .waiting) :
    (advance dir ⟨host.processId, host.now, programVersion⟩ i)^[3] c =
      c.move i (match (HeldLock.acquire host dir w).1 with
        | .ok lock => .holding lock.id
        | .error _ => .ended) (HeldLock.acquire host dir w).2.disk := by
  show advance _ _ i (advance _ _ i (advance _ _ i c)) = _
  cases hopen : w.disk.openLockFile (HeldLock.pathIn dir) with
  | error e =>
    have hask : Action.ask (·.openLockFile (HeldLock.pathIn dir)) w = (.error (.io e), w) := by
      rw [Action.ask_apply, hopen]
    have hfirst : advance dir ⟨host.processId, host.now, programVersion⟩ i c =
        c.move i .ended c.disk := by
      simp only [advance, hphase, hdisk, hopen]
    rw [hfirst, advance_ended (phase_move ..), advance_ended (phase_move ..), HeldLock.acquire,
      bind_of_error hask, hdisk]
  | ok opened =>
    obtain ⟨id, d⟩ := opened
    have hask : Action.ask (·.openLockFile (HeldLock.pathIn dir)) w = (.ok (id, d), w) := by
      rw [Action.ask_apply, hopen]
    have hfirst : advance dir ⟨host.processId, host.now, programVersion⟩ i c =
        c.move i (.opened id) d := by
      simp only [advance, hphase, hdisk, hopen]
    have hset : Action.setDisk d w = (.ok (), { w with disk := d }) := rfl
    rw [hfirst, HeldLock.acquire, bind_of_ok hask]
    dsimp only
    rw [bind_of_ok hset]
    cases hlock : d.tryLock id with
    | none =>
      have hsecond : advance dir ⟨host.processId, host.now, programVersion⟩ i
          (c.move i (.opened id) d) = c.move i .ended d := by
        simp only [advance, phase_move, disk_move, hlock, move_move]
      rw [hsecond, advance_ended (phase_move ..)]
      rfl
    | some locked =>
      simp only [advance, phase_move, disk_move, hlock, move_move]
      rfl

/-- Two steps of a run that holds the lock are what it does to release it. -/
theorem advance_release (dir : Path) (info : LockInfo) (w : World) {c : Contest} {i id : Nat}
    (hdisk : c.disk = w.disk) (hphase : c.phase i = .holding id) :
    (advance dir info i)^[2] c =
      c.move i .ended (HeldLock.release ⟨HeldLock.pathIn dir, id⟩ w).disk := by
  show advance _ _ i (advance _ _ i c) = _
  simp only [advance, hphase, phase_move, disk_move, move_move, hdisk, HeldLock.release]
  cases w.disk.unlink (HeldLock.pathIn dir) <;> rfl

/-! ## What a step can do -/

/-- What becomes of run `i` and of the disk in one step. -/
inductive Change (dir : Path) (c : Contest) (i : Nat) : Phase → Disk → Prop
  | opened {id : Nat} {d : Disk} (hphase : c.phase i = .waiting)
    (h : c.disk.openLockFile (HeldLock.pathIn dir) = .ok (id, d)) : Change dir c i (.opened id) d
  | locked {id : Nat} {d : Disk} (hphase : c.phase i = .opened id)
    (h : c.disk.tryLock id = some d) : Change dir c i (.locked id) d
  | signed {id : Nat} (hphase : c.phase i = .locked id) (content : ByteArray) :
    Change dir c i (.holding id) (c.disk.setContent id content)
  | removed {id : Nat} (hphase : c.phase i = .holding id) :
    Change dir c i (.removed id)
      ((c.disk.unlink (HeldLock.pathIn dir)).toOption.getD c.disk)
  | closed {id : Nat} (hphase : (c.phase i).lockedFile = some id) :
    Change dir c i .ended (c.disk.unlock id)
  | gaveUp (hphase : (c.phase i).lockedFile = none) : Change dir c i .ended c.disk

theorem step_cases {dir : Path} {c c' : Contest} (h : Step dir c c') :
    ∃ i p d, Change dir c i p d ∧ c' = c.move i p d := by
  cases h with
  | advance info i =>
    refine ⟨i, ?_⟩
    unfold advance
    cases hphase : c.phase i with
    | waiting =>
      dsimp only
      split
      · rename_i hopen
        exact ⟨_, _, .opened hphase hopen, rfl⟩
      · exact ⟨_, _, .gaveUp (by rw [hphase]; rfl), rfl⟩
    | opened id =>
      dsimp only
      split
      · rename_i hlock
        exact ⟨_, _, .locked hphase hlock, rfl⟩
      · exact ⟨_, _, .gaveUp (by rw [hphase]; rfl), rfl⟩
    | locked id => exact ⟨_, _, .signed hphase _, rfl⟩
    | holding id => exact ⟨_, _, .removed hphase, rfl⟩
    | removed id => exact ⟨_, _, .closed (by rw [hphase]; rfl), rfl⟩
    | ended =>
      refine ⟨_, _, .gaveUp (by rw [hphase]; rfl), ?_⟩
      simp [move, ← hphase]
  | die i =>
    refine ⟨i, ?_⟩
    unfold die
    split
    · rename_i hlocked
      exact ⟨_, _, .closed hlocked, rfl⟩
    · rename_i hnone
      exact ⟨_, _, .gaveUp hnone, rfl⟩

/-! ## One file, one run -/

/-- The files that runs have locked are locked, each by one run. -/
structure Exclusive (c : Contest) : Prop where
  held : ∀ i id, (c.phase i).lockedFile = some id → id ∈ c.disk.locked
  apart : ∀ i j id, (c.phase i).lockedFile = some id → (c.phase j).lockedFile = some id → i = j

theorem lockedFile_move (c : Contest) (i j : Nat) (p : Phase) (d : Disk) :
    ((c.move i p d).phase j).lockedFile =
      if j = i then p.lockedFile else (c.phase j).lockedFile := by
  by_cases h : j = i
  · subst h; simp
  · rw [if_neg h, phase_move_other _ _ _ _ h]

theorem exclusive_start (d : Disk) : Exclusive (.start d) := ⟨nofun, nofun⟩

section

variable {c : Contest} (h : Exclusive c) {i : Nat} {p : Phase} {d : Disk}
include h

theorem Exclusive.keep (hp : p.lockedFile = (c.phase i).lockedFile)
    (hd : d.locked = c.disk.locked) : Exclusive (c.move i p d) := by
  have hsame (j : Nat) : ((c.move i p d).phase j).lockedFile = (c.phase j).lockedFile := by
    rw [lockedFile_move, hp]
    split
    · rename_i e
      rw [e]
    · rfl
  refine ⟨fun j id hj => ?_, fun j k id hj hk => ?_⟩
  · rw [disk_move, hd]
    exact h.held j id (hsame j ▸ hj)
  · exact h.apart j k id (hsame j ▸ hj) (hsame k ▸ hk)

theorem Exclusive.take {id : Nat} (hp : p.lockedFile = some id) (hfree : id ∉ c.disk.locked)
    (hd : d.locked = id :: c.disk.locked) : Exclusive (c.move i p d) := by
  -- no run has the file locked yet, for then it would be locked
  have hother {j : Nat} (hj : (c.phase j).lockedFile = some id) : False := hfree (h.held j id hj)
  refine ⟨fun j id' hj => ?_, fun j k id' hj hk => ?_⟩
  · rw [disk_move, hd]
    rw [lockedFile_move] at hj
    split at hj
    · rw [hp] at hj
      exact List.mem_cons.mpr (.inl (Option.some.inj hj).symm)
    · exact List.mem_cons_of_mem _ (h.held j id' hj)
  · rw [lockedFile_move] at hj hk
    split at hj <;> split at hk
    · rename_i ej ek
      rw [ej, ek]
    · rw [hp] at hj
      cases hj
      exact (hother hk).elim
    · rw [hp] at hk
      cases hk
      exact (hother hj).elim
    · exact h.apart j k id' hj hk

theorem Exclusive.free {id : Nat} (hi : (c.phase i).lockedFile = some id)
    (hp : p.lockedFile = none) (hd : d.locked = c.disk.locked.filter (· ≠ id)) :
    Exclusive (c.move i p d) := by
  refine ⟨fun j id' hj => ?_, fun j k id' hj hk => ?_⟩
  · rw [disk_move, hd]
    rw [lockedFile_move] at hj
    split at hj
    · rw [hp] at hj
      cases hj
    · rename_i hne
      refine List.mem_filter.mpr ⟨h.held j id' hj, ?_⟩
      refine decide_eq_true fun e => hne (h.apart j i id ?_ hi)
      rw [hj, e]
  · rw [lockedFile_move] at hj hk
    split at hj <;> split at hk
    · rename_i ej ek
      rw [ej, ek]
    · rw [hp] at hj
      cases hj
    · rw [hp] at hk
      cases hk
    · exact h.apart j k id' hj hk

end

theorem Exclusive.change {dir : Path} {c : Contest} {i : Nat} {p : Phase} {d : Disk}
    (h : Exclusive c) (hchange : Change dir c i p d) : Exclusive (c.move i p d) := by
  cases hchange with
  | opened hphase hopen => exact h.keep (by rw [hphase]; rfl) (locked_openLockFile hopen)
  | locked hphase hlock =>
    unfold tryLock at hlock
    split at hlock
    · cases hlock
    · rename_i hfree
      cases hlock
      exact h.take rfl hfree rfl
  | signed hphase content => exact h.keep (by rw [hphase]; rfl) rfl
  | removed hphase =>
    refine h.keep (by rw [hphase]; rfl) ?_
    cases hunlink : c.disk.unlink (HeldLock.pathIn dir) with
    | ok d => exact (Trims.unlink hunlink).locked
    | error e => rfl
  | closed hlocked => exact h.free hlocked rfl rfl
  | gaveUp hnone => exact h.keep hnone.symm rfl

theorem Exclusive.step {dir : Path} {c c' : Contest} (h : Exclusive c) (hs : Step dir c c') :
    Exclusive c' := by
  obtain ⟨i, p, d, hchange, rfl⟩ := step_cases hs
  exact h.change hchange

/-- Whatever the runs do, no two of them have one file locked. -/
theorem Reachable.exclusive {dir : Path} {P : Contest → Prop} {d : Disk} {c : Contest}
    (h : Reachable dir P d c) : Exclusive c := by
  induction h with
  | start => exact exclusive_start d
  | step _ hs _ ih => exact ih.step hs

/-! ## One path, one run -/

/-- Whatever is being locked is the file that the path of the lock leads to. -/
def Prompt (dir : Path) (c : Contest) : Prop :=
  ∀ i id, c.phase i = .locked id → c.disk.LeadsTo (HeldLock.pathIn dir) id

/-- The files that runs have locked and not removed are all the one that the path leads to. -/
def Current (dir : Path) (c : Contest) : Prop :=
  ∀ i id, (c.phase i).claimed = some id → c.disk.LeadsTo (HeldLock.pathIn dir) id

theorem Current.change {dir : Path} {c : Contest} {i : Nat} {p : Phase} {d : Disk}
    (h : Current dir c) (hx : Exclusive c) (hchange : Change dir c i p d)
    (hprompt : Prompt dir (c.move i p d)) : Current dir (c.move i p d) := by
  intro j id hj
  by_cases e : j = i
  · subst e
    rw [phase_move] at hj
    cases hchange with
    | locked hphase hlock =>
      cases hj
      exact hprompt j id (phase_move ..)
    | signed hphase content =>
      cases hj
      exact (h j id (by rw [hphase]; rfl)).setContent _ _
    | opened => cases hj
    | removed => cases hj
    | closed => cases hj
    | gaveUp => cases hj
  · rw [phase_move_other _ _ _ _ e] at hj
    have hleads := h j id hj
    cases hchange with
    | opened hphase hopen =>
      rw [disk_move, hleads.openLockFile hopen]
      exact hleads
    | locked hphase hlock => exact hleads.tryLock hlock
    | signed hphase content => exact hleads.setContent _ _
    | removed hphase =>
      -- the run that removes the file has locked it, so the file is not that of run `j`
      have hi := h i _ (by rw [hphase]; rfl)
      cases hleads.unique hi
      exact absurd (hx.apart j i id (Phase.lockedFile_of_claimed hj) (by rw [hphase]; rfl)) e
    | closed hlocked => exact hleads.unlock _
    | gaveUp hnone => exact hleads

theorem Current.step {dir : Path} {c c' : Contest} (h : Current dir c) (hx : Exclusive c)
    (hs : Step dir c c') (hprompt : Prompt dir c') : Current dir c' := by
  obtain ⟨i, p, d, hchange, rfl⟩ := step_cases hs
  exact h.change hx hchange hprompt

theorem Reachable.current {dir : Path} {d : Disk} {c : Contest}
    (h : Reachable dir (Prompt dir) d c) : Current dir c := by
  induction h with
  | start => exact nofun
  | step h hs hprompt ih => exact ih.step h.exclusive hs hprompt

/-! ## A run of its own -/

/-- The runs but for one have not begun, and what that one has opened and not removed is the file
that the path leads to. -/
structure Lone (dir : Path) (i : Nat) (c : Contest) : Prop where
  others : ∀ j, j ≠ i → c.phase j = .waiting
  leads : ∀ id, c.phase i = .opened id ∨ (c.phase i).claimed = some id →
    c.disk.LeadsTo (HeldLock.pathIn dir) id

namespace Lone

variable {dir : Path} {i : Nat} {c : Contest} {p : Phase} {d : Disk}

theorem move (h : Lone dir i c)
    (hleads : ∀ id, p = .opened id ∨ p.claimed = some id → d.LeadsTo (HeldLock.pathIn dir) id) :
    Lone dir i (c.move i p d) where
  others j hj := (phase_move_other c i p d hj).trans (h.others j hj)
  leads id hid := hleads id (by rwa [phase_move] at hid)

theorem idle (h : Lone dir i c) (hp : ∀ id, p ≠ .opened id) (hclaimed : p.claimed = none) :
    Lone dir i (c.move i p d) :=
  h.move fun id hid => by
    rcases hid with e | e
    · exact absurd e (hp id)
    · rw [hclaimed] at e
      cases e

theorem advance (h : Lone dir i c) (info : LockInfo) : Lone dir i (c.advance dir info i) := by
  unfold Contest.advance
  split
  · split
    · rename_i hopen
      refine h.move fun id hid => ?_
      rcases hid with e | e <;> cases e
      exact leadsTo_openLockFile hopen
    · exact h.idle nofun rfl
  · rename_i id hphase
    have hleads := h.leads id (.inl hphase)
    split
    · rename_i hlock
      refine h.move fun id' hid => ?_
      rcases hid with e | e <;> cases e
      exact hleads.tryLock hlock
    · exact h.idle nofun rfl
  · rename_i id hphase
    have hleads := h.leads id (.inr (by rw [hphase]; rfl))
    refine h.move fun id' hid => ?_
    rcases hid with e | e <;> cases e
    exact hleads.setContent _ _
  · exact h.idle nofun rfl
  · exact h.idle nofun rfl
  · exact h

theorem prompt (h : Lone dir i c) : Prompt dir c := by
  intro j id hj
  by_cases e : j = i
  · subst e
    exact h.leads id (.inr (by rw [hj]; rfl))
  · rw [h.others j e] at hj
    cases hj

end Lone

/-- Nothing comes between the steps of a run that is alone. -/
theorem reachable_lone (dir : Path) (info : LockInfo) (i : Nat) (d : Disk) (n : Nat) :
    Reachable dir (Prompt dir) d ((advance dir info i)^[n] (.start d)) := by
  suffices h : Reachable dir (Prompt dir) d ((advance dir info i)^[n] (.start d)) ∧
      Lone dir i ((advance dir info i)^[n] (.start d)) from h.1
  induction n with
  | zero => exact ⟨.start, fun _ _ => rfl, fun id hid => by rcases hid with e | e <;> cases e⟩
  | succ n ih =>
    rw [Function.iterate_succ_apply']
    have hlone := ih.2.advance info
    exact ⟨ih.1.step (.advance info i) hlone.prompt, hlone⟩

/-! ## Runs in turns -/

/-- The contest after steps of the runs in a given order. -/
def play (dir : Path) (info : LockInfo) (turns : List Nat) (c : Contest) : Contest :=
  turns.foldl (fun c i => c.advance dir info i) c

theorem reachable_play {dir : Path} {d : Disk} (info : LockInfo) (turns : List Nat) {c : Contest}
    (h : Reachable dir (fun _ => True) d c) :
    Reachable dir (fun _ => True) d (c.play dir info turns) := by
  induction turns generalizing c with
  | nil => exact h
  | cons i turns ih => exact ih (h.step (.advance info i) trivial)

/-! ## At most one holder -/

/-- As long as every file that a run locks is the one that the path of the lock then leads to, no
two of any number of runs hold the lock of a directory, whichever of their steps come first and
whichever runs die. -/
theorem holder_unique {dir : Path} {d : Disk} {c : Contest} (h : Reachable dir (Prompt dir) d c)
    {i j a b : Nat} (hi : c.phase i = .holding a) (hj : c.phase j = .holding b) : i = j := by
  have hleads := h.current i a (by rw [hi]; rfl)
  have hleads' := h.current j b (by rw [hj]; rfl)
  cases hleads.unique hleads'
  exact h.exclusive.apart i j a (by rw [hi]; rfl) (by rw [hj]; rfl)

def sampleDir : Path := ⟨"/w"⟩

/-- An empty directory. -/
def sampleDisk : Disk := ⟨[(["w"], .dir)], [], 0, []⟩

def sampleInfo : LockInfo := ⟨7, (0, 0), programVersion⟩

theorem sampleHolder_unique :
    Reachable sampleDir (Prompt sampleDir) sampleDisk
        ((advance sampleDir sampleInfo 0)^[3] (.start sampleDisk)) ∧
      ((advance sampleDir sampleInfo 0)^[3] (.start sampleDisk)).phase 0 = .holding 0 ∧
      ∀ j b, ((advance sampleDir sampleInfo 0)^[3] (.start sampleDisk)).phase j = .holding b →
        0 = j := by
  have hreach := reachable_lone sampleDir sampleInfo 0 sampleDisk 3
  have hholds : ((advance sampleDir sampleInfo 0)^[3] (.start sampleDisk)).phase 0 =
      .holding 0 := by decide +kernel
  exact ⟨hreach, hholds, fun j b hj => holder_unique hreach hholds hj⟩

/-- Run 1 opens the lock file that run 0 holds, run 0 removes the file and closes it, run 1 locks
what it has opened, and run 2 finds no file and makes one. -/
theorem two_holders :
    ∃ c, Reachable sampleDir (fun _ => True) sampleDisk c ∧
      c.phase 1 = .holding 0 ∧ c.phase 2 = .holding 1 :=
  ⟨_, reachable_play sampleInfo [0, 0, 0, 1, 0, 0, 1, 1, 2, 2, 2] .start,
    by decide +kernel, by decide +kernel⟩

end Contest

end Whittle
