import Whittle.Proofs.Workspace.Holding

/-!
# A work directory that cannot be had

An attempt at a workspace that fails has called no tool and written no file
(`Workspace.acquire_refused`). If it fails because somebody else has the directory, nothing at all
has changed, provided that the directory is found by the path that leads to it: the one that goes up
from a missing directory does not find what is there, and then the attempt removes it.
-/

namespace Whittle

open Disk

namespace Disk

/-- Every lock is on a file that was made. -/
def LocksNumbered (d : Disk) : Prop := ∀ id ∈ d.locked, id < d.nextId

/-- A directory that is there is found by a path that leads to it. -/
def Finds (d : Disk) (dir : Path) : Prop :=
  ∀ l, d.placeOf dir = some l → d.get? l ≠ none → d.pathExists dir = true

/-- No file is new on the second disk, and none has other content. -/
def Unwritten (d d' : Disk) : Prop :=
  ∀ l id c x, d'.get? l = some (.file id c x) → d.get? l = some (.file id c x)

theorem Grows.unwritten {d d' : Disk} (h : Grows d d') : Unwritten d d' := by
  intro l id c x hfile
  rcases h.get? l with e | ⟨-, e⟩
  · rw [← e, hfile]
  · rw [e] at hfile
    cases hfile

end Disk

/-- A lock that is not had leaves the disk alone; if somebody else has it, it is on a file. -/
theorem heldLock_acquire_refused {host : Host} {dir : Path} {w w' : World} {e : Fault}
    (hlocks : w.disk.LocksNumbered) (h : HeldLock.acquire host dir w = (.error e, w')) :
    w' = w ∧ (e.kind = .io ∨ e = .workspaceBusy dir ∧
      ∃ place id c x, w.disk.locate .file (HeldLock.pathIn dir) = .ok place ∧
        w.disk.get? place = some (.file id c x)) := by
  rw [heldLock_acquire_apply] at h
  cases hopen : w.disk.openLockFile (HeldLock.pathIn dir) with
  | error cause =>
    rw [hopen] at h
    cases h
    exact ⟨rfl, .inl rfl⟩
  | ok opened =>
    obtain ⟨id, d⟩ := opened
    have hlocked := locked_openLockFile hopen
    obtain ⟨place, hplace, hnode⟩ := openLockFile_ok hopen
    rw [hopen] at h
    dsimp only at h
    split at h
    · rename_i hheld
      cases h
      have hid : id ∈ d.locked := by
        by_contra hfree
        rw [tryLock, if_neg hfree] at hheld
        cases hheld
      -- the file of a lock that is held is not a new one
      rcases hnode with ⟨c, x, hfile, rfl⟩ | ⟨rfl, -, -⟩
      · exact ⟨rfl, .inr ⟨rfl, place, id, c, x, hplace, hfile⟩⟩
      · rw [hlocked] at hid
        exact absurd (hlocks _ hid) (Nat.lt_irrefl _)
    · cases h

/-- The lock file of a directory that can be reached stands in it, or a link to it does. -/
theorem entry_of_lockFile {d : Disk} {l place : Location} {n : Node} (hl : Reached d l)
    (hdir : d.get? l = some .dir)
    (hplace : d.locate .file (HeldLock.pathIn (pathOf l)) = .ok place)
    (hn : d.get? place = some n) :
    (∃ target, d.get? (l ++ [Artifacts.lockFile]) = some (.link target)) ∨
      d.get? (l ++ [Artifacts.lockFile]) = some n := by
  by_cases hlink : ∃ target, d.get? (l ++ [Artifacts.lockFile]) = some (.link target)
  · exact .inl hlink
  · have hreached : Reached d (l ++ [Artifacts.lockFile]) :=
      hl.push hdir isName_lockFile (by decide)
    have hclear := hreached.clear fun target e => hlink ⟨target, e⟩
    rw [pathIn_pathOf hl.isName] at hplace
    obtain ⟨-, -, rfl⟩ := (locate_pathOf_iff hclear hreached.isName).mp hplace
    exact .inr hn

/-- A directory with the file of a lock was there before directories were made. -/
theorem dir_of_lockFile {d d' : Disk} {l place : Location} {id : Nat} {c : ByteArray} {x : Bool}
    (hnested : d.Nested) (hgrows : Grows d d') (hl : Reached d' l) (hdir : d'.get? l = some .dir)
    (hplace : d'.locate .file (HeldLock.pathIn (pathOf l)) = .ok place)
    (hfile : d'.get? place = some (.file id c x)) : d.get? l = some .dir := by
  have hnow := entry_of_lockFile hl hdir hplace hfile
  rcases hgrows.get? (l ++ [Artifacts.lockFile]) with hsame | ⟨-, hnew⟩
  · rw [hsame] at hnow
    rcases hnow with ⟨target, hlink⟩ | hthere
    · exact hnested _ _ _ hlink
    · exact hnested _ _ _ hthere
  · rw [hnew] at hnow
    rcases hnow with ⟨target, hlink⟩ | hthere
    · cases hlink
    · cases hthere

theorem isDir_of_makeDirs {d d' : Disk} {dir : Path} (hdir : dir.isAbsolute = true)
    (h : d.makeDirs dir = (.ok (), d')) : d'.isDir dir = true := by
  have hparts : dir.parts ≠ [] := by
    unfold Path.parts
    dsimp only
    rw [if_pos hdir]
    exact List.cons_ne_nil _ _
  exact (makeDirsFrom_eq_ok h).resolve_left hparts

/-- What a refused attempt at a workspace leaves. -/
structure Refused (dir : Path) (e : Fault) (w w' : World) : Prop where
  calls : w'.calls = w.calls
  unwritten : Unwritten w.disk w'.disk
  kind : e.kind = .io ∨ e.kind = .workspaceBusy
  unchanged : e.kind = .workspaceBusy → w.disk.Finds dir → w'.disk = w.disk

theorem Workspace.acquire_refused {host : Host} {dir : Path} {w w' : World} {e : Fault}
    (hdir : dir.isAbsolute = true) (hnested : w.disk.Nested) (hlocks : w.disk.LocksNumbered)
    (h : Workspace.acquire host dir w = (.error e, w')) : Refused dir e w w' := by
  have hgrows := grows_makeDirs w.disk dir
  have hlocked : (w.disk.makeDirs dir).2.LocksNumbered := by
    intro id hid
    rw [locked_makeDirs] at hid
    rw [hgrows.nextId]
    exact hlocks id hid
  rw [Workspace.acquire_apply] at h
  cases hmade : w.disk.makeDirs dir with
  | mk r d =>
    rw [hmade] at h hgrows hlocked
    cases r with
    | error cause =>
      cases h
      exact ⟨rfl, hgrows.unwritten, .inl rfl, nofun⟩
    | ok _ =>
      cases hroot : d.canonical dir with
      | error cause =>
        dsimp only at h
        rw [hroot] at h
        cases h
        exact ⟨rfl, hgrows.unwritten, .inl rfl, nofun⟩
      | ok root =>
        dsimp only at h
        rw [hroot] at h
        cases hheld : HeldLock.acquire host root { w with disk := d } with
        | mk r w₁ =>
          dsimp only at h
          rw [hheld] at h
          cases r with
          | ok lock => cases h
          | error cause =>
            obtain ⟨rfl, hkind⟩ := heldLock_acquire_refused hlocked hheld
            cases h
            dsimp only
            refine ⟨rfl, fun l id c x hfile => hgrows.unwritten l id c x ?_, ?_, ?_⟩
            · dsimp only at hfile
              split at hfile
              · exact (Trims.removeTree d root).old hfile
              · exact hfile
            · rcases hkind with hio | ⟨rfl, -⟩
              · exact .inl hio
              · exact .inr rfl
            · intro hbusy hfinds
              obtain ⟨-, place, id, c, x, hplace, hfile⟩ :=
                hkind.resolve_left fun hio => by rw [hio] at hbusy; cases hbusy
              obtain ⟨l, hstat⟩ := isDir_eq_true (isDir_of_makeDirs hdir hmade)
              obtain ⟨k, n, hstat', hreached, rfl⟩ := canonical_ok hdir hroot
              cases hstat.symm.trans hstat'
              obtain ⟨hlocate, hthere⟩ := stat_eq_ok hstat
              -- only directories were made, so this one was there, and it was found
              have hwas := dir_of_lockFile hnested hgrows hreached hthere hplace hfile
              have hfound := hfinds l (placeOf_eq hdir hgrows.links hlocate) (by rw [hwas]; nofun)
              have hsame := makeDirs_of_pathExists hfound
              rw [hmade] at hsame
              rw [hfound]
              exact hsame

/-- A workspace that was acquired has a lock, and nobody has released it. -/
theorem Workspace.acquire_locks {host : Host} {dir : Path} {w w' : World} {workspace : Workspace}
    (h : Workspace.acquire host dir w = (.ok workspace, w')) :
    workspace.report = none ∧
      ∃ lock, workspace.lock = some lock ∧ lock.id ∈ w'.disk.locked := by
  rw [Workspace.acquire_apply] at h
  split at h
  · cases h
  · split at h
    · cases h
    · rename_i root _
      split at h
      · rename_i lock w₁ hheld
        cases h
        refine ⟨rfl, lock, rfl, ?_⟩
        rw [heldLock_acquire_apply] at hheld
        split at hheld
        · cases hheld
        · split at hheld
          · cases hheld
          · rename_i locked hlock
            cases hheld
            unfold tryLock at hlock
            split at hlock
            · cases hlock
            · cases hlock
              exact List.mem_cons_self
      · cases h

/-! ## The release -/

/-- The first release gives the lock back, whatever else fails. -/
theorem Workspace.release_unlocks {s : Site} {lock : HeldLock} (hreport : s.workspace.report = none)
    (hlock : s.workspace.lock = some lock) :
    lock.id ∉ (Workspace.release s).2.world.disk.locked := by
  have hfree (w : World) : lock.id ∉ (lock.release w).disk.locked := by
    rw [Tenancy.disk_release, unlock]
    simp
  unfold release
  rw [hreport, hlock]
  dsimp only
  split
  · rw [(removeRoot_world _ _).1, (Trims.removeTree _ _).locked]
    exact hfree _
  · exact hfree _

theorem Workspace.release_of_report {s : Site} {report : CleanupReport}
    (h : s.workspace.report = some report) : Workspace.release s = (report, s) := by
  unfold release
  rw [h]

/-- The first release stores its report. -/
theorem Workspace.release_report {s : Site} (hreport : s.workspace.report = none) :
    (Workspace.release s).2.workspace.report = some (Workspace.release s).1 := by
  unfold release
  rw [hreport]

/-- A workspace is released once: a second release, and giving the workspace up, do nothing. -/
theorem Workspace.release_once {s : Site} (hreport : s.workspace.report = none) :
    (Workspace.release s).2.workspace.isReleased = true ∧
      Workspace.release (Workspace.release s).2 = Workspace.release s ∧
      Workspace.drop (Workspace.release s).2 = (Workspace.release s).2 := by
  have hreleased := Workspace.release_report hreport
  have his : (Workspace.release s).2.workspace.isReleased = true := by
    rw [isReleased, hreleased]
    rfl
  exact ⟨his, Workspace.release_of_report hreleased, by rw [drop, if_pos his]⟩

end Whittle
