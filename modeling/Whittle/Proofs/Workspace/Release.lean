import Whittle.Proofs.Disk.Removal
import Whittle.Workspace.Basic

/-!
# What the release of a workspace leaves

The release removes the artifacts in the ledger, the lock file, and the work directory if the run
has made it. A place that none of these paths leads to or above stays what it was
(`release_leaves`), also where removing something fails, if there are no links in the work
directory, or at least none on the way to what is removed (`release_bypasses`). No tool is called
(`release_calls`).
-/

namespace Whittle

open Disk

/-- A path in a directory that leads neither to a place nor above it. -/
def Path.Misses (p : Path) (root o : Location) : Prop :=
  ∃ m, (∀ n ∈ m, IsName n) ∧ p = pathOf m ∧ root <+: m ∧ ¬ m <+: o

/-- A workspace in which nothing that is to be removed leads to a place or above it. -/
structure Workspace.Misses (w : Workspace) (root o : Location) : Prop where
  ledger : ∀ a ∈ w.ledger.artifacts, a.path.Misses root o
  lock : ∀ lock, w.lock = some lock → lock.path.Misses root o
  root : w.createdRoot = true → w.root.Misses root o

/-- Something was taken away from a place that is missed. -/
theorem Path.Misses.leaves {p : Path} {root o : Location} (hp : p.Misses root o) {d d' : Disk}
    (hstraight : d.Straight root)
    (h : ∀ m, (∀ n ∈ m, IsName n) → p = pathOf m → d.Straight m → Sheds d d' m) :
    Leaves o d d' := by
  obtain ⟨m, hm, hpath, hroot, hmiss⟩ := hp
  have hstraight := hstraight.below hroot
  have hsheds := h m hm hpath hstraight
  exact ⟨hsheds.links hstraight, hsheds.holds hmiss⟩

/-! ## Artifacts -/

section

variable {a : Artifact} {s : CleanupReport × World} {l : Ledger} {w : World}

theorem sweepOne_world (a : Artifact) (s : CleanupReport × World) :
    (Ledger.sweepOne a s).2.disk = (s.2.disk.removeArtifact a.path).2 ∧
      (Ledger.sweepOne a s).2.calls = s.2.calls := by
  unfold Ledger.sweepOne
  dsimp only
  split <;> exact ⟨rfl, rfl⟩

theorem cleanup_trims (l : Ledger) (w : World) : Trims w.disk (l.cleanup w).2.disk := by
  obtain ⟨artifacts⟩ := l
  show Trims w.disk (artifacts.foldr Ledger.sweepOne (CleanupReport.empty, w)).2.disk
  induction artifacts with
  | nil => exact .refl w.disk
  | cons a as ih =>
    rw [List.foldr_cons, (sweepOne_world a _).1]
    exact ih.trans (.removeArtifact _ a.path)

theorem cleanup_calls (l : Ledger) (w : World) : (l.cleanup w).2.calls = w.calls := by
  obtain ⟨artifacts⟩ := l
  show (artifacts.foldr Ledger.sweepOne (CleanupReport.empty, w)).2.calls = w.calls
  induction artifacts with
  | nil => rfl
  | cons a as ih => rw [List.foldr_cons, (sweepOne_world a _).2, ih]

variable {root o : Location}

theorem sweepOne_leaves (ha : a.path.Misses root o) (hstraight : s.2.disk.Straight root) :
    Leaves o s.2.disk (Ledger.sweepOne a s).2.disk := by
  rw [(sweepOne_world a s).1]
  refine ha.leaves hstraight fun m hm hpath hd => ?_
  rw [hpath]
  exact sheds_removeArtifact hd.self (Path.names_pathOf hm)

theorem cleanup_leaves (h : ∀ a ∈ l.artifacts, a.path.Misses root o)
    (hstraight : w.disk.Straight root) : Leaves o w.disk (l.cleanup w).2.disk := by
  obtain ⟨artifacts⟩ := l
  show Leaves o w.disk (artifacts.foldr Ledger.sweepOne (CleanupReport.empty, w)).2.disk
  induction artifacts with
  | nil => exact .refl o w.disk
  | cons a as ih =>
    rw [List.foldr_cons]
    have hrest := ih fun b hb => h b (List.mem_cons_of_mem _ hb)
    exact hrest.trans (sweepOne_leaves (h a List.mem_cons_self) (hrest.links.straight hstraight))

end

/-! ## The lock and the directory -/

section

variable {l : HeldLock} {w : World} {p : Path} {s : CleanupReport × World} {root o : Location}

theorem heldLock_release_calls (l : HeldLock) (w : World) : (l.release w).calls = w.calls := by
  unfold HeldLock.release
  dsimp only
  split <;> rfl

theorem heldLock_release_leaves (h : l.path.Misses root o) (hstraight : w.disk.Straight root) :
    Leaves o w.disk (l.release w).disk := by
  have hunlock (d : Disk) : Leaves o d (d.unlock l.id) := ⟨.refl d, .refl o d⟩
  unfold HeldLock.release
  dsimp only
  split
  · rename_i d hunlink
    have hdisk : Leaves o w.disk d := h.leaves hstraight fun m hm hpath hd => by
      rw [hpath] at hunlink
      exact sheds_unlink hd.self (Path.names_pathOf hm) hunlink
    exact hdisk.trans (hunlock d)
  · exact hunlock w.disk

theorem removeRoot_world (p : Path) (s : CleanupReport × World) :
    (Workspace.removeRoot p s).2.disk = (s.2.disk.removeTree p).2 ∧
      (Workspace.removeRoot p s).2.calls = s.2.calls := by
  unfold Workspace.removeRoot
  dsimp only
  split
  · exact ⟨rfl, rfl⟩
  · split <;> exact ⟨rfl, rfl⟩

theorem removeRoot_leaves (h : p.Misses root o) (hstraight : s.2.disk.Straight root) :
    Leaves o s.2.disk (Workspace.removeRoot p s).2.disk := by
  rw [(removeRoot_world p s).1]
  refine h.leaves hstraight fun m hm hpath hd => ?_
  rw [hpath]
  exact sheds_removeTree hd.self (Path.names_pathOf hm)

end

/-! ## The release -/

/-- What is true of removing the artifacts, of giving the lock back and of removing the directory is
true of the release. -/
theorem release_rel {R : World → World → Prop} (refl : ∀ w, R w w)
    (trans : ∀ {w w₁ w₂}, R w w₁ → R w₁ w₂ → R w w₂) {s : Site}
    (cleanup : R s.world (s.workspace.ledger.cleanup s.world).2)
    (unlock : ∀ lock, s.workspace.lock = some lock →
      ∀ w, R s.world w → R w (lock.release w))
    (remove : s.workspace.createdRoot = true →
      ∀ t, R s.world t.2 → R t.2 (Workspace.removeRoot s.workspace.root t).2) :
    R s.world (Workspace.release s).2.world := by
  unfold Workspace.release
  cases s.workspace.report with
  | some report => exact refl s.world
  | none =>
    have hremoved {swept : CleanupReport × World} (hleft : R s.world swept.2) :
        R s.world
          (if s.workspace.createdRoot then Workspace.removeRoot s.workspace.root swept
            else swept).2 := by
      split
      · rename_i hcreated
        exact trans hleft (remove hcreated swept hleft)
      · exact hleft
    cases hlock : s.workspace.lock with
    | some lock => exact @hremoved (_, _) (trans cleanup (unlock lock hlock _ cleanup))
    | none => exact @hremoved (_, _) cleanup

/-- The disk after the first release of a workspace that has a lock. -/
theorem release_disk {s : Site} {lock : HeldLock} (hlock : s.workspace.lock = some lock)
    (hreport : s.workspace.report = none) :
    (Workspace.release s).2.world.disk =
      if s.workspace.createdRoot then
        ((lock.release (s.workspace.ledger.cleanup s.world).2).disk.removeTree
          s.workspace.root).2
      else (lock.release (s.workspace.ledger.cleanup s.world).2).disk := by
  rw [Workspace.release, hreport]
  simp only [hlock]
  split
  · exact (removeRoot_world _ _).1
  · rfl

/-- A release calls no tool. -/
theorem release_calls (s : Site) : (Workspace.release s).2.world.calls = s.world.calls :=
  release_rel (R := fun w w' => w'.calls = w.calls) (fun _ => rfl) (fun h h₁ => h₁.trans h)
    (cleanup_calls _ _) (fun lock _ w _ => heldLock_release_calls lock w)
    fun _ t _ => (removeRoot_world _ t).2

theorem release_leaves {s : Site} {root o : Location} (h : s.workspace.Misses root o)
    (hstraight : s.world.disk.Straight root) :
    Leaves o s.world.disk (Workspace.release s).2.world.disk :=
  release_rel (R := fun w w' => Leaves o w.disk w'.disk) (fun w => .refl o w.disk) .trans
    (cleanup_leaves h.ledger hstraight)
    (fun lock hlock _ hleft =>
      heldLock_release_leaves (h.lock lock hlock) (hleft.links.straight hstraight))
    fun hcreated _ hleft => removeRoot_leaves (h.root hcreated) (hleft.links.straight hstraight)

/-! ### Removals elsewhere -/

/-- Something was taken away, but not from a place. -/
structure Disk.Bypasses (P : Location) (d d' : Disk) : Prop where
  old : ∀ Q n, d'.get? Q = some n → d.get? Q = some n
  same : d'.get? P = d.get? P

/-- A path that leads neither to a place nor above it, with no link on the way. -/
def Path.Avoids (p : Path) (P : Location) (d : Disk) : Prop :=
  ∃ m, p.Names m ∧ d.Clear m ∧ ¬ m <+: P

section

variable {p : Path} {P : Location} {d d₁ d' : Disk}

theorem Disk.Bypasses.refl (d : Disk) : Bypasses P d d := ⟨fun _ _ h => h, rfl⟩

theorem Disk.Bypasses.trans (h : Bypasses P d d₁) (h₁ : Bypasses P d₁ d') : Bypasses P d d' :=
  ⟨fun Q n hn => h.old Q n (h₁.old Q n hn), h₁.same.trans h.same⟩

/-- A path still avoids a place when something was taken away. -/
theorem Path.Avoids.of_bypasses (hp : p.Avoids P d) (h : Bypasses P d d') : p.Avoids P d' := by
  obtain ⟨m, hm, hclear, hmiss⟩ := hp
  exact ⟨m, hm, fun Q target hQ hn => hclear Q target hQ (h.old Q _ hn), hmiss⟩

theorem Path.Avoids.bypasses (hp : p.Avoids P d)
    (h : ∀ m, p.Names m → d.Clear m → Sheds d d' m) : Bypasses P d d' := by
  obtain ⟨m, hm, hclear, hmiss⟩ := hp
  have hsheds := h m hm hclear
  exact ⟨hsheds.old, hsheds.other P hmiss⟩

/-- Nothing is removed by way of a path that is too long. -/
theorem removeArtifact_of_checkText (h : checkText p.text ≠ .ok ()) :
    (d.removeArtifact p).2 = d := by
  cases hcheck : checkText p.text with
  | ok u => exact absurd hcheck h
  | error e =>
    have hstat : d.lstat p = .error e := by
      rw [lstat, locate, hcheck]
      rfl
    unfold removeArtifact
    rw [hstat]
    cases e <;> rfl

theorem cleanup_bypasses {l : Ledger} {w : World}
    (h : ∀ a ∈ l.artifacts, a.path.Avoids P w.disk ∨ checkText a.path.text ≠ .ok ()) :
    Bypasses P w.disk (l.cleanup w).2.disk := by
  obtain ⟨artifacts⟩ := l
  show Bypasses P w.disk (artifacts.foldr Ledger.sweepOne (CleanupReport.empty, w)).2.disk
  induction artifacts with
  | nil => exact .refl w.disk
  | cons a as ih =>
    rw [List.foldr_cons]
    have hrest := ih fun b hb => h b (List.mem_cons_of_mem _ hb)
    refine hrest.trans ?_
    rw [(sweepOne_world a _).1]
    rcases h a List.mem_cons_self with ha | hlong
    · exact (ha.of_bypasses hrest).bypasses fun m hm hclear => sheds_removeArtifact hclear hm
    · rw [removeArtifact_of_checkText hlong]
      exact .refl _

theorem heldLock_release_bypasses {l : HeldLock} {w : World} (h : l.path.Avoids P w.disk) :
    Bypasses P w.disk (l.release w).disk := by
  have hunlock (d : Disk) : Bypasses P d (d.unlock l.id) := ⟨fun _ _ hn => hn, rfl⟩
  unfold HeldLock.release
  dsimp only
  split
  · rename_i d hunlink
    exact (h.bypasses fun m hm hclear => sheds_unlink hclear hm hunlink).trans (hunlock d)
  · exact hunlock w.disk

/-- A release takes nothing away from a place that all it is to remove avoids. -/
theorem release_bypasses {s : Site}
    (hledger : ∀ a ∈ s.workspace.ledger.artifacts,
      a.path.Avoids P s.world.disk ∨ checkText a.path.text ≠ .ok ())
    (hlock : ∀ lock, s.workspace.lock = some lock → lock.path.Avoids P s.world.disk)
    (hroot : s.workspace.createdRoot = true → s.workspace.root.Avoids P s.world.disk) :
    Bypasses P s.world.disk (Workspace.release s).2.world.disk :=
  release_rel (R := fun w w' => Bypasses P w.disk w'.disk) (fun w => .refl w.disk) .trans
    (cleanup_bypasses hledger)
    (fun lock hheld _ hleft => heldLock_release_bypasses ((hlock lock hheld).of_bypasses hleft))
    fun hcreated t hleft => by
      rw [(removeRoot_world _ t).1]
      exact ((hroot hcreated).of_bypasses hleft).bypasses
        fun m hm hclear => sheds_removeTree hclear hm

end

end Whittle
