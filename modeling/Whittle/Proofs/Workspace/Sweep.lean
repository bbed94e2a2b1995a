import Whittle.Proofs.Disk.Slots
import Whittle.Proofs.Workspace.Acquire

/-!
# Releases without a failure

A ledger covers the places of its paths and those below. If nothing fails, the release of a workspace
removes what is covered and the lock file, and leaves the rest (`release_clean`); of a directory that
the run made it leaves nothing (`release_removes`).
-/

namespace Whittle

open Disk

/-- A place at or below one whose path is in the ledger. -/
def Ledger.Covers (k : Ledger) (P : Location) : Prop :=
  ∃ a ∈ k.artifacts, ∃ m, (∀ n ∈ m, IsName n) ∧ a.path = pathOf m ∧ m <+: P

theorem Ledger.Covers.below {k : Ledger} {P Q : Location} (h : k.Covers P) (hPQ : P <+: Q) :
    k.Covers Q := by
  obtain ⟨a, ha, m, hm, hpath, hP⟩ := h
  exact ⟨a, ha, m, hm, hpath, hP.trans hPQ⟩

theorem pathOf_injective {m m' : Location} (hm : ∀ n ∈ m, IsName n) (hm' : ∀ n ∈ m', IsName n)
    (h : (pathOf m).parts = (pathOf m').parts) : m = m' := by
  rw [parts_pathOf hm, parts_pathOf hm'] at h
  exact List.map_injective_iff.mpr (fun _ _ e => Path.Part.name.inj e) (List.cons.inj h).2

/-! ## Artifacts -/

/-- The artifacts of a ledger lie in a directory. -/
def Ledger.Within (k : Ledger) (root : Location) : Prop :=
  ∀ a ∈ k.artifacts, ∃ m, (∀ n ∈ m, IsName n) ∧ a.path = pathOf m ∧ root <+: m ∧ m ≠ root

/-- A place at or below one that a path in the ledger names, however the path is written. -/
def Ledger.Lists (k : Ledger) (P : Location) : Prop :=
  ∃ a ∈ k.artifacts, ∃ m, a.path.Names m ∧ m <+: P

/-- The paths of a ledger name places in a directory. -/
def Ledger.Inside (k : Ledger) (root : Location) : Prop :=
  ∀ a ∈ k.artifacts, ∃ m, a.path.Names m ∧ root <+: m

theorem Ledger.Within.inside {k : Ledger} {root : Location} (h : k.Within root) :
    k.Inside root := by
  intro a ha
  obtain ⟨m, hm, hpath, hroot, -⟩ := h a ha
  exact ⟨m, hpath ▸ Path.names_pathOf hm, hroot⟩

theorem Ledger.Within.lists_iff {k : Ledger} {root P : Location} (h : k.Within root) :
    k.Lists P ↔ k.Covers P := by
  constructor
  · rintro ⟨a, ha, m, hnames, hP⟩
    obtain ⟨m', hm, hpath, -⟩ := h a ha
    have hplace := Path.names_pathOf hm
    obtain rfl := hnames.unique hplace (decide_eq_true (congrArg Path.parts hpath))
    exact ⟨a, ha, m, hm, hpath, hP⟩
  · rintro ⟨a, ha, m, hm, hpath, hP⟩
    exact ⟨a, ha, m, hpath ▸ Path.names_pathOf hm, hP⟩

/-- A disk from which what a ledger lists was removed, and nothing else. -/
structure Purged (k : Ledger) (d d' : Disk) : Prop where
  links : SameLinks d d'
  nested : d'.Nested
  gone : ∀ P, k.Lists P → d'.get? P = none
  other : ∀ P, ¬ k.Lists P → d'.get? P = d.get? P
  checked : ∀ a ∈ k.artifacts, checkText a.path.text = .ok ()

/-- A disk from which what a ledger covers was removed, and nothing else. -/
structure Swept (k : Ledger) (d d' : Disk) : Prop where
  links : SameLinks d d'
  nested : d'.Nested
  gone : ∀ P, k.Covers P → d'.get? P = none
  other : ∀ P, ¬ k.Covers P → d'.get? P = d.get? P
  checked : ∀ a ∈ k.artifacts, checkText a.path.text = .ok ()

theorem sweepOne_clean {a : Artifact} {s : CleanupReport × World}
    (h : (Ledger.sweepOne a s).1.failed = []) :
    s.1.failed = [] ∧ ∃ b, (s.2.disk.removeArtifact a.path).1 = .ok b := by
  unfold Ledger.sweepOne at h
  dsimp only at h
  split at h
  · rename_i hremoved
    exact ⟨h, true, hremoved⟩
  · rename_i hgone
    exact ⟨h, false, hgone⟩
  · exact absurd h (by simp [CleanupReport.addLeftover])

theorem lists_cons {a : Artifact} {as : List Artifact} {m : Location} (hplace : a.path.Names m)
    {P : Location} : Ledger.Lists ⟨a :: as⟩ P ↔ m <+: P ∨ Ledger.Lists ⟨as⟩ P := by
  constructor
  · rintro ⟨b, hb, k, hk, hP⟩
    rcases List.mem_cons.mp hb with rfl | hb
    · obtain rfl := hk.unique hplace (decide_eq_true rfl)
      exact .inl hP
    · exact .inr ⟨b, hb, k, hk, hP⟩
  · rintro (hP | ⟨b, hb, hlists⟩)
    · exact ⟨a, List.mem_cons_self, m, hplace, hP⟩
    · exact ⟨b, List.mem_cons_of_mem _ hb, hlists⟩

/-- Removing one more artifact. -/
theorem Purged.cons {a : Artifact} {as : List Artifact} {d d₁ d' : Disk} {m : Location}
    (h : Purged ⟨as⟩ d d₁) (hplace : a.path.Names m) (hcheck : checkText a.path.text = .ok ())
    (hsheds : Sheds d₁ d' m) (hstraight : d₁.Straight m) (hgone : d'.Gone m) :
    Purged ⟨a :: as⟩ d d' where
  links := h.links.trans (hsheds.links hstraight)
  nested := h.nested.sheds hsheds hgone
  gone P hP := by
    rcases (lists_cons hplace).mp hP with hP | hP
    · exact hgone P hP
    · by_contra hne
      obtain ⟨n, hn⟩ := Option.ne_none_iff_exists'.mp hne
      have hold := hsheds.old P n hn
      rw [h.gone P hP] at hold
      cases hold
  other P hP := by
    rw [lists_cons hplace, not_or] at hP
    exact (hsheds.other P hP.1).trans (h.other P hP.2)
  checked b hb := by
    rcases List.mem_cons.mp hb with rfl | hb
    · exact hcheck
    · exact h.checked b hb

/-- A cleanup without a failure removes exactly what the ledger lists. -/
theorem cleanup_purges {k : Ledger} {w : World} {root : Location} (hinside : k.Inside root)
    (hstraight : w.disk.Straight root) (hnested : w.disk.Nested)
    (hclean : (k.cleanup w).1.failed = []) : Purged k w.disk (k.cleanup w).2.disk := by
  obtain ⟨artifacts⟩ := k
  have hfold (as : List Artifact) (hinside : Ledger.Inside ⟨as⟩ root)
      (hclean : (as.foldr Ledger.sweepOne (CleanupReport.empty, w)).1.failed = []) :
      Purged ⟨as⟩ w.disk (as.foldr Ledger.sweepOne (CleanupReport.empty, w)).2.disk := by
    induction as with
    | nil => exact ⟨.refl _, hnested, fun P ⟨a, ha, _⟩ => (nomatch ha), fun _ _ => rfl, nofun⟩
    | cons a as ih =>
      rw [List.foldr_cons] at hclean ⊢
      obtain ⟨hrest, b, hremoved⟩ := sweepOne_clean hclean
      have hpurged := ih (fun b hb => hinside b (List.mem_cons_of_mem _ hb)) hrest
      obtain ⟨m, hplace, hroot⟩ := hinside a List.mem_cons_self
      have hstraight₁ := (hpurged.links.straight hstraight).below hroot
      have hsheds := sheds_removeArtifact hstraight₁.self hplace
      rw [(sweepOne_world a _).1]
      exact hpurged.cons hplace (checkText_of_removeArtifact hplace hremoved) hsheds hstraight₁
        (gone_removeArtifact hplace hpurged.nested hstraight₁ (Prod.ext hremoved rfl))
  exact hfold artifacts hinside hclean

/-- A cleanup without a failure removes exactly what the ledger covers. -/
theorem cleanup_clean {k : Ledger} {w : World} {root : Location} (hwithin : k.Within root)
    (hstraight : w.disk.Straight root) (hnested : w.disk.Nested)
    (hclean : (k.cleanup w).1.failed = []) : Swept k w.disk (k.cleanup w).2.disk := by
  obtain ⟨hlinks, hleft, hgone, hother, hchecked⟩ :=
    cleanup_purges hwithin.inside hstraight hnested hclean
  exact ⟨hlinks, hleft, fun P hP => hgone P (hwithin.lists_iff.mpr hP),
    fun P hP => hother P (mt hwithin.lists_iff.mp hP), hchecked⟩

/-! ## The lock and the directory -/

section

variable {l : HeldLock} {w : World} {place : Location} (hpath : l.path = pathOf place)
include hpath

/-- A lock file that is there can be removed. -/
theorem heldLock_release_handy (hhandy : w.disk.Handy place) {n : Node}
    (hn : w.disk.get? place = some n) (hdir : n ≠ .dir) :
    Alters w.disk (l.release w).disk place none := by
  have hplace : w.disk.get? place ≠ some .dir := by simpa [hn] using hdir
  have halters : Alters w.disk (w.disk.erase place) place none := alters_erase (not_root hplace)
  have hunlink := hhandy.unlink hn hdir
  rw [← hpath] at hunlink
  unfold HeldLock.release
  rw [hunlink]
  exact ⟨halters.not_root, halters.get?⟩

theorem heldLock_release_nested (hnames : ∀ n ∈ place, IsName n)
    (hstraight : w.disk.Straight place) (hnested : w.disk.Nested) :
    SameLinks w.disk (l.release w).disk ∧ (l.release w).disk.Nested := by
  unfold HeldLock.release
  dsimp only
  split
  · rename_i d hunlink
    rw [hpath] at hunlink
    have hleft : d.Nested := hnested.unlink hunlink
    exact ⟨(unlink_at hstraight hnames hunlink).1, hleft⟩
  · exact ⟨.refl _, hnested⟩

end

theorem removeRoot_clean {p : Path} {s : CleanupReport × World}
    (h : (Workspace.removeRoot p s).1.failed = []) :
    s.1.failed = [] ∧ ∀ e, (s.2.disk.removeTree p).1 = .error e → e.isNotFound = true := by
  unfold Workspace.removeRoot at h
  dsimp only at h
  split at h
  · rename_i hremoved
    exact ⟨h, fun e he => by rw [hremoved] at he; cases he⟩
  · rename_i e hremoved
    split at h
    · rename_i hgone
      refine ⟨h, fun e' he => ?_⟩
      cases hremoved.symm.trans he
      exact hgone
    · exact absurd h (by simp [CleanupReport.addLeftover])

/-! ## The release -/

section

variable {s : Site} {root : Location} {lock : HeldLock} (hreport : s.workspace.report = none)
  (hstraight : s.world.disk.Straight root) (hnested : s.world.disk.Nested)
  (hclean : (Workspace.release s).1.failed = [])

section

include hreport hclean

theorem release_cleanup : (s.workspace.ledger.cleanup s.world).1.failed = [] := by
  unfold Workspace.release at hclean
  rw [hreport] at hclean
  dsimp only at hclean
  split at hclean
  · exact (removeRoot_clean hclean).1
  · exact hclean

end

include hreport hstraight hnested hclean

theorem release_purged (hinside : s.workspace.ledger.Inside root) :
    Purged s.workspace.ledger s.world.disk (s.workspace.ledger.cleanup s.world).2.disk :=
  cleanup_purges hinside hstraight hnested (release_cleanup hreport hclean)

theorem release_swept (hwithin : s.workspace.ledger.Within root) :
    Swept s.workspace.ledger s.world.disk (s.workspace.ledger.cleanup s.world).2.disk :=
  cleanup_clean hwithin hstraight hnested (release_cleanup hreport hclean)

variable (hlock : s.workspace.lock = some lock)
  (hpath : lock.path = pathOf (root ++ [Artifacts.lockFile]))
include hlock hpath

/-- A release without a failure removes what the ledger covers, and the lock file, and nothing
else. -/
theorem release_clean (hwithin : s.workspace.ledger.Within root)
    (hcreated : s.workspace.createdRoot = false)
    (hhandy : s.world.disk.Handy (root ++ [Artifacts.lockFile]))
    (hfile : ∃ id c x, s.world.disk.get? (root ++ [Artifacts.lockFile]) = some (.file id c x))
    (huncovered : ¬ s.workspace.ledger.Covers (root ++ [Artifacts.lockFile])) (P : Location)
    (n : Node) :
    (Workspace.release s).2.world.disk.get? P = some n ↔ P ≠ root ++ [Artifacts.lockFile] ∧
      ¬ s.workspace.ledger.Covers P ∧ s.world.disk.get? P = some n := by
  obtain ⟨id, c, x, hfile⟩ := hfile
  have hswept := release_swept hreport hstraight hnested hclean hwithin
  have hhandy' : Handy (s.workspace.ledger.cleanup s.world).2.disk
      (root ++ [Artifacts.lockFile]) := by
    refine ⟨hhandy.check, hhandy.reached.names, fun Q hQ hne => ?_⟩
    rw [hswept.other Q fun hcovers => huncovered (hcovers.below hQ), hhandy.reached.above Q hQ hne]
  rw [← hswept.other _ huncovered] at hfile
  have halters := heldLock_release_handy hpath hhandy' hfile nofun
  unfold Workspace.release
  rw [hreport, hlock, hcreated]
  show (lock.release (s.workspace.ledger.cleanup s.world).2).disk.get? P = some n ↔ _
  rw [halters.get?]
  split
  · rename_i e
    simp [e]
  · rename_i hne
    by_cases hcovers : s.workspace.ledger.Covers P
    · simp [hswept.gone P hcovers, hcovers]
    · simp [hswept.other P hcovers, hcovers, hne]

/-- A release without a failure leaves nothing of a directory that the run made. -/
theorem release_removes (hinside : s.workspace.ledger.Inside root)
    (hroot : s.workspace.root = pathOf root) (hnames : ∀ n ∈ root, IsName n)
    (hcreated : s.workspace.createdRoot = true) :
    (Workspace.release s).2.world.disk.Gone root := by
  have hpurged := release_purged hreport hstraight hnested hclean hinside
  unfold Workspace.release at hclean ⊢
  rw [hreport, hlock, hcreated, hroot] at hclean ⊢
  obtain ⟨-, hremoved⟩ := removeRoot_clean hclean
  have hstraight₁ := hpurged.links.straight hstraight
  obtain ⟨hlinks, hnested₁⟩ := heldLock_release_nested hpath (names_lockFile hnames)
    (hstraight₁.below (List.prefix_append _ _)) hpurged.nested
  have hgone := gone_removeTree (Path.names_pathOf hnames) hnested₁ (hlinks.straight hstraight₁)
    (Prod.ext rfl rfl) hremoved
  show (Workspace.removeRoot (pathOf root) (_, _)).2.disk.Gone root
  rw [(removeRoot_world _ _).1]
  exact hgone

end

end Whittle
