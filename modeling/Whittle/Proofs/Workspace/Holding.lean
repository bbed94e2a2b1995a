import Whittle.Proofs.Workspace.Tenancy

/-!
# The run that holds a directory

A run that holds the directory is not disturbed by the steps of other runs: all that they change is
that there may be new directories (`holder_undisturbed`). This takes two things that nothing sees
to. Each lock is taken on the file that the path of the lock then leads to (`Contest.Prompt`); and
unless the directory was there from the start (`Stands`), nobody has its lock when a run comes to
remove it (`Vacant`). A run that found the directory missing removes it when it cannot have the
lock, and so takes it away from the run that has (`holder_evicted`).
-/

namespace Whittle

open Disk

namespace Disk

/-! ## Locks and what leads to them -/

theorem locked_makeDirs (d : Disk) (p : Path) : (d.makeDirs p).2.locked = d.locked := by
  refine makeDirsFrom_rel (R := fun d d' => d'.locked = d.locked) (A := fun _ => True)
    (fun _ => rfl) (fun h h₁ => h₁.trans h) (fun _ _ _ _ => trivial) (fun d d' p _ h => ?_) d
    trivial _
  unfold makeDir at h
  split at h
  · cases h
  · split at h <;> cases h
    rfl

theorem get?_tryLock {d d' : Disk} {id : Nat} (h : d.tryLock id = some d') :
    d'.cwd = d.cwd ∧ d'.nextId = d.nextId ∧ ∀ l, d'.get? l = d.get? l := by
  unfold tryLock at h
  split at h <;> cases h
  exact ⟨rfl, rfl, fun _ => rfl⟩

theorem Grows.of_get? {d d' : Disk} (hcwd : d'.cwd = d.cwd) (hnext : d'.nextId = d.nextId)
    (h : ∀ l, d'.get? l = d.get? l) : Grows d d' := ⟨fun l => .inl (h l), hnext, hcwd⟩

/-- Directories that are directories still. -/
theorem Leaves.of_dirs {d d' : Disk} {l : Location} (hlinks : SameLinks d d')
    (h : ∀ P, P <+: l → d.get? P = some .dir ∧ d'.get? P = some .dir) : Leaves l d d' :=
  ⟨hlinks, fun P n hP hn => by rw [← hn, (h P hP).1, (h P hP).2]⟩

namespace LeadsTo

variable {d d' : Disk} {p : Path} {id : Nat}

theorem grows (h : d.LeadsTo p id) (hgrows : Grows d d') : d'.LeadsTo p id := by
  obtain ⟨l, content, x, hl, hn⟩ := h
  exact ⟨l, content, x, hgrows.ways.locate hl, hgrows.keeps hn⟩

section

variable {m : Location} (hclear : d.Clear m) (hm : ∀ n ∈ m, IsName n)
  (h : d.LeadsTo (pathOf m) id)
include hclear hm h

/-- The lock file lies in directories. -/
theorem above {P : Location} (hP : P <+: m) (hne : P ≠ m) : d.get? P = some .dir := by
  obtain ⟨l, -, -, hl, -⟩ := h
  exact ((locate_pathOf_iff hclear hm).mp hl).2.1.above P hP hne

theorem leaves (hleaves : Leaves m d d') : d'.LeadsTo (pathOf m) id := by
  obtain ⟨l, content, x, hl, hn⟩ := h
  obtain ⟨hcheck, hreached, rfl⟩ := (locate_pathOf_iff hclear hm).mp hl
  have hclear' : d'.Clear l := fun P target hP hlink =>
    hclear P target hP ((hleaves.links P target).mp hlink)
  exact ⟨l, content, x,
    (locate_pathOf_iff hclear' hm).mpr ⟨hcheck, hreached.of_holds hleaves.holds, rfl⟩,
    hleaves.holds l _ (List.prefix_refl l) hn⟩

end

end LeadsTo

end Disk

namespace Contest

/-- The lock file stays where it is while a run goes on with something else. -/
theorem Current.keep {dir : Path} {c : Contest} (h : Current dir c) {i : Nat} {p : Phase} {d : Disk}
    (hp : p.claimed = (c.phase i).claimed)
    (hd : ∀ j id, (c.phase j).claimed = some id → c.disk.LeadsTo (HeldLock.pathIn dir) id →
      d.LeadsTo (HeldLock.pathIn dir) id) : Current dir (c.move i p d) := by
  intro j id hj
  have hbefore : (c.phase j).claimed = some id := by
    by_cases e : j = i
    · subst e
      rwa [phase_move, hp] at hj
    · rwa [phase_move_other _ _ _ _ e] at hj
  exact hd j id hbefore (h j id hbefore)

end Contest

namespace Tenancy

/-! ## What the runs keep to -/

/-- The paths of the runs all lead to one directory, and there are no links at, above and below
it. -/
structure OneRoot (dirs : Nat → Path) (root : Location) (d : Disk) : Prop where
  absolute : ∀ i, (dirs i).isAbsolute = true
  place : ∀ i, d.placeOf (dirs i) = some root
  straight : d.Straight root

/-- The links are those of the disk at the start, all runs have found the same directory and have
not registered its lock file, no two have locked the same file, and a file that a run has locked and
not removed is the one that the path of the lock leads to. -/
structure Kept (d₀ : Disk) (root : Location) (c : Tenancy) : Prop where
  links : SameLinks d₀ c.disk
  tenure : ∀ i t, (c.stay i).tenure = some t → t.root = pathOf root ∧ ∀ n ∈ root, IsName n
  artifacts : ∀ i, ∀ a ∈ (c.stay i).artifacts, a.path.Misses root (lockPlace root)
  exclusive : c.locks.Exclusive
  current : Contest.Current (pathOf root) c.locks

theorem lockPlace_not_above (root : Location) : ¬ lockPlace root <+: root := by
  intro h
  have hlength := h.length_le
  rw [lockPlace, List.length_append] at hlength
  exact absurd hlength (Nat.not_succ_le_self _)

section

variable {d₀ : Disk} {dirs : Nat → Path} {root : Location} {c : Tenancy} {i : Nat} {s : Stay}
  {d : Disk} (hroot : OneRoot dirs root d₀) (h : Kept d₀ root c)
include hroot h

theorem Kept.straight : c.disk.Straight root := h.links.straight hroot.straight

omit hroot in
/-- A run that has the lock knows its path. -/
theorem Kept.lock {t : Tenure} (ht : (c.stay i).tenure = some t) :
    HeldLock.pathIn t.root = pathOf (lockPlace root) := by
  obtain ⟨e, hnames⟩ := h.tenure i t ht
  rw [e, pathIn_pathOf hnames]
  rfl

theorem Kept.clear : c.disk.Clear (lockPlace root) :=
  (h.straight hroot).clear (List.prefix_append _ _)

omit hroot in
/-- A run has the file locked that the path of the lock leads to. -/
theorem Kept.leads {t : Tenure} {id : Nat} (ht : (c.stay i).tenure = some t)
    (hid : (c.stay i).phase.claimed = some id) :
    (∀ n ∈ lockPlace root, IsName n) ∧
      HeldLock.pathIn (pathOf root) = pathOf (lockPlace root) ∧
      c.disk.LeadsTo (pathOf (lockPlace root)) id := by
  have hnames := (h.tenure i t ht).2
  have hpath : HeldLock.pathIn (pathOf root) = pathOf (lockPlace root) := pathIn_pathOf hnames
  exact ⟨names_lockFile hnames, hpath, hpath ▸ h.current i id hid⟩

/-- Removing an artifact leaves the lock file where it is. -/
theorem Kept.leaves_swept {a : Artifact} (ha : a ∈ (c.stay i).artifacts) :
    Leaves (lockPlace root) c.disk (c.disk.removeArtifact a.path).2 := by
  refine (h.artifacts i a ha).leaves (h.straight hroot) fun m hm hpath hd => ?_
  rw [hpath]
  exact sheds_removeArtifact hd.self (Path.names_pathOf hm)

/-- What a step leaves, unless it removes the directory. -/
theorem Kept.leaves (hchange : Change (dirs i) root c i s d)
    (hstays : ∀ t, c.stay i = .leaving t → t.created = false) : Leaves root c.disk d := by
  have hnone (d : Disk) (id : Nat) : Leaves root d (d.unlock id) := ⟨.refl d, .refl root d⟩
  have hbelow : root <+: lockPlace root := List.prefix_append _ _
  have hne (P : Location) (hP : P <+: root) : P ≠ lockPlace root := by
    rintro rfl
    exact lockPlace_not_above root hP
  cases hchange with
  | tested => exact .refl root c.disk
  | made => exact (grows_makeDirs _ _).leaves root
  | rooted => exact .refl root c.disk
  | opened hstay hopen =>
    have hways := ways_openLockFile hopen
    refine ⟨hways.link, fun P n hP hn => ?_⟩
    obtain ⟨l, hl, ⟨-, -, -, rfl⟩ | ⟨-, -, halters⟩⟩ := openLockFile_ok hopen
    · exact hn
    · rw [h.lock (by rw [hstay]; rfl)] at hl
      have hnames := names_lockFile (h.tenure i _ (by rw [hstay]; rfl)).2
      obtain ⟨-, -, rfl⟩ := (locate_pathOf_iff (h.clear hroot) hnames).mp hl
      rw [halters.other (hne P hP), hn]
  | barred => exact .refl root c.disk
  | locked hstay hlock =>
    obtain ⟨hcwd, hnext, hget⟩ := get?_tryLock hlock
    exact (Grows.of_get? hcwd hnext hget).leaves root
  | @signed t id hstay content =>
    have hways := ways_setContent c.disk id content
    obtain ⟨hnames, -, hleads⟩ := h.leads (i := i) (by rw [hstay]; rfl) (by rw [hstay]; rfl)
    refine .of_dirs hways.link fun P hP => ?_
    have hdir := hleads.above (h.clear hroot) hnames (hP.trans hbelow) (hne P hP)
    exact ⟨hdir, hways.dir P hdir⟩
  | @worked t id ledger ledger' d hstay hworks =>
    obtain ⟨hnames, hpath, hleads⟩ := h.leads (i := i) (by rw [hstay]; rfl) (by rw [hstay]; rfl)
    have hleft := hworks.lock id (hpath ▸ hleads)
    rw [hpath] at hleft
    have hclear : d.Clear (lockPlace root) :=
      (hworks.links.straight (h.straight hroot)).clear hbelow
    exact .of_dirs hworks.links fun P hP =>
      ⟨hleads.above (h.clear hroot) hnames (hP.trans hbelow) (hne P hP),
        hleft.above hclear hnames (hP.trans hbelow) (hne P hP)⟩
  | began => exact .refl root c.disk
  | swept hstay =>
    have hleaves := h.leaves_swept hroot (i := i) (by rw [hstay]; exact List.mem_cons_self)
    exact ⟨hleaves.links, fun P n hP => hleaves.holds P n (hP.trans hbelow)⟩
  | unlinked hstay =>
    rw [h.lock (by rw [hstay]; rfl)]
    have hnames := names_lockFile (h.tenure i _ (by rw [hstay]; rfl)).2
    cases hunlink : c.disk.unlink (pathOf (lockPlace root)) with
    | error e => exact .refl root c.disk
    | ok d =>
      have hlock := (h.straight hroot).below hbelow
      have hsheds := sheds_unlink hlock.self (Path.names_pathOf hnames) hunlink
      exact ⟨hsheds.links hlock, hsheds.holds (lockPlace_not_above root)⟩
  | closed => exact hnone _ _
  | left hstay =>
    rw [if_neg (by rw [hstays _ hstay]; decide)]
    exact .refl root c.disk
  | died => exact hnone _ _
  | gaveUp => exact .refl root c.disk

omit hroot h in
/-- A run that leaves can only end. -/
theorem change_leaving {dir : Path} {t : Tenure} (hchange : Change dir root c i s d)
    (hstay : c.stay i = .leaving t) :
    s = .ended ∧ (d = c.disk ∨ t.created = true ∧ d = (c.disk.removeTree t.root).2) := by
  cases hchange with
  | left hstay' =>
    rw [hstay] at hstay'
    cases hstay'
    refine ⟨rfl, ?_⟩
    split
    · rename_i hcreated
      exact .inr ⟨hcreated, rfl⟩
    · exact .inl rfl
  | gaveUp => exact ⟨rfl, .inl rfl⟩
  | died hlocked =>
    rw [hstay] at hlocked
    cases hlocked
  | _ => simp_all

theorem Kept.links_change (hchange : Change (dirs i) root c i s d) : SameLinks c.disk d := by
  by_cases hstays : ∀ t, c.stay i = .leaving t → t.created = false
  · exact (h.leaves hroot hchange hstays).links
  · obtain ⟨t, hstay, -⟩ : ∃ t, c.stay i = .leaving t ∧ t.created = true := by simpa using hstays
    obtain ⟨-, rfl | ⟨-, rfl⟩⟩ := change_leaving hchange hstay
    · exact .refl c.disk
    · obtain ⟨hpath, hnames⟩ := h.tenure i t (by rw [hstay]; rfl)
      rw [hpath]
      exact (sheds_removeTree (h.straight hroot).self (Path.names_pathOf hnames)).links (h.straight hroot)

theorem Kept.tenure_change (hchange : Change (dirs i) root c i s d) {t : Tenure}
    (ht : s.tenure = some t) : t.root = pathOf root ∧ ∀ n ∈ root, IsName n := by
  -- a run finds the path once; it is the path of the place that all paths lead to
  have hkept (hsame : s.tenure = (c.stay i).tenure) := h.tenure i t (hsame ▸ ht)
  cases hchange with
  | rooted hstay hp =>
    cases ht
    obtain ⟨l, n, hstat, hreached, rfl⟩ := canonical_ok (hroot.absolute i) hp
    have hplace := placeOf_eq (hroot.absolute i) h.links (stat_eq_ok hstat).1
    rw [hroot.place i] at hplace
    cases hplace
    exact ⟨rfl, hreached.isName⟩
  | made hstay hs => rcases hs with rfl | rfl <;> cases ht
  | barred hstay => rcases hstay with hstay | ⟨id, hstay⟩ <;> exact hkept (by rw [hstay]; rfl)
  | tested => cases ht
  | left => cases ht
  | died => cases ht
  | gaveUp => cases ht
  | opened hstay => exact hkept (by rw [hstay]; rfl)
  | locked hstay => exact hkept (by rw [hstay]; rfl)
  | signed hstay => exact hkept (by rw [hstay]; rfl)
  | worked hstay => exact hkept (by rw [hstay]; rfl)
  | began hstay => exact hkept (by rw [hstay]; rfl)
  | swept hstay => exact hkept (by rw [hstay]; rfl)
  | unlinked hstay => exact hkept (by rw [hstay]; rfl)
  | closed hstay => exact hkept (by rw [hstay]; rfl)

omit hroot in
theorem Kept.artifacts_change (hchange : Change (dirs i) root c i s d) {a : Artifact}
    (ha : a ∈ s.artifacts) : a.path.Misses root (lockPlace root) := by
  have hkept := h.artifacts i a
  cases hchange with
  | worked _ _ hledger => exact hledger a ha
  | began hstay =>
    rw [hstay] at hkept
    exact hkept (List.mem_reverse.mp ha)
  | swept hstay =>
    rw [hstay] at hkept
    exact hkept (List.mem_cons_of_mem _ ha)
  | made _ hs => rcases hs with rfl | rfl <;> cases ha
  | _ => cases ha

/-- A run that removes the directory finds that nobody has its lock. -/
def Vacant (c : Tenancy) : Prop :=
  ∀ i t, c.stay i = .leaving t → t.created = true → ∀ j, (c.stay j).phase.claimed = none

/-- A step is one of the lock, or else leaves the lock as it is. -/
theorem Kept.locks_change (hchange : Change (dirs i) root c i s d) (hvacant : Vacant c) :
    Contest.Change (pathOf root) c.locks i s.phase d ∨
      s.phase.lockedFile = (c.stay i).phase.lockedFile ∧
        s.phase.claimed = (c.stay i).phase.claimed ∧ d.locked = c.disk.locked ∧
        ∀ j id, (c.stay j).phase.claimed = some id →
          c.disk.LeadsTo (HeldLock.pathIn (pathOf root)) id →
          d.LeadsTo (HeldLock.pathIn (pathOf root)) id := by
  have hpath {t : Tenure} (ht : (c.stay i).tenure = some t) := (h.tenure i t ht).1
  cases hchange with
  | tested hstay =>
    exact .inr ⟨by rw [hstay]; rfl, by rw [hstay]; rfl, rfl, fun _ _ _ hleads => hleads⟩
  | made hstay hs =>
    rcases hs with rfl | rfl <;>
      exact .inr ⟨by rw [hstay]; rfl, by rw [hstay]; rfl, locked_makeDirs _ _,
        fun _ _ _ hleads => hleads.grows (grows_makeDirs _ _)⟩
  | rooted hstay =>
    exact .inr ⟨by rw [hstay]; rfl, by rw [hstay]; rfl, rfl, fun _ _ _ hleads => hleads⟩
  | opened hstay hopen =>
    rw [hpath (by rw [hstay]; rfl)] at hopen
    exact .inl (.opened (by rw [phase_locks, hstay]; rfl) hopen)
  | barred hstay =>
    rcases hstay with hstay | ⟨id, hstay⟩ <;>
      exact .inl (.gaveUp (by rw [phase_locks, hstay]; rfl))
  | locked hstay hlock => exact .inl (.locked (by rw [phase_locks, hstay]; rfl) hlock)
  | signed hstay content => exact .inl (.signed (by rw [phase_locks, hstay]; rfl) content)
  | worked hstay hworks =>
    exact .inr ⟨by rw [hstay]; rfl, by rw [hstay]; rfl, hworks.locked,
      fun _ id _ hleads => hworks.lock id hleads⟩
  | began hstay =>
    exact .inr ⟨by rw [hstay]; rfl, by rw [hstay]; rfl, rfl, fun _ _ _ hleads => hleads⟩
  | swept hstay =>
    have hleaves := h.leaves_swept hroot (i := i) (by rw [hstay]; exact List.mem_cons_self)
    have hnames := (h.tenure i _ (by rw [hstay]; rfl)).2
    refine .inr ⟨by rw [hstay]; rfl, by rw [hstay]; rfl, (Trims.removeArtifact _ _).locked,
      fun _ id _ hleads => ?_⟩
    rw [pathIn_pathOf hnames] at hleads ⊢
    exact hleads.leaves (h.clear hroot) (names_lockFile hnames) hleaves
  | unlinked hstay =>
    rw [hpath (by rw [hstay]; rfl)]
    exact .inl (.removed (by rw [phase_locks, hstay]; rfl))
  | closed hstay => exact .inl (.closed (by rw [phase_locks, hstay]; rfl))
  | left hstay =>
    split
    · rename_i hcreated
      refine .inr ⟨by rw [hstay]; rfl, by rw [hstay]; rfl, (Trims.removeTree _ _).locked,
        fun j id hid => ?_⟩
      rw [hvacant i _ hstay hcreated j] at hid
      cases hid
    · exact .inr ⟨by rw [hstay]; rfl, by rw [hstay]; rfl, rfl, fun _ _ _ hleads => hleads⟩
  | died hlocked => exact .inl (.closed hlocked)
  | gaveUp hlocked => exact .inl (.gaveUp hlocked)

theorem Kept.change (hchange : Change (dirs i) root c i s d) (hvacant : Vacant c)
    (hprompt : Contest.Prompt (pathOf root) (c.move i s d).locks) :
    Kept d₀ root (c.move i s d) := by
  have hlocks := h.locks_change hroot hchange hvacant
  rw [locks_move] at hprompt
  refine ⟨h.links.trans (h.links_change hroot hchange), fun j t ht => ?_, fun j a ha => ?_, ?_, ?_⟩
  · by_cases e : j = i
    · subst e
      rw [stay_move] at ht
      exact h.tenure_change hroot hchange ht
    · rw [stay_move_other _ _ _ _ e] at ht
      exact h.tenure j t ht
  · by_cases e : j = i
    · subst e
      rw [stay_move] at ha
      exact h.artifacts_change hchange ha
    · rw [stay_move_other _ _ _ _ e] at ha
      exact h.artifacts j a ha
  · rw [locks_move]
    rcases hlocks with hlock | ⟨hlocked, -, hd, -⟩
    · exact h.exclusive.change hlock
    · exact h.exclusive.keep hlocked hd
  · rw [locks_move]
    rcases hlocks with hlock | ⟨-, hclaimed, -, hleads⟩
    · exact h.current.change h.exclusive hlock hprompt
    · exact h.current.keep hclaimed hleads

end

theorem kept_start (d : Disk) (root : Location) : Kept d root (.start d) :=
  ⟨.refl d, nofun, nofun, Contest.exclusive_start d, nofun⟩

/-! ## A directory that was there -/

/-- The directory is there, and every path leads to it by directories at and above it. -/
structure Stands (dirs : Nat → Path) (root : Location) (d : Disk) : Prop where
  found : ∀ i, d.stat (dirs i) = .ok (root, .dir)
  way : ∀ i, ∀ P ∈ d.placesOn (dirs i), P <+: root

/-- The directory is there, and no run has found it missing. -/
structure Lasting (root : Location) (c : Tenancy) : Prop where
  dirs : ∀ P, P <+: root → c.disk.get? P = some .dir
  found : ∀ i, (c.stay i).created = false

theorem Lasting.vacant {root : Location} {c : Tenancy} (h : Lasting root c) : Vacant c := by
  intro i t hstay hcreated
  have hfound := h.found i
  rw [hstay] at hfound
  exact absurd (hfound.symm.trans hcreated) (by decide)

section

variable {d₀ : Disk} {dirs : Nat → Path} {root : Location} {c : Tenancy} {i : Nat} {s : Stay}
  {d : Disk} (hroot : OneRoot dirs root d₀) (hstands : Stands dirs root d₀)
include hroot hstands

theorem lasting_start : Lasting root (.start d₀) where
  found _ := rfl
  dirs P hP := by
    obtain ⟨hlocate, hn⟩ := stat_eq_ok (hstands.found 0)
    by_cases e : P = root
    · rw [e]
      exact hn
    · exact (locate_reached (hroot.absolute 0) hlocate).above P hP e

/-- The directory is found as long as it lasts. -/
theorem Lasting.pathExists (h : Lasting root c) (hk : Kept d₀ root c) (i : Nat) :
    c.disk.pathExists (dirs i) = true := by
  have hfound := stat_kept (SameLinks.refl d₀) hk.links (hroot.absolute i) (hstands.found i)
    (fun P hP _ => h.dirs P (hstands.way i P hP)) (h.dirs root (List.prefix_refl root))
  rw [Disk.pathExists, hfound]
  rfl

theorem Lasting.change (h : Lasting root c) (hk : Kept d₀ root c)
    (hchange : Change (dirs i) root c i s d) : Lasting root (c.move i s d) := by
  have hstays (t : Tenure) (ht : c.stay i = .leaving t) : t.created = false := by
    have hfound := h.found i
    rwa [ht] at hfound
  have hleaves := hk.leaves hroot hchange hstays
  refine ⟨fun P hP => hleaves.holds P .dir hP (h.dirs P hP), fun j => ?_⟩
  by_cases e : j = i
  · subst e
    rw [stay_move]
    have hfound := h.found j
    cases hchange with
    | tested =>
      show (!c.disk.pathExists (dirs j)) = false
      rw [h.pathExists hroot hstands hk j]
      rfl
    | made hstay hs =>
      rw [hstay] at hfound
      rcases hs with rfl | rfl
      · exact hfound
      · rfl
    | barred hstay =>
      rcases hstay with hstay | ⟨id, hstay⟩ <;>
      · rw [hstay] at hfound
        exact hfound
    | left => rfl
    | died => rfl
    | gaveUp => rfl
    | _ => simp_all [Stay.created, Stay.tenure]
  · rw [stay_move_other _ _ _ _ e]
    exact h.found j

end

/-! ## What a step of another run changes -/

/-- Each lock is taken on the file that its path then leads to; and unless the directory was there
from the start, nobody has its lock when a run comes to remove it. -/
structure Orderly (dirs : Nat → Path) (root : Location) (d₀ : Disk) (c : Tenancy) : Prop where
  prompt : Contest.Prompt (pathOf root) c.locks
  vacant : Stands dirs root d₀ ∨ Vacant c

section

variable {d₀ : Disk} {dirs : Nat → Path} {root : Location} {c c' : Tenancy}
  (hroot : OneRoot dirs root d₀) (h : Reachable dirs root (Orderly dirs root d₀) d₀ c)
include hroot h

theorem Reachable.kept : Kept d₀ root c ∧ (Stands dirs root d₀ → Lasting root c) ∧ Vacant c := by
  induction h with
  | start =>
    exact ⟨kept_start d₀ root, lasting_start hroot, fun i t hstay => nomatch hstay⟩
  | @step c c' i _ hs hP ih =>
    obtain ⟨hkept, hlasting, hvacant⟩ := ih
    obtain ⟨s, d, hchange, rfl⟩ := step_cases hs
    have hlasts (hstands : Stands dirs root d₀) : Lasting root (c.move i s d) :=
      (hlasting hstands).change hroot hstands hkept hchange
    refine ⟨hkept.change hroot hchange hvacant hP.prompt, hlasts, ?_⟩
    rcases hP.vacant with hstands | hvacant'
    · exact (hlasts hstands).vacant
    · exact hvacant'

end

/-- While a run has the lock, the steps of the others do no more than make directories. -/
theorem Kept.grows {d₀ : Disk} {dirs : Nat → Path} {root : Location} {c : Tenancy} {i j id : Nat}
    {s : Stay} {d : Disk} (h : Kept d₀ root c) (hvacant : Vacant c)
    (hchange : Change (dirs j) root c j s d) (hne : j ≠ i)
    (hi : (c.stay i).phase.claimed = some id) : Grows c.disk d := by
  have hleads := h.current i id hi
  -- the file that the path leads to is locked by one run, which is not run `j`
  have hfree {k : Nat} (hk : (c.stay j).phase.claimed = some k) : False := by
    cases (h.current j k hk).unique hleads
    exact hne (h.exclusive.apart j i id (Phase.lockedFile_of_claimed hk)
      (Phase.lockedFile_of_claimed hi))
  cases hchange with
  | made => exact grows_makeDirs _ _
  | opened hstay hopen =>
    rw [(h.tenure j _ (by rw [hstay]; rfl)).1] at hopen
    rw [hleads.openLockFile hopen]
    exact .refl c.disk
  | locked hstay hlock =>
    obtain ⟨hcwd, hnext, hget⟩ := get?_tryLock hlock
    exact .of_get? hcwd hnext hget
  | signed hstay => exact (hfree (by rw [hstay]; rfl)).elim
  | worked hstay => exact (hfree (by rw [hstay]; rfl)).elim
  | swept hstay => exact (hfree (by rw [hstay]; rfl)).elim
  | unlinked hstay => exact (hfree (by rw [hstay]; rfl)).elim
  | left hstay =>
    split
    · rename_i hcreated
      have hnone := hvacant j _ hstay hcreated i
      rw [hi] at hnone
      cases hnone
    · exact .refl c.disk
  | closed => exact .of_get? rfl rfl fun _ => rfl
  | died => exact .of_get? rfl rfl fun _ => rfl
  | _ => exact .refl c.disk

theorem lstat_grows {d d' : Disk} (h : Grows d d') {p : Path} {x : Location × Node}
    (hx : d.lstat p = .ok x) : d'.lstat p = .ok x := by
  unfold lstat at hx ⊢
  cases hl : d.locate .entry p with
  | error e => rw [hl] at hx; cases hx
  | ok l =>
    rw [hl] at hx
    rw [h.ways.locate hl]
    cases hn : d.get? l with
    | none => simp only [bind, Except.bind, hn] at hx; cases hx
    | some n =>
      simp only [bind, Except.bind, hn] at hx ⊢
      rw [h.keeps hn]
      exact hx

/-! ## Runs in turns -/

/-- The tenancies that steps of the runs in a given order come by. -/
def trail (dirs : Nat → Path) (info : LockInfo) : List Nat → Tenancy → List Tenancy
  | [], _ => []
  | i :: turns, c => c.advance dirs info i :: trail dirs info turns (c.advance dirs info i)

/-- The tenancy after steps of the runs in a given order. -/
def play (dirs : Nat → Path) (info : LockInfo) (turns : List Nat) (c : Tenancy) : Tenancy :=
  turns.foldl (fun c i => c.advance dirs info i) c

theorem reachable_play {dirs : Nat → Path} {root : Location} {P : Tenancy → Prop} {d : Disk}
    (info : LockInfo) (turns : List Nat) {c : Tenancy} (h : Reachable dirs root P d c)
    (hP : ∀ c' ∈ trail dirs info turns c, P c') :
    Reachable dirs root P d (c.play dirs info turns) := by
  induction turns generalizing c with
  | nil => exact h
  | cons i turns ih =>
    exact ih (h.step (.advance info) (hP _ List.mem_cons_self))
      fun c' hc' => hP c' (List.mem_cons_of_mem _ hc')

theorem stay_advance_other (dirs : Nat → Path) (info : LockInfo) (c : Tenancy) {i j : Nat}
    (h : j ≠ i) : (c.advance dirs info i).stay j = c.stay j := by
  obtain ⟨s, d, -, e⟩ := step_cases (.advance info : Step dirs [] i c _)
  rw [e, stay_move_other _ _ _ _ h]

theorem stay_play_other (dirs : Nat → Path) (info : LockInfo) {turns : List Nat} {j : Nat}
    (h : j ∉ turns) (c : Tenancy) : (c.play dirs info turns).stay j = c.stay j := by
  induction turns generalizing c with
  | nil => rfl
  | cons i turns ih =>
    obtain ⟨hi, hturns⟩ := not_or.mp (mt List.mem_cons.mpr h)
    exact (ih hturns _).trans (stay_advance_other dirs info c hi)

/-- The file that a path leads to. -/
def fileAt (d : Disk) (p : Path) : Option Nat :=
  match d.locate .file p with
  | .ok l =>
    match d.get? l with
    | some (.file id _ _) => some id
    | _ => none
  | .error _ => none

theorem leadsTo_of_fileAt {d : Disk} {p : Path} {id : Nat} (h : fileAt d p = some id) :
    d.LeadsTo p id := by
  unfold fileAt at h
  split at h
  · rename_i l hl
    split at h
    · rename_i content x hn
      cases h
      exact ⟨l, content, x, hl, hn⟩
    · cases h
  · cases h

/-- Whether a run locks the file that the path of the lock leads to. -/
def promptly (dir : Path) (c : Tenancy) (i : Nat) : Bool :=
  match (c.stay i).phase with
  | .locked id => fileAt c.disk (HeldLock.pathIn dir) = some id
  | _ => true

/-- Locks are prompt if they are in those runs that have begun. -/
theorem prompt_of_promptly {dir : Path} {c : Tenancy} (runs : List Nat)
    (hrest : ∀ j, j ∉ runs → c.stay j = .waiting) (h : ∀ j ∈ runs, promptly dir c j = true) :
    Contest.Prompt dir c.locks := by
  intro j id hj
  rw [phase_locks] at hj
  by_cases hmem : j ∈ runs
  · have hj' := h j hmem
    rw [promptly, hj] at hj'
    exact leadsTo_of_fileAt (of_decide_eq_true hj')
  · rw [hrest j hmem] at hj
    cases hj

theorem rest_of_trail {dirs : Nat → Path} {info : LockInfo} {runs turns : List Nat}
    (hturns : ∀ i ∈ turns, i ∈ runs) {c c' : Tenancy}
    (hrest : ∀ j, j ∉ runs → c.stay j = .waiting) (h : c' ∈ trail dirs info turns c) :
    ∀ j, j ∉ runs → c'.stay j = .waiting := by
  induction turns generalizing c with
  | nil => cases h
  | cons i turns ih =>
    have hnext (j : Nat) (hj : j ∉ runs) : (c.advance dirs info i).stay j = .waiting := by
      rw [stay_advance_other dirs info c, hrest j hj]
      rintro rfl
      exact hj (hturns _ List.mem_cons_self)
    rcases List.mem_cons.mp h with rfl | h
    · exact hnext
    · exact ih (fun k hk => hturns k (List.mem_cons_of_mem _ hk)) hnext h

/-! ## A holder is not disturbed -/

/-- A run that holds the directory may put files into it. -/
theorem Works.put {d : Disk} {root : Location} {name : String} {n : Node}
    (hclear : d.Clear (lockPlace root)) (hnames : ∀ k ∈ root, IsName k)
    (hfree : d.get? (root ++ [name]) = none) (hn : ∀ target, n ≠ .link target)
    (hne : name ≠ Artifacts.lockFile) : Works root d (d.put (root ++ [name]) n) := by
  have halters : Alters d (d.put (root ++ [name]) n) (root ++ [name]) (some n) :=
    alters_put (by simp) n
  have hlinks : SameLinks d (d.put (root ++ [name]) n) :=
    halters.links (by simp [hfree]) (by simpa using hn)
  refine ⟨hlinks, rfl, fun id hleads => ?_⟩
  rw [pathIn_pathOf hnames] at hleads ⊢
  refine hleads.leaves hclear (names_lockFile hnames) ⟨hlinks, halters.holds fun habove => hne ?_⟩
  exact List.singleton_inj.mp
    (List.append_cancel_left (habove.eq_of_length (by simp)))

/-- A run that holds the directory is not disturbed, whatever steps the others take: the directory
stays, the path of the lock leads to the file that it has locked, and so does each path that it has
registered to what is there. This is so as long as every lock is taken on the file that its path
then leads to, and, if the directory was not there from the start, as long as nobody has the lock
when a run comes to remove it. -/
theorem holder_undisturbed {dirs : Nat → Path} {root : Location} {d₀ : Disk} {c c' : Tenancy}
    (hroot : OneRoot dirs root d₀) (h : Reachable dirs root (Orderly dirs root d₀) d₀ c)
    {i j id : Nat} {t : Tenure} {ledger : Ledger} (hi : c.stay i = .holding t id ledger)
    (hs : Step dirs root j c c') (hne : j ≠ i) :
    c'.stay i = .holding t id ledger ∧ c'.disk.get? root = some .dir ∧
      c'.disk.LeadsTo (HeldLock.pathIn t.root) id ∧
      (∀ a ∈ ledger.artifacts, ∀ x, c.disk.lstat a.path = .ok x →
        c'.disk.lstat a.path = .ok x) ∧
      ∀ l n, c.disk.get? l = some n → c'.disk.get? l = some n := by
  obtain ⟨hkept, -, hvacant⟩ := h.kept hroot
  obtain ⟨s, d, hchange, rfl⟩ := step_cases hs
  have hclaimed : (c.stay i).phase.claimed = some id := by rw [hi]; rfl
  have hgrows := hkept.grows hvacant hchange hne hclaimed
  obtain ⟨hnames, hpath, hleads⟩ := hkept.leads (i := i) (by rw [hi]; rfl) hclaimed
  refine ⟨?_, ?_, ?_, fun a _ x hx => lstat_grows hgrows hx, fun l n => hgrows.keeps⟩
  · rw [stay_move_other _ _ _ _ hne.symm, hi]
  · refine hgrows.keeps (hleads.above (hkept.clear hroot) hnames (List.prefix_append _ _) ?_)
    intro e
    exact lockPlace_not_above root (e ▸ List.prefix_refl _)
  · rw [(hkept.tenure i t (by rw [hi]; rfl)).1, hpath]
    exact hleads.grows hgrows

/-- All runs want one directory. -/
def sampleDirs : Nat → Path := fun _ => Contest.sampleDir

theorem sample_oneRoot : OneRoot sampleDirs ["w"] Contest.sampleDisk where
  absolute _ := (by decide : Contest.sampleDir.isAbsolute = true)
  place _ := (by decide +kernel : Contest.sampleDisk.placeOf Contest.sampleDir = some ["w"])
  straight := straight_of_entries (by decide)

theorem sample_stands : Stands sampleDirs ["w"] Contest.sampleDisk where
  found _ :=
    (by decide +kernel : Contest.sampleDisk.stat Contest.sampleDir = .ok (["w"], .dir))
  way _ := (by decide +kernel : ∀ P ∈ Contest.sampleDisk.placesOn Contest.sampleDir, P <+: ["w"])

/-- What a run that holds the directory may have made and registered. -/
def sampleLedger : Ledger := ⟨[⟨⟨"/w/a"⟩, .staticSlice⟩]⟩

def sampleNode : Node := .file 7 ByteArray.empty false

theorem sampleLedger_misses :
    ∀ a ∈ sampleLedger.artifacts, a.path.Misses ["w"] (lockPlace ["w"]) := by
  intro a ha
  rw [List.mem_singleton.mp ha]
  exact ⟨["w", "a"], by decide, by decide, by decide, by decide⟩

/-- A run that holds the sample directory puts a file into it. -/
theorem sample_works {c : Tenancy} (i : Nat) (created : Bool)
    (hholds : c.stay i = .holding ⟨Contest.sampleDir, created⟩ 0 .empty)
    (hlinks : ∀ e ∈ c.disk.entries, isLink e.2 = false) (hfree : c.disk.get? ["w", "a"] = none) :
    Step sampleDirs ["w"] i c (c.move i (.holding ⟨Contest.sampleDir, created⟩ 0 sampleLedger)
      (c.disk.put ["w", "a"] sampleNode)) := by
  have hclear : c.disk.Clear (lockPlace ["w"]) :=
    fun P target _ hn => nomatch hlinks _ (entry_of_get? hn nofun)
  have hnode (target : String) : sampleNode ≠ .link target := nofun
  have hworks : Works ["w"] c.disk (c.disk.put (["w"] ++ ["a"]) sampleNode) :=
    .put hclear (by decide) hfree hnode (by decide)
  exact .work hholds _ hworks _ sampleLedger_misses

/-- Run 0 holds the directory. -/
def sampleAcquired : Tenancy :=
  (start Contest.sampleDisk).play sampleDirs Contest.sampleInfo [0, 0, 0, 0, 0, 0]

/-- It has put a file there. -/
def sampleWorking : Tenancy :=
  sampleAcquired.move 0 (.holding ⟨Contest.sampleDir, false⟩ 0 sampleLedger)
    (sampleAcquired.disk.put ["w", "a"] sampleNode)

/-- Run 1 has opened the lock file. -/
def sampleOpened : Tenancy :=
  sampleWorking.play sampleDirs Contest.sampleInfo [1, 1, 1, 1]

theorem sample_reachable :
    Reachable sampleDirs ["w"] (Orderly sampleDirs ["w"] Contest.sampleDisk) Contest.sampleDisk
      sampleOpened := by
  have hwaiting (j : Nat) (hj : j ∉ [0, 1]) : sampleWorking.stay j = .waiting := by
    obtain ⟨h0, -⟩ := not_or.mp (mt List.mem_cons.mpr hj)
    rw [sampleWorking, stay_move_other _ _ _ _ h0, sampleAcquired,
      stay_play_other _ _ (by simpa using h0)]
    rfl
  have hacquired : Reachable sampleDirs ["w"] (Orderly sampleDirs ["w"] Contest.sampleDisk)
      Contest.sampleDisk sampleAcquired :=
    reachable_play Contest.sampleInfo _ .start fun c hc =>
      ⟨prompt_of_promptly [0, 1] (rest_of_trail (by decide) (fun _ _ => rfl) hc)
        (by revert c; decide +kernel), .inl sample_stands⟩
  have hstep : Step sampleDirs ["w"] 0 sampleAcquired sampleWorking :=
    sample_works 0 false (by decide +kernel) (by decide +kernel) (by decide +kernel)
  have hworking := hacquired.step hstep
    ⟨prompt_of_promptly [0, 1] hwaiting (by decide +kernel), .inl sample_stands⟩
  exact reachable_play Contest.sampleInfo [1, 1, 1, 1] hworking fun c hc =>
    ⟨prompt_of_promptly [0, 1] (rest_of_trail (by decide) hwaiting hc)
      (by revert c; decide +kernel), .inl sample_stands⟩

/-- Run 1 finds the lock file locked, and the file of run 0 is still there. -/
theorem sample_undisturbed :
    sampleOpened.stay 0 = .holding ⟨Contest.sampleDir, false⟩ 0 sampleLedger ∧
      sampleOpened.stay 1 = .opened ⟨Contest.sampleDir, false⟩ 0 ∧
      (sampleOpened.advance sampleDirs Contest.sampleInfo 1).disk.get? ["w", "a"] =
        some sampleNode := by
  have hholds : sampleOpened.stay 0 = .holding ⟨Contest.sampleDir, false⟩ 0 sampleLedger := by
    decide +kernel
  obtain ⟨-, -, -, -, hkept⟩ := holder_undisturbed sample_oneRoot sample_reachable hholds
    (.advance Contest.sampleInfo) (j := 1) (by decide)
  exact ⟨hholds, by decide +kernel, hkept _ _ (by decide +kernel)⟩

/-- Run 0 finds the directory missing, and run 1 acquires it. -/
def sampleRaced : Tenancy :=
  (start ⟨[], [], 0, []⟩).play sampleDirs Contest.sampleInfo [0, 1, 1, 1, 1, 1, 1]

/-- Run 1 puts a file there; then run 0 makes what is made already, and cannot have the lock. -/
def sampleBarred : Tenancy :=
  (sampleRaced.move 1 (.holding ⟨Contest.sampleDir, true⟩ 0 sampleLedger)
    (sampleRaced.disk.put ["w", "a"] sampleNode)).play sampleDirs Contest.sampleInfo [0, 0, 0, 0]

/-- The next step of run 0 removes the directory that run 1 holds, with all that is in it. -/
theorem holder_evicted :
    ∃ c', OneRoot sampleDirs ["w"] ⟨[], [], 0, []⟩ ∧
      Reachable sampleDirs ["w"] (fun _ => True) ⟨[], [], 0, []⟩ sampleBarred ∧
      sampleBarred.stay 1 = .holding ⟨Contest.sampleDir, true⟩ 0 sampleLedger ∧
      sampleBarred.disk.get? ["w"] = some .dir ∧
      (sampleBarred.disk.get? (lockPlace ["w"])).isSome ∧
      sampleBarred.disk.get? ["w", "a"] = some sampleNode ∧
      Step sampleDirs ["w"] 0 sampleBarred c' ∧ c'.stay 1 = sampleBarred.stay 1 ∧
      c'.disk.get? ["w"] = none ∧ c'.disk.get? (lockPlace ["w"]) = none ∧
      c'.disk.get? ["w", "a"] = none := by
  have hroot : OneRoot sampleDirs ["w"] ⟨[], [], 0, []⟩ :=
    ⟨fun _ => (by decide : Contest.sampleDir.isAbsolute = true),
      fun _ => (by decide +kernel : placeOf ⟨[], [], 0, []⟩ Contest.sampleDir = some ["w"]),
      straight_of_entries (by decide +kernel)⟩
  have hraced : Reachable sampleDirs ["w"] (fun _ => True) ⟨[], [], 0, []⟩ sampleRaced :=
    reachable_play Contest.sampleInfo _ .start fun _ _ => trivial
  have hworking := hraced.step
    (sample_works 1 true (by decide +kernel) (by decide +kernel) (by decide +kernel)) trivial
  have hreach : Reachable sampleDirs ["w"] (fun _ => True) ⟨[], [], 0, []⟩ sampleBarred :=
    reachable_play Contest.sampleInfo [0, 0, 0, 0] hworking fun _ _ => trivial
  exact ⟨_, hroot, hreach, by decide +kernel, by decide +kernel, by decide +kernel,
    by decide +kernel, .advance Contest.sampleInfo, by decide +kernel, by decide +kernel,
    by decide +kernel, by decide +kernel⟩

end Tenancy

end Whittle
