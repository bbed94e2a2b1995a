import Whittle.Proofs.Workspace.Sweep
import Whittle.Proofs.Workspace.Refusal

/-!
# The owner of a directory

A workspace that was acquired and not released has the lock on the file at the place of the lock
(`Tenant.Owns`). An attempt at a lock that succeeds was made on a file that nobody had locked
(`Locked`), one that fails leaves at most new directories (`Workspace.acquire_fails`), and a release
takes the lock file away, and the directory if there was none before (`Tenant.Owns.vacates`).
-/

namespace Whittle

open Disk

namespace Disk

/-! ## Identities -/

theorem Numbered.of_files {d d' : Disk} (h : d.Numbered) (hnext : d.nextId ≤ d'.nextId)
    (hfiles : ∀ P id c x, d'.get? P = some (.file id c x) →
      ∃ c', d.get? P = some (.file id c' x)) : d'.Numbered where
  unshared P P' id c c' x x' hP hP' := by
    obtain ⟨_, hP⟩ := hfiles P id c x hP
    obtain ⟨_, hP'⟩ := hfiles P' id c' x' hP'
    exact h.unshared _ _ _ _ _ _ _ hP hP'
  fresh P id c x hP := by
    obtain ⟨_, hP⟩ := hfiles P id c x hP
    exact Nat.lt_of_lt_of_le (h.fresh _ _ _ _ hP) hnext

/-- A new file has an identity of its own. -/
theorem Numbered.putFile {d : Disk} (h : d.Numbered) {P : Location} (hP : P ≠ [])
    (content : ByteArray) (x : Bool) :
    Numbered { d.put P (.file d.nextId content x) with nextId := d.nextId + 1 } := by
  have hget (Q : Location) : Disk.get?
      { d.put P (.file d.nextId content x) with nextId := d.nextId + 1 } Q =
        if Q = P then some (.file d.nextId content x) else d.get? Q := get?_put d hP _ Q
  have hold {Q : Location} {id : Nat} {c : ByteArray} {y : Bool}
      (hQ : Disk.get? { d.put P (.file d.nextId content x) with nextId := d.nextId + 1 } Q =
        some (.file id c y)) :
      (Q = P ∧ id = d.nextId) ∨ (Q ≠ P ∧ id < d.nextId ∧ d.get? Q = some (.file id c y)) := by
    rw [hget] at hQ
    split at hQ
    · rename_i e
      cases hQ
      exact .inl ⟨e, rfl⟩
    · rename_i e
      exact .inr ⟨e, h.fresh _ _ _ _ hQ, hQ⟩
  refine ⟨fun Q Q' id c c' y y' hQ hQ' => ?_, fun Q id c y hQ => ?_⟩
  · rcases hold hQ with ⟨rfl, rfl⟩ | ⟨-, hid, hQ⟩ <;>
      rcases hold hQ' with ⟨rfl, hid'⟩ | ⟨-, hid', hQ'⟩
    · rfl
    · exact absurd hid' (Nat.lt_irrefl _)
    · exact absurd hid (hid' ▸ Nat.lt_irrefl _)
    · exact h.unshared _ _ _ _ _ _ _ hQ hQ'
  · rcases hold hQ with ⟨-, rfl⟩ | ⟨-, hid, -⟩
    · exact Nat.lt_succ_self _
    · exact Nat.lt_succ_of_lt hid

theorem Numbered.openLockFile {d d' : Disk} {p : Path} {id : Nat} (h : d.Numbered)
    (hopen : d.openLockFile p = .ok (id, d')) : d'.Numbered ∧ d.nextId ≤ d'.nextId := by
  unfold Disk.openLockFile at hopen
  split at hopen
  · cases hopen
  · split at hopen
    · cases hopen
      exact ⟨h, Nat.le_refl _⟩
    · cases hopen
    · rename_i hnone
      cases hopen
      exact ⟨h.putFile (not_root (by rw [hnone]; nofun)) _ _, Nat.le_succ _⟩

theorem Numbered.setContent {d : Disk} (h : d.Numbered) (id : Nat) (content : ByteArray) :
    (d.setContent id content).Numbered := by
  refine h.of_files (Nat.le_refl _) fun P i c x hP => ?_
  rw [get?_setContent] at hP
  obtain ⟨n, hn, hfile⟩ := Option.map_eq_some_iff.mp hP
  cases n with
  | file i' c' x' =>
    cases hfile
    exact ⟨c', hn⟩
  | _ => cases hfile

theorem Numbered.write {d d' : Disk} {p : Path} {content : ByteArray} {x : Bool} (h : d.Numbered)
    (hwrite : d.write p content x = .ok d') :
    d'.Numbered ∧ d.nextId ≤ d'.nextId ∧ d'.locked = d.locked := by
  unfold Disk.write at hwrite
  split at hwrite
  · cases hwrite
  · split at hwrite
    · rename_i id c y hfile
      cases hwrite
      refine ⟨h.of_files (Nat.le_refl _) fun P i c' y' hP => ?_, Nat.le_refl _, rfl⟩
      rw [get?_put d (not_root (by rw [hfile]; nofun))] at hP
      split at hP
      · rename_i e
        cases hP
        exact ⟨c, e ▸ hfile⟩
      · exact ⟨c', hP⟩
    · cases hwrite
      exact ⟨h, Nat.le_refl _, rfl⟩
    · cases hwrite
    · rename_i hnone
      cases hwrite
      exact ⟨h.putFile (not_root (by rw [hnone]; nofun)) _ _, Nat.le_succ _, rfl⟩

/-! ## Removals -/

theorem Trims.unlinked (d : Disk) (p : Path) : Trims d ((d.unlink p).toOption.getD d) := by
  cases h : d.unlink p with
  | error e => exact .refl d
  | ok d' => exact .unlink h

/-- A directory that can be entered can be removed with everything in it. -/
theorem Handy.removeTree {d : Disk} {P : Location} (h : d.Handy P) (hdir : d.get? P = some .dir)
    (hroot : P ≠ []) : d.removeTree (pathOf P) = (.ok (), (d.emptied P).erase P) := by
  have hstat : d.lstat (pathOf P) = .ok (P, .dir) := by
    simp only [lstat, h.locate_of fun _ _ => rfl, bind, Except.bind, hdir]
  have hself : (d.emptied P).get? P = some .dir := by
    rw [get?_emptied, if_neg fun e => e.2 rfl, hdir]
  have hemptied : (d.emptied P).Handy P := by
    refine ⟨h.check, h.reached.names, fun Q hQ hne => ?_⟩
    rw [get?_emptied, if_neg fun e => hne (hQ.eq_of_length_le e.1.length_le)]
    exact h.reached.above Q hQ hne
  have hlast := List.getLast?_eq_some_getLast hroot
  obtain ⟨-, hdot, hup, -⟩ := h.reached.isName _ (List.getLast_mem hroot)
  have hremoved : (d.emptied P).removeDir (pathOf P) = .ok ((d.emptied P).erase P) := by
    unfold Disk.removeDir
    rw [hemptied.locateEntry, namesOf_pathOf h.reached.isName, hlast]
    dsimp only
    split
    · rename_i e
      cases e
    · rename_i e
      exact absurd (Option.some.inj e) hdot
    · rename_i e
      exact absurd (Option.some.inj e) hup
    · rw [hself, hasChildren_emptied]
      rfl
  unfold Disk.removeTree
  rw [hstat]
  dsimp only
  rw [show ({ d with entries := d.entries.filter fun e => !(P.isPrefixOf e.1) || e.1 = P } : Disk) =
    d.emptied P from rfl, hremoved]

/-- A directory and everything in it removed. -/
theorem get?_removed (d : Disk) {P : Location} (hroot : P ≠ []) (Q : Location) :
    ((d.emptied P).erase P).get? Q = if P <+: Q then none else d.get? Q := by
  rw [get?_erase _ hroot, get?_emptied]
  by_cases e : Q = P
  · rw [if_pos e, if_pos (e ▸ List.prefix_refl Q)]
  · by_cases hP : P <+: Q
    · rw [if_neg e, if_pos ⟨hP, e⟩, if_pos hP]
    · rw [if_neg e, if_neg fun h => hP h.1, if_neg hP]

end Disk

/-! ## The place of the lock -/

namespace Tenancy

theorem lockPlace_ne (root : Location) : lockPlace root ≠ root :=
  fun e => lockPlace_not_above root ⟨[], by rw [List.append_nil, e]⟩

theorem prefix_lockPlace (root : Location) : root <+: lockPlace root := List.prefix_append _ _

theorem pathIn_root {root : Location} (hroot : ∀ n ∈ root, IsName n) :
    HeldLock.pathIn (pathOf root) = pathOf (lockPlace root) := pathIn_pathOf hroot

theorem prefix_of_lockPlace {root P : Location} (hP : P <+: lockPlace root)
    (hne : P ≠ lockPlace root) : P <+: root :=
  (List.prefix_concat_iff.mp hP).resolve_left hne

end Tenancy

open Tenancy

/-! ## Attempts -/

/-- The disk after the lock of a directory was taken. -/
structure Locked (l : Location) (lock : HeldLock) (d d' : Disk) : Prop where
  path : lock.path = pathOf (lockPlace l)
  handy : d.Handy (lockPlace l)
  free : lock.id ∉ d.locked
  locked : d'.locked = lock.id :: d.locked
  same : ∀ id c x, d.get? (lockPlace l) = some (.file id c x) → id = lock.id
  file : ∃ c x, d'.get? (lockPlace l) = some (.file lock.id c x)
  other : ∀ P, P ≠ lockPlace l → d'.get? P = d.get? P
  numbered : d'.Numbered
  nextId : d.nextId ≤ d'.nextId

theorem Locked.links {l : Location} {lock : HeldLock} {d d' : Disk} (h : Locked l lock d d')
    (P : Location) {target : String} (hP : d'.get? P = some (.link target)) :
    d.get? P = some (.link target) := by
  rwa [← h.other P]
  rintro rfl
  obtain ⟨c, x, hfile⟩ := h.file
  cases hfile.symm.trans hP

theorem heldLock_acquire_locks {host : Host} {l : Location} {w w' : World} {lock : HeldLock}
    (hl : ∀ n ∈ l, IsName n) (hd : w.disk.Numbered) (hclear : w.disk.Clear (lockPlace l))
    (h : HeldLock.acquire host (pathOf l) w = (.ok lock, w')) :
    Locked l lock w.disk w'.disk := by
  rw [heldLock_acquire_apply, pathIn_pathOf hl] at h
  cases hopen : w.disk.openLockFile (pathOf (l ++ [Artifacts.lockFile])) with
  | error e =>
    rw [hopen] at h
    cases h
  | ok opened =>
    obtain ⟨id, d⟩ := opened
    rw [hopen] at h
    dsimp only at h
    obtain ⟨place, hplace, hfile⟩ := openLockFile_ok hopen
    obtain ⟨hcheck, hreached, rfl⟩ := (locate_pathOf_iff hclear (names_lockFile hl)).mp hplace
    obtain ⟨-, hother, -⟩ := openLockFile_frame hd hplace hopen
    obtain ⟨hnumbered, hnext⟩ := hd.openLockFile hopen
    have hlocked := locked_openLockFile hopen
    cases hlock : d.tryLock id with
    | none =>
      rw [hlock] at h
      cases h
    | some d' =>
      rw [hlock] at h
      cases h
      unfold tryLock at hlock
      split at hlock
      · cases hlock
      · rename_i hfree
        cases hlock
        obtain ⟨-, hsigned⟩ := setContent_frame hd hplace hopen
          (LockInfo.text ⟨host.processId, host.now, programVersion⟩).toUTF8
        have hcontent {P : Location} {n : Node} (hn : d.get? P = some n) (content : ByteArray) :
            (d.setContent id content).get? P = some (withContent id content n) := by
          rw [get?_setContent, hn]
          rfl
        have hopened : ∃ c x, d.get? (l ++ [Artifacts.lockFile]) = some (.file id c x) := by
          rcases hfile with ⟨c, x, hfile, rfl⟩ | ⟨-, -, halters⟩
          · exact ⟨c, x, hfile⟩
          · exact ⟨_, _, halters.self⟩
        obtain ⟨c, x, hopened⟩ := hopened
        refine ⟨rfl, ⟨hcheck, hreached⟩, hlocked ▸ hfree, congrArg (id :: ·) hlocked, ?_,
          ⟨_, _, hcontent hopened _⟩, hsigned, ?_, hnext⟩
        · rintro id' c' x' hthere
          rcases hfile with ⟨c, x, hfile, -⟩ | ⟨-, hnone, -⟩
          · cases hfile.symm.trans hthere
            rfl
          · cases hnone.symm.trans hthere
        · exact (hnumbered.setContent id _).of_files (Nat.le_refl _) fun P i c x hP => ⟨c, hP⟩

section

variable {host : Host} {dir : Path} {w w' : World} {l : Location}

/-- A path leads to a directory that is there if it finds it. -/
theorem pathExists_eq (hplace : w.disk.placeOf dir = some l) (hfinds : w.disk.Finds dir) :
    w.disk.pathExists dir = (w.disk.get? l).isSome := by
  cases hn : w.disk.get? l with
  | none => exact pathExists_of_missing hplace hn
  | some n => exact hfinds l hplace (by simp [hn])

theorem stat_of_finds (hplace : w.disk.placeOf dir = some l) (hfinds : w.disk.Finds dir) {n : Node}
    (hn : w.disk.get? l = some n) : w.disk.stat dir = .ok (l, n) := by
  have hexists := pathExists_eq hplace hfinds
  unfold pathExists at hexists
  cases hstat : w.disk.stat dir with
  | error e =>
    rw [hstat, hn] at hexists
    cases hexists
  | ok found =>
    obtain ⟨k, m⟩ := found
    obtain ⟨hlocate, hm⟩ := stat_eq_ok hstat
    cases hplace.symm.trans (placeOf_of_locate rfl (.refl _) hlocate)
    cases hm.symm.trans hn
    rfl

section

variable {d opened : Disk} {id : Nat} (hmade : w.disk.makeDirs dir = (.ok (), d))
  (hstat : d.stat dir = .ok (l, .dir))
  (hopen : d.openLockFile (HeldLock.pathIn (pathOf l)) = .ok (id, opened))
include hmade hstat hopen

/-- A lock file that is locked ends an attempt; the directory stays if it was there before. -/
theorem Workspace.acquire_busy (hid : id ∈ opened.locked) (hexists : w.disk.pathExists dir = true) :
    Workspace.acquire host dir w =
      (.error (.workspaceBusy (pathOf l)), { w with disk := opened }) := by
  have hroot : d.canonical dir = .ok (pathOf l) := by rw [canonical, hstat]
  have hbusy : opened.tryLock id = none := if_pos hid
  rw [Workspace.acquire_apply, hmade]
  dsimp only
  rw [hroot]
  dsimp only
  rw [heldLock_acquire_apply, hopen]
  dsimp only
  rw [hbusy]
  simp [hexists]

/-- A lock file that is not locked is had, and with it the directory. -/
theorem Workspace.acquire_free (hid : id ∉ opened.locked) :
    ∃ k w', Workspace.acquire host dir w = (.ok k, w') ∧ k.root = pathOf l ∧ k.report = none := by
  have hroot : d.canonical dir = .ok (pathOf l) := by rw [canonical, hstat]
  have hlock : opened.tryLock id = some { opened with locked := id :: opened.locked } := if_neg hid
  rw [Workspace.acquire_apply, hmade]
  dsimp only
  rw [hroot]
  dsimp only
  rw [heldLock_acquire_apply, hopen]
  dsimp only
  rw [hlock]
  exact ⟨_, _, rfl, rfl, rfl⟩

end

/-- An attempt that fails made directories at most, or has removed again one that was missing. -/
theorem Workspace.acquire_fails {e : Fault} (hstart : w.disk.Starts dir)
    (hlocks : w.disk.LocksNumbered) (h : Workspace.acquire host dir w = (.error e, w')) :
    w'.disk = (w.disk.makeDirs dir).2 ∨
      ∃ l, w.disk.placeOf dir = some l ∧ (∀ n ∈ l, IsName n) ∧ (w.disk.makeDirs dir).2.Clear l ∧
        w.disk.pathExists dir = false ∧
        w'.disk = ((w.disk.makeDirs dir).2.removeTree (pathOf l)).2 := by
  have hgrows := grows_makeDirs w.disk dir
  have hlocked : (w.disk.makeDirs dir).2.LocksNumbered := by
    intro id hid
    rw [locked_makeDirs] at hid
    rw [hgrows.nextId]
    exact hlocks id hid
  rcases Workspace.acquire_cases hstart h with
    ⟨-, hdisk⟩ | ⟨l, r, w₁, hplace, hnames, hheld, hr, hend⟩
  · exact .inl hdisk
  · cases r with
    | ok lock => cases hr
    | error e' =>
      obtain ⟨rfl, -⟩ := heldLock_acquire_refused hlocked hheld
      rcases hend with hdisk | ⟨-, hmissing, hdisk⟩
      · exact .inl hdisk
      · exact .inr ⟨l, hplace, hnames, hgrows.links.clear (hstart.clear hplace), hmissing, hdisk⟩

end

/-! ## Owners -/

/-- What a ledger lists lies in a directory, and no link is on the way to it. -/
def Ledger.Contained (k : Ledger) (root : Location) (d : Disk) : Prop :=
  ∀ a ∈ k.artifacts, ∃ m, a.path.Names m ∧ d.Clear m ∧ root <+: m ∧ m ≠ root

namespace Ledger.Contained

variable {k : Ledger} {root : Location} {d d' : Disk} (h : k.Contained root d)
include h

theorem of_links (hlinks : SameLinks d d') : k.Contained root d' := by
  intro a ha
  obtain ⟨m, hm, hclear, hbelow⟩ := h a ha
  exact ⟨m, hm, hlinks.clear hclear, hbelow⟩

theorem register {p : Path} {m : Location} (hp : p.Names m) (hclear : d.Clear m)
    (hroot : root <+: m) (hne : m ≠ root) (owner : Stage) :
    (k.register p owner).Contained root d := by
  unfold Ledger.register
  split
  · exact h
  · intro a ha
    rcases List.mem_append.mp ha with ha | ha
    · exact h a ha
    · rw [List.mem_singleton.mp ha]
      exact ⟨m, hp, hclear, hroot, hne⟩

end Ledger.Contained

/-- A workspace, the place of its directory, and whether something stood there before. -/
structure Tenant where
  workspace : Workspace
  root : Location
  existed : Bool

namespace Tenant

/-- A workspace that has not been released. -/
def Live (t : Tenant) : Prop := t.workspace.report = none

/-- An owner has the lock of the directory. -/
structure Owns (t : Tenant) (d : Disk) : Prop where
  path : t.workspace.root = pathOf t.root
  created : t.workspace.createdRoot = !t.existed
  below : t.existed = false → t.root ≠ []
  handy : d.Handy (lockPlace t.root)
  lock : ∃ id c x, t.workspace.lock = some ⟨pathOf (lockPlace t.root), id⟩ ∧
    d.get? (lockPlace t.root) = some (.file id c x) ∧ id ∈ d.locked
  ledger : t.workspace.ledger.Contained t.root d

/-- The disk after the lock of a directory was given back. -/
structure Unlocks (root : Location) (id : Nat) (d d' : Disk) : Prop where
  old : ∀ P n, d'.get? P = some n → d.get? P = some n
  nextId : d'.nextId = d.nextId
  locked : d'.locked = d.locked.filter (· ≠ id)
  gone : d'.get? (lockPlace root) = none
  kept : ∀ P, (root <+: P → P = root) → d'.get? P = d.get? P

/-- The disk after a workspace was released. -/
structure Vacates (t : Tenant) (id : Nat) (d d' : Disk) : Prop where
  old : ∀ P n, d'.get? P = some n → d.get? P = some n
  nextId : d'.nextId = d.nextId
  locked : d'.locked = d.locked.filter (· ≠ id)
  gone : d'.get? (lockPlace t.root) = none
  other : ∀ P, ¬ t.root <+: P → d'.get? P = d.get? P
  root : d'.get? t.root = if t.existed then some .dir else none

namespace Owns

theorem isName {t : Tenant} {d : Disk} (h : t.Owns d) : ∀ n ∈ t.root, IsName n :=
  fun n hn => h.handy.reached.isName n (List.mem_append_left _ hn)

theorem above {t : Tenant} {d : Disk} (h : t.Owns d) {P : Location} (hP : P <+: t.root) :
    d.get? P = some .dir :=
  h.handy.reached.above P (hP.trans (prefix_lockPlace t.root)) fun e =>
    lockPlace_not_above t.root (e ▸ hP)

theorem dir {t : Tenant} {d : Disk} (h : t.Owns d) : d.get? t.root = some .dir :=
  h.above (List.prefix_refl _)

variable {t : Tenant} {w : World} (h : t.Owns w.disk)
include h

/-- The artifacts are removed, and the lock is given back. -/
theorem unlocks (id : Nat) :
    Unlocks t.root id w.disk
      (HeldLock.release ⟨pathOf (lockPlace t.root), id⟩ (t.workspace.ledger.cleanup w).2).disk := by
  have hswept := cleanup_trims t.workspace.ledger w
  have hkept (P : Location) (hP : t.root <+: P → P = t.root) :
      (t.workspace.ledger.cleanup w).2.disk.get? P = w.disk.get? P := by
    refine (cleanup_bypasses fun a ha => .inl ?_).same
    obtain ⟨m, hm, hclear, hbelow, hne⟩ := h.ledger a ha
    refine ⟨m, hm, hclear, fun habove => hne ?_⟩
    rw [hP (hbelow.trans habove)] at habove
    exact habove.eq_of_length_le hbelow.length_le
  have hhandy : (t.workspace.ledger.cleanup w).2.disk.Handy (lockPlace t.root) := by
    refine ⟨h.handy.check, h.handy.reached.names, fun P hP hne => ?_⟩
    rw [hkept P fun hroot => ?_, h.handy.reached.above P hP hne]
    have habove := prefix_of_lockPlace hP hne
    exact habove.eq_of_length_le hroot.length_le
  obtain ⟨id', c, x, -, hfile, -⟩ := h.lock
  have hunlinked := hhandy.alters_unlink fun e => by
    cases hfile.symm.trans (hswept.old e)
  have htrims := Trims.unlinked (t.workspace.ledger.cleanup w).2.disk (pathOf (lockPlace t.root))
  rw [disk_release]
  refine ⟨fun P n hn => hswept.old (htrims.old hn), htrims.nextId.trans hswept.nextId, ?_,
    hunlinked.self, fun P hP => ?_⟩
  · rw [unlock]
    dsimp only
    rw [htrims.locked, hswept.locked]
  · refine (hunlinked.other ?_).trans (hkept P hP)
    rintro rfl
    exact lockPlace_ne t.root (hP (prefix_lockPlace t.root))

/-- A release takes the lock file away, and the directory if nothing stood there before. -/
theorem vacates (hlive : t.Live) {id : Nat}
    (hlock : t.workspace.lock = some ⟨pathOf (lockPlace t.root), id⟩) :
    Vacates t id w.disk (Workspace.release ⟨w, t.workspace⟩).2.world.disk := by
  have hunlocks := h.unlocks id
  rw [release_disk (s := ⟨w, t.workspace⟩) hlock hlive]
  dsimp only
  rw [h.created, h.path]
  generalize (HeldLock.release ⟨pathOf (lockPlace t.root), id⟩
    (t.workspace.ledger.cleanup w).2).disk = d at hunlocks
  obtain ⟨hold, hnext, hlocked, hgone, hkept⟩ := hunlocks
  have hroot := (hkept t.root fun _ => rfl).trans h.dir
  cases hexisted : t.existed with
  | true =>
    refine ⟨hold, hnext, hlocked, hgone, fun P hP => hkept P fun hroot => absurd hroot hP, ?_⟩
    rw [hexisted]
    exact hroot
  | false =>
    have hbelow := h.below hexisted
    have hcheck := checkText_beside (k := []) h.handy.check (List.cons_ne_nil _ _)
      (fun n hn => nomatch hn) (Nat.zero_le _)
    rw [List.append_nil] at hcheck
    have hhandy : d.Handy t.root := by
      refine ⟨hcheck, fun n hn => h.handy.reached.names n (List.mem_append_left _ hn),
        fun P hP hne => ?_⟩
      rw [hkept P fun hbelow => hP.eq_of_length_le hbelow.length_le]
      exact h.above hP
    have htrims := Trims.removeTree d (pathOf t.root)
    rw [hhandy.removeTree hroot hbelow] at htrims
    rw [if_pos (show (!false) = true from rfl), hhandy.removeTree hroot hbelow]
    have hget := get?_removed d hbelow
    refine ⟨fun P n hn => hold P n (htrims.old hn), htrims.nextId.trans hnext,
      htrims.locked.trans hlocked, ?_, fun P hP => ?_, ?_⟩
    · rw [hget, if_pos (prefix_lockPlace t.root)]
    · rw [hget, if_neg hP, hkept P fun hroot => absurd hroot hP]
    · rw [hget, if_pos (List.prefix_refl _), hexisted]
      rfl

end Owns

end Tenant

end Whittle
