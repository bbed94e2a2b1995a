import Mathlib.Logic.Function.Basic
import Mathlib.Logic.Relation
import Whittle.Proofs.Workspace.Custody
import Whittle.Proofs.Workspace.Owner
import Whittle.Proofs.Workspace.Trail

/-!
# Workspaces one after the other

In a `Session` workspaces are acquired, used, released and given up in any order, each operation
being complete before the next one begins, in directories none of which lies in another. Then each
directory has at most one owner, nobody else disturbs it, and it is there again as it was once the
owner has left (`session_sound`). This takes that each attempt finds a directory that is there
(`Disk.Finds`): a path that goes up from a missing directory does not, and an attempt by such a path
removes the directory of the owner (`two_owners`).
-/

namespace Whittle

open Disk Tenancy

/-- The world, and the workspaces that were acquired in it, by numbers. -/
structure Session where
  world : World
  tenants : Nat → Option Tenant

namespace Session

def start (w : World) : Session := ⟨w, fun _ => none⟩

def site (s : Session) (t : Tenant) : Site := ⟨s.world, t.workspace⟩

/-- The session after something was done with a workspace. -/
def move (s : Session) (i : Nat) (t : Tenant) (x : Site) : Session :=
  ⟨x.world, Function.update s.tenants i (some { t with workspace := x.workspace })⟩

/-- An attempt at a workspace, which is to have the number `i`. -/
def acquire (host : Host) (dir : Path) (i : Nat) (s : Session) : Session :=
  match Workspace.acquire host dir s.world with
  | (.ok k, w) =>
    let root := (s.world.disk.placeOf dir).getD []
    s.move i ⟨k, root, (s.world.disk.get? root).isSome⟩ ⟨w, k⟩
  | (.error _, w) => { s with world := w }

def release (i : Nat) (s : Session) : Session :=
  match s.tenants i with
  | some t => s.move i t (Workspace.release (s.site t)).2
  | none => s

def drop (i : Nat) (s : Session) : Session :=
  match s.tenants i with
  | some t => s.move i t (Workspace.drop (s.site t))
  | none => s

section

variable {s : Session} {i : Nat} {t : Tenant} {x : Site}

@[simp] theorem world_move : (s.move i t x).world = x.world := rfl

@[simp] theorem tenants_move :
    (s.move i t x).tenants i = some { t with workspace := x.workspace } := by
  simp [move]

theorem tenants_move_other {j : Nat} (h : j ≠ i) : (s.move i t x).tenants j = s.tenants j := by
  simp [move, h]

/-- A workspace after an operation is the one that was operated on, or another one. -/
theorem tenants_move_cases {j : Nat} {u : Tenant} (h : (s.move i t x).tenants j = some u) :
    (j = i ∧ u = { t with workspace := x.workspace }) ∨ (j ≠ i ∧ s.tenants j = some u) := by
  by_cases e : j = i
  · subst e
    rw [tenants_move] at h
    exact .inl ⟨rfl, (Option.some.inj h).symm⟩
  · rw [tenants_move_other e] at h
    exact .inr ⟨e, h⟩

theorem move_self (h : s.tenants i = some t) : s.move i t (s.site t) = s := by
  have hsame : Function.update s.tenants i (some t) = s.tenants := by
    rw [← h, Function.update_eq_self]
  exact congrArg (Session.mk s.world) hsame

end

/-- What may happen while a workspace is held. Files may be made, changed and removed, and paths in
the directory be registered; but the lock files and what is above them are left alone, and no links
are made in the other directories. -/
structure Works (dirs : Location → Prop) (root : Location) (x y : Site) : Prop where
  same : x.workspace.Same y.workspace
  locked : y.world.disk.locked = x.world.disk.locked
  numbered : y.world.disk.Numbered
  nextId : x.world.disk.nextId ≤ y.world.disk.nextId
  links : ∀ m, dirs m → m ≠ root → ∀ P target, m <+: P →
    y.world.disk.get? P = some (.link target) → x.world.disk.get? P = some (.link target)
  other : ∀ m, dirs m → ∀ P, P <+: lockPlace m → y.world.disk.get? P = x.world.disk.get? P
  ledger : y.workspace.ledger.Contained root y.world.disk

/-- A path that leads to one of the directories, if it leads anywhere. -/
structure Asks (dirs : Location → Prop) (d : Disk) (dir : Path) : Prop where
  starts : d.Starts dir
  within : ∀ l, d.placeOf dir = some l → dirs l

/-- The operations of a session; a path at which a workspace is tried has `P` at that time. -/
inductive Step (dirs : Location → Prop) (P : Disk → Path → Prop) (s : Session) : Session → Prop
  | acquire (host : Host) {dir : Path} (hasks : Asks dirs s.world.disk dir)
    (hP : P s.world.disk dir) {i : Nat} (hi : s.tenants i = none) :
    Step dirs P s (s.acquire host dir i)
  | release (i : Nat) : Step dirs P s (s.release i)
  | drop (i : Nat) : Step dirs P s (s.drop i)
  | work {i : Nat} {t : Tenant} (ht : s.tenants i = some t) (hlive : t.Live) {x : Site}
    (hworks : Works dirs t.root (s.site t) x) : Step dirs P s (s.move i t x)

/-- Operations lead from one session to another. -/
abbrev Leads (dirs : Location → Prop) (P : Disk → Path → Prop) : Session → Session → Prop :=
  Relation.ReflTransGen (Step dirs P)

theorem leads_acquire {dirs : Location → Prop} {P : Disk → Path → Prop} {s₀ s : Session}
    (h : Leads dirs P s₀ s) (host : Host) (dir : Path) (i : Nat) {l : Location}
    (hdir : dir.isAbsolute = true) (hplace : s.world.disk.placeOf dir = some l) (hl : dirs l)
    (hP : P s.world.disk dir) (hi : (s.tenants i).isNone) :
    Leads dirs P s₀ (s.acquire host dir i) := by
  refine h.tail (.acquire host ⟨starts_of_absolute hdir, fun m hm => ?_⟩ hP
    (Option.isNone_iff_eq_none.mp hi))
  cases hplace.symm.trans hm
  exact hl

/-- None of some directories lies in another. -/
def Unnested (dirs : Location → Prop) : Prop := ∀ l m, dirs l → dirs m → l <+: m → l = m

/-- A disk with which a session can begin: nobody has a lock in one of the directories, and no link
has the name of a lock file there. -/
structure Opens (dirs : Location → Prop) (d : Disk) : Prop where
  numbered : d.Numbered
  locks : d.LocksNumbered
  unlinked : ∀ m target, dirs m → d.get? (lockPlace m) ≠ some (.link target)
  free : ∀ m id c x, dirs m → d.get? (lockPlace m) = some (.file id c x) → id ∉ d.locked

/-- What is promised of the workspaces of a session. -/
structure Sound (dirs : Location → Prop) (s : Session) : Prop where
  /-- A directory has at most one owner. -/
  alone : ∀ i j t u, s.tenants i = some t → s.tenants j = some u → t.Live → u.Live →
    t.workspace.root = u.workspace.root → i = j
  /-- An attempt at a directory that has an owner is refused and changes nothing. -/
  refuses : ∀ i t, s.tenants i = some t → t.Live → t.workspace.root = pathOf t.root ∧
    ∀ host dir, s.world.disk.placeOf dir = some t.root → s.world.disk.Finds dir →
      Workspace.acquire host dir s.world = (.error (.workspaceBusy t.workspace.root), s.world)
  /-- A directory that has none, and can be made, can be had, whatever an old lock file says. -/
  grants : ∀ l d host dir, dirs l → (∀ i t, s.tenants i = some t → t.Live → t.root ≠ l) →
    s.world.disk.Starts dir → s.world.disk.makeDirs dir = (.ok (), d) →
    d.stat dir = .ok (l, .dir) → d.Free (lockPlace l) →
    checkText (pathOf (lockPlace l)).text = .ok () →
    ∃ k w, Workspace.acquire host dir s.world = (.ok k, w) ∧ k.root = pathOf l ∧ k.report = none
  /-- The owner leaves no lock file, and the directory if and only if it was there before. -/
  leaves : ∀ i t, s.tenants i = some t → t.Live →
    Workspace.drop (s.site t) = (Workspace.release (s.site t)).2 ∧
      (s.release i).world.disk.get? (lockPlace t.root) = none ∧
      ((s.release i).world.disk.get? t.root ≠ none ↔ t.existed = true)
  /-- Later releases repeat the report of the first and do nothing. -/
  repeats : ∀ i t, s.tenants i = some t → t.Live → ∀ P s', Leads dirs P (s.release i) s' →
    ∃ t', s'.tenants i = some t' ∧
      Workspace.release (s'.site t') = ((Workspace.release (s.site t)).1, s'.site t') ∧
      Workspace.drop (s'.site t') = s'.site t'

/-! ## What an operation leaves -/

/-- Identities are not used again, and in the directories with `A` no link is new, and all is still
there at and above the place of the lock. -/
structure Frame (A : Location → Prop) (d d' : Disk) : Prop where
  numbered : d'.Numbered
  nextId : d.nextId ≤ d'.nextId
  links : ∀ m, A m → ∀ P target, m <+: P → d'.get? P = some (.link target) →
    d.get? P = some (.link target)
  holds : ∀ m, A m → Holds (lockPlace m) d d'

section

variable {A : Location → Prop} {d d₁ d' : Disk}

theorem Frame.of_grows (hd : d.Numbered) (h : Grows d d') : Frame A d d' :=
  ⟨hd.of_grows h, h.nextId.ge, fun _ _ P target _ => (h.links P target).mp, fun _ _ => h.holds _⟩

theorem Frame.trans (h : Frame A d d₁) (h₁ : Frame A d₁ d') : Frame A d d' :=
  ⟨h₁.numbered, h.nextId.trans h₁.nextId,
    fun m hm P target hP hn => h.links m hm P target hP (h₁.links m hm P target hP hn),
    fun m hm => (h.holds m hm).trans (h₁.holds m hm)⟩

/-- What was taken away lay in a directory without `A`. -/
theorem Frame.of_old {root : Location} (hd : d.Numbered) (hnext : d'.nextId = d.nextId)
    (hold : ∀ P n, d'.get? P = some n → d.get? P = some n)
    (hother : ∀ P, ¬ root <+: P → d'.get? P = d.get? P) (hA : ∀ m, A m → ¬ root <+: lockPlace m) :
    Frame A d d' where
  numbered := hd.of_files hnext.ge fun P _ c _ hP => ⟨c, hold P _ hP⟩
  nextId := hnext.ge
  links _ _ P _ _ := hold P _
  holds _ hm P n hP hn := by
    rw [hother P fun hroot => hA _ hm (hroot.trans hP), hn]

theorem Frame.of_locked {l : Location} {lock : HeldLock} (h : Locked l lock d d')
    (hA : ∀ m, A m → ¬ lockPlace l <+: lockPlace m) : Frame A d d' where
  numbered := h.numbered
  nextId := h.nextId
  links _ _ P _ _ := h.links P
  holds _ hm P n hP hn := by
    rw [h.other P, hn]
    rintro rfl
    exact hA _ hm hP

theorem Frame.owns {t : Tenant} (hframe : Frame A d d') (h : t.Owns d) (hA : A t.root)
    (hlocked : ∀ path id, t.workspace.lock = some ⟨path, id⟩ → id ∈ d.locked → id ∈ d'.locked) :
    t.Owns d' where
  path := h.path
  created := h.created
  below := h.below
  handy := ⟨h.handy.check, h.handy.reached.of_holds (hframe.holds _ hA)⟩
  lock := by
    obtain ⟨id, c, x, hlock, hfile, hid⟩ := h.lock
    exact ⟨id, c, x, hlock, hframe.holds _ hA _ _ (List.prefix_refl _) hfile,
      hlocked _ id hlock hid⟩
  ledger a ha := by
    obtain ⟨m, hm, hclear, hroot, hne⟩ := h.ledger a ha
    refine ⟨m, hm, fun P target hP hn => ?_, hroot, hne⟩
    rcases List.prefix_or_prefix_of_prefix hP hroot with habove | hbelow
    · cases hn.symm.trans
        (hframe.holds _ hA P _ (habove.trans (prefix_lockPlace t.root)) (h.above habove))
    · exact hclear P target hP (hframe.links _ hA P target hbelow hn)

end

/-- In a directory beside another one the lock file is not in that one. -/
theorem Unnested.beside {dirs : Location → Prop} (h : Unnested dirs) {l m : Location}
    (hl : dirs l) (hm : dirs m) (hne : m ≠ l) : ¬ l <+: lockPlace m := by
  intro hprefix
  by_cases e : l = lockPlace m
  · exact hne (h m l hm hl (e ▸ prefix_lockPlace m))
  · exact hne (h l m hl hm (prefix_of_lockPlace hprefix e)).symm

/-- The session after the owner of a directory wrote a file and registered its path. -/
def write (i : Nat) (p : Path) (content : ByteArray) (owner : Stage) (s : Session) : Session :=
  match s.tenants i with
  | some t =>
    match s.world.disk.write p content false with
    | .ok d => s.move i t ⟨{ s.world with disk := d }, ((s.site t).register p owner).workspace⟩
    | .error _ => s
  | none => s

/-- Files may be written in the directory, but not in place of the lock file. -/
theorem Works.write {dirs : Location → Prop} (hdirs : Unnested dirs) {root m : Location}
    (hwithin : dirs root) {x : Site} (hd : x.world.disk.Numbered)
    (hledger : x.workspace.ledger.Contained root x.world.disk) {p : Path} (hp : p.Names m)
    (hclear : x.world.disk.Clear m) (hroot : root <+: m) (hne : m ≠ root)
    (hlock : m ≠ lockPlace root) {content : ByteArray} {executable : Bool} {d : Disk}
    (hwrite : x.world.disk.write p content executable = .ok d) (owner : Stage) :
    Works dirs root x ⟨{ x.world with disk := d }, (x.register p owner).workspace⟩ := by
  obtain ⟨l, n, hl, htakes, halters⟩ := write_ok hwrite
  obtain rfl := hp.locate hclear hl
  obtain ⟨hnumbered, hnext, hlocked⟩ := hd.write hwrite
  have hlinks : SameLinks x.world.disk d :=
    halters.links (fun target => hclear l target (List.prefix_refl l)) htakes.not_link
  refine ⟨rfl, hlocked, hnumbered, hnext, fun _ _ _ P target _ => (hlinks P target).mp,
    fun m hm P hP => halters.other ?_, (hledger.register hp hclear hroot hne owner).of_links hlinks⟩
  rintro rfl
  by_cases e : m = root
  · subst e
    have habove := prefix_of_lockPlace hP hlock
    exact hne (habove.eq_of_length_le hroot.length_le)
  · exact hdirs.beside hwithin hm e (hroot.trans hP)

/-! ## What is true after every operation -/

structure Standing (dirs : Location → Prop) (s : Session) : Prop where
  numbered : s.world.disk.Numbered
  locks : s.world.disk.LocksNumbered
  unlinked : ∀ m target, dirs m → s.world.disk.get? (lockPlace m) ≠ some (.link target)
  owns : ∀ i t, s.tenants i = some t → t.Live → dirs t.root ∧ t.Owns s.world.disk
  alone : ∀ i j t u, s.tenants i = some t → s.tenants j = some u → t.Live → u.Live →
    t.root = u.root → i = j
  owned : ∀ m id c x, dirs m → s.world.disk.get? (lockPlace m) = some (.file id c x) →
    id ∈ s.world.disk.locked → ∃ i t, s.tenants i = some t ∧ t.Live ∧ t.root = m

theorem standing_start {dirs : Location → Prop} {w : World} (h : Opens dirs w.disk) :
    Standing dirs (start w) where
  numbered := h.numbered
  locks := h.locks
  unlinked := h.unlinked
  owns _ _ ht := nomatch ht
  alone _ _ _ _ ht := nomatch ht
  owned m id c x hm hfile hid := absurd hid (h.free m id c x hm hfile)

section

variable {dirs : Location → Prop} {s : Session} (h : Standing dirs s)
include h

/-- Two owners have different directories, and have locked different files. -/
theorem Standing.apart {i j : Nat} {t u : Tenant} (ht : s.tenants i = some t)
    (hu : s.tenants j = some u) (hlive : t.Live) (hlive' : u.Live) (hne : j ≠ i) :
    u.root ≠ t.root ∧ ∀ path path' id id', t.workspace.lock = some ⟨path, id⟩ →
      u.workspace.lock = some ⟨path', id'⟩ → id' ≠ id := by
  have hroots : u.root ≠ t.root := fun e => hne (h.alone j i u t hu ht hlive' hlive e)
  refine ⟨hroots, fun path path' id id' hlock hlock' e => hroots ?_⟩
  obtain ⟨_, c, x, hheld, hfile, -⟩ := (h.owns i t ht hlive).2.lock
  obtain ⟨_, c', x', hheld', hfile', -⟩ := (h.owns j u hu hlive').2.lock
  cases hlock.symm.trans hheld
  cases hlock'.symm.trans hheld'
  exact List.append_left_injective _ (h.numbered.unshared _ _ _ _ _ _ _ (e ▸ hfile') hfile)

theorem Standing.locks_of {d : Disk} (hnext : s.world.disk.nextId ≤ d.nextId)
    (hlocked : ∀ id ∈ d.locked, id ∈ s.world.disk.locked) : d.LocksNumbered :=
  fun id hid => Nat.lt_of_lt_of_le (h.locks id (hlocked id hid)) hnext

theorem Standing.alone_move {i : Nat} {t : Tenant} {x : Site}
    (hself : ∀ j u, j ≠ i → s.tenants j = some u → u.Live → u.root ≠ t.root) :
    ∀ j j' u u', (s.move i t x).tenants j = some u → (s.move i t x).tenants j' = some u' →
      u.Live → u'.Live → u.root = u'.root → j = j' := by
  intro j j' u u' hu hu' hlive hlive' hroots
  rcases tenants_move_cases hu with ⟨rfl, rfl⟩ | ⟨hne, hold⟩ <;>
    rcases tenants_move_cases hu' with ⟨rfl, rfl⟩ | ⟨hne', hold'⟩
  · rfl
  · exact absurd hroots.symm (hself j' u' hne' hold' hlive')
  · exact absurd hroots (hself j u hne hold hlive)
  · exact h.alone j j' u u' hold hold' hlive hlive' hroots

variable (hdirs : Unnested dirs) {host : Host} {dir : Path} (hasks : Asks dirs s.world.disk dir)
  (hfinds : s.world.disk.Finds dir) {w : World}

section

include hdirs hasks hfinds

/-- An attempt that fails has done nothing to the owners. -/
theorem Standing.frame_error {e : Fault}
    (hfails : Workspace.acquire host dir s.world = (.error e, w)) :
    ∃ A, Frame A s.world.disk w.disk ∧ (∀ i t, s.tenants i = some t → t.Live → A t.root) ∧
      w.disk.locked = s.world.disk.locked ∧ Unwritten s.world.disk w.disk ∧
      ∀ P target, w.disk.get? P = some (.link target) →
        s.world.disk.get? P = some (.link target) := by
  have hgrows := grows_makeDirs s.world.disk dir
  have hmade := locked_makeDirs s.world.disk dir
  rcases Workspace.acquire_fails hasks.starts h.locks hfails with
    hdisk | ⟨l, hplace, hnames, hclear, hmissing, hdisk⟩
  · rw [hdisk]
    exact ⟨fun _ => True, .of_grows h.numbered hgrows, fun _ _ _ _ => trivial, hmade,
      hgrows.unwritten, fun P target => (hgrows.links P target).mp⟩
  · have htrims := Trims.removeTree (s.world.disk.makeDirs dir).2 (pathOf l)
    have hsheds := sheds_removeTree hclear (Path.names_pathOf hnames)
    rw [hdisk]
    refine ⟨fun m => dirs m ∧ m ≠ l, .trans (.of_grows h.numbered hgrows) ?_, ?_,
      htrims.locked.trans hmade, fun P id c x hP => hgrows.unwritten P id c x (htrims.old hP),
      fun P target hP => (hgrows.links P target).mp (htrims.old hP)⟩
    · exact .of_old (h.numbered.of_grows hgrows) htrims.nextId hsheds.old hsheds.other
        fun m hm => hdirs.beside (hasks.within l hplace) hm.1 hm.2
    · -- a directory that is there is not taken for a missing one
      rintro i t ht hlive
      obtain ⟨hwithin, howns⟩ := h.owns i t ht hlive
      refine ⟨hwithin, ?_⟩
      rintro rfl
      rw [hfinds _ hplace (by rw [howns.dir]; nofun)] at hmissing
      cases hmissing

theorem Standing.acquire_error {e : Fault}
    (hfails : Workspace.acquire host dir s.world = (.error e, w)) :
    Standing dirs { s with world := w } := by
  obtain ⟨A, hframe, hA, hlocked, hunwritten, hlinks⟩ := h.frame_error hdirs hasks hfinds hfails
  exact {
    numbered := hframe.numbered
    locks := h.locks_of hframe.nextId fun id hid => hlocked ▸ hid
    unlinked := fun m target hm hn => h.unlinked m target hm (hlinks _ _ hn)
    owns := fun i t ht hlive =>
      ⟨(h.owns i t ht hlive).1, hframe.owns (h.owns i t ht hlive).2 (hA i t ht hlive)
        fun _ _ _ hid => hlocked.symm ▸ hid⟩
    alone := h.alone
    owned := fun m id c x hm hfile hid =>
      h.owned m id c x hm (hunwritten _ _ _ _ hfile) (hlocked ▸ hid) }

omit hdirs in
/-- An attempt that succeeds has made an owner. -/
theorem Standing.granted {k : Workspace} (hok : Workspace.acquire host dir s.world = (.ok k, w)) :
    ∃ l lock, s.world.disk.placeOf dir = some l ∧ dirs l ∧
      Locked l lock (s.world.disk.makeDirs dir).2 w.disk ∧ k.lock = some lock ∧ k.report = none ∧
      Tenant.Owns ⟨k, l, (s.world.disk.get? l).isSome⟩ w.disk := by
  have hgrows := grows_makeDirs s.world.disk dir
  obtain ⟨-, l, hacquired, hreport, -, lock, w₁, hlock, hheld, hdisk⟩ :=
    Workspace.acquire_eq_ok hasks.starts hok
  have hwithin := hasks.within l hacquired.place
  have hclear : (s.world.disk.makeDirs dir).2.Clear (lockPlace l) := by
    refine hgrows.links.clear fun P target hP hn => ?_
    by_cases e : P = lockPlace l
    · exact h.unlinked l target hwithin (e ▸ hn)
    · exact hasks.starts.clear hacquired.place P target (prefix_of_lockPlace hP e) hn
  have hlocked := heldLock_acquire_locks hacquired.names (h.numbered.of_grows hgrows) hclear hheld
  rw [← hdisk] at hlocked
  obtain ⟨c, x, hfile⟩ := hlocked.file
  have hreached : Reached w.disk (lockPlace l) :=
    ⟨hlocked.handy.reached.names, fun P hP hne =>
      (hlocked.other P hne).trans (hlocked.handy.reached.above P hP hne)⟩
  refine ⟨l, lock, hacquired.place, hwithin, hlocked, hlock, hreport, hacquired.root, ?_, ?_,
    ⟨hlocked.handy.check, hreached⟩, ?_, ?_⟩
  · rw [hacquired.createdRoot, pathExists_eq hacquired.place hfinds]
  · rintro hnew rfl
    cases hnew
  · exact ⟨lock.id, c, x, by rw [hlock, ← hlocked.path], hfile, by simp [hlocked.locked]⟩
  · rintro a ha
    rw [hacquired.ledger] at ha
    cases ha

theorem Standing.acquire_ok {k : Workspace} (hok : Workspace.acquire host dir s.world = (.ok k, w))
    {i : Nat} (hi : s.tenants i = none) : Standing dirs (s.acquire host dir i) := by
  obtain ⟨l, lock, hplace, hwithin, hlocked, hlock, hreport, howns⟩ := h.granted hasks hfinds hok
  have hgrows := grows_makeDirs s.world.disk dir
  have hmade := locked_makeDirs s.world.disk dir
  have hsession : s.acquire host dir i =
      s.move i ⟨k, l, (s.world.disk.get? l).isSome⟩ ⟨w, k⟩ := by
    simp only [Session.acquire, hok, hplace, Option.getD_some]
  have hframe : Frame (fun m => dirs m ∧ m ≠ l) s.world.disk w.disk :=
    .trans (.of_grows h.numbered hgrows) (.of_locked hlocked fun _ hm hprefix =>
      hdirs.beside hwithin hm.1 hm.2 ((prefix_lockPlace l).trans hprefix))
  -- whoever had the directory would have its lock
  have hvacant : ∀ j u, s.tenants j = some u → u.Live → u.root ≠ l := by
    rintro j u hu hlive rfl
    obtain ⟨id, c, x, -, hfile, hid⟩ := (h.owns j u hu hlive).2.lock
    refine hlocked.free ?_
    rwa [hmade, ← hlocked.same id c x (hgrows.keeps hfile)]
  obtain ⟨c, x, hnew⟩ := hlocked.file
  have hheld (id : Nat) (hid : id ∈ w.disk.locked) :
      id = lock.id ∨ id ∈ s.world.disk.locked := by
    rw [hlocked.locked, hmade] at hid
    exact List.mem_cons.mp hid
  rw [hsession]
  exact {
    numbered := hframe.numbered
    locks := fun id hid => by
      rcases hheld id hid with rfl | hid
      · exact hframe.numbered.fresh _ _ _ _ hnew
      · exact Nat.lt_of_lt_of_le (h.locks id hid) hframe.nextId
    unlinked := fun m target hm hn =>
      h.unlinked m target hm ((hgrows.links _ _).mp (hlocked.links _ hn))
    owns := fun j u hu hlive => by
      rcases tenants_move_cases hu with ⟨-, rfl⟩ | ⟨-, hu⟩
      · exact ⟨hwithin, howns⟩
      · obtain ⟨hdir, hthere⟩ := h.owns j u hu hlive
        refine ⟨hdir, hframe.owns hthere ⟨hdir, hvacant j u hu hlive⟩ fun _ id _ hid => ?_⟩
        rw [hlocked.locked, hmade]
        exact List.mem_cons_of_mem _ hid
    alone := h.alone_move fun j u _ => hvacant j u
    owned := fun m id c' x' hm hfile hid => by
      by_cases e : m = l
      · exact ⟨i, _, tenants_move, hreport, e.symm⟩
      · have hplaces : lockPlace m ≠ lockPlace l := fun e' => e (List.append_left_injective _ e')
        have hthere : (s.world.disk.makeDirs dir).2.get? (lockPlace m) = some (.file id c' x') :=
          (hlocked.other _ hplaces).symm.trans hfile
        have hother : id ≠ lock.id := fun e' =>
          hplaces (hframe.numbered.unshared _ _ _ _ _ _ _ hfile (e' ▸ hnew))
        obtain ⟨j, u, hu, hlive, hroot⟩ := h.owned m id c' x' hm (hgrows.unwritten _ _ _ _ hthere)
          ((hheld id hid).resolve_left hother)
        refine ⟨j, u, (tenants_move_other ?_).trans hu, hlive, hroot⟩
        rintro rfl
        cases hi.symm.trans hu }

end

section

variable {i : Nat} {t : Tenant} (ht : s.tenants i = some t) (hlive : t.Live)
include ht hlive

include hdirs in
theorem Standing.release_live : Standing dirs (s.move i t (Workspace.release (s.site t)).2) := by
  obtain ⟨hwithin, howns⟩ := h.owns i t ht hlive
  obtain ⟨id, c, x, hlock, hfile, hid⟩ := howns.lock
  have hvacates : t.Vacates id s.world.disk (Workspace.release (s.site t)).2.world.disk :=
    howns.vacates hlive hlock
  have hreleased :
      ¬ Tenant.Live { t with workspace := (Workspace.release (s.site t)).2.workspace } := by
    unfold Tenant.Live
    rw [Workspace.release_report (s := s.site t) hlive]
    nofun
  have hframe : Frame (fun m => dirs m ∧ m ≠ t.root) s.world.disk
      (Workspace.release (s.site t)).2.world.disk :=
    .of_old h.numbered hvacates.nextId hvacates.old hvacates.other fun _ hm =>
      hdirs.beside hwithin hm.1 hm.2
  have hheld (k : Nat) : k ∈ (Workspace.release (s.site t)).2.world.disk.locked ↔
      k ∈ s.world.disk.locked ∧ k ≠ id := by
    rw [hvacates.locked]
    simp
  exact {
    numbered := hframe.numbered
    locks := h.locks_of hframe.nextId fun k hk => ((hheld k).mp hk).1
    unlinked := fun m target hm hn => h.unlinked m target hm (hvacates.old _ _ hn)
    owns := fun j u hu hlive' => by
      rcases tenants_move_cases hu with ⟨-, rfl⟩ | ⟨hne, hu⟩
      · exact absurd hlive' hreleased
      · obtain ⟨hdir, hthere⟩ := h.owns j u hu hlive'
        obtain ⟨hroots, hids⟩ := h.apart ht hu hlive hlive' hne
        exact ⟨hdir, hframe.owns hthere ⟨hdir, hroots⟩ fun path k hk hkept =>
          (hheld k).mpr ⟨hkept, hids _ path id k hlock hk⟩⟩
    alone := h.alone_move fun j u hne hu hlive' => (h.apart ht hu hlive hlive' hne).1
    owned := fun m k c' x' hm hn hk => by
      obtain ⟨j, u, hu, hlive', hroot⟩ :=
        h.owned m k c' x' hm (hvacates.old _ _ hn) ((hheld k).mp hk).1
      refine ⟨j, u, (tenants_move_other ?_).trans hu, hlive', hroot⟩
      rintro rfl
      cases ht.symm.trans hu
      rw [← hroot] at hn
      cases hvacates.gone.symm.trans hn }

theorem Standing.work {x : Site} (hworks : Works dirs t.root (s.site t) x) :
    Standing dirs (s.move i t x) := by
  obtain ⟨hwithin, howns⟩ := h.owns i t ht hlive
  have hplace {m : Location} (hm : dirs m) :
      x.world.disk.get? (lockPlace m) = s.world.disk.get? (lockPlace m) :=
    hworks.other m hm _ (List.prefix_refl _)
  have hholds (m : Location) (hm : dirs m) : Holds (lockPlace m) s.world.disk x.world.disk :=
    fun P n hP hn => (hworks.other m hm P hP).trans hn
  have hframe : Frame (fun m => dirs m ∧ m ≠ t.root) s.world.disk x.world.disk :=
    ⟨hworks.numbered, hworks.nextId, fun m hm => hworks.links m hm.1 hm.2,
      fun m hm => hholds m hm.1⟩
  have hlocked (id : Nat) : id ∈ x.world.disk.locked ↔ id ∈ s.world.disk.locked := by
    rw [hworks.locked]
    rfl
  have hsame := hworks.same
  have hself : Tenant.Owns { t with workspace := x.workspace } x.world.disk := by
    obtain ⟨id, c, y, hlock, hfile, hid⟩ := howns.lock
    have hkept := hholds t.root hwithin
    rw [hsame]
    exact ⟨howns.path, howns.created, howns.below,
      ⟨howns.handy.check, howns.handy.reached.of_holds hkept⟩,
      ⟨id, c, y, hlock, hkept _ _ (List.prefix_refl _) hfile, (hlocked id).mpr hid⟩, hworks.ledger⟩
  exact {
    numbered := hframe.numbered
    locks := h.locks_of hframe.nextId fun id hid => (hlocked id).mp hid
    unlinked := fun m target hm hn => h.unlinked m target hm (hplace hm ▸ hn)
    owns := fun j u hu hlive' => by
      rcases tenants_move_cases hu with ⟨-, rfl⟩ | ⟨hne, hu⟩
      · exact ⟨hwithin, hself⟩
      · obtain ⟨hdir, hthere⟩ := h.owns j u hu hlive'
        exact ⟨hdir, hframe.owns hthere ⟨hdir, (h.apart ht hu hlive hlive' hne).1⟩
          fun _ id _ hid => (hlocked id).mpr hid⟩
    alone := h.alone_move fun j u hne hu hlive' => (h.apart ht hu hlive hlive' hne).1
    owned := fun m id c' x' hm hn hid => by
      rw [world_move, hplace hm] at hn
      obtain ⟨j, u, hu, hlive', hroot⟩ := h.owned m id c' x' hm hn ((hlocked id).mp hid)
      by_cases e : j = i
      · subst e
        cases ht.symm.trans hu
        refine ⟨j, _, tenants_move, ?_, hroot⟩
        rw [Tenant.Live, hsame]
        exact hlive
      · exact ⟨j, u, (tenants_move_other e).trans hu, hlive', hroot⟩ }

end

end

/-! ## Sessions -/

section

variable {dirs : Location → Prop} {P : Disk → Path → Prop} {s s' : Session}

theorem drop_of_live {x : Site} (hlive : x.workspace.report = none) :
    Workspace.drop x = (Workspace.release x).2 := by
  rw [Workspace.drop, if_neg (by rw [Workspace.isReleased, hlive]; decide)]

theorem drop_of_report {x : Site} {report : CleanupReport}
    (hreport : x.workspace.report = some report) : Workspace.drop x = x := by
  rw [Workspace.drop, if_pos (by rw [Workspace.isReleased, hreport]; rfl)]

/-- A release, and giving a workspace up, is what is done to one that has an owner, or nothing. -/
theorem release_cases (s : Session) (i : Nat) :
    (s.release i = s ∧ s.drop i = s) ∨ ∃ t, s.tenants i = some t ∧ t.Live ∧
      s.release i = s.move i t (Workspace.release (s.site t)).2 ∧ s.drop i = s.release i := by
  unfold release drop
  cases ht : s.tenants i with
  | none => exact .inl ⟨rfl, rfl⟩
  | some t =>
    cases hreport : t.workspace.report with
    | none =>
      have hdrop := drop_of_live (x := s.site t) hreport
      exact .inr ⟨t, rfl, hreport, rfl, by simp only [hdrop]⟩
    | some report =>
      have hrelease := Workspace.release_of_report (s := s.site t) hreport
      have hdrop := drop_of_report (x := s.site t) hreport
      simp only [hrelease, hdrop]
      exact .inl ⟨move_self ht, move_self ht⟩

theorem Standing.step (hdirs : Unnested dirs) (h : Standing dirs s) (hstep : Step dirs Finds s s') :
    Standing dirs s' := by
  cases hstep with
  | @acquire host dir hasks hfinds i hi =>
    cases hacquire : Workspace.acquire host dir s.world with
    | mk r w =>
      cases r with
      | ok k => exact h.acquire_ok hdirs hasks hfinds hacquire hi
      | error e =>
        rw [acquire, hacquire]
        exact h.acquire_error hdirs hasks hfinds hacquire
  | release i =>
    rcases release_cases s i with ⟨hsame, -⟩ | ⟨t, ht, hlive, hleft, -⟩
    · exact hsame.symm ▸ h
    · exact hleft.symm ▸ h.release_live hdirs ht hlive
  | drop i =>
    rcases release_cases s i with ⟨-, hsame⟩ | ⟨t, ht, hlive, hleft, hdrop⟩
    · exact hsame.symm ▸ h
    · exact (hdrop.trans hleft).symm ▸ h.release_live hdirs ht hlive
  | work ht hlive hworks => exact h.work ht hlive hworks

theorem Standing.leads (hdirs : Unnested dirs) (h : Standing dirs s)
    (hleads : Leads dirs Finds s s') : Standing dirs s' := by
  induction hleads with
  | refl => exact h
  | tail _ hstep ih => exact ih.step hdirs hstep

/-- An owner writes a file, or cannot write it. -/
theorem Standing.leads_write (hdirs : Unnested dirs) (h : Standing dirs s) {i : Nat} {t : Tenant}
    (ht : s.tenants i = some t) (hlive : t.Live) {p : Path} {m : Location} (hp : p.Names m)
    (hclear : s.world.disk.Clear m) (hroot : t.root <+: m) (hne : m ≠ t.root)
    (hlock : m ≠ lockPlace t.root) (content : ByteArray) (owner : Stage) :
    Leads dirs P s (s.write i p content owner) := by
  obtain ⟨hwithin, howns⟩ := h.owns i t ht hlive
  simp only [write, ht]
  cases hwrite : s.world.disk.write p content false with
  | error e => exact .refl
  | ok d =>
    exact .single (.work ht hlive
      (.write hdirs hwithin h.numbered howns.ledger hp hclear hroot hne hlock hwrite owner))

/-- A workspace that was released is left as it is. -/
theorem Step.keeps (hstep : Step dirs P s s') {i : Nat} {t : Tenant} (ht : s.tenants i = some t)
    {report : CleanupReport} (hreport : t.workspace.report = some report) :
    s'.tenants i = some t := by
  have hother {j : Nat} {u : Tenant} {x : Site} (hne : i ≠ j) :
      (s.move j u x).tenants i = some t := (tenants_move_other hne).trans ht
  have hlive {j : Nat} {u : Tenant} (hu : s.tenants j = some u) (hlive : u.Live) : i ≠ j := by
    rintro rfl
    cases ht.symm.trans hu
    cases hreport.symm.trans hlive
  cases hstep with
  | acquire host hasks hP hi =>
    unfold Session.acquire
    split
    · refine hother ?_
      rintro rfl
      cases ht.symm.trans hi
    · exact ht
  | release j =>
    rcases release_cases s j with ⟨hsame, -⟩ | ⟨u, hu, hown, hleft, -⟩
    · exact hsame.symm ▸ ht
    · exact hleft.symm ▸ hother (hlive hu hown)
  | drop j =>
    rcases release_cases s j with ⟨-, hsame⟩ | ⟨u, hu, hown, hleft, hdrop⟩
    · exact hsame.symm ▸ ht
    · exact (hdrop.trans hleft).symm ▸ hother (hlive hu hown)
  | work hu hown => exact hother (hlive hu hown)

theorem keeps_of_leads (hleads : Leads dirs P s s') {i : Nat} {t : Tenant}
    (ht : s.tenants i = some t) {report : CleanupReport}
    (hreport : t.workspace.report = some report) : s'.tenants i = some t := by
  induction hleads with
  | refl => exact ht
  | tail _ hstep ih => exact hstep.keeps ih hreport

end

/-! ## What is promised -/

section

variable {dirs : Location → Prop} {s : Session} (h : Standing dirs s) {host : Host} {dir : Path}
include h

/-- A directory that has an owner is refused. -/
theorem Standing.refuses {i : Nat} {t : Tenant} (ht : s.tenants i = some t) (hlive : t.Live)
    (hplace : s.world.disk.placeOf dir = some t.root) (hfinds : s.world.disk.Finds dir) :
    Workspace.acquire host dir s.world = (.error (.workspaceBusy t.workspace.root), s.world) := by
  obtain ⟨-, howns⟩ := h.owns i t ht hlive
  obtain ⟨id, c, x, -, hfile, hid⟩ := howns.lock
  have hstat := stat_of_finds hplace hfinds howns.dir
  have hexists : s.world.disk.pathExists dir = true := by
    rw [pathExists_eq hplace hfinds, howns.dir]
    rfl
  have hmade : s.world.disk.makeDirs dir = (.ok (), s.world.disk) :=
    makeDirsFrom_of_isDir (by rw [isDir, hstat]; rfl)
  have hopen : s.world.disk.openLockFile (HeldLock.pathIn (pathOf t.root)) =
      .ok (id, s.world.disk) := by
    rw [pathIn_root howns.isName, openLockFile, howns.handy.locate .file (by simp [hfile])]
    dsimp only
    rw [hfile]
  rw [howns.path]
  exact Workspace.acquire_busy hmade hstat hopen hid hexists

/-- A directory that has no owner is had. -/
theorem Standing.grants {l : Location} {d : Disk} (hl : dirs l)
    (hvacant : ∀ i t, s.tenants i = some t → t.Live → t.root ≠ l) (hstart : s.world.disk.Starts dir)
    (hmade : s.world.disk.makeDirs dir = (.ok (), d)) (hstat : d.stat dir = .ok (l, .dir))
    (hfree : d.Free (lockPlace l)) (hcheck : checkText (pathOf (lockPlace l)).text = .ok ()) :
    ∃ k w, Workspace.acquire host dir s.world = (.ok k, w) ∧ k.root = pathOf l ∧
      k.report = none := by
  have hgrows := grows_makeDirs s.world.disk dir
  have hlocked := locked_makeDirs s.world.disk dir
  rw [hmade] at hgrows hlocked
  have hentered : d.Entered l :=
    ⟨(hstart.grows hgrows).locate (stat_eq_ok hstat).1, (stat_eq_ok hstat).2⟩
  have hhandy : d.Handy (lockPlace l) := hentered.handy isName_lockFile (by decide) hcheck
  have hopen : ∃ id opened, d.openLockFile (HeldLock.pathIn (pathOf l)) = .ok (id, opened) ∧
      id ∉ opened.locked := by
    rw [pathIn_root hentered.reached.isName, openLockFile, hhandy.locate .file hfree.not_link]
    dsimp only
    rcases hfree with hnone | ⟨id, c, x, hfile⟩
    · rw [hnone]
      refine ⟨_, _, rfl, fun hid => ?_⟩
      have hnew := h.locks _ (hlocked ▸ hid)
      rw [hgrows.nextId] at hnew
      exact absurd hnew (Nat.lt_irrefl _)
    · rw [hfile]
      refine ⟨_, _, rfl, fun hid => ?_⟩
      obtain ⟨i, t, ht, hlive, hroot⟩ :=
        h.owned l id c x hl (hgrows.unwritten _ _ _ _ hfile) (hlocked ▸ hid)
      exact hvacant i t ht hlive hroot
  obtain ⟨id, opened, hopen, hid⟩ := hopen
  exact Workspace.acquire_free hmade hstat hopen hid

/-- An owner leaves what was there before. -/
theorem Standing.leaves {i : Nat} {t : Tenant} (ht : s.tenants i = some t) (hlive : t.Live) :
    Workspace.drop (s.site t) = (Workspace.release (s.site t)).2 ∧
      (s.release i).world.disk.get? (lockPlace t.root) = none ∧
      ((s.release i).world.disk.get? t.root ≠ none ↔ t.existed = true) := by
  obtain ⟨-, howns⟩ := h.owns i t ht hlive
  obtain ⟨id, c, x, hlock, -⟩ := howns.lock
  have hvacates : t.Vacates id s.world.disk (Workspace.release (s.site t)).2.world.disk :=
    howns.vacates hlive hlock
  have hrelease : s.release i = s.move i t (Workspace.release (s.site t)).2 := by
    simp only [release, ht]
  rw [hrelease, world_move]
  refine ⟨drop_of_live hlive, hvacates.gone, ?_⟩
  rw [hvacates.root]
  cases t.existed <;> simp

end

/-- In every session each directory has at most one owner, others are refused and change nothing,
and when the owner has left, what was there before is there, and the directory can be had again. -/
theorem session_sound {dirs : Location → Prop} (hdirs : Unnested dirs) {w : World}
    (hopens : Opens dirs w.disk) {s : Session} (hleads : Leads dirs Finds (start w) s) :
    Sound dirs s := by
  have h : Standing dirs s := (standing_start hopens).leads hdirs hleads
  exact {
    alone := fun i j t u ht hu hlive hlive' hroots => by
      obtain ⟨-, howns⟩ := h.owns i t ht hlive
      obtain ⟨-, howns'⟩ := h.owns j u hu hlive'
      rw [howns.path, howns'.path] at hroots
      exact h.alone i j t u ht hu hlive hlive'
        (pathOf_injective howns.isName howns'.isName (congrArg Path.parts hroots))
    refuses := fun i t ht hlive => ⟨(h.owns i t ht hlive).2.path, fun host dir =>
      h.refuses ht hlive⟩
    grants := fun l d host dir hl => h.grants hl
    leaves := fun i t => h.leaves
    repeats := fun i t ht hlive P s' hlater => by
      have hrelease : (s.release i).tenants i =
          some { t with workspace := (Workspace.release (s.site t)).2.workspace } := by
        simp only [release, ht, tenants_move]
      have hreport := Workspace.release_report (s := s.site t) hlive
      exact ⟨_, keeps_of_leads hlater hrelease hreport, Workspace.release_of_report hreport,
        drop_of_report hreport⟩ }

/-! ## Two directories -/

def sampleHost : Host where
  launch _ call := ⟨[], .ok 1, call.disk⟩
  searchPath := none
  freshId n := Text.natText n
  processId := 1
  now := (0, 0)

/-- A directory with the lock file of a run that died. -/
def sampleDisk : Disk where
  entries := [(["v"], .dir), (["v", ".autopie.lock"], .file 0 "2 5\n".toUTF8 false)]
  cwd := []
  nextId := 1
  locked := []

def sampleDirs (l : Location) : Prop := l = ["v"] ∨ l = ["w"]

def sampleStart : Session := start (.ofDisk sampleDisk)

def sampleOwner : Session := sampleStart.acquire sampleHost ⟨"/w"⟩ 0

/-- The directory that has an owner is refused, and then the other one is had. -/
def sampleSession : Session :=
  sampleOwner.write 0 ⟨"/w/slice.c"⟩ "int x;\n".toUTF8 .staticSlice
    |>.acquire sampleHost ⟨"/v/../w"⟩ 1 |>.acquire sampleHost ⟨"/v"⟩ 1

theorem unnested_sampleDirs : Unnested sampleDirs := by
  rintro l m (rfl | rfl) (rfl | rfl) <;> decide

theorem opens_sampleDisk : Opens sampleDirs sampleDisk where
  numbered := numbered_of_entries (by decide) (by decide)
  locks _ hid := nomatch hid
  unlinked m target _ := linkless_of_entries (by decide) _ target
  free _ _ _ _ _ _ hid := nomatch hid

theorem finds_of {d : Disk} {dir : Path} {l : Location} (hplace : d.placeOf dir = some l)
    (h : (d.get? l).isNone || d.pathExists dir) : d.Finds dir := by
  intro m hm hn
  cases hplace.symm.trans hm
  rw [Bool.or_eq_true, Option.isNone_iff_eq_none] at h
  exact h.resolve_left hn

theorem leads_sampleOwner : Leads sampleDirs Finds sampleStart sampleOwner :=
  have hplace : sampleStart.world.disk.placeOf ⟨"/w"⟩ = some ["w"] := by decide +kernel
  leads_acquire .refl _ _ _ (by decide) hplace (.inr rfl) (finds_of hplace (by decide +kernel)) rfl

theorem leads_sampleSession : Leads sampleDirs Finds sampleStart sampleSession := by
  obtain ⟨t, ht, hroot, hlive⟩ :
      ∃ t ∈ sampleOwner.tenants 0, t.root = ["w"] ∧ t.workspace.report = none := by decide +kernel
  have hclear : sampleOwner.world.disk.Clear ["w", "slice.c"] :=
    (linkless_of_entries (by decide +kernel)).clear _
  have hwrite : Leads sampleDirs Finds sampleOwner
      (sampleOwner.write 0 ⟨"/w/slice.c"⟩ "int x;\n".toUTF8 .staticSlice) :=
    ((standing_start opens_sampleDisk).leads unnested_sampleDirs leads_sampleOwner).leads_write
      unnested_sampleDirs ht hlive (p := ⟨"/w/slice.c"⟩) (m := ["w", "slice.c"])
      ⟨by decide, by decide, by decide⟩ hclear (by simp [hroot]) (by simp [hroot])
      (by rw [hroot]; decide) _ _
  have hrefused := leads_acquire (leads_sampleOwner.trans hwrite) sampleHost ⟨"/v/../w"⟩ 1
    (l := ["w"]) (by decide) (by decide +kernel) (.inr rfl)
    (finds_of (l := ["w"]) (by decide +kernel) (by decide +kernel)) (by decide +kernel)
  exact leads_acquire hrefused sampleHost ⟨"/v"⟩ 1 (l := ["v"]) (by decide) (by decide +kernel)
    (.inl rfl) (finds_of (l := ["v"]) (by decide +kernel) (by decide +kernel)) (by decide +kernel)

theorem sampleSession_sound :
    Leads sampleDirs Finds sampleStart sampleSession ∧ Sound sampleDirs sampleSession ∧
      (∃ t ∈ sampleSession.tenants 0, t.Live ∧ t.root = ["w"] ∧
        sampleSession.world.disk.placeOf ⟨"/v/../w"⟩ = some t.root ∧
        Workspace.acquire sampleHost ⟨"/v/../w"⟩ sampleSession.world =
          (.error (.workspaceBusy t.workspace.root), sampleSession.world)) ∧
      (∃ t ∈ sampleSession.tenants 1, t.Live ∧ t.root = ["v"]) ∧
      (sampleSession.release 0).world.disk.get? ["w"] = none ∧
      (sampleSession.release 1).world.disk.get? ["v"] = some .dir := by
  have hsound : Sound sampleDirs sampleSession :=
    session_sound unnested_sampleDirs opens_sampleDisk leads_sampleSession
  have hplace : sampleSession.world.disk.placeOf ⟨"/v/../w"⟩ = some ["w"] := by decide +kernel
  obtain ⟨t, ht, hroot, hlive⟩ :
      ∃ t ∈ sampleSession.tenants 0, t.root = ["w"] ∧ t.workspace.report = none := by
    decide +kernel
  obtain ⟨u, hu, hroot', hlive'⟩ :
      ∃ u ∈ sampleSession.tenants 1, u.root = ["v"] ∧ u.workspace.report = none := by
    decide +kernel
  rw [← hroot] at hplace
  have hrefused := (hsound.refuses 0 t ht hlive).2 sampleHost ⟨"/v/../w"⟩ hplace
    (finds_of hplace (by rw [hroot]; decide +kernel))
  exact ⟨leads_sampleSession, hsound, ⟨t, ht, hlive, hroot, hplace, hrefused⟩,
    ⟨u, hu, hlive', hroot'⟩, by decide +kernel, by decide +kernel⟩

/-! ## A directory with two owners -/

def contestedStart : Session := start (.ofDisk ⟨[], [], 0, []⟩)

/-- The second attempt goes up from a directory that is missing. It is refused, but removes the
directory of the owner, with the lock file. -/
def contestedSession : Session :=
  contestedStart.acquire sampleHost ⟨"/d"⟩ 0 |>.acquire sampleHost ⟨"/missing/../d"⟩ 1
    |>.acquire sampleHost ⟨"/d"⟩ 2

theorem two_owners :
    Unnested (· = ["d"]) ∧ Opens (· = ["d"]) contestedStart.world.disk ∧
      Leads (· = ["d"]) (fun _ _ => True) contestedStart contestedSession ∧
      ∃ t ∈ contestedSession.tenants 0, ∃ u ∈ contestedSession.tenants 2, t.Live ∧ u.Live ∧
        t.workspace.root = u.workspace.root := by
  refine ⟨?_, ⟨?_, ?_, ?_, ?_⟩, ?_, ?_⟩
  · rintro l m rfl rfl -
    rfl
  · exact numbered_of_entries (by decide) (by decide)
  · exact fun _ hid => nomatch hid
  · exact fun m target _ => linkless_of_entries (by decide) _ target
  · exact fun _ _ _ _ _ _ hid => nomatch hid
  · have howned : Leads (· = ["d"]) (fun _ _ => True) contestedStart
        (contestedStart.acquire sampleHost ⟨"/d"⟩ 0) :=
      leads_acquire .refl _ _ _ (l := ["d"]) (by decide) (by decide +kernel) rfl trivial rfl
    have hrefused := leads_acquire howned sampleHost ⟨"/missing/../d"⟩ 1 (l := ["d"]) (by decide)
      (by decide +kernel) rfl trivial (by decide +kernel)
    exact leads_acquire hrefused sampleHost ⟨"/d"⟩ 2 (l := ["d"]) (by decide) (by decide +kernel)
      rfl trivial (by decide +kernel)
  · obtain ⟨t, ht, u, hu, h⟩ : ∃ t ∈ contestedSession.tenants 0, ∃ u ∈ contestedSession.tenants 2,
        t.workspace.report = none ∧ u.workspace.report = none ∧
          t.workspace.root = u.workspace.root := by decide +kernel
    exact ⟨t, ht, u, hu, h⟩

end Session

end Whittle
