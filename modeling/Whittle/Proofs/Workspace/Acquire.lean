import Mathlib.Data.List.Pairwise
import Whittle.Proofs.Action
import Whittle.Proofs.Disk.Canonical
import Whittle.Proofs.Disk.Nested
import Whittle.Proofs.Disk.Slots
import Whittle.Proofs.Workspace.Release

/-!
# Taking a work directory

An attempt at a workspace makes directories and writes the lock file; if the lock cannot be had, a
directory that was missing before is removed again. Whatever comes of it, all other places are left
as they were (`acquire_leaves`), as long as none of them is the lock file under another name: an
exclusive lock, and what is written to the file of a lock, go to the identity of the file and not to
its place (`Plain`).
-/

namespace Whittle

open Disk

/-- A disk on which every file has one name: there are no links, and no identity is shared. -/
structure Disk.Plain (d : Disk) : Prop where
  linkless : d.Linkless
  unshared : ∀ l l' id c c' x x', d.get? l = some (.file id c x) →
    d.get? l' = some (.file id c' x') → l = l'
  fresh : ∀ l id c x, d.get? l = some (.file id c x) → id < d.nextId

/-- A disk on which no identity is shared. -/
structure Disk.Numbered (d : Disk) : Prop where
  unshared : ∀ l l' id c c' x x', d.get? l = some (.file id c x) →
    d.get? l' = some (.file id c' x') → l = l'
  fresh : ∀ l id c x, d.get? l = some (.file id c x) → id < d.nextId

namespace Disk

theorem Plain.numbered {d : Disk} (h : d.Plain) : d.Numbered := ⟨h.unshared, h.fresh⟩

theorem Numbered.of_grows {d d' : Disk} (h : d.Numbered) (hg : Grows d d') : d'.Numbered := by
  have hfile {l : Location} {id : Nat} {c : ByteArray} {x : Bool}
      (hf : d'.get? l = some (.file id c x)) : d.get? l = some (.file id c x) := by
    rcases hg.get? l with e | ⟨-, e⟩
    · rw [← e, hf]
    · rw [e] at hf
      cases hf
  refine ⟨fun l l' id c c' x x' hf hf' => ?_, fun l id c x hf => ?_⟩
  · exact h.unshared l l' id c c' x x' (hfile hf) (hfile hf')
  · rw [hg.nextId]
    exact h.fresh l id c x (hfile hf)

/-- The identity of a file. -/
def identity : Node → Option Nat
  | .file id _ _ => some id
  | _ => none

def isLink : Node → Bool
  | .link _ => true
  | _ => false

/-- No link stands at a place, above or below it, if none of the entries does. -/
theorem straight_of_entries {d : Disk} {l : Location}
    (h : ∀ e ∈ d.entries, isLink e.2 = true → ¬ (e.1 <+: l ∨ l <+: e.1)) : d.Straight l :=
  fun P target hP hn => h (P, .link target) (entry_of_get? hn nofun) rfl hP

/-- No identity is shared if none is among the entries. -/
theorem numbered_of_entries {d : Disk}
    (hfresh : ∀ e ∈ d.entries, ∀ id ∈ identity e.2, id < d.nextId)
    (hids : d.entries.Pairwise fun e e' => ∀ id ∈ identity e.2, id ∉ identity e'.2) :
    d.Numbered where
  unshared l l' id c c' x x' h h' := by
    have hsymm : Std.Symm fun e e' : Location × Node => ∀ id ∈ identity e.2, id ∉ identity e'.2 :=
      ⟨fun e e' he id h' h => he id h h'⟩
    by_contra hne
    refine hids.forall (entry_of_get? h nofun) (entry_of_get? h' nofun) (fun e => ?_) id rfl rfl
    exact hne (congrArg Prod.fst e)
  fresh l id c x h := hfresh _ (entry_of_get? h nofun) id rfl

theorem linkless_of_entries {d : Disk} (h : ∀ e ∈ d.entries, isLink e.2 = false) : d.Linkless :=
  fun _ _ hn => nomatch h _ (entry_of_get? hn nofun)

/-- A disk is plain if its entries show it. -/
theorem plain_of_entries {d : Disk} (hlinks : ∀ e ∈ d.entries, isLink e.2 = false)
    (hfresh : ∀ e ∈ d.entries, ∀ id ∈ identity e.2, id < d.nextId)
    (hids : d.entries.Pairwise fun e e' => ∀ id ∈ identity e.2, id ∉ identity e'.2) : d.Plain :=
  have hnumbered := numbered_of_entries hfresh hids
  { linkless := linkless_of_entries hlinks
    unshared := hnumbered.unshared
    fresh := hnumbered.fresh }

/-- A node with new content, if it is the file of an identity. -/
def withContent (id : Nat) (content : ByteArray) : Node → Node
  | .file i c x => .file i (if i = id then content else c) x
  | n => n

theorem valueAt_map_snd {α β γ : Type} [DecidableEq α] (f : β → γ) (k : α) (es : List (α × β)) :
    valueAt k (es.map fun e => (e.1, f e.2)) = (valueAt k es).map f := by
  induction es with
  | nil => rfl
  | cons e es ih =>
    by_cases h : e.1 = k
    · simp [valueAt, h]
    · simp [valueAt, h, ih]

theorem get?_setContent (d : Disk) (id : Nat) (content : ByteArray) (l : Location) :
    (d.setContent id content).get? l = (d.get? l).map (withContent id content) := by
  have hentries : (d.setContent id content).entries =
      d.entries.map fun e => (e.1, withContent id content e.2) := by
    refine List.map_congr_left fun e _ => ?_
    cases e.2 <;> rfl
  unfold get?
  split
  · rfl
  · rw [hentries, valueAt_map_snd]

/-- Opening a lock file gives the identity of the file at its place, a new one if there is none. -/
theorem openLockFile_ok {d opened : Disk} {p : Path} {id : Nat}
    (h : d.openLockFile p = .ok (id, opened)) :
    ∃ place, d.locate .file p = .ok place ∧
      ((∃ c x, d.get? place = some (.file id c x) ∧ opened = d) ∨
        id = d.nextId ∧ d.get? place = none ∧
          Alters d opened place (some (.file id ByteArray.empty false))) := by
  unfold openLockFile at h
  split at h
  · cases h
  · rename_i place hplace
    refine ⟨place, hplace, ?_⟩
    split at h
    · rename_i hnode
      cases h
      exact .inl ⟨_, _, hnode, rfl⟩
    · cases h
    · rename_i hnode
      cases h
      have hroot : place ≠ [] := by
        rintro rfl
        rw [get?_nil] at hnode
        cases hnode
      have hput : Alters d (d.put place (.file d.nextId ByteArray.empty false)) place _ :=
        alters_put hroot _
      exact .inr ⟨rfl, hnode, hput.not_root, hput.get?⟩

section

variable {d opened : Disk} (hd : d.Numbered) {p : Path} {id : Nat} {place : Location}
  (hplace : d.locate .file p = .ok place) (h : d.openLockFile p = .ok (id, opened))
include hd hplace h

/-- The file that was opened for a lock stands at one place only, and may be new there. -/
theorem openLockFile_frame :
    SameLinks d opened ∧ (∀ P, P ≠ place → opened.get? P = d.get? P) ∧
      ∀ P c x, opened.get? P = some (.file id c x) → P = place := by
  obtain ⟨place', hplace', hopened⟩ := openLockFile_ok h
  rw [hplace] at hplace'
  cases hplace'
  rcases hopened with ⟨c, x, hfile, rfl⟩ | ⟨rfl, hnone, halters⟩
  · exact ⟨.refl _, fun _ _ => rfl, fun P c' x' hP => hd.unshared _ _ _ _ _ _ _ hP hfile⟩
  · refine ⟨halters.links (by simp [hnone]) (by simp), fun P hP => halters.other hP,
      fun P c x hP => ?_⟩
    by_contra hne
    rw [halters.other hne] at hP
    exact absurd (hd.fresh _ _ _ _ hP) (Nat.lt_irrefl _)

/-- What is written to an opened lock file is seen at its place only. -/
theorem setContent_frame (content : ByteArray) :
    SameLinks d (opened.setContent id content) ∧
      ∀ P, P ≠ place → (opened.setContent id content).get? P = d.get? P := by
  obtain ⟨hlinks, hother, hunique⟩ := openLockFile_frame hd hplace h
  refine ⟨hlinks.trans fun P target => ?_, fun P hP => ?_⟩
  · rw [get?_setContent]
    cases hn : opened.get? P with
    | none => simp
    | some n => cases n <;> simp [withContent]
  · rw [get?_setContent, ← hother P hP]
    cases hn : opened.get? P with
    | none => rfl
    | some n =>
      cases n with
      | file i c x =>
        have hne : i ≠ id := by
          rintro rfl
          exact hP (hunique P c x hn)
        simp [withContent, hne]
      | link t => rfl
      | dir => rfl
      | sink => rfl

end

end Disk

/-! ## Acquiring -/

/-- One place was changed, which is neither a given one nor above it. -/
theorem Disk.Leaves.of_other {o place : Location} {d d' : Disk} (hplace : ¬ place <+: o)
    (hlinks : SameLinks d d') (hother : ∀ P, P ≠ place → d'.get? P = d.get? P) :
    Leaves o d d' := by
  refine ⟨hlinks, fun P n hP hn => ?_⟩
  rw [hother P, hn]
  rintro rfl
  exact hplace hP

theorem isName_lockFile : IsName Artifacts.lockFile := by decide

theorem pathIn_pathOf {l : Location} (hl : ∀ n ∈ l, IsName n) :
    HeldLock.pathIn (pathOf l) = pathOf (l ++ [Artifacts.lockFile]) :=
  @join_pathOf l hl Artifacts.lockFile [] isName_lockFile

theorem names_lockFile {l : Location} (hl : ∀ n ∈ l, IsName n) :
    ∀ n ∈ l ++ [Artifacts.lockFile], IsName n :=
  List.forall_mem_append.mpr ⟨hl, by simpa using isName_lockFile⟩

theorem heldLock_acquire_eq_ok {host : Host} {dir : Path} {w w' : World} {lock : HeldLock}
    (h : HeldLock.acquire host dir w = (.ok lock, w')) :
    lock.path = HeldLock.pathIn dir ∧ w'.calls = w.calls := by
  obtain ⟨⟨id, opened⟩, w₁, hask, h⟩ := bind_eq_ok h
  obtain ⟨-, rfl⟩ := Action.ask_eq_ok hask
  obtain ⟨_, w₂, hset, h⟩ := bind_eq_ok h
  cases hset
  cases hlock : opened.tryLock id with
  | none =>
    rw [hlock] at h
    cases h
  | some locked =>
    rw [hlock] at h
    cases h
    exact ⟨rfl, rfl⟩

section

variable {host : Host} {l : Location} (hl : ∀ n ∈ l, IsName n) {w w' : World}
  (hd : w.disk.Numbered) (hclear : w.disk.Clear (l ++ [Artifacts.lockFile]))
include hl hd hclear

/-- An attempt at a lock touches the lock file only; a lock that was taken is on a file there. -/
theorem heldLock_acquire_frame {r : Except Fault HeldLock}
    (h : HeldLock.acquire host (pathOf l) w = (r, w')) :
    SameLinks w.disk w'.disk ∧
      (∀ P, P ≠ l ++ [Artifacts.lockFile] → w'.disk.get? P = w.disk.get? P) ∧
      ∀ lock, r = .ok lock →
        w.disk.locate .file (pathOf (l ++ [Artifacts.lockFile])) =
            .ok (l ++ [Artifacts.lockFile]) ∧
          w.disk.get? (l ++ [Artifacts.lockFile]) ≠ some .dir ∧
          ∃ id c x, w'.disk.get? (l ++ [Artifacts.lockFile]) = some (.file id c x) := by
  rw [HeldLock.acquire, pathIn_pathOf hl] at h
  rcases bind_cases h with ⟨e, hask, rfl⟩ | ⟨⟨id, opened⟩, w₁, hask, h⟩
  · rw [Action.ask_world hask]
    exact ⟨.refl _, fun _ _ => rfl, nofun⟩
  · obtain ⟨hopen, rfl⟩ := Action.ask_eq_ok hask
    obtain ⟨place, hplace, hopened⟩ := openLockFile_ok hopen
    obtain ⟨-, -, rfl⟩ := (locate_pathOf_iff hclear (names_lockFile hl)).mp hplace
    have hset : Action.setDisk opened w = (.ok (), { w with disk := opened }) := rfl
    dsimp only at h
    rw [bind_of_ok hset] at h
    cases hlock : opened.tryLock id with
    | none =>
      rw [hlock] at h
      cases h
      obtain ⟨hlinks, hother, -⟩ := openLockFile_frame hd hplace hopen
      exact ⟨hlinks, hother, nofun⟩
    | some locked =>
      rw [hlock] at h
      unfold tryLock at hlock
      split at hlock
      · cases hlock
      · cases hlock
        cases h
        let text := (LockInfo.text ⟨host.processId, host.now, programVersion⟩).toUTF8
        obtain ⟨hlinks, hother⟩ := setContent_frame hd hplace hopen text
        refine ⟨hlinks, hother, fun lock _ => ⟨hplace, ?_⟩⟩
        have hcontent {c : ByteArray} {x : Bool}
            (hfile : opened.get? (l ++ [Artifacts.lockFile]) = some (.file id c x)) :
            ∃ id' c' x', (opened.setContent id text).get? (l ++ [Artifacts.lockFile]) =
              some (.file id' c' x') :=
          ⟨_, _, _, by rw [get?_setContent, hfile]; rfl⟩
        rcases hopened with ⟨c, x, hfile, rfl⟩ | ⟨-, hnone, halters⟩
        · exact ⟨by simp [hfile], hcontent hfile⟩
        · exact ⟨by simp [hnone], hcontent halters.self⟩

omit hd in
/-- Nothing happens if a directory has the name of the lock file. -/
theorem heldLock_acquire_dir {r : Except Fault HeldLock}
    (hdir : w.disk.get? (l ++ [Artifacts.lockFile]) = some .dir)
    (h : HeldLock.acquire host (pathOf l) w = (r, w')) : r.isOk = false ∧ w'.disk = w.disk := by
  rw [HeldLock.acquire, pathIn_pathOf hl] at h
  rcases bind_cases h with ⟨e, hask, rfl⟩ | ⟨⟨id, opened⟩, w₁, hask, -⟩
  · rw [Action.ask_world hask]
    exact ⟨rfl, rfl⟩
  · obtain ⟨hopen, -⟩ := Action.ask_eq_ok hask
    obtain ⟨place, hplace, hopened⟩ := openLockFile_ok hopen
    obtain ⟨-, -, rfl⟩ := (locate_pathOf_iff hclear (names_lockFile hl)).mp hplace
    rcases hopened with ⟨c, x, hfile, -⟩ | ⟨-, hnone, -⟩
    · rw [hdir] at hfile
      cases hfile
    · rw [hdir] at hnone
      cases hnone

theorem heldLock_acquire_leaves {o : Location} {r : Except Fault HeldLock}
    (ho : ¬ l ++ [Artifacts.lockFile] <+: o)
    (h : HeldLock.acquire host (pathOf l) w = (r, w')) : Leaves o w.disk w'.disk := by
  obtain ⟨hlinks, hother, -⟩ := heldLock_acquire_frame hl hd hclear h
  exact .of_other ho hlinks hother

end

theorem makeDirs_world {dir : Path} {w w' : World} {r : Except Fault Unit}
    (h : Action.transact (fun d =>
      match d.makeDirs dir with
      | (.ok (), d') => (.ok (), d')
      | (.error e, d') => (.error (.makingWorkspace dir e), d')) w = (r, w')) :
    w' = { w with disk := (w.disk.makeDirs dir).2 } := by
  rw [Action.transact_apply] at h
  cases hmade : w.disk.makeDirs dir with
  | mk r d =>
    rw [hmade] at h
    cases r <;> cases h <;> rfl

/-- A workspace at a directory, as it is when it was acquired. -/
structure Acquired (dir : Path) (d : Disk) (workspace : Workspace) (l : Location) : Prop where
  place : d.placeOf dir = some l
  names : ∀ n ∈ l, IsName n
  root : workspace.root = pathOf l
  createdRoot : workspace.createdRoot = !d.pathExists dir
  ledger : workspace.ledger = .empty
  lock : ∀ lock, workspace.lock = some lock → lock.path = pathOf (l ++ [Artifacts.lockFile])

/-- There are no links in a work directory, and its lock file is neither at a place nor above it. -/
structure Disk.Apart (d : Disk) (root o : Location) : Prop where
  straight : d.Straight root
  lock : ¬ root ++ [Artifacts.lockFile] <+: o

section

variable {host : Host} {dir : Path} {w w' : World} (hstart : w.disk.Starts dir)
include hstart

/-- The canonical form of a directory that has been made is written from its place. -/
theorem canonical_made {d : Disk} (hgrows : Grows w.disk d) {root : Path}
    (h : d.canonical dir = .ok root) :
    ∃ l, w.disk.placeOf dir = some l ∧ (∀ n ∈ l, IsName n) ∧ root = pathOf l ∧
      ∃ n, d.stat dir = .ok (l, n) := by
  obtain ⟨l, n, hstat, hreached, rfl⟩ := (hstart.grows hgrows).canonical h
  have hsame : d.startOf dir.text = w.disk.startOf dir.text := by
    rw [startOf, startOf, hgrows.cwd]
  exact ⟨l, placeOf_of_locate hsame hgrows.links (stat_eq_ok hstat).1, hreached.isName, rfl, n,
    hstat⟩

/-- A workspace is acquired by making its directory and locking it. -/
theorem Workspace.acquire_eq_ok {workspace : Workspace}
    (h : Workspace.acquire host dir w = (.ok workspace, w')) :
    w'.calls = w.calls ∧ ∃ l, Acquired dir w.disk workspace l ∧ workspace.report = none ∧
      (∃ n, (w.disk.makeDirs dir).2.stat dir = .ok (l, n)) ∧
      ∃ lock w₁, workspace.lock = some lock ∧
        HeldLock.acquire host (pathOf l) { w with disk := (w.disk.makeDirs dir).2 } =
          (.ok lock, w₁) ∧ w'.disk = w₁.disk := by
  obtain ⟨d, w₁, hget, h⟩ := bind_eq_ok h
  cases hget
  obtain ⟨_, w₂, hmake, h⟩ := bind_eq_ok h
  obtain rfl := makeDirs_world hmake
  obtain ⟨root, w₃, hask, h⟩ := bind_eq_ok h
  obtain ⟨hroot, rfl⟩ := Action.ask_eq_ok hask
  obtain ⟨l, hplace, hnames, rfl, hstat⟩ := canonical_made hstart (grows_makeDirs w.disk dir) hroot
  obtain ⟨r, w₄, hattempt, h⟩ := bind_eq_ok h
  cases hacquire : HeldLock.acquire host (pathOf l)
      { w with disk := (w.disk.makeDirs dir).2 } with
  | mk r' w₅ =>
    rw [Action.attempt, hacquire] at hattempt
    cases hattempt
    cases r' with
    | error e =>
      dsimp only at h
      split at h
      · obtain ⟨_, _, -, h⟩ := bind_eq_ok h
        obtain ⟨_, _, -, h⟩ := bind_eq_ok h
        cases h
      · cases h
    | ok lock =>
      obtain ⟨id, w₆, hid, h⟩ := bind_eq_ok h
      cases hid
      obtain ⟨rfl, rfl⟩ := pure_eq_ok h
      obtain ⟨hpath, hcalls⟩ := heldLock_acquire_eq_ok hacquire
      refine ⟨hcalls, l, ⟨hplace, hnames, rfl, rfl, rfl, fun held e => ?_⟩, rfl, hstat, lock, _,
        rfl, hacquire, rfl⟩
      cases e
      rw [hpath, pathIn_pathOf hnames]

/-- An attempt at a workspace makes the directory. It ends there, or takes the lock, or removes the
directory that it has made. -/
theorem Workspace.acquire_cases {r : Except Fault Workspace}
    (h : Workspace.acquire host dir w = (r, w')) :
    (r.isOk = false ∧ w'.disk = (w.disk.makeDirs dir).2) ∨
      ∃ l r' w₁, w.disk.placeOf dir = some l ∧ (∀ n ∈ l, IsName n) ∧
        HeldLock.acquire host (pathOf l) { w with disk := (w.disk.makeDirs dir).2 } = (r', w₁) ∧
        r'.isOk = r.isOk ∧ (w'.disk = w₁.disk ∨ r.isOk = false ∧ w.disk.pathExists dir = false ∧
          w'.disk = (w₁.disk.removeTree (pathOf l)).2) := by
  rw [Workspace.acquire, bind_of_ok (Action.getDisk_apply w)] at h
  rcases bind_cases h with ⟨e, hmake, rfl⟩ | ⟨_, w₁, hmake, h⟩
  · exact .inl ⟨rfl, by rw [makeDirs_world hmake]⟩
  · obtain rfl := makeDirs_world hmake
    rcases bind_cases h with ⟨e, hask, rfl⟩ | ⟨root, w₂, hask, h⟩
    · exact .inl ⟨rfl, by rw [Action.ask_world hask]⟩
    · obtain ⟨hcanonical, rfl⟩ := Action.ask_eq_ok hask
      obtain ⟨l, hplace, hnames, rfl, -⟩ :=
        canonical_made hstart (grows_makeDirs w.disk dir) hcanonical
      cases hacquire : HeldLock.acquire host (pathOf l)
          { w with disk := (w.disk.makeDirs dir).2 } with
      | mk r' w₂ =>
        refine .inr ⟨l, r', w₂, hplace, hnames, hacquire, ?_⟩
        have hattempt : Action.attempt (HeldLock.acquire host (pathOf l))
            { w with disk := (w.disk.makeDirs dir).2 } = (.ok r', w₂) := by
          rw [Action.attempt, hacquire]
        rw [bind_of_ok hattempt] at h
        cases r' with
        | ok lock =>
          cases h
          exact ⟨rfl, .inl rfl⟩
        | error e =>
          dsimp only at h
          split at h
          · rename_i hcreated
            cases h
            exact ⟨rfl, .inr ⟨rfl, by simpa using hcreated, rfl⟩⟩
          · cases h
            exact ⟨rfl, .inl rfl⟩

/-- Whatever comes of an attempt at a workspace, a place is left as it was that is apart from it. If
the attempt fails, and the place is in the directory, that must have been there before. -/
theorem Workspace.acquire_leaves {r : Except Fault Workspace} {o : Location} (hd : w.disk.Numbered)
    (hapart : ∀ l, w.disk.placeOf dir = some l → w.disk.Apart l o)
    (hroot : r.isOk = false → ∀ l, w.disk.placeOf dir = some l → l <+: o →
      w.disk.pathExists dir = true)
    (h : Workspace.acquire host dir w = (r, w')) : Leaves o w.disk w'.disk := by
  have hgrows := grows_makeDirs w.disk dir
  have hdirs := hgrows.leaves o
  rcases acquire_cases hstart h with ⟨-, e⟩ | ⟨l, r', w₁, hplace, hnames, hacquire, -, hend⟩
  · rw [e]
    exact hdirs
  · obtain ⟨hstraight, hlock⟩ := hapart l hplace
    have hclear := (hdirs.links.straight hstraight).clear
      (List.prefix_append l [Artifacts.lockFile])
    have hlocked := hdirs.trans
      (heldLock_acquire_leaves hnames (hd.of_grows hgrows) hclear hlock hacquire)
    rcases hend with e | ⟨hfailed, hcreated, e⟩
    · rw [e]
      exact hlocked
    · have hmiss : (pathOf l).Misses l o := by
        refine ⟨l, hnames, rfl, List.prefix_refl l, fun hprefix => ?_⟩
        rw [hroot hfailed l hplace hprefix] at hcreated
        cases hcreated
      have hleft := hlocked.links.straight hstraight
      rw [e]
      refine hlocked.trans (hmiss.leaves hleft fun m hm hpath hd => ?_)
      rw [hpath]
      exact sheds_removeTree hd.self (Path.names_pathOf hm)

/-- In a directory that is there, whatever comes of an attempt at it, only the lock file changes,
and nothing if a directory has its name. -/
theorem Workspace.acquire_there {r : Except Fault Workspace} {l : Location} (hd : w.disk.Numbered)
    (hplace : w.disk.placeOf dir = some l) (hthere : w.disk.pathExists dir = true)
    (hclear : w.disk.Clear (l ++ [Artifacts.lockFile]))
    (h : Workspace.acquire host dir w = (r, w')) :
    SameLinks w.disk w'.disk ∧
      (∀ P, P ≠ l ++ [Artifacts.lockFile] → w'.disk.get? P = w.disk.get? P) ∧
      (w.disk.get? (l ++ [Artifacts.lockFile]) = some .dir →
        r.isOk = false ∧ w'.disk = w.disk) := by
  have hsame := makeDirs_of_pathExists hthere
  rcases acquire_cases hstart h with ⟨hfailed, e⟩ | ⟨l', r', w₁, hplace', hnames, hacquire, hr, hend⟩
  · rw [e, hsame]
    exact ⟨.refl _, fun _ _ => rfl, fun _ => ⟨hfailed, rfl⟩⟩
  · cases hplace.symm.trans hplace'
    rw [hsame] at hacquire
    obtain e := hend.resolve_right fun hcreated => by
      rw [hthere] at hcreated
      cases hcreated.2.1
    obtain ⟨hlinks, hother, -⟩ := heldLock_acquire_frame hnames hd hclear hacquire
    rw [e]
    refine ⟨hlinks, hother, fun hdir => ?_⟩
    rw [← hr]
    exact heldLock_acquire_dir hnames hclear hdir hacquire

end

/-! ## The directory that was taken -/

/-- A disk with a work directory that was made, if it was missing, and locked. -/
structure Taken (dir : Path) (d d' : Disk) (l : Location) : Prop where
  links : SameLinks d d'
  nested : d'.Nested
  entered : d'.Entered l
  lock : d'.Handy (l ++ [Artifacts.lockFile])
  file : ∃ id c x, d'.get? (l ++ [Artifacts.lockFile]) = some (.file id c x)
  other : ∀ P, P ≠ l ++ [Artifacts.lockFile] → d'.get? P = (d.makeDirs dir).2.get? P
  there : ∃ n, (d.makeDirs dir).2.stat dir = .ok (l, n)

section

variable {host : Host} {dir : Path} {w w' : World} {l : Location}

theorem pathExists_of_missing (hplace : w.disk.placeOf dir = some l)
    (hmissing : w.disk.get? l = none) : w.disk.pathExists dir = false := by
  unfold pathExists
  cases hstat : w.disk.stat dir with
  | error e => rfl
  | ok x =>
    obtain ⟨k, n⟩ := x
    obtain ⟨hlocate, hn⟩ := stat_eq_ok hstat
    cases hplace.symm.trans (placeOf_of_locate rfl (.refl _) hlocate)
    rw [hmissing] at hn
    cases hn

theorem Workspace.acquire_takes {workspace : Workspace} (hstart : w.disk.Starts dir)
    (hnested : w.disk.Nested) (hplace : w.disk.placeOf dir = some l) (hd : w.disk.Numbered)
    (hstraight : w.disk.Straight l) (h : Workspace.acquire host dir w = (.ok workspace, w')) :
    Taken dir w.disk w'.disk l ∧ workspace.report = none ∧
      ∃ lock, workspace.lock = some lock ∧ lock.path = pathOf (l ++ [Artifacts.lockFile]) := by
  obtain ⟨-, l', hacquired, hreport, hthere, lock, w₁, hlock, hheld, hdisk⟩ :=
    Workspace.acquire_eq_ok hstart h
  cases hplace.symm.trans hacquired.place
  have hgrows := grows_makeDirs w.disk dir
  have hclear := (hgrows.links.straight hstraight).clear (List.prefix_append l [Artifacts.lockFile])
  obtain ⟨hlinks, hother, hok⟩ :=
    heldLock_acquire_frame hacquired.names (hd.of_grows hgrows) hclear hheld
  obtain ⟨hlocate, hnot, hfile⟩ := hok lock rfl
  obtain ⟨hcheck, hreached, -⟩ :=
    (locate_pathOf_iff hclear (names_lockFile hacquired.names)).mp hlocate
  rw [← hdisk] at hlinks hother hfile
  obtain ⟨id, c, x, hnode⟩ := hfile
  have halters : Alters (w.disk.makeDirs dir).2 w'.disk (l ++ [Artifacts.lockFile])
      (some (.file id c x)) := by
    refine ⟨not_root hnot, fun P => ?_⟩
    split
    · rename_i e
      rw [e, hnode]
    · rename_i e
      exact hother P e
  have habove {P : Location} (hP : P <+: l ++ [Artifacts.lockFile])
      (hne : P ≠ l ++ [Artifacts.lockFile]) : w'.disk.get? P = some .dir :=
    (hother P hne).trans (hreached.above P hP hne)
  have hlocked : Reached w'.disk (l ++ [Artifacts.lockFile]) :=
    ⟨hreached.names, fun _ hP hne => habove hP hne⟩
  exact ⟨⟨hgrows.links.trans hlinks,
    (hnested.makeDirs hstart).alters halters hnot fun _ => hreached,
    ⟨hlocked.of_prefix (List.prefix_append _ _), habove (List.prefix_append _ _) (by simp)⟩,
    ⟨hcheck, hlocked⟩, ⟨id, c, x, hnode⟩, hother, hthere⟩, hreport, lock, hlock,
    hacquired.lock lock hlock⟩

/-- A directory that was there before is found, and nothing in it changes but the lock file. -/
theorem Taken.of_there {d' : Disk} (hdir : dir.isAbsolute = true) (hnested : w.disk.Nested)
    (h : Taken dir w.disk d' l) (hsettled : Settled w.disk (namesOf dir.text) l)
    (hthere : w.disk.get? l ≠ none) :
    (∀ P, P ≠ l ++ [Artifacts.lockFile] → d'.get? P = w.disk.get? P) ∧
      w.disk.pathExists dir = true := by
  have hgrows := grows_makeDirs w.disk dir
  have hsame (P : Location) : (w.disk.makeDirs dir).2.get? P = w.disk.get? P := by
    by_contra hchanged
    obtain ⟨hnone, -⟩ := (hgrows.get? P).resolve_left hchanged
    obtain ⟨n, hn⟩ := Option.ne_none_iff_exists'.mp hthere
    have hway := (hsettled.makeDirs hnested (.refl _) hdir (List.prefix_refl _)
      hchanged).resolve_right (by simp [hnone])
    have hdirectory := hnested.above hn hway fun e => hthere (e ▸ hnone)
    rw [hnone] at hdirectory
    cases hdirectory
  refine ⟨fun P hP => (h.other P hP).trans (hsame P), ?_⟩
  obtain ⟨n, hstat⟩ := h.there
  have hways : Ways (w.disk.makeDirs dir).2 w.disk :=
    .of_get? hgrows.cwd.symm fun P => (hsame P).symm
  rw [pathExists, hways.stat hstat ((hsame l).symm.trans (stat_eq_ok hstat).2)]
  rfl

end

end Whittle
