import Whittle.Proofs.Workspace.Custody
import Whittle.Proofs.Workspace.Placing
import Whittle.Proofs.Workspace.Sweep
import Whittle.Proofs.Workspace.Trail

/-!
# What remains of a workspace

Whatever is put into a workspace is entered in its ledger first, so what is new on the disk is
listed (`Tracked`), with one exception: the ledger has one path for a directory that is made together
with those above it. So after a release without a failure nothing is there that was not there before,
but for directories on the way to the work directory or to a directory in it
(`Workspace.release_leaves_ways`).
-/

namespace Whittle

open Disk

/-! ## Disks on which what is new is listed -/

/-- What has come to a disk since `d₀` is in the ledger of the work directory, or its lock file, or
a directory that was made on the way to another one. -/
structure Tracked (d₀ : Disk) (root : Location) (way : Location → Prop) (k : Ledger) (d : Disk) :
    Prop where
  nested : d.Nested
  home : d.get? root = some .dir
  inside : k.Inside root
  new : ∀ P n, d.get? P = some n → d₀.get? P ≠ none ∨ k.Lists P ∨
    (P = root ++ [Artifacts.lockFile] ∧ n ≠ .dir) ∨ n = .dir ∧ way P

theorem Ledger.Lists.below {k : Ledger} {P Q : Location} (h : k.Lists P) (hPQ : P <+: Q) :
    k.Lists Q := by
  obtain ⟨a, ha, m, hm, hP⟩ := h
  exact ⟨a, ha, m, hm, hP.trans hPQ⟩

/-- What is registered is listed, and nothing is struck off. -/
theorem Ledger.Inside.register {k : Ledger} {root m : Location} (h : k.Inside root) {p : Path}
    (hp : p.Names m) (hm : root <+: m) (owner : Stage) :
    (k.register p owner).Inside root ∧ (k.register p owner).Lists m ∧
      ∀ P, k.Lists P → (k.register p owner).Lists P := by
  unfold Ledger.register
  split
  · rename_i hcontains
    obtain ⟨a, ha, hsame⟩ := List.any_eq_true.mp hcontains
    obtain ⟨m', hm', -⟩ := h a ha
    obtain rfl := hm'.unique hp hsame
    exact ⟨h, ⟨a, ha, m', hm', List.prefix_refl m'⟩, fun _ hP => hP⟩
  · refine ⟨fun a ha => ?_, ?_, ?_⟩
    · rcases List.mem_append.mp ha with ha | ha
      · exact h a ha
      · rw [List.mem_singleton.mp ha]
        exact ⟨m, hp, hm⟩
    · exact ⟨⟨p, owner⟩, List.mem_append_right _ List.mem_cons_self, m, hp, List.prefix_refl m⟩
    · rintro P ⟨a, ha, hlists⟩
      exact ⟨a, List.mem_append_left _ ha, hlists⟩

namespace Tracked

variable {d₀ d d' : Disk} {root m : Location} {way : Location → Prop} {k : Ledger}
  (h : Tracked d₀ root way k d)
include h

theorem register {p : Path} (hp : p.Names m) (hm : root <+: m) (owner : Stage) :
    Tracked d₀ root way (k.register p owner) d ∧ (k.register p owner).Lists m := by
  obtain ⟨hinside, hself, hkeeps⟩ := h.inside.register hp hm owner
  refine ⟨⟨h.nested, h.home, hinside, fun P n hn => ?_⟩, hself⟩
  exact (h.new P n hn).imp_right fun hnew => hnew.imp_left (hkeeps P)

theorem unlink {p : Path} (hunlink : d.unlink p = .ok d') : Tracked d₀ root way k d' := by
  have hnested := h.nested.unlink hunlink
  obtain ⟨l, -, -, hdir, rfl⟩ := unlink_eq_ok hunlink
  refine ⟨hnested, ?_, h.inside, fun P n hn => h.new P n ((Trims.erase _ _).old hn)⟩
  rw [(alters_erase (not_root hdir)).other, h.home]
  rintro rfl
  exact hdir h.home

section

variable {p : Path} (hp : p.Names m) (hroot : root <+: m) (hclear : d.Clear m)
include hp hroot hclear

omit hroot in
theorem copy (hlists : k.Lists m) {source : Path} (hcopy : d.copy source p = .ok d') :
    Tracked d₀ root way k d' := by
  have hnested := h.nested.copy hp.absolute hcopy
  obtain ⟨goal, hcopied⟩ := copied hcopy
  obtain rfl := hp.locate hclear hcopied.located
  refine ⟨hnested, ?_, h.inside, fun P n hn => ?_⟩
  · rw [hcopied.other, h.home]
    rintro rfl
    exact hcopied.not_dir h.home
  · by_cases hP : P = goal
    · exact .inr (.inl (hP ▸ hlists))
    · rw [hcopied.other P hP] at hn
      exact h.new P n hn

/-- A rename to a place where nothing is brings what it brings to that place and below. -/
theorem rename (hlists : k.Lists m) (hfree : d.get? m = none) {source : Path}
    (hrename : d.rename source p = .ok d') : Tracked d₀ root way k d' := by
  have hnested := h.nested.rename (starts_of_absolute hp.absolute) hrename
  obtain ⟨s, t, hs, ht, hsame, hmoved⟩ := rename_tree h.nested hrename
  obtain ⟨s', t', hs', ht', hmoves⟩ := rename_ok hrename
  cases hs.symm.trans hs'
  cases ht.symm.trans ht'
  obtain rfl := hp.locateEntry hclear ht
  by_cases hne : s = t
  · rwa [hsame hne]
  obtain ⟨hst, -, hgone⟩ := hmoved hne
  have hmoves := hmoves hne
  refine ⟨hnested, ?_, h.inside, fun P n hn => ?_⟩
  · rw [hmoves.other root (fun hs => hst (hs.trans hroot)), h.home]
    intro ht
    rw [ht.eq_of_length_le hroot.length_le, h.home] at hfree
    cases hfree
  · by_cases htP : t <+: P
    · exact .inr (.inl (hlists.below htP))
    · have hsP : ¬ s <+: P := fun hsP => by
        rw [hgone P hsP] at hn
        cases hn
      rw [hmoves.other P hsP htP] at hn
      exact h.new P n hn

/-- New directories are on the way, but for the last one, which is registered. -/
theorem makeDirs (hlists : d.pathExists p = true ∨ k.Lists m)
    (hway : ∀ P, root <+: P → P ≠ root → P <+: m → P ≠ m → way P) :
    Tracked d₀ root way k (d.makeDirs p).2 := by
  have hgrows := grows_makeDirs d p
  refine ⟨h.nested.makeDirs (starts_of_absolute hp.absolute), hgrows.keeps h.home, h.inside,
    fun P n hn => ?_⟩
  rcases hgrows.get? P with hsame | ⟨hnone, hdir⟩
  · rw [hsame] at hn
    exact h.new P n hn
  · obtain rfl := Option.some.inj (hdir.symm.trans hn)
    have hnew : (d.makeDirs p).2.get? P ≠ d.get? P := by simp [hnone, hdir]
    have hsettled : Settled d (namesOf p.text) m := .intro rfl .here hp.ahead hp.place hclear
    have hPm := (hsettled.makeDirs h.nested (.refl d) hp.absolute (List.prefix_refl _)
      hnew).resolve_right (by simp [hnone])
    have hne : P ≠ root := by
      rintro rfl
      rw [h.home] at hnone
      cases hnone
    rcases List.prefix_or_prefix_of_prefix hPm hroot with hP | hP
    · rw [h.nested.above h.home hP hne] at hnone
      cases hnone
    · by_cases hend : P = m
      · refine .inr (.inl (hend ▸ hlists.resolve_left fun hexists => hnew ?_))
        rw [makeDirs_of_pathExists hexists]
      · exact .inr (.inr (.inr ⟨rfl, hway P hP hne hPm hend⟩))

end

end Tracked

/-! ## Deeds -/

/-- A use of a workspace. -/
inductive Deed where
  | prepareOutput (name : String) (owner : Stage)
  | createDir (name : String) (owner : Stage)
  | copyIn (source : Path) (name : String) (owner : Stage)
  | moveIn (source : Path) (name : String) (owner : Stage)

namespace Deed

def name : Deed → String
  | prepareOutput name _ => name
  | createDir name _ => name
  | copyIn _ name _ => name
  | moveIn _ name _ => name

def action : Deed → Work Path
  | prepareOutput name owner => Workspace.prepareOutput name owner
  | createDir name owner => Workspace.createDir name owner
  | copyIn source name owner => Workspace.copyIn source name owner
  | moveIn source name owner => Workspace.moveIn source name owner

/-- The site that a deed leaves, whether it succeeds or fails. -/
def perform (deed : Deed) (s : Site) : Site := (deed.action s).2

def performAll : List Deed → Site → Site
  | [], s => s
  | deed :: deeds, s => performAll deeds (deed.perform s)

theorem ledgerOnly : ∀ deed : Deed, LedgerOnly deed.action
  | prepareOutput _ _ => (Idles.prepareOutput _ _).ledgerOnly
  | createDir _ _ => (Idles.createDir _ _).ledgerOnly
  | copyIn _ _ _ => (Idles.copyIn _ _ _).ledgerOnly
  | moveIn _ _ _ => (Idles.moveIn _ _ _).ledgerOnly

/-- Deeds change nothing of the workspace but the ledger. -/
theorem performAll_same (deeds : List Deed) (s : Site) :
    s.workspace.Same (performAll deeds s).workspace := by
  induction deeds generalizing s with
  | nil => exact .refl _
  | cons deed deeds ih => exact (deed.ledgerOnly.rel s trivial).trans (ih (deed.perform s))

end Deed

/-- A site whose ledger tracks what is new. -/
structure Site.Tracks (d₀ : Disk) (root : Location) (way : Location → Prop) (s : Site) : Prop where
  path : s.workspace.root = pathOf root
  tracked : Tracked d₀ root way s.workspace.ledger s.world.disk

/-- The site with another disk. -/
def Site.onDisk (s : Site) (d : Disk) : Site := { s with world := { s.world with disk := d } }

section

variable {d₀ : Disk} {root m : Location} {way : Location → Prop} {s : Site} {p : Path}
  {owner : Stage}

theorem change_state (f : Disk → Except IoError Disk) (s : Site) :
    (∃ d, f s.world.disk = .ok d ∧
        (liftM (Action.change f) : Work Unit) s = (.ok (), s.onDisk d)) ∨
      ∃ e, f s.world.disk = .error e ∧
        (liftM (Action.change f) : Work Unit) s = (.error (.io e), s) := by
  rw [Work.lift_apply, Action.change_apply]
  cases f s.world.disk with
  | ok d => exact .inl ⟨d, rfl, rfl⟩
  | error e => exact .inr ⟨e, rfl, rfl⟩

theorem attempt_change_state (f : Disk → Except IoError Disk) (s : Site) :
    (∃ d, f s.world.disk = .ok d ∧
        (liftM (Action.attempt (Action.change f)) : Work (Except Fault Unit)) s =
          (.ok (.ok ()), s.onDisk d)) ∨
      ∃ e, f s.world.disk = .error e ∧
        (liftM (Action.attempt (Action.change f)) : Work (Except Fault Unit)) s =
          (.ok (.error (.io e)), s) := by
  rw [Work.lift_apply, Action.attempt, Action.change_apply]
  cases f s.world.disk with
  | ok d => exact .inl ⟨d, rfl, rfl⟩
  | error e => exact .inr ⟨e, rfl, rfl⟩

theorem register_apply (p : Path) (owner : Stage) (s : Site) :
    Workspace.register p owner s = (.ok (!s.workspace.ledger.contains p), s.register p owner) := rfl

/-- A stale file is removed, or nothing is there, or nothing is done. -/
theorem removeStale_state (p : Path) (s : Site) :
    (∃ d, s.world.disk.unlink p = .ok d ∧ Workspace.removeStale p s = (.ok (), s.onDisk d)) ∨
      (∃ e, s.world.disk.unlink p = .error e ∧ e.isNotFound = true ∧
        Workspace.removeStale p s = (.ok (), s)) ∨
      ∃ e, Workspace.removeStale p s = (.error e, s) := by
  rw [Workspace.removeStale, Work.lift_apply, Action.change_apply]
  cases hunlink : s.world.disk.unlink p with
  | ok d => exact .inl ⟨d, rfl, rfl⟩
  | error e =>
    dsimp only
    cases hmissed : e.isNotFound with
    | true => exact .inr (.inl ⟨e, rfl, hmissed, rfl⟩)
    | false => exact .inr (.inr ⟨.io e, rfl⟩)

namespace Site.Tracks

variable (h : s.Tracks d₀ root way) (hp : p.Names m) (hroot : root <+: m)
  (hstraight : s.world.disk.Straight root)
include h hp hroot hstraight

/-- Once a stale file has been removed nothing is there, and no link anywhere. -/
theorem removeStale {r : Except Fault Unit} {s' : Site}
    (hstale : Workspace.removeStale p s = (r, s')) :
    s'.Tracks d₀ root way ∧ s'.world.disk.Straight root ∧ s'.workspace = s.workspace ∧
      (r = .ok () → s'.world.disk.get? m = none) := by
  have hbelow := hstraight.below hroot
  rcases removeStale_state p s with ⟨d, hunlink, e⟩ | ⟨e, hunlink, hmissed, e'⟩ | ⟨e, e'⟩
  · rw [e] at hstale
    cases hstale
    have hsheds := sheds_unlink hbelow.self hp hunlink
    have hlinks := hsheds.links hbelow
    refine ⟨⟨h.path, h.tracked.unlink hunlink⟩, hlinks.straight hstraight, rfl, fun _ => ?_⟩
    obtain ⟨l, hl, halters⟩ := unlink_ok hunlink
    obtain rfl := hp.locateEntry hbelow.self hl
    exact halters.self
  · rw [e'] at hstale
    cases hstale
    exact ⟨h, hstraight, rfl, fun _ => h.tracked.nested.get?_of_unlink hp hbelow hunlink hmissed⟩
  · rw [e'] at hstale
    cases hstale
    exact ⟨h, hstraight, rfl, fun e => by cases e⟩

omit hstraight in
theorem register (owner : Stage) :
    (s.register p owner).Tracks d₀ root way ∧ (s.register p owner).workspace.ledger.Lists m := by
  obtain ⟨htracked, hlists⟩ := h.tracked.register hp hroot owner
  exact ⟨⟨h.path, htracked⟩, hlists⟩

end Site.Tracks

end

/-! ## What deeds leave -/

section

variable {d₀ : Disk} {root : Location} {way : Location → Prop} {s : Site} {name : String}

theorem snd_bind_pure {α β : Type} (a : Work α) (v : β) (s : Site) :
    ((a >>= fun _ => pure v) s).2 = (a s).2 := by
  cases ha : a s with
  | mk r s' =>
    cases r with
    | ok u => rw [bind_of_ok ha]; rfl
    | error e => rw [bind_of_error ha]

variable (hnames : ∀ n ∈ root, IsName n) (hname : Path.Relative name)
  (h : s.Tracks d₀ root way) (hstraight : s.world.disk.Straight root) (owner : Stage)
include hnames hname h

theorem names_path : (s.workspace.path name).Names (lexical root (namesOf name)) := by
  rw [Workspace.path, h.path]
  exact Path.names_join hnames hname

include hstraight

theorem prepareOutput_tracks :
    (Workspace.prepareOutput name owner s).2.Tracks d₀ root way := by
  have hp := names_path hnames hname h
  have hroot := prefix_lexical hname.ahead root
  obtain ⟨hregistered, -⟩ := h.register hp hroot owner
  have hstate : Workspace.prepareOutput name owner s =
      (Workspace.removeStale (s.workspace.path name) >>= fun _ => pure (s.workspace.path name))
        (s.register (s.workspace.path name) owner) := rfl
  rw [hstate, snd_bind_pure]
  exact (hregistered.removeStale hp hroot hstraight rfl).1

theorem createDir_tracks
    (hway : ∀ P, root <+: P → P ≠ root → P <+: lexical root (namesOf name) →
      P ≠ lexical root (namesOf name) → way P) :
    (Workspace.createDir name owner s).2.Tracks d₀ root way := by
  have hp := names_path hnames hname h
  have hroot := prefix_lexical hname.ahead root
  have hmade {s' : Site} (h' : s'.Tracks d₀ root way) (hdisk : s'.world.disk = s.world.disk)
      (hlists : s.world.disk.pathExists (s.workspace.path name) = true ∨
        s'.workspace.ledger.Lists (lexical root (namesOf name))) :
      (Workspace.makeAt (s.workspace.path name) s').2.Tracks d₀ root way := by
    rw [← hdisk] at hstraight hlists
    have htracked := h'.tracked.makeDirs hp hroot (hstraight.below hroot).self hlists hway
    rw [Workspace.makeAt_apply]
    split <;> exact ⟨h'.path, htracked⟩
  rw [Workspace.createDir_apply rfl]
  split
  · rename_i hexists
    exact hmade h rfl (.inl hexists)
  · obtain ⟨hregistered, hlists⟩ := h.register hp hroot owner
    exact hmade hregistered rfl (.inr hlists)

theorem copyIn_tracks (source : Path) :
    (Workspace.copyIn source name owner s).2.Tracks d₀ root way := by
  have hp := names_path hnames hname h
  have hroot := prefix_lexical hname.ahead root
  obtain ⟨p, hpath⟩ : ∃ p, s.workspace.path name = p := ⟨_, rfl⟩
  rw [hpath] at hp
  obtain ⟨hregistered, hlists⟩ := h.register hp hroot owner
  unfold Workspace.copyIn
  rw [bind_of_ok (show Work.workspace s = (.ok s.workspace, s) from rfl)]
  simp only [hpath]
  rw [bind_of_ok (register_apply p owner s), snd_bind_pure, Work.lift_apply, Action.change_apply]
  cases hcopy : (s.register p owner).world.disk.copy source p with
  | ok d => exact ⟨h.path, hregistered.tracked.copy hp (hstraight.below hroot).self hlists hcopy⟩
  | error e => exact hregistered

theorem moveIn_tracks (source : Path) :
    (Workspace.moveIn source name owner s).2.Tracks d₀ root way := by
  have hp := names_path hnames hname h
  have hroot := prefix_lexical hname.ahead root
  obtain ⟨p, hpath⟩ : ∃ p, s.workspace.path name = p := ⟨_, rfl⟩
  rw [hpath] at hp
  obtain ⟨hregistered, hlists⟩ := h.register hp hroot owner
  unfold Workspace.moveIn
  rw [bind_of_ok (show Work.workspace s = (.ok s.workspace, s) from rfl)]
  simp only [hpath]
  rw [bind_of_ok (register_apply p owner s)]
  cases hstale : Workspace.removeStale p (s.register p owner) with
  | mk r s₁ =>
    obtain ⟨htracks, hstraight₁, hsame, hfree⟩ :=
      hregistered.removeStale hp hroot hstraight hstale
    cases r with
    | error e =>
      rw [bind_of_error hstale]
      exact htracks
    | ok u =>
      have hclear := (hstraight₁.below hroot).self
      rw [← hsame] at hlists
      rw [bind_of_ok hstale]
      rcases attempt_change_state (·.rename source p) s₁ with ⟨d, hmoved, hstate⟩ | ⟨e, -, hstate⟩
      · rw [bind_of_ok hstate]
        exact ⟨htracks.path, htracks.tracked.rename hp hroot hclear hlists (hfree rfl) hmoved⟩
      · rw [bind_of_ok hstate]
        dsimp only
        rcases change_state (·.copy source p) s₁ with ⟨d, hcopy, hstate⟩ | ⟨e, -, hstate⟩
        · have hcopied := htracks.tracked.copy hp hclear hlists hcopy
          rw [bind_of_ok hstate]
          rcases attempt_change_state (·.unlink source) (s₁.onDisk d) with
            ⟨d', hdropped, hstate⟩ | ⟨e, -, hstate⟩
          · rw [bind_of_ok hstate]
            exact ⟨htracks.path, hcopied.unlink hdropped⟩
          · rw [bind_of_ok hstate]
            exact ⟨htracks.path, hcopied⟩
        · rw [bind_of_error hstate]
          exact htracks

end

/-- The directories on the way from the work directory to one that was to be made in it. -/
def Deed.Way (root : Location) (deeds : List Deed) (P : Location) : Prop :=
  ∃ name owner, Deed.createDir name owner ∈ deeds ∧ root <+: P ∧ P ≠ root ∧
    P <+: lexical root (namesOf name) ∧ P ≠ lexical root (namesOf name)

section

variable {d₀ : Disk} {root : Location} {way : Location → Prop} (hnames : ∀ n ∈ root, IsName n)
include hnames

theorem Deed.perform_tracks {deed : Deed} {s : Site} (hname : Path.Relative deed.name)
    (hway : ∀ P, Deed.Way root [deed] P → way P) (h : s.Tracks d₀ root way)
    (hstraight : s.world.disk.Straight root) : (deed.perform s).Tracks d₀ root way := by
  cases deed with
  | prepareOutput name owner => exact prepareOutput_tracks hnames hname h hstraight owner
  | createDir name owner =>
    refine createDir_tracks hnames hname h hstraight owner fun P hroot hne hP hend => ?_
    exact hway P ⟨name, owner, List.mem_cons_self, hroot, hne, hP, hend⟩
  | copyIn source name owner => exact copyIn_tracks hnames hname h hstraight owner source
  | moveIn source name owner => exact moveIn_tracks hnames hname h hstraight owner source

/-- As long as no link comes to the work directory, the ledger tracks what is new. -/
theorem Deed.performAll_tracks {deeds : List Deed} {s : Site}
    (hrelative : ∀ deed ∈ deeds, Path.Relative deed.name)
    (hway : ∀ P, Deed.Way root deeds P → way P) (h : s.Tracks d₀ root way)
    (hstraight : ∀ done, done <+: deeds → (performAll done s).world.disk.Straight root) :
    (performAll deeds s).Tracks d₀ root way := by
  induction deeds generalizing s with
  | nil => exact h
  | cons deed deeds ih =>
    have hone : ∀ P, Deed.Way root [deed] P → way P := fun P ⟨name, owner, hmem, hrest⟩ =>
      hway P ⟨name, owner, List.mem_singleton.mp hmem ▸ List.mem_cons_self, hrest⟩
    have hmore : ∀ P, Deed.Way root deeds P → way P := fun P ⟨name, owner, hmem, hrest⟩ =>
      hway P ⟨name, owner, List.mem_cons_of_mem _ hmem, hrest⟩
    have hfirst := Deed.perform_tracks hnames (hrelative deed List.mem_cons_self) hone h
      (hstraight [] List.nil_prefix)
    exact ih (fun d hd => hrelative d (List.mem_cons_of_mem _ hd)) hmore hfirst
      fun done hdone => hstraight (deed :: done) (List.cons_prefix_cons.mpr ⟨rfl, hdone⟩)

end

/-! ## The release -/

/-- What is there after a lock was given back was there before. -/
theorem heldLock_release_old {l : HeldLock} {w : World} {P : Location} {n : Node}
    (h : (l.release w).disk.get? P = some n) : w.disk.get? P = some n := by
  unfold HeldLock.release at h
  dsimp only at h
  split at h
  · rename_i hremoved
    exact (Trims.unlink hremoved).old h
  · exact h

/-- What is there after a release was there before. -/
theorem release_old {s : Site} {P : Location} {n : Node}
    (h : (Workspace.release s).2.world.disk.get? P = some n) : s.world.disk.get? P = some n := by
  let R (w w' : World) : Prop := w'.disk.get? P = some n → w.disk.get? P = some n
  have hrelease : R s.world (Workspace.release s).2.world :=
    release_rel (R := R) (fun _ h => h) (fun h h₁ hn => h (h₁ hn))
      (cleanup_trims _ _).old
      (fun lock _ w _ hn => heldLock_release_old hn) fun _ t _ hn => by
        rw [(removeRoot_world _ t).1] at hn
        exact (Trims.removeTree _ _).old hn
  exact hrelease h

section

variable {s : Site} {root P : Location} {lock : HeldLock} {n : Node}
  (hreport : s.workspace.report = none) (hlock : s.workspace.lock = some lock)
  (hn : (Workspace.release s).2.world.disk.get? P = some n)
include hreport hlock hn

/-- What is there in the end was there when the lock had been given back. -/
theorem release_of_unlocked :
    (lock.release (s.workspace.ledger.cleanup s.world).2).disk.get? P = some n := by
  rw [release_disk hlock hreport] at hn
  split at hn
  · exact (Trims.removeTree _ _).old hn
  · exact hn

variable (hstraight : s.world.disk.Straight root) (hnested : s.world.disk.Nested)
  (hclean : (Workspace.release s).1.failed = []) (hinside : s.workspace.ledger.Inside root)
include hstraight hnested hclean hinside

/-- After a release without a failure nothing is there that the ledger lists. -/
theorem release_unlisted :
    ¬ s.workspace.ledger.Lists P ∧ s.world.disk.get? P = some n := by
  have hpurged := release_purged hreport hstraight hnested hclean hinside
  have hswept := heldLock_release_old (release_of_unlocked hreport hlock hn)
  have hunlisted : ¬ s.workspace.ledger.Lists P := fun hlists => by
    rw [hpurged.gone P hlists] at hswept
    cases hswept
  rw [hpurged.other P hunlisted] at hswept
  exact ⟨hunlisted, hswept⟩

/-- At the place of the lock file there is nothing but perhaps a directory. -/
theorem release_lock (hpath : lock.path = pathOf P) (hcheck : checkText (pathOf P).text = .ok ())
    (hnames : ∀ k ∈ P, IsName k ∧ k.utf8ByteSize ≤ nameLimit) : n = .dir := by
  by_contra hdir
  have hpurged := release_purged hreport hstraight hnested hclean hinside
  have hunlocked := release_of_unlocked hreport hlock hn
  have hswept := heldLock_release_old hunlocked
  have hhandy : Handy (s.workspace.ledger.cleanup s.world).2.disk P :=
    ⟨hcheck, hpurged.nested.reached hswept hnames⟩
  rw [(heldLock_release_handy hpath hhandy hswept hdir).self] at hunlocked
  cases hunlocked

end

/-! ## From the first to the last -/

/-- The directories that are made on the way to the work directory, or, in one that was there, on
the way to a directory. -/
inductive Workspace.Left (dir : Path) (d : Disk) (root : Location) (deeds : List Deed)
    (P : Location) : Prop
  | outside (hmade : (d.makeDirs dir).2.get? P = some .dir) (hout : ¬ root <+: P)
  | inside (hthere : d.pathExists dir = true) (hway : Deed.Way root deeds P)

section

variable {host : Host} {dir : Path} {w w₁ : World} {k : Workspace} {root : Location}
  {deeds : List Deed}

open Deed in
/-- Once a workspace was used and released without a failure, there is nothing that was not there
before it was acquired, but for directories that were made on the way to others. -/
theorem Workspace.release_leaves_ways (hstart : w.disk.Starts dir) (hnested : w.disk.Nested)
    (hnumbered : w.disk.Numbered) (hplace : w.disk.placeOf dir = some root)
    (hfirst : w.disk.Straight root) (hacquire : Workspace.acquire host dir w = (.ok k, w₁))
    (hrelative : ∀ deed ∈ deeds, Path.Relative deed.name)
    (hstraight : ∀ done, done <+: deeds → (performAll done ⟨w₁, k⟩).world.disk.Straight root)
    (hclean : (Workspace.release (performAll deeds ⟨w₁, k⟩)).1.failed = []) {P : Location}
    {n : Node} (hn : (Workspace.release (performAll deeds ⟨w₁, k⟩)).2.world.disk.get? P = some n) :
    w.disk.get? P ≠ none ∨ n = .dir ∧ Workspace.Left dir w.disk root deeds P := by
  obtain ⟨-, l, hacquired, -⟩ := Workspace.acquire_eq_ok hstart hacquire
  cases hplace.symm.trans hacquired.place
  obtain ⟨htaken, hreport, lock, hlock, hpath⟩ :=
    Workspace.acquire_takes hstart hnested hplace hnumbered hfirst hacquire
  let way (P : Location) : Prop := (w.disk.makeDirs dir).2.get? P = some .dir ∨ Way root deeds P
  have hinitial : Site.Tracks w.disk root way ⟨w₁, k⟩ := by
    refine ⟨hacquired.root, htaken.nested, htaken.entered.dir, fun a ha => ?_, fun P n hn => ?_⟩
    · rw [hacquired.ledger] at ha
      cases ha
    · by_cases hlockFile : P = root ++ [Artifacts.lockFile]
      · obtain ⟨id, c, x, hfile⟩ := htaken.file
        rw [hlockFile, hfile] at hn
        cases hn
        exact .inr (.inr (.inl ⟨hlockFile, nofun⟩))
      · rw [htaken.other P hlockFile] at hn
        rcases (grows_makeDirs w.disk dir).get? P with hsame | ⟨-, hdir⟩
        · exact .inl (by rw [← hsame, hn]; nofun)
        · cases hdir.symm.trans hn
          exact .inr (.inr (.inr ⟨rfl, .inl hdir⟩))
  have htracks := performAll_tracks hacquired.names hrelative (fun P => .inr) hinitial hstraight
  have hsame := performAll_same deeds ⟨w₁, k⟩
  have hend := hstraight deeds (List.prefix_refl deeds)
  -- the deeds have changed the ledger only
  have hreport' : (performAll deeds ⟨w₁, k⟩).workspace.report = none := hsame ▸ hreport
  have hlock' : (performAll deeds ⟨w₁, k⟩).workspace.lock = some lock := hsame ▸ hlock
  obtain ⟨hunlisted, hold⟩ := release_unlisted hreport' hlock' hn hend htracks.tracked.nested hclean
    htracks.tracked.inside
  rcases htracks.tracked.new P n hold with hwas | hlists | ⟨rfl, hdir⟩ | ⟨rfl, hway⟩
  · exact .inl hwas
  · exact absurd hlists hunlisted
  · exact absurd (release_lock hreport' hlock' hn hend htracks.tracked.nested hclean
      htracks.tracked.inside hpath htaken.lock.check htaken.lock.reached.names) hdir
  · cases hthere : w.disk.pathExists dir with
    | true =>
      rcases hway with hmade | hway
      · rw [makeDirs_of_pathExists hthere] at hmade
        exact .inl (by simp [hmade])
      · exact .inr ⟨rfl, .inside hthere hway⟩
    | false =>
      have hcreated : (performAll deeds ⟨w₁, k⟩).workspace.createdRoot = true := by
        rw [hsame, hacquired.createdRoot, hthere]
        rfl
      have hgone := release_removes hreport' hend htracks.tracked.nested hclean hlock' hpath
        htracks.tracked.inside htracks.path hacquired.names hcreated
      have hout : ¬ root <+: P := fun hP => by
        rw [hgone P hP] at hn
        cases hn
      rcases hway with hmade | ⟨-, -, -, hroot, -⟩
      · exact .inr ⟨rfl, .outside hmade hout⟩
      · exact absurd hroot hout

end

def remainsHost : Host where
  launch _ call := ⟨[], .ok 1, call.disk⟩
  searchPath := none
  freshId n := Text.natText n
  processId := 1
  now := (0, 0)

/-- Whether a workspace can be acquired and the site passes a check once the deeds are done. -/
def Deed.after (d : Disk) (dir : Path) (deeds : List Deed) (check : Site → Bool) : Bool :=
  match Workspace.acquire remainsHost dir (.ofDisk d) with
  | (.ok k, w) => check (performAll deeds ⟨w, k⟩)
  | (.error _, _) => false

/-- A directory with a file, beside another file. -/
def remainsDisk : Disk where
  entries := [(["work"], .dir), (["work", "user.txt"], .file 0 "mine\n".toUTF8 false),
    (["in.c"], .file 1 "int x;\n".toUTF8 false)]
  cwd := []
  nextId := 2
  locked := []

def remainsDeeds : List Deed :=
  [.prepareOutput "criteria.txt" .extractCriteria, .createDir "run/mount" .dynamicSlice,
    .copyIn ⟨"/in.c"⟩ "run/mount//input.c" .dynamicSlice,
    .moveIn ⟨"/work/run/mount/input.c"⟩ "./slice.c" .dynamicSlice]

theorem remains_of_sample : ∃ k w₁,
    Workspace.acquire remainsHost ⟨"/work"⟩ (.ofDisk remainsDisk) = (.ok k, w₁) ∧
      ∀ P n, (Workspace.release
          (Deed.performAll remainsDeeds ⟨w₁, k⟩)).2.world.disk.get? P = some n →
        remainsDisk.get? P ≠ none ∨
          n = .dir ∧ Workspace.Left ⟨"/work"⟩ remainsDisk ["work"] remainsDeeds P := by
  have hstraight : ∀ done ∈ remainsDeeds.inits, Deed.after remainsDisk ⟨"/work"⟩ done
      (fun s => s.world.disk.entries.all fun e => !isLink e.2) = true := by decide +kernel
  have hclean : Deed.after remainsDisk ⟨"/work"⟩ remainsDeeds
      (fun s => (Workspace.release s).1.failed = []) = true := by decide +kernel
  have hplace : remainsDisk.placeOf ⟨"/work"⟩ = some ["work"] := by decide +kernel
  unfold Deed.after at hstraight hclean
  cases hacquire : Workspace.acquire remainsHost ⟨"/work"⟩ (.ofDisk remainsDisk) with
  | mk r w₁ =>
    rw [hacquire] at hstraight hclean
    cases r with
    | error e => cases hclean
    | ok k =>
      refine ⟨k, w₁, rfl, fun P n hn => ?_⟩
      refine Workspace.release_leaves_ways (starts_of_absolute (by decide))
        (nested_of_entries (by decide)) (numbered_of_entries (by decide) (by decide)) hplace
        (straight_of_entries (by decide)) hacquire (by decide +kernel) (fun done hdone => ?_)
        (of_decide_eq_true hclean) hn
      have hall := List.all_eq_true.mp (hstraight done ((List.mem_inits _ _).mpr hdone))
      refine straight_of_entries fun e he hlink => ?_
      have hno := hall e he
      rw [hlink] at hno
      cases hno

/-- The directory between the work directory and one that was made in it remains, and so does the
directory above a work directory that was made. A file remains where a link in the work directory
leads that was there before, if something was copied to the name of the link. -/
theorem release_leaves_made :
    (Deed.after remainsDisk ⟨"/work"⟩ [.createDir "a/b" .dynamicSlice]
        (fun s => (Workspace.release s).1.failed = [] ∧
          (Workspace.release s).2.world.disk.get? ["work", "a"] = some .dir) = true ∧
      remainsDisk.get? ["work", "a"] = none) ∧
    (Deed.after remainsDisk ⟨"/new/work"⟩ []
        (fun s => (Workspace.release s).1.failed = [] ∧
          (Workspace.release s).2.world.disk.get? ["new"] = some .dir) = true ∧
      remainsDisk.get? ["new"] = none) ∧
    (Deed.after (remainsDisk.put ["work", "slice.c"] (.link "/out.c")) ⟨"/work"⟩
        [.copyIn ⟨"/in.c"⟩ "slice.c" .staticSlice]
        (fun s => (Workspace.release s).1.failed = [] ∧
          ((Workspace.release s).2.world.disk.get? ["out.c"]).isSome) = true ∧
      (remainsDisk.put ["work", "slice.c"] (.link "/out.c")).get? ["out.c"] = none) := by
  decide +kernel

end Whittle
