import Whittle.Proofs.Disk.Naming
import Whittle.Proofs.Disk.Nested
import Whittle.Proofs.Disk.Slots
import Whittle.Proofs.Workspace.Products

/-!
# Operations of a workspace that cannot fail

At a handy place without a directory the name of a product can always be prepared; a file can always
be copied to it and moved to it, and a directory made if nothing is there. Each lemma gives the
answer and the one place that has changed (`Sets`), or the places at which there was work (`Works`).
-/

namespace Whittle

open Disk

/-- The second site comes from the first without a call, in the same directory, and the disks differ
at most at one place, at which the second one has `n`. -/
structure Sets (P : Location) (n : Option Node) (s s' : Site) : Prop extends SameCalls s s' where
  cwd : s'.world.disk.cwd = s.world.disk.cwd
  alters : Alters s.world.disk s'.world.disk P n

/-- The second site comes from the first in the same directory, by work at places with `T`. -/
structure Works (U G T : Location → Prop) (s s' : Site) : Prop where
  root : s'.workspace.root = s.workspace.root
  edits : Edits U G T s.world.disk s'.world.disk

namespace Works

variable {U G T T' : Location → Prop} {s s₁ s' : Site}

theorem refl (s : Site) : Works U G T s s := ⟨rfl, .refl _⟩

theorem trans (h : Works U G T s s₁) (h₁ : Works U G T s₁ s') : Works U G T s s' :=
  ⟨h₁.root.trans h.root, h.edits.trans h₁.edits⟩

theorem mono (h : Works U G T s s') (hT : ∀ P, T P → T' P) : Works U G T' s s' :=
  ⟨h.root, h.edits.mono hT⟩

end Works

theorem Sets.works {U G : Location → Prop} {P : Location} {n : Option Node} {s s' : Site}
    (h : Sets P n s s') (hfree : s'.world.disk.Free P) : Works U G (· = P) s s' :=
  ⟨h.root, (Fills.of_alters h.cwd h.alters hfree).edits⟩

theorem Sets.handy {P Q : Location} {n : Option Node} {s s' : Site} (h : Sets P n s s')
    (hQ : s.world.disk.Handy Q) (hPQ : P <+: Q → P = Q) : s'.world.disk.Handy Q :=
  hQ.beside (fun _ => h.alters.other) hPQ

/-- What became of a part that only fails at a place whose path is not accepted, and then without a
change of the disk. -/
inductive Settles (P : Location) (n : Option Node) (s : Site) : Except Fault Path → Site → Prop
  | done {s' : Site} (hP : s.world.disk.Handy P) (h : Sets P n s s') :
    Settles P n s (.ok (pathOf P)) s'
  | refused {e : Fault} {s' : Site} (h : SameCalls s s') (hworld : s'.world = s.world) :
    Settles P n s (.error e) s'

/-! ## Parts -/

section

variable {α : Type} {s : Site}

theorem Work.lift_apply (a : Action α) (s : Site) :
    (liftM a : Work α) s = ((a s.world).1, { s with world := (a s.world).2 }) := rfl

theorem Work.attempt_apply (a : Work α) (s : Site) :
    Work.attempt a s = (.ok (a s).1, (a s).2) := rfl

theorem change_at {f : Disk → Except IoError Disk} {d : Disk} (h : f s.world.disk = .ok d) :
    (liftM (Action.change f) : Work Unit) s =
      (.ok (), { s with world := { s.world with disk := d } }) := by
  rw [Work.lift_apply, Action.change_apply, h]

theorem ask_at {f : Disk → Except IoError α} {v : α} (h : f s.world.disk = .ok v) :
    (liftM (Action.ask f) : Work α) s = (.ok v, s) := by
  rw [Work.lift_apply, Action.ask_apply, h]

/-- The site after a warning. -/
def Site.warned (s : Site) (text : String) : Site :=
  { s with world := { s.world with notices := s.world.notices ++ [⟨.warning, text⟩] } }

theorem warn_at (text : String) (s : Site) :
    (liftM (Action.warn text) : Work Unit) s = (.ok (), s.warned text) := rfl

theorem Works.warned {U G T : Location → Prop} {s s' : Site} (h : Works U G T s s')
    (text : String) : Works U G T s (s'.warned text) := ⟨h.root, h.edits⟩

theorem register_ok (p : Path) (owner : Stage) (s : Site) :
    ∃ new s', Workspace.register p owner s = (.ok new, s') ∧ SameCalls s s' ∧
      s'.world = s.world :=
  ⟨_, _, rfl, ⟨rfl, rfl⟩, rfl⟩

end

section

variable {s : Site} {P : Location} (hP : s.world.disk.Handy P)
include hP

theorem removeStale_ok (hdir : s.world.disk.get? P ≠ some .dir) :
    ∃ s', Workspace.removeStale (pathOf P) s = (.ok (), s') ∧ Sets P none s s' := by
  have hroot := not_root hdir
  unfold Workspace.removeStale
  cases hn : s.world.disk.get? P with
  | none =>
    refine ⟨_, change_at (d := s.world.disk) ?_, ⟨rfl, rfl⟩, rfl, alters_same hroot hn⟩
    simp only [hP.unlink_none hn]
    rfl
  | some n =>
    have hunlink := hP.unlink hn (fun e => hdir (hn.trans (congrArg some e)))
    refine ⟨_, change_at (d := s.world.disk.erase P) ?_, ⟨rfl, rfl⟩, rfl, alters_erase hroot⟩
    simp only [hunlink]

variable {name : String} (hpath : s.workspace.path name = pathOf P) (owner : Stage)
include hpath

/-- The name of a product can be prepared wherever no directory stands. -/
theorem prepareOutput_ok (hdir : s.world.disk.get? P ≠ some .dir) :
    ∃ s', Workspace.prepareOutput name owner s = (.ok (pathOf P), s') ∧ Sets P none s s' := by
  obtain ⟨new, s₁, hregister, hsame, hworld⟩ := register_ok (pathOf P) owner s
  rw [← hworld] at hP hdir
  obtain ⟨s₂, hstale, hsets⟩ := removeStale_ok hP hdir
  refine ⟨s₂, ?_, hsame.trans hsets.toSameCalls, ?_, ?_⟩
  · unfold Workspace.prepareOutput
    rw [bind_of_ok (show Work.workspace s = (.ok s.workspace, s) from rfl)]
    simp only [hpath]
    rw [bind_of_ok hregister, bind_of_ok hstale]
    rfl
  · rw [hsets.cwd, hworld]
  · rw [← hworld]
    exact hsets.alters

/-- A file is copied to a place where there is none, or another one. -/
theorem copyIn_ok (hfree : s.world.disk.Free P) {source : Path} {o : Location} {id : Nat}
    {content : ByteArray} {x : Bool}
    (hsource : s.world.disk.stat source = .ok (o, .file id content x)) (hne : o ≠ P) :
    ∃ s' id', Workspace.copyIn source name owner s = (.ok (pathOf P), s') ∧
      Sets P (some (.file id' content x)) s s' := by
  obtain ⟨new, s₁, hregister, hsame, hworld⟩ := register_ok (pathOf P) owner s
  obtain ⟨d, id', hcopy, hcwd, halters⟩ := hP.copy hfree hsource hne
  rw [← hworld] at hcopy hcwd halters
  refine ⟨{ s₁ with world := { s₁.world with disk := d } }, id', ?_, hsame.trans ⟨rfl, rfl⟩, ?_, ?_⟩
  · unfold Workspace.copyIn
    rw [bind_of_ok (show Work.workspace s = (.ok s.workspace, s) from rfl)]
    simp only [hpath]
    rw [bind_of_ok hregister, bind_of_ok (change_at (d := d) (by simp only [hcopy]))]
    rfl
  · rw [← hworld]
    exact hcwd
  · rw [← hworld]
    exact halters

/-- A directory is made where nothing stands, and nothing is done if it is there. -/
theorem createDir_ok (hroot : P ≠ [])
    (hn : s.world.disk.get? P = none ∨ s.world.disk.get? P = some .dir) :
    ∃ s', Workspace.createDir name owner s = (.ok (pathOf P), s') ∧
      Sets P (some .dir) s s' := by
  have hmake {s : Site} {d : Disk} (h : s.world.disk.makeDirs (pathOf P) = (.ok (), d)) :
      (liftM (Action.transact (·.makeDirs (pathOf P))) : Work Unit) s =
        (.ok (), { s with world := { s.world with disk := d } }) := by
    rw [Work.lift_apply, Action.transact_apply, h]
  unfold Workspace.createDir
  rw [bind_of_ok (show Work.workspace s = (.ok s.workspace, s) from rfl)]
  simp only [hpath]
  rw [bind_of_ok (show (liftM Action.getDisk : Work Disk) s = (.ok s.world.disk, s) from rfl)]
  rcases hn with hn | hn
  · have hmissing : s.world.disk.pathExists (pathOf P) = false := by
      rw [pathExists, hP.stat_none hn]
      rfl
    obtain ⟨new, s₁, hregister, hsame, hworld⟩ := register_ok (pathOf P) owner s
    have hmade := hP.makeDirs hn
    rw [← hworld] at hmade
    simp only [hmissing]
    refine ⟨{ s₁ with world := { s₁.world with disk := s₁.world.disk.put P .dir } }, ?_,
      hsame.trans ⟨rfl, rfl⟩, ?_, ?_⟩
    · refine (bind_of_ok hregister).trans ?_
      rw [bind_of_ok (hmake hmade)]
      rfl
    · rw [← hworld]
      rfl
    · rw [← hworld]
      exact alters_put hroot _
  · have hthere : s.world.disk.pathExists (pathOf P) = true := by
      rw [pathExists, hP.stat hn nofun]
      rfl
    simp only [hthere]
    refine ⟨s, ?_, ⟨rfl, rfl⟩, rfl, alters_same hroot hn⟩
    exact bind_of_ok (hmake (hP.makeDirs_dir hn))

/-- Where something else stands than a directory or a link, no directory is made. -/
theorem createDir_blocked {n : Node} (hn : s.world.disk.get? P = some n) (hdir : n ≠ .dir)
    (hlink : ∀ target, n ≠ .link target) :
    Workspace.createDir name owner s = (.error (.io (.system .alreadyExists)), s) := by
  have hthere : s.world.disk.pathExists (pathOf P) = true := by
    rw [pathExists, hP.stat hn hlink]
    rfl
  unfold Workspace.createDir
  rw [bind_of_ok (show Work.workspace s = (.ok s.workspace, s) from rfl)]
  simp only [hpath]
  rw [bind_of_ok (show (liftM Action.getDisk : Work Disk) s = (.ok s.world.disk, s) from rfl)]
  simp only [hthere]
  refine bind_of_error ?_
  rw [Work.lift_apply, Action.transact_apply, hP.makeDirs_blocked hn hdir hlink]

omit hP hpath owner in
theorem not_missing_of_checkText (hnames : ∀ n ∈ P, IsName n) {e : Errno}
    (hcheck : checkText (pathOf P).text = .error e) : (IoError.system e).isNotFound = false := by
  cases e with
  | notFound => exact absurd hcheck (checkText_names (Path.names_pathOf hnames))
  | _ => rfl

omit hP in
theorem prepareOutput_settles (hreached : Reached s.world.disk P)
    (hdir : s.world.disk.get? P ≠ some .dir) {r : Except Fault Path} {s' : Site}
    (h : Workspace.prepareOutput name owner s = (r, s')) : Settles P none s r s' := by
  cases hcheck : checkText (pathOf P).text with
  | ok u =>
    have hhandy : s.world.disk.Handy P := ⟨hcheck, hreached⟩
    obtain ⟨s₁, hok, hsets⟩ := prepareOutput_ok hhandy hpath owner hdir
    cases hok.symm.trans h
    exact .done hhandy hsets
  | error e =>
    obtain ⟨new, s₁, hregister, hsame, hworld⟩ := register_ok (pathOf P) owner s
    have hmissing := not_missing_of_checkText hreached.isName hcheck
    have hunlink : s₁.world.disk.unlink (pathOf P) = .error (.system e) := by
      rw [Disk.unlink, locateEntry, hcheck]
      rfl
    have hstale : Workspace.removeStale (pathOf P) s₁ = (.error (.io (.system e)), s₁) := by
      unfold Workspace.removeStale
      rw [Work.lift_apply, Action.change_apply]
      simp only [hunlink, hmissing]
      rfl
    unfold Workspace.prepareOutput at h
    rw [bind_of_ok (show Work.workspace s = (.ok s.workspace, s) from rfl)] at h
    simp only [hpath] at h
    rw [bind_of_ok hregister, bind_of_error hstale] at h
    cases h
    exact .refused hsame hworld

omit hP in
theorem createDir_settles (hreached : Reached s.world.disk P) (hroot : P ≠ [])
    (hn : s.world.disk.get? P = none ∨ s.world.disk.get? P = some .dir) {r : Except Fault Path}
    {s' : Site} (h : Workspace.createDir name owner s = (r, s')) :
    Settles P (some .dir) s r s' := by
  cases hcheck : checkText (pathOf P).text with
  | ok u =>
    have hhandy : s.world.disk.Handy P := ⟨hcheck, hreached⟩
    obtain ⟨s₁, hok, hsets⟩ := createDir_ok hhandy hpath owner hroot hn
    cases hok.symm.trans h
    exact .done hhandy hsets
  | error e =>
    obtain ⟨new, s₁, hregister, hsame, hworld⟩ := register_ok (pathOf P) owner s
    have hmissing := not_missing_of_checkText hreached.isName hcheck
    have hstat (d : Disk) : d.stat (pathOf P) = .error e := by
      rw [Disk.stat, locate, hcheck]
      rfl
    have hparts : (pathOf P).parts ≠ [] := by simp [Path.parts, isAbsolute_pathOf]
    have hmake : s₁.world.disk.makeDir (pathOf P) = .error (.system e) := by
      rw [Disk.makeDir, locateEntry, hcheck]
      rfl
    have hmakeDirs : s₁.world.disk.makeDirs (pathOf P) =
        (.error (.system e), s₁.world.disk) := by
      simp only [Disk.makeDirs, makeDirsFrom, if_neg hparts, hmake, hmissing, isDir, hstat]
      rfl
    unfold Workspace.createDir at h
    rw [bind_of_ok (show Work.workspace s = (.ok s.workspace, s) from rfl)] at h
    simp only [hpath] at h
    rw [bind_of_ok (show (liftM Action.getDisk : Work Disk) s = (.ok s.world.disk, s) from rfl)] at h
    simp only [pathExists, hstat] at h
    have hfails : (liftM (Action.transact (·.makeDirs (pathOf P))) : Work Unit) s₁ =
        (.error (.io (.system e)), s₁) := by
      rw [Work.lift_apply, Action.transact_apply, hmakeDirs]
    have h := (bind_of_ok hregister).symm.trans h
    rw [bind_of_error hfails] at h
    cases h
    exact .refused hsame hworld

/-- A file or a directory is moved to another place. -/
theorem moveIn_ok {U G : Location → Prop} {Q : Location} (hQ : s.world.disk.Handy Q)
    (hdir : s.world.disk.get? P ≠ some .dir) {n : Node} (hnode : s.world.disk.get? Q = some n)
    (hsink : n ≠ .sink) (hlink : ∀ target, n ≠ .link target) (hPQ : ¬ P <+: Q) (hQP : ¬ Q <+: P)
    (hUP : ∀ R, U R → P <+: R → R = P ∧ n.isFile = true) (hUQ : ∀ R, U R → Q <+: R → R = Q) :
    ∃ s', Workspace.moveIn (pathOf Q) name owner s = (.ok (pathOf P), s') ∧
      s'.world.calls = s.world.calls ∧ s'.world.disk.get? P = some n ∧
      Works U G (fun l => l = Q ∨ l = P) s s' := by
  obtain ⟨new, s₁, hregister, hsame, hworld⟩ := register_ok (pathOf P) owner s
  rw [← hworld] at hP hdir hQ hnode
  obtain ⟨s₂, hstale, hsets⟩ := removeStale_ok hP hdir
  have hnone := hsets.alters.self
  have hne : Q ≠ P := fun e => hQP (e ▸ List.prefix_refl _)
  have hQ₂ := hsets.handy hQ fun h => absurd h hPQ
  have hP₂ := hsets.handy hP fun _ => rfl
  obtain ⟨d, hrename, -, hmoved, hedits⟩ := hQ₂.rename (U := U) (G := G) hP₂
    ((hsets.alters.other hne).trans hnode) hsink hnone hQP hPQ hlink hUQ hUP
  have hworks : Works U G (· = P) s s₂ := by
    have h := hsets.works (U := U) (G := G) (.inl hnone)
    exact ⟨h.root.trans hsame.root, hworld ▸ h.edits⟩
  refine ⟨{ s₂ with world := { s₂.world with disk := d } }, ?_, ?_, hmoved, ?_⟩
  · unfold Workspace.moveIn
    rw [bind_of_ok (show Work.workspace s = (.ok s.workspace, s) from rfl)]
    simp only [hpath]
    rw [bind_of_ok hregister, bind_of_ok hstale]
    refine (bind_of_ok (v := .ok ()) ?_).trans rfl
    rw [Work.lift_apply, Action.attempt, Action.change_apply, hrename]
  · exact hsets.calls.trans hsame.calls
  · exact (hworks.mono fun _ h => .inr h).trans ⟨rfl, hedits⟩

end

end Whittle
