import Whittle.Proofs.Disk.Confined
import Whittle.Proofs.Pipeline.Containers
import Whittle.Proofs.Pipeline.Restoring
import Whittle.Proofs.Workspace.Remains

/-!
# How far a run reaches

A run works between the calls of its tools. In each of these intervals it touches nothing outside of its
work directory but its output and directories that were missing on the way there or to the work
directory, as long as no link is at a place where it works (`run_confined`). Where a link is left at
the name of a product, or at that of the lock file, the run writes to what the link leads to
(`run_follows_links`).
-/

namespace Whittle

open Disk

/-! ## Between calls -/

/-- What is done on a disk up to the first call, between any two calls, and behind the last. -/
def Between (host : Host) (T : Disk → Disk → Prop) : List Call → Disk → List Call → Disk → Prop
  | _, d, [], d' => T d d'
  | before, d, c :: made, d' =>
    T d c.disk ∧ Between host T (before ++ [c]) (host.launch before c).disk made d'

section

variable {host : Host} {c : Charter} {T : Disk → Disk → Prop}

/-- What is done behind the last call may be of another kind. -/
theorem Between.append {T' : Disk → Disk → Prop} {made more : List Call} {d₁ d₂ : Disk}
    {before : List Call} {d : Disk} (h : Between host T before d made d₁)
    (h₁ : Between host T' (before ++ made) d₁ more d₂)
    (trans : ∀ {d d₁ d'}, T d d₁ → T' d₁ d' → T' d d') (hT : ∀ {d d'}, T d d' → T' d d') :
    Between host T' before d (made ++ more) d₂ := by
  induction made generalizing before d with
  | nil =>
    rw [List.append_nil] at h₁
    cases more with
    | nil => exact trans h h₁
    | cons c more => exact ⟨trans h h₁.1, h₁.2⟩
  | cons c made ih =>
    refine ⟨hT h.1, ih h.2 ?_⟩
    rwa [List.append_assoc, List.singleton_append]

variable (refl : ∀ d, T d d) (operate : ∀ {k d d'}, Operates c k d d' → T d d')
include refl operate

theorem Step.between {s s' : Site} (h : Step host c s s') :
    ∃ made, s'.world.calls = s.world.calls ++ made ∧
      Between host T s.world.calls s.world.disk made s'.world.disk := by
  cases h with
  | move h =>
    cases h with
    | idle hdisk hcalls => exact ⟨[], by simp [hcalls], hdisk ▸ refl _⟩
    | operate h => exact ⟨[], by simp, operate h⟩
    | call => exact ⟨[_], rfl, refl _, refl _⟩
  | enter => exact ⟨[], by simp [Site.register], refl _⟩
  | create => exact ⟨[], by simp [Site.register], refl _⟩

/-- What holds of every operation of a trail holds of what is done between its calls, whatever the
tools do. -/
theorem Trail.between (trans : ∀ {d d₁ d'}, T d d₁ → T d₁ d' → T d d') {s s' : Site}
    (h : Trail host c s s') :
    ∃ made, s'.world.calls = s.world.calls ++ made ∧
      Between host T s.world.calls s.world.disk made s'.world.disk := by
  induction h with
  | refl => exact ⟨[], by simp, refl _⟩
  | tail _ hstep ih =>
    obtain ⟨made, hcalls, hbetween⟩ := ih
    obtain ⟨more, hcalls', hbetween'⟩ := hstep.between refl operate
    refine ⟨made ++ more, by rw [hcalls', hcalls, List.append_assoc], ?_⟩
    rw [hcalls] at hbetween'
    exact hbetween.append hbetween' trans id

end

/-! ## The work directory -/

/-- An attempt at a work directory is confined, whatever comes of it. -/
theorem Workspace.acquire_confined {host : Host} {dir output : Path} {root : Location}
    {w w' : World} {r : Except Fault Workspace} (hdir : dir.isAbsolute = true)
    (houtput : output.isAbsolute = true) (hd : w.disk.Numbered)
    (hroot : w.disk.placeOf dir = some root)
    (hclear : w.disk.Clear (root ++ [Artifacts.lockFile]))
    (h : acquire host dir w = (r, w')) :
    Confined root dir output w.disk w'.disk ∧ (r.isOk = true → SameLinks w.disk w'.disk) := by
  have hgrows := grows_makeDirs w.disk dir
  have hdirs : Confined root dir output w.disk (w.disk.makeDirs dir).2 :=
    .of_makeDirs hdir fun _ _ hway => .inr (.inl hway)
  rcases acquire_cases (starts_of_absolute hdir) h with
    ⟨hfailed, e⟩ | ⟨l, r', w₁, hplace, hnames, hacquire, -, hend⟩
  · rw [e]
    exact ⟨hdirs, fun _ => hgrows.links⟩
  · cases hroot.symm.trans hplace
    obtain ⟨hlinks, hother, -⟩ := heldLock_acquire_frame hnames (hd.of_grows hgrows)
      (hgrows.links.clear hclear) hacquire
    have hlock : Confined root dir output (w.disk.makeDirs dir).2 w₁.disk := by
      refine fun o ho _ => .inl (hother o ?_)
      rintro rfl
      exact ho (List.prefix_append _ _)
    have hlinks := hgrows.links.trans hlinks
    have hlocked := hdirs.trans houtput hgrows.links hlock
    rcases hend with e | ⟨hfailed, -, e⟩
    · rw [e]
      exact ⟨hlocked, fun _ => hlinks⟩
    · have hleft := hlinks.clear (hclear.above (List.prefix_append root _))
      rw [e, hfailed]
      exact ⟨hlocked.trans houtput hlinks
        (.of_sheds (sheds_removeTree hleft (Path.names_pathOf hnames))), nofun⟩

namespace Pipeline

/-- No link is where a run works: at its lock file, at its directories, at its files or below them. -/
structure Unlinked (given : Settings) (base : Path) (root : Location) (d : Disk) : Prop where
  lock : d.Clear (root ++ [Artifacts.lockFile])
  files : ∀ language, Language.ofPath (anchor base given).sourceFile = some language →
    ∀ stage, given.enables stage = true → ∀ m, FileAt given language.extension stage m →
      d.Straight (root ++ m)
  directories : ∀ stage, given.enables stage = true → ∀ m, DirAt given stage m →
    d.Clear (root ++ m)

/-- What is done on a disk without links where a run works is confined to the work directory. -/
def Confines (given : Settings) (base : Path) (root : Location) (d d' : Disk) : Prop :=
  Unlinked given base root d →
    Confined root (anchor base given).workDir (anchor base given).outputPath d d'

/-- The same with all links of the disk left as they are. -/
def Spans (given : Settings) (base : Path) (root : Location) (d d' : Disk) : Prop :=
  Unlinked given base root d → SameLinks d d' ∧
    Confined root (anchor base given).workDir (anchor base given).outputPath d d'

section

variable {given : Settings} {base : Path} {root : Location} {d d₁ d' : Disk}

theorem Unlinked.of_links (h : Unlinked given base root d) (hlinks : SameLinks d d') :
    Unlinked given base root d' where
  lock := hlinks.clear h.lock
  files language hlanguage stage henabled m hm :=
    hlinks.straight (h.files language hlanguage stage henabled m hm)
  directories stage henabled m hm := hlinks.clear (h.directories stage henabled m hm)

/-- A work directory without links has none where a run works. -/
theorem Unlinked.of_straight (h : d.Straight root) : Unlinked given base root d where
  lock := h.clear (List.prefix_append _ _)
  files _ _ _ _ m _ := h.below (List.prefix_append root m)
  directories _ _ m _ := h.clear (List.prefix_append root m)

theorem Spans.confines (h : Spans given base root d d') : Confines given base root d d' :=
  fun hd => (h hd).2

theorem Spans.refl (d : Disk) : Spans given base root d d := fun _ => ⟨.refl d, .refl d⟩

variable (hbase : base.isAbsolute = true)
include hbase

theorem Spans.then (h : Spans given base root d d₁) (h₁ : Confines given base root d₁ d') :
    Confines given base root d d' := fun hd =>
  (h hd).2.trans (isAbsolute_anchor hbase given).2.2 (h hd).1 (h₁ (hd.of_links (h hd).1))

theorem Spans.trans (h : Spans given base root d d₁) (h₁ : Spans given base root d₁ d') :
    Spans given base root d d' := fun hd =>
  ⟨(h hd).1.trans (h₁ (hd.of_links (h hd).1)).1, h.then hbase h₁.confines hd⟩

end

section

variable {host : Host} {given : Settings} {base : Path} {w w₁ w' : World} {b : Start}
  {root source : Location}

/-- The start of a run is confined, and keeps the links if it succeeds. -/
theorem start_confined {r : Except Fault Start} (hbase : base.isAbsolute = true)
    (hd : w.disk.Numbered) (hroot : w.disk.placeOf (anchor base given).workDir = some root)
    (h : start host given base w = (r, w')) :
    Confines given base root w.disk w'.disk ∧
      (r.isOk = true → Spans given base root w.disk w'.disk) := by
  obtain ⟨-, hdirAbsolute, houtAbsolute⟩ := isAbsolute_anchor hbase given
  rcases start_cases h with ⟨hfailed, e⟩ | ⟨w₁, k, hdisk, hacquire, hk⟩
  · rw [e]
    exact ⟨(Spans.refl _).confines, fun _ => .refl _⟩
  · rw [← hdisk] at hd hroot ⊢
    have hconfined (hclear : Unlinked given base root w₁.disk) :=
      Workspace.acquire_confined hdirAbsolute houtAbsolute hd hroot hclear.lock hacquire
    exact ⟨fun hclear => (hconfined hclear).1,
      fun hok hclear => ⟨(hconfined hclear).2 (hk ▸ hok), (hconfined hclear).1⟩⟩

variable (hbegun : Begun given base w w₁ b root source)
include hbegun

theorem Begun.file_straight {d : Disk} {m : Location} (hd : Unlinked given base root d)
    (hm : (b.charter root).product m) : root <+: m ∧ d.Straight m := by
  obtain ⟨stage, k, henabled, hat, rfl⟩ := hm
  obtain ⟨language, hlanguage, hsubject⟩ := hbegun.subject
  rw [hsubject] at hat
  exact ⟨List.prefix_append root k, hd.files language hlanguage stage (hbegun.enables ▸ henabled) k
    (FileAt.of_same hbegun.backend hbegun.recipe hat)⟩

theorem Begun.dir_clear {d : Disk} {m : Location} (hd : Unlinked given base root d)
    (hm : (b.charter root).directory m) : root <+: m ∧ d.Clear m := by
  obtain ⟨stage, k, henabled, hat, rfl⟩ := hm
  exact ⟨List.prefix_append root k, hd.directories stage (hbegun.enables ▸ henabled) k
    (DirAt.of_same hbegun.backend hbegun.recipe hat)⟩

/-- One operation is confined. -/
theorem Begun.operates_spans {k : Workspace} {d d' : Disk} (h : Operates (b.charter root) k d d') :
    Spans given base root d d' := by
  intro hd
  cases h with
  | unlink hm h =>
    obtain ⟨hroot, hstraight⟩ := hbegun.file_straight hd hm.product
    obtain ⟨hlinks, halters⟩ := unlink_at hstraight hm.names h
    exact ⟨hlinks, .of_alters hroot halters⟩
  | write hm h =>
    obtain ⟨hroot, hstraight⟩ := hbegun.file_straight hd hm.product
    obtain ⟨hlinks, n, halters⟩ := write_at hstraight hm.names h
    exact ⟨hlinks, .of_alters hroot halters⟩
  | copy hm h =>
    obtain ⟨hroot, hstraight⟩ := hbegun.file_straight hd hm.product
    obtain ⟨hlinks, n, halters⟩ := copy_at hstraight hm.names h
    exact ⟨hlinks, .of_alters hroot halters⟩
  | rename hm ht hne h =>
    obtain ⟨hroot, hs⟩ := hbegun.file_straight hd hm.product
    obtain ⟨hroot', ht'⟩ := hbegun.file_straight hd ht.product
    obtain ⟨-, -, hmoves⟩ := moves_of_rename hm.names ht.names hne h hs.self ht'.self
    exact ⟨hmoves.sameLinks hs ht', .of_moves hroot hroot' hmoves⟩
  | makeDirs hm hnames =>
    obtain ⟨hroot, hclear⟩ := hbegun.dir_clear hd hm
    refine ⟨(grows_makeDirs d _).links, .of_makeDirs (isAbsolute_pathOf _) fun o ho hway => .inl ?_⟩
    exact (List.prefix_or_prefix_of_prefix hroot (hway.above hnames hclear)).resolve_left ho

/-- The stages of a run are confined between the calls. What they leave to be removed is in the work
directory. -/
theorem Begun.stages_confined (host : Host) (hbase : base.isAbsolute = true)
    (hmount : Mounts given) {site : Site}
    (hsite : (runStages host b.settings (workStages b.settings) b.progress
      ⟨w₁, b.workspace⟩).2 = site) :
    (∃ made, site.world.calls = w₁.calls ++ made ∧
      Between host (Spans given base root) w₁.calls w₁.disk made site.world.disk) ∧
    ∀ w, Confines given base root w.disk (Workspace.release ⟨w, site.workspace⟩).2.world.disk := by
  have htrail := hbegun.stages_trail host hmount
  rw [hsite] at htrail
  refine ⟨htrail.between Spans.refl hbegun.operates_spans (Spans.trans hbase), fun w hd => ?_⟩
  let free (m : Location) : Prop := (b.charter root).product m ∨ (b.charter root).directory m
  have hany : Permits (fun _ _ => True) free := by constructor <;> simp
  have henters := (htrail.passes hany (fun _ => .inl) fun _ => .inr).2
  refine fun o ho _ => .inl (@release_bypasses o ⟨w, site.workspace⟩ (fun a ha => ?_)
    (fun lock hlock => ?_) fun _ => ?_).same
  · rcases henters.new a ha with hold | ⟨m, hm, hnames, hpath⟩
    · rw [hbegun.acquired.ledger] at hold
      cases hold
    · have hplace : root <+: m ∧ w.disk.Clear m := hm.elim
        (fun hm => (hbegun.file_straight hd hm).imp_right Straight.self) (hbegun.dir_clear hd)
      rw [hpath]
      exact .inl ⟨m, Path.names_pathOf hnames, hplace.2, fun hmo => ho (hplace.1.trans hmo)⟩
  · have hlock : site.workspace.lock = some lock := hlock
    rw [henters.rest] at hlock
    rw [hbegun.acquired.lock lock hlock]
    exact ⟨_, Path.names_pathOf (names_lockFile hbegun.rootNames), hd.lock,
      fun hlo => ho ((List.prefix_append _ _).trans hlo)⟩
  · show site.workspace.root.Avoids o w.disk
    rw [henters.rest]
    show b.workspace.root.Avoids o w.disk
    rw [hbegun.rootPath]
    exact ⟨root, Path.names_pathOf hbegun.rootNames, hd.lock.above (List.prefix_append _ _), ho⟩

/-- Saving is confined. -/
theorem Begun.save_spans (hbase : base.isAbsolute = true) (p : Progress) (w : World) :
    (save b.settings p w).2.calls = w.calls ∧
      Spans given base root w.disk (save b.settings p w).2.disk := by
  have houtput := (isAbsolute_anchor hbase given).2.2
  have hsame := hbegun.output
  refine save_rel (R := Spans given base root) .refl (Spans.trans hbase) (fun d q hq => ?_)
    (fun d c d' h _ => Confined.of_copy houtput (hsame ▸ h)) w
  rw [hsame] at hq
  exact fun _ => ⟨(grows_makeDirs d q).links, .of_makeDirs (Path.isAbsolute_parent houtput hq)
    fun _ _ hway => .inr (.inr (hway.of_parent hq))⟩

end

/-! ## A whole run -/

/-- A work directory with a link, and files next to it. -/
def hookedDisk (name target : String) : Disk where
  entries :=
    (["w"], .dir) :: (["w", name], .link target) ::
      (["victim.c"], .file 2 "mine\n".toUTF8 false) :: (["other"], .dir) ::
      (["other", "autoPieOut.c"], .file 3 "mine\n".toUTF8 false) :: sampleDisk.entries
  cwd := []
  nextId := 4
  locked := []

def hookedRun (name target : String) : Except Fault Report × World :=
  run sampleHost sampleSettings ⟨"/"⟩ (.ofDisk (hookedDisk name target))

/-- A link that is not where the run works. -/
theorem unlinked_hookedDisk :
    Unlinked sampleSettings ⟨"/"⟩ ["w"] (hookedDisk "user.c" "../victim.c") := by
  have honly : ∀ e ∈ (hookedDisk "user.c" "../victim.c").entries, isLink e.2 = true →
      e.1 = ["w", "user.c"] := by decide
  have hstraight {m : Location} (hm : ¬ m <+: ["w", "user.c"] ∧ ¬ ["w", "user.c"] <+: m) :
      (hookedDisk "user.c" "../victim.c").Straight m := by
    refine straight_of_entries fun e he hlink => ?_
    rw [honly e he hlink]
    exact fun hP => hP.elim hm.2 hm.1
  refine ⟨(hstraight (by decide)).self, fun language hlanguage stage henabled m hm => hstraight ?_,
    fun stage henabled m hm => (hstraight ?_).self⟩
  · obtain rfl : Language.c = language := Option.some.inj hlanguage
    cases hm with
    | criteria | input | guarded => cases henabled
    | kept p | slice p _ | union p | extract p | extractLine p | sliced p =>
      cases p <;> cases henabled
    | mounted p hb hn => cases hb
    | reductionLine r => decide
    | reduction r | reduced r => cases r <;> decide
  · cases hm with
    | mount p hb => cases hb
    | reduced r => decide

end Pipeline

end Whittle
