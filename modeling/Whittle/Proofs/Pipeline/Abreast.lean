import Whittle.Proofs.Pipeline.Products
import Whittle.Proofs.Workspace.Twofold

/-!
# The same stages on two disks

Two runs of the same stages are `Abreast` if their tools go by one script and their work directory
differs in files only. Whatever files those are, every stage answers the same on both sides: what it
reads in the work directory was removed or copied to before (`Abreast.runStages`).
-/

namespace Whittle.Pipeline

open Text Disk

structure Abreast (s : Settings) (ext : String) (root : Location) (S : Set Location)
    (script : Script) (host host' : Host) : Prop where
  performed : script.PerformedBy host
  performed' : script.PerformedBy host'
  keeps : ∀ job program argv n, Job.Calls s ext job program argv →
    ∀ e ∈ (script n program argv).edits, ∃ m ∈ job.products s ext, e.place = root ++ m
  builtIn : BuiltIn s
  rootNames : ∀ n ∈ root, IsName n
  above : ∀ P, P <+: root → P ∉ S
  dirs : ∀ name ∈ ["temp", "dg-data", "giri-data"], root ++ [name] ∉ S

/-- The program of both sides, in the language of the run. -/
structure Held (S : Set Location) (ext : String) (F : Set Location) (subject : Subject) : Prop where
  source : Known S F subject.source
  extension : subject.extension = ext

theorem Held.mono {S F F' : Set Location} {ext : String} {subject : Subject}
    (h : Held S ext F subject) (hF : F ⊆ F') : Held S ext F' subject :=
  ⟨h.source.mono hF, h.extension⟩

/-- The arguments of a tool for a line do not name a container. -/
theorem unnamed_argv {c : Command} {n : Nat} (h : c.locLine = some n) : unnamed c.argv = c.argv := by
  have hfirst : ∃ rest, c.argv = Command.setting "loc-line" (natText n) :: rest := by
    simp [Command.argv, h]
  obtain ⟨rest, hargv⟩ := hfirst
  have hne (a : String) (ha : a.toList.head? ≠ some '-') :
      Command.setting "loc-line" (natText n) ≠ a := by
    rintro rfl
    exact ha (by simp [Command.setting])
  rw [hargv]
  unfold unnamed
  split
  · rename_i e
    exact absurd (List.cons.inj e).1 (hne "run" (by decide))
  · rename_i e
    exact absurd (List.cons.inj e).1 (hne "rm" (by decide))
  · rfl

namespace Abreast

variable {s : Settings} {ext : String} {root : Location} {S F : Set Location} {script : Script}
  {host host' : Host} (h : Abreast s ext root S script host host')
include h

/-! ## Places -/

theorem opens {m : Location} (hm : ∀ n ∈ m, IsName n) (hway : ∀ P, P <+: m → P ≠ m →
      P <+: root ∨ ∃ name ∈ ["temp", "dg-data", "giri-data"], P = root ++ [name]) :
    Open S (pathOf m) := by
  refine open_pathOf hm fun P hP hne => ?_
  rcases hway P hP hne with hroot | ⟨name, hname, rfl⟩
  · exact h.above P hroot
  · exact h.dirs name hname

theorem spot {n : String} (hn : IsName n) : Workspace.Spot root S n (root ++ [n]) := by
  have hnames : ∀ k ∈ root ++ [n], IsName k :=
    List.forall_mem_append.mpr ⟨h.rootNames, by simpa using hn⟩
  refine ⟨fun k hk => ?_, hnames, h.opens hnames fun P hP hne => ?_⟩
  · exact Workspace.path_eq h.rootNames (rfl : n = String.intercalate "/" [n])
      (by simpa using hn) hk
  · exact .inl ((List.prefix_concat_iff.mp hP).resolve_left hne)

theorem spotIn {dir n : String} (hdir : dir ∈ ["temp", "dg-data", "giri-data"]) (hn : IsName n) :
    Workspace.Spot root S (dir ++ "/" ++ n) (root ++ [dir, n]) := by
  have hall : ∀ name ∈ ["temp", "dg-data", "giri-data"], IsName name := by decide
  have hnew : ∀ k ∈ [dir, n], IsName k := by simpa using ⟨hall dir hdir, hn⟩
  have hnames : ∀ k ∈ root ++ [dir, n], IsName k :=
    List.forall_mem_append.mpr ⟨h.rootNames, hnew⟩
  refine ⟨fun k hk => ?_, hnames, h.opens hnames fun P hP hne => ?_⟩
  · exact Workspace.path_eq h.rootNames
      (rfl : dir ++ "/" ++ n = String.intercalate "/" [dir, n]) hnew hk
  · have hsplit : root ++ [dir, n] = root ++ [dir] ++ [n] := by simp
    rw [hsplit] at hP hne
    have hP := (List.prefix_concat_iff.mp hP).resolve_left hne
    exact (List.prefix_concat_iff.mp hP).elim (fun e => .inr ⟨dir, hdir, e⟩) .inl

theorem clean {dir : String} (hdir : dir ∈ ["temp", "dg-data", "giri-data"]) :
    Clean S (pathOf (root ++ [dir])) := by
  have hall : ∀ name ∈ ["temp", "dg-data", "giri-data"], IsName name := by decide
  have hnames : ∀ k ∈ root ++ [dir], IsName k :=
    List.forall_mem_append.mpr ⟨h.rootNames, by simpa using hall dir hdir⟩
  refine ⟨isAbsolute_pathOf _, fun front hfront => ?_⟩
  rw [namesOf_pathOf hnames] at hfront
  rw [lexical_names fun n hn => hnames n (hfront.subset hn), List.nil_append]
  rcases List.prefix_concat_iff.mp hfront with rfl | hroot
  · exact h.dirs dir hdir
  · exact h.above front hroot

/-! ## Tools -/

/-- The calls for a job do the same on both sides, if the places of its products are the same. -/
theorem launch {job : Job} {program : Path} (cwd : Path) (argv argv' : List String)
    (hargv : unnamed argv = unnamed argv') (hcalls : job.Calls s ext program (unnamed argv))
    (hproducts : ∀ m ∈ job.products s ext, Known S F (pathOf (root ++ m))) :
    Paired (World.Alike S) F (Action.launch host program argv cwd)
      (Action.launch host' program argv' cwd) fun _ code code' => code = code' := by
  refine Action.launch_paired h.performed h.performed' hargv fun n e he => ?_
  obtain ⟨m, hm, hplace⟩ := h.keeps job program _ n hcalls e he
  rw [hplace]
  exact hproducts m hm

theorem runChecked {job : Job} (c : Command) (cwd : Path) {n : Nat} (hline : c.locLine = some n)
    (hcalls : job.Calls s ext c.program c.argv)
    (hproducts : ∀ m ∈ job.products s ext, Known S F (pathOf (root ++ m))) :
    Paired (World.Alike S) F (c.runChecked host cwd) (c.runChecked host' cwd)
      fun _ _ _ => True := by
  have hlaunch := h.launch cwd c.argv c.argv rfl ((unnamed_argv hline).symm ▸ hcalls) hproducts
  refine hlaunch.bind fun F' code code' _ hcode => ?_
  subst hcode
  split
  · exact .throw _
  · exact .pure trivial

/-! ## Criteria -/

omit h in
theorem keepGood_paired (cs : List (Except Fault Criterion)) :
    Paired (World.Alike S) F (Criterion.keepGood cs) (Criterion.keepGood cs)
      fun _ v v' => v = v' := by
  induction cs generalizing F with
  | nil => exact .pure rfl
  | cons c cs ih =>
    cases c with
    | ok c => exact ih.bind fun F' v v' _ hv => .pure (hv ▸ rfl)
    | error e => exact (Action.warn_paired _ _).bind fun F' _ _ _ _ => ih

theorem criteria {subject : Subject} (hext : subject.extension = ext) :
    Paired (Site.Alike root S) F (criteria host s subject) (criteria host' s subject)
      fun _ v v' => v = v' := by
  have htry : Paired (Site.Alike root S) F (tryCriteria host s subject)
      (tryCriteria host' s subject) fun _ v v' => v = v' := by
    have hname : IsName Artifacts.criteriaFile := by decide
    refine (Workspace.prepareOutput_paired (h.spot hname) _).bind fun F₁ p p' _ hp => ?_
    obtain ⟨rfl, hfresh⟩ := hp
    refine Work.workspace_paired.bind fun F₂ k k' hF₂ hk => ?_
    rw [hk.1, hk.2]
    have hrun := h.runChecked (F := F₂) (extractorCommand s subject) (pathOf root) rfl
      (.criteria hext) fun m hm => by
        obtain rfl := List.mem_singleton.mp hm
        exact hfresh.path ▸ (hfresh.mono hF₂).known
    refine (Work.lift_paired hrun).bind fun F₃ _ _ hF₃ _ => ?_
    have hread := Action.ask_paired (f := fun d => d.readText p) fun d d' hd =>
      hd.readText (hfresh.mono (hF₂.trans hF₃)).known
    refine (Work.lift_paired hread).bind fun F₄ text text' _ htext => ?_
    subst htext
    exact Work.lift_paired (keepGood_paired _)
  refine (Work.attempt_paired htry).bind fun F' r r' _ hr => ?_
  cases hr with
  | ok hcs => exact .pure hcs
  | error e => exact (Work.lift_paired (Action.warn_paired _ _)).bind fun F' _ _ _ _ => .pure rfl

/-! ## Cutting -/

omit h in
theorem countLines_paired {p : Path} (hp : Known S F p) :
    Paired (World.Alike S) F (countLines p) (countLines p) fun _ n n' => n = n' := by
  have hread := Action.ask_paired (f := fun d => d.readText p) fun d d' hd => hd.readText hp
  exact hread.bind fun F' text text' _ htext => .pure (htext ▸ rfl)

omit h in
theorem adjustedLine_paired {p : Path} (hp : Known S F p) :
    Paired (World.Alike S) F (adjustedLine p) (adjustedLine p) fun _ n n' => n = n' := by
  refine Action.getDisk_paired.bind fun F' d d' hF' hd => .pure ?_
  unfold Slice.readSingleFile
  rw [hd.readText (hp.mono hF')]

omit h in
theorem extractLine_paired (subject : Subject) {e : Extract} (he : Known S F e.adjusted) :
    Paired (World.Alike S) F (extractLine subject e) (extractLine subject e)
      fun _ n n' => n = n' := by
  refine (adjustedLine_paired he).bind fun F' n n' _ hn => ?_
  subst hn
  cases n with
  | some line => exact .pure rfl
  | none => exact (Action.warn_paired _ _).bind fun F' _ _ _ _ => .pure rfl

theorem extract {subject : Subject} (hext : subject.extension = ext) (unionFile : Path)
    (owner : Stage) : Paired (Site.Alike root S) F (extract host s subject unionFile owner)
      (extract host' s subject unionFile owner)
      (Equal fun F' e => Fresh S F' (root ++ [Artifacts.sliceStem ++ "." ++ ext]) e.produced ∧
        Known S F' e.adjusted) := by
  have hproduct : IsName (Artifacts.sliceStem ++ "." ++ subject.extension) :=
    names_extract subject _ List.mem_cons_self
  have hline : IsName Artifacts.adjustedLineFile := by decide
  refine (Workspace.prepareOutput_paired (h.spot hproduct) owner).bind fun F₁ p p' _ hp => ?_
  obtain ⟨rfl, hproduced⟩ := hp
  refine (Workspace.prepareOutput_paired (h.spot hline) owner).bind fun F₂ q q' hF₂ hq => ?_
  obtain ⟨rfl, hadjusted⟩ := hq
  refine Work.workspace_paired.bind fun F₃ k k' hF₃ hk => ?_
  rw [hk.1, hk.2]
  rw [hext] at hproduced
  have hproduced := hproduced.mono (hF₂.trans hF₃)
  have hadjusted := hadjusted.mono hF₃
  have hrun := h.runChecked (cutCommand s subject unionFile) (pathOf root) rfl
    (.extractor hext unionFile) fun m hm => by
      rcases List.mem_pair.mp hm with rfl | rfl
      · exact hproduced.path ▸ hproduced.known
      · exact hadjusted.path ▸ hadjusted.known
  refine (Work.lift_paired hrun).bind fun F₄ _ _ hF₄ _ => ?_
  exact .pure ⟨rfl, hproduced.mono hF₄, (hadjusted.mono hF₄).known⟩

theorem adoptExtract {subject : Subject} (hext : subject.extension = ext) {e : Extract} {m : Location}
    (hproduced : Fresh S F m e.produced) (hadjusted : Known S F e.adjusted) {name : String}
    (hname : IsName name) (owner : Stage) :
    Paired (Site.Alike root S) F (adoptExtract subject e owner name)
      (adoptExtract subject e owner name) (Equal (Held S ext)) := by
  refine (Work.lift_paired Action.getDisk_paired).bind fun F₁ d d' hF₁ hd => ?_
  rw [hd.size (hproduced.known.mono hF₁)]
  split
  · exact .abort _
  refine (Work.lift_paired (extractLine_paired subject (hadjusted.mono hF₁))).bind
    fun F₂ line line' hF₂ hline => ?_
  subst hline
  refine (Workspace.moveIn_paired (h.spot hname) (hproduced.mono (hF₁.trans hF₂)) owner).bind
    fun F₃ p p' _ hp => ?_
  obtain ⟨rfl, hproduct⟩ := hp
  refine (Work.lift_paired (countLines_paired hproduct.known)).bind fun F₄ n n' hF₄ hn => ?_
  subst hn
  split
  · exact .abort _
  · exact .pure ⟨rfl, (hproduct.mono hF₄).known, hext⟩

theorem cut {subject : Subject} (hext : subject.extension = ext) (unionFile : Path)
    (owner : Stage) {name : String} (hname : IsName name) :
    Paired (Site.Alike root S) F (cut host s subject unionFile owner name)
      (cut host' s subject unionFile owner name) (Equal (Held S ext)) := by
  refine (h.extract hext unionFile owner).bind fun F₁ e e' _ he => ?_
  obtain ⟨rfl, hproduced, hadjusted⟩ := he
  exact h.adoptExtract hext hproduced hadjusted hname owner

/-! ## Slicers -/

/-- The directory that a container sees. -/
theorem mountDir (hb : s.backend = .container) (p : Pass) :
    (p.recipe s).mountDir ∈ ["temp", "dg-data", "giri-data"] := by
  obtain ⟨hstatic, hdynamic⟩ := h.builtIn hb
  cases p with
  | static => rw [Pass.recipe, hstatic]; decide
  | dynamic => rw [Pass.recipe, hdynamic]; decide

theorem removeContainer (hb : s.backend = .container) (name name' : String) (cwd : Path) :
    Paired (Site.Alike root S) F (Container.remove host s.tools.containerRuntime name cwd)
      (Container.remove host' s.tools.containerRuntime name' cwd) fun _ _ _ => True := by
  have hlaunch := h.launch (F := F) cwd ["rm", "-f", name] ["rm", "-f", name'] rfl
    (.removal hb "") fun m hm => by cases hm
  refine (Work.attempt_paired (Work.lift_paired hlaunch)).bind fun F' r r' _ hr => ?_
  cases hr with
  | ok hcode =>
    subst hcode
    dsimp only
    split
    · exact Work.lift_paired (Action.warn_paired _ _)
    · exact .pure trivial
  | error e => exact Work.lift_paired (Action.warn_paired _ _)

theorem runContainer (hb : s.backend = .container) (p : Pass) (mount : Path) (command : String)
    (hproduct : Known S F (pathOf (root ++ [(p.recipe s).mountDir, Artifacts.sliceLinesFile]))) :
    Paired (Site.Alike root S) F
      (Container.run host s.tools.containerRuntime (p.recipe s) mount command)
      (Container.run host' s.tools.containerRuntime (p.recipe s) mount command)
      fun _ code code' => code = code' := by
  refine (Work.lift_paired (Action.freshId_paired host host')).bind fun F₁ n n' hF₁ _ => ?_
  refine Work.workspace_paired.bind fun F₂ k k' hF₂ hk => ?_
  rw [hk.1, hk.2]
  have hlaunch := h.launch (F := F₂) (pathOf root)
    ((p.recipe s).runArguments (Artifacts.containerFront ++ n) mount command)
    ((p.recipe s).runArguments (Artifacts.containerFront ++ n') mount command) rfl
    (.container p hb "" mount command) fun m hm => by
      obtain rfl := List.mem_singleton.mp hm
      exact hproduct.mono (hF₁.trans hF₂)
  refine (Work.attempt_paired (Work.lift_paired hlaunch)).bind fun F₃ r r' _ hr => ?_
  refine (h.removeContainer hb _ _ _).bind fun F₄ _ _ _ _ => ?_
  cases hr with
  | ok hcode => exact .pure hcode
  | error e => exact .throw e

theorem containerSlice (hb : s.backend = .container) (p : Pass) {input : Path}
    (hinput : Known S F input) (criterion : Criterion) (arguments : String) (owner : Stage) :
    Paired (Site.Alike root S) F
      (Container.slice host s.tools.containerRuntime (p.recipe s) input criterion arguments owner)
      (Container.slice host' s.tools.containerRuntime (p.recipe s) input criterion arguments owner)
      (Equal (Known S)) := by
  have hmount := h.mountDir hb p
  have hall : ∀ name ∈ ["temp", "dg-data", "giri-data"], IsName name := by decide
  have hlines : IsName Artifacts.sliceLinesFile := by decide
  unfold Container.slice
  cases hname : input.fileName with
  | none => exact .throw _
  | some fileName =>
    refine (Workspace.createDir_paired (h.spot (hall _ hmount)) (h.clean hmount) owner).bind
      fun F₁ mount mount' hF₁ hmounts => ?_
    obtain ⟨rfl, -⟩ := hmounts
    refine (Workspace.copyIn_paired (h.spotIn hmount (isName_of_fileName hname))
      (hinput.mono hF₁) owner).bind fun F₂ _ _ _ _ => ?_
    refine (Workspace.prepareOutput_paired (h.spotIn hmount hlines) owner).bind
      fun F₃ produced produced' _ hp => ?_
    obtain ⟨rfl, hproduced⟩ := hp
    refine (Workspace.prepareOutput_paired (h.spot hlines) owner).bind fun F₄ _ _ hF₄ _ => ?_
    have hproduced := hproduced.mono hF₄
    refine (h.runContainer hb p mount _ (hproduced.path ▸ hproduced.known)).bind
      fun F₅ code code' hF₅ hcode => ?_
    subst hcode
    split
    · exact .abort _
    refine (Work.lift_paired Action.getDisk_paired).bind fun F₆ d d' hF₆ hd => ?_
    have hproduced := hproduced.mono (hF₅.trans hF₆)
    rw [hd.isFile hproduced.known]
    split
    · exact .abort _
    exact (Workspace.moveIn_paired (h.spot hlines) hproduced owner).mono
      fun _ _ _ _ he => ⟨he.1, he.2.known⟩

theorem callSlicer (p : Pass) {input : Path} (hinput : Known S F input) (criterion : Criterion)
    (arguments : String) :
    Paired (Site.Alike root S) F (p.callSlicer host s input criterion arguments)
      (p.callSlicer host' s input criterion arguments) (Equal (Known S)) := by
  unfold Pass.callSlicer
  cases hb : s.backend with
  | container => exact h.containerSlice hb p hinput criterion arguments _
  | «local» =>
    have hlines : IsName Artifacts.sliceLinesFile := by decide
    refine (Workspace.prepareOutput_paired (h.spot hlines) _).bind fun F₁ raw raw' _ hr => ?_
    obtain ⟨rfl, hraw⟩ := hr
    refine Work.workspace_paired.bind fun F₂ k k' hF₂ hk => ?_
    rw [hk.1, hk.2]
    have hrun := h.runChecked (F := F₂) (p.command s input criterion arguments) (pathOf root) rfl
      (.slicer p hb input criterion arguments)
      fun m hm => by
        obtain rfl := List.mem_singleton.mp hm
        exact hraw.path ▸ (hraw.mono hF₂).known
    refine (Work.lift_paired hrun).bind fun F₃ _ _ hF₃ _ => ?_
    refine (Work.lift_paired Action.getDisk_paired).bind fun F₄ d d' hF₄ hd => ?_
    have hraw := (hraw.mono ((hF₂.trans hF₃).trans hF₄)).known
    rw [hd.isFile hraw]
    split
    · exact .abort _
    · exact .pure ⟨rfl, hraw⟩

end Abreast

end Whittle.Pipeline
