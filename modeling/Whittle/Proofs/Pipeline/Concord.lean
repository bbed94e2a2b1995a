import Whittle.Proofs.Pipeline.Abreast
import Whittle.Proofs.Pipeline.Courses
import Whittle.Proofs.Pipeline.Saving

/-!
# The same answers on two disks

Slicing passes, reducers and saving, for two runs that are abreast. A slicer or a reducer may fail on
one side only if it does so on the other, and then for the same reason; so both runs leave the same
records and adopt the same programs (`Abreast.runStages`), and save the same (`Abreast.work`).
-/

namespace Whittle.Pipeline

open Text Disk Insertion

variable {s : Settings} {ext : String} {root : Location} {S F : Set Location} {script : Script}
  {host host' : Host}

/-! ## Files of numbers -/

theorem writeText_paired {p : Path} (hp : Known S F p) (text : String) :
    Paired (World.Alike S) F (Action.change (·.writeText p text))
      (Action.change (·.writeText p text)) fun _ _ _ => True :=
  (Action.change_paired subset_rfl fun _ _ h => h.write hp text.toUTF8 false).mono
    fun _ _ _ _ _ => trivial

theorem load_paired {p : Path} (hp : Known S F p) :
    Paired (World.Alike S) F (Slice.load p) (Slice.load p) fun _ ns ns' => ns = ns' := by
  have hread := Action.ask_paired (f := fun d => d.readText p) fun d d' hd => hd.readText hp
  exact hread.bind fun F' text text' _ htext => .pure (htext ▸ rfl)

/-- Files that are the same on both sides. -/
def AllKnown (S F : Set Location) (files : List Path) : Prop := ∀ file ∈ files, Known S F file

theorem AllKnown.mono {files : List Path} (h : AllKnown S F files) {F' : Set Location}
    (hF : F ⊆ F') : AllKnown S F' files :=
  fun file hfile => (h file hfile).mono hF

theorem gather_paired {files : List Path} (h : AllKnown S F files) :
    Paired (World.Alike S) F (Slice.gather files) (Slice.gather files) fun _ v v' => v = v' := by
  induction files generalizing F with
  | nil => exact .pure rfl
  | cons file files ih =>
    have hfile : Known S F file := h file List.mem_cons_self
    have hfiles : AllKnown S F files := fun f hf => h f (List.mem_cons_of_mem _ hf)
    refine (Action.attempt_paired (load_paired hfile)).bind fun F₁ r r' hF₁ hr => ?_
    cases hr with
    | ok hns =>
      subst hns
      exact (ih (hfiles.mono hF₁)).bind fun F₂ v v' _ hv => .pure (hv ▸ rfl)
    | error e =>
      refine (Action.warn_paired _ _).bind fun F₂ _ _ hF₂ _ => ?_
      exact ih (hfiles.mono (hF₁.trans hF₂))

theorem unify_paired {files : List Path} (h : AllKnown S F files) {output : Path}
    (houtput : Known S F output) :
    Paired (World.Alike S) F (Slice.unify files output) (Slice.unify files output)
      fun _ v v' => v = v' := by
  unfold Slice.unify
  split
  · exact .abort _
  refine (gather_paired h).bind fun F₁ v v' hF₁ hv => ?_
  subst hv
  obtain ⟨readable, ns⟩ := v
  dsimp only
  split
  · exact .abort _
  split
  · exact .abort _
  refine (writeText_paired (houtput.mono hF₁) _).bind fun F₂ _ _ _ _ => ?_
  exact .pure rfl

namespace Abreast

variable (h : Abreast s ext root S script host host')
include h

/-! ## Slices -/

theorem storeSlice (p : Pass) (i : Nat) (ns : List Nat) :
    Paired (Site.Alike root S) F (p.storeSlice i ns) (p.storeSlice i ns) (Equal (Known S)) := by
  have hfront : IsFront (p.title ++ "_slice_") := by cases p <;> decide
  have hending : Lacks '/' ".txt" := by decide
  have hname := isName_numbered hfront i hending
  refine (Workspace.prepareOutput_paired (h.spot hname) _).bind fun F₁ q q' _ hq => ?_
  obtain ⟨rfl, hfresh⟩ := hq
  refine (Work.lift_paired (writeText_paired hfresh.known _)).bind fun F₂ _ _ hF₂ _ => ?_
  exact .pure ⟨rfl, (hfresh.mono hF₂).known⟩

/-- What comes after the call of a slicer is the same if the slicer answered the same. -/
theorem sequel (p : Pass) (i : Nat) (restore : List Nat → List Nat) (warning : Fault → String)
    {rest rest' : Work (List Path)}
    (hrest : ∀ F', F ⊆ F' → Paired (Site.Alike root S) F' rest rest' (Equal (AllKnown S)))
    {r r' : Except Fault Path} (hr : Matches (Equal (Known S) F) r r') :
    Paired (Site.Alike root S) F (p.sequel i restore warning rest r)
      (p.sequel i restore warning rest' r') (Equal (AllKnown S)) := by
  cases hr with
  | error e =>
    exact (Work.lift_paired (Action.warn_paired _ _)).bind fun F₁ _ _ hF₁ _ => hrest F₁ hF₁
  | ok hraw =>
    obtain ⟨rfl, hraw⟩ := hraw
    refine (Work.lift_paired (load_paired hraw)).bind fun F₁ ns ns' hF₁ hns => ?_
    subst hns
    refine (h.storeSlice p i _).bind fun F₂ file file' hF₂ hfile => ?_
    obtain ⟨rfl, hfile⟩ := hfile
    refine (hrest F₂ (hF₁.trans hF₂)).bind fun F₃ files files' hF₃ hfiles => ?_
    obtain ⟨rfl, hfiles⟩ := hfiles
    refine .pure ⟨rfl, fun f hf => ?_⟩
    rcases List.mem_cons.mp hf with rfl | hf
    · exact hfile.mono hF₃
    · exact hfiles f hf

theorem staticInput {subject : Subject} (hs : Held S ext F subject) (i : Nat) :
    Paired (Site.Alike root S) F (Pass.staticInput s subject i) (Pass.staticInput s subject i)
      (Equal fun F' r => Known S F' r.1) := by
  have hfront : IsFront "static_input_" := by decide
  have hname : IsName ("static_input_" ++ natText i ++ "." ++ subject.extension) := by
    have hending : Lacks '/' ("." ++ subject.extension) :=
      Lacks.append (by decide) (lacks_extension subject)
    simpa only [String.append_assoc] using isName_numbered hfront i hending
  refine (Workspace.prepareOutput_paired (h.spot hname) _).bind fun F₁ input input' hF₁ hinput => ?_
  obtain ⟨rfl, hinput⟩ := hinput
  have hcopy : Paired (World.Alike S) F₁ (Action.change (·.copy subject.source input))
      (Action.change (·.copy subject.source input)) fun _ _ _ => True :=
    (Action.change_paired subset_rfl fun d d' hd =>
      (hd.copy (hs.source.mono hF₁) hinput.opens).mono fun _ _ he =>
        he.mono (Set.subset_insert _ F₁)).mono fun _ _ _ _ _ => trivial
  refine (Work.lift_paired hcopy).bind fun F₂ _ _ hF₂ _ => ?_
  have hinput := (hinput.mono hF₂).known
  split
  · have hplant : Paired (World.Alike S) F₂ (plantFile input subject.language subject.arguments)
        (plantFile input subject.language subject.arguments) fun _ v v' => v = v' := by
      have hread := Action.ask_paired (f := fun d => d.readText input) fun d d' hd =>
        hd.readText hinput
      refine hread.bind fun F₃ text text' hF₃ htext => ?_
      subst htext
      cases plant subject.language text subject.arguments with
      | error e => exact .abort e
      | ok r =>
        refine (writeText_paired (hinput.mono hF₃) r.1).bind fun F₄ _ _ _ _ => ?_
        exact .pure rfl
    refine (Work.attempt_paired (Work.lift_paired hplant)).bind fun F₃ r r' hF₃ hr => ?_
    cases hr with
    | ok hplanting => exact .pure ⟨hplanting ▸ rfl, hinput.mono hF₃⟩
    | error e =>
      refine (Work.lift_paired (Action.warn_paired _ _)).bind fun F₄ _ _ hF₄ _ => ?_
      exact .pure ⟨rfl, hinput.mono (hF₃.trans hF₄)⟩
  · exact .pure ⟨rfl, hinput⟩

theorem staticSlices {subject : Subject} (hs : Held S ext F subject) (i : Nat)
    (cs : List Criterion) :
    Paired (Site.Alike root S) F (Pass.staticSlices host s subject i cs)
      (Pass.staticSlices host' s subject i cs) (Equal (AllKnown S)) := by
  induction cs generalizing F i with
  | nil => exact .pure ⟨rfl, fun _ hf => by cases hf⟩
  | cons c cs ih =>
    rw [Pass.staticSlices_cons, Pass.staticSlices_cons]
    refine (h.staticInput hs i).bind fun F₁ r r' hF₁ hr => ?_
    obtain ⟨rfl, hinput⟩ := hr
    refine (Work.attempt_paired (h.callSlicer .static hinput _ _)).bind fun F₂ r r' hF₂ hr => ?_
    exact h.sequel .static i _ _ (fun F' hF' => ih (hs.mono ((hF₁.trans hF₂).trans hF')) (i + 1)) hr

theorem guardedSlices {subject : Subject} {input : Path} (hinput : Known S F input) (guard : Guard)
    (i : Nat) (cs : List Criterion) :
    Paired (Site.Alike root S) F (Pass.guardedSlices host s subject input guard i cs)
      (Pass.guardedSlices host' s subject input guard i cs) (Equal (AllKnown S)) := by
  induction cs generalizing F i with
  | nil => exact .pure ⟨rfl, fun _ hf => by cases hf⟩
  | cons c cs ih =>
    rw [Pass.guardedSlices_cons, Pass.guardedSlices_cons]
    refine (Work.attempt_paired (h.callSlicer .dynamic hinput _ _)).bind fun F₁ r r' hF₁ hr => ?_
    exact h.sequel .dynamic i _ _ (fun F' hF' => ih (hinput.mono (hF₁.trans hF')) (i + 1)) hr

theorem dynamicSlices {subject : Subject} (hs : Held S ext F subject) (cs : List Criterion) :
    Paired (Site.Alike root S) F (Pass.dynamicSlices host s subject cs)
      (Pass.dynamicSlices host' s subject cs) (Equal (AllKnown S)) := by
  unfold Pass.dynamicSlices
  split
  · exact .pure ⟨rfl, fun _ hf => by cases hf⟩
  have hread := Action.ask_paired (f := fun d => d.readText subject.source) fun d d' hd =>
    hd.readText hs.source
  refine (Work.lift_paired hread).bind fun F₁ source source' _ hsource => ?_
  subst hsource
  cases guardSource subject.language source subject.failureLine cs with
  | error e => exact .throw e
  | ok r =>
    obtain ⟨text, guard⟩ := r
    have hfront : IsFront "dynamic_input." := by decide
    have hname := (hfront.append (lacks_extension subject)).isName
    refine (Workspace.prepareOutput_paired (h.spot hname) _).bind fun F₂ input input' _ hinput => ?_
    obtain ⟨rfl, hinput⟩ := hinput
    refine (Work.lift_paired (writeText_paired hinput.known text)).bind fun F₃ _ _ hF₃ _ => ?_
    exact h.guardedSlices (hinput.mono hF₃).known guard 0 _

theorem unite {subject : Subject} (hs : Held S ext F subject) (p : Pass) (cs : List Criterion) :
    Paired (Site.Alike root S) F (p.unite host s subject cs) (p.unite host' s subject cs)
      fun _ file file' => file = file' := by
  have hslices : Paired (Site.Alike root S) F (p.slices host s subject cs)
      (p.slices host' s subject cs) (Equal (AllKnown S)) := by
    cases p with
    | static => exact h.staticSlices hs 0 cs
    | dynamic => exact h.dynamicSlices hs cs
  have hname : IsName Artifacts.unionFile := by decide
  refine hslices.bind fun F₁ files files' _ hfiles => ?_
  obtain ⟨rfl, hfiles⟩ := hfiles
  refine (Workspace.prepareOutput_paired (h.spot hname) _).bind fun F₂ file file' hF₂ hfile => ?_
  obtain ⟨rfl, hfile⟩ := hfile
  refine (Work.lift_paired (unify_paired (hfiles.mono hF₂) hfile.known)).bind fun F₃ _ _ _ _ => ?_
  exact .pure rfl

theorem passRun {subject : Subject} (hs : Held S ext F subject) (p : Pass) (cs : List Criterion) :
    Paired (Site.Alike root S) F (p.run host s subject cs) (p.run host' s subject cs)
      (Equal (Held S ext)) := by
  refine (h.unite hs p cs).bind fun F₁ file file' _ hfile => ?_
  subst hfile
  exact h.cut hs.extension file p.stage (p.names_product subject _ List.mem_cons_self)

/-! ## Reducers -/

theorem invoke {subject : Subject} (hext : subject.extension = ext) (r : Reducer) :
    Paired (Site.Alike root S) F (r.invoke host s subject) (r.invoke host' s subject)
      (Equal fun F' result => (∀ p, result.product = some p → Known S F' p) ∧
        Known S F' (pathOf (root ++ [Artifacts.adjustedLineFile]))) := by
  have hdir : Artifacts.reducedDir ∈ ["temp", "dg-data", "giri-data"] := by decide
  have hisdir : IsName Artifacts.reducedDir := by decide
  have hline : IsName Artifacts.adjustedLineFile := by decide
  have hreduced : IsName (Artifacts.reducedStem ++ "." ++ subject.extension) :=
    names_reduced subject _ (by simp)
  have hname : Artifacts.reducedDir ++ "/" ++ Artifacts.reducedStem ++ "." ++ subject.extension =
      Artifacts.reducedDir ++ "/" ++ (Artifacts.reducedStem ++ "." ++ subject.extension) := by
    simp only [String.append_assoc]
  unfold Reducer.invoke
  rw [hname]
  refine (Workspace.createDir_paired (h.spot hisdir) (h.clean hdir) _).bind fun F₁ _ _ _ _ => ?_
  refine (Workspace.prepareOutput_paired (h.spotIn hdir hreduced) _).bind
    fun F₂ output output' _ hp => ?_
  obtain ⟨rfl, houtput⟩ := hp
  refine (Workspace.prepareOutput_paired (h.spot hline) _).bind fun F₃ q q' hF₃ hq => ?_
  obtain ⟨rfl, hadjusted⟩ := hq
  refine Work.workspace_paired.bind fun F₄ k k' hF₄ hk => ?_
  rw [hk.1, hk.2]
  have houtput := houtput.mono (hF₃.trans hF₄)
  have hadjusted := hadjusted.mono hF₄
  have hcalls : Job.Calls s ext (.reducer r) (r.program s) (unnamed (r.command s subject).argv) := by
    rw [unnamed_argv (c := r.command s subject) rfl]
    exact .reducer r hext
  have hlaunch : Paired (World.Alike S) F₄ ((r.command s subject).run host (pathOf root))
      ((r.command s subject).run host' (pathOf root)) fun _ code code' => code = code' :=
    h.launch (pathOf root) _ _ rfl hcalls fun m hm => by
      rcases List.mem_pair.mp hm with rfl | rfl
      · exact hext ▸ houtput.path ▸ houtput.known
      · exact hadjusted.path ▸ hadjusted.known
  refine (Work.lift_paired hlaunch).bind fun F₅ code code' hF₅ hcode => ?_
  subst hcode
  refine (Work.lift_paired Action.getDisk_paired).bind fun F₆ d d' hF₆ hd => ?_
  have houtput := (houtput.mono (hF₅.trans hF₆)).known
  have hadjusted := (hadjusted.mono (hF₅.trans hF₆))
  rw [hd.isFile houtput]
  refine .pure ⟨rfl, fun p hp => ?_, hadjusted.path ▸ hadjusted.known⟩
  split at hp
  · exact Option.some.inj hp ▸ houtput
  · cases hp

omit h in
theorem clampLine_paired (line count : Nat) :
    Paired (World.Alike S) F (Reducer.clampLine line count) (Reducer.clampLine line count)
      fun _ n n' => n = n' := by
  unfold Reducer.clampLine
  dsimp only
  split
  · exact (Action.warn_paired _ _).bind fun F₁ _ _ _ _ => .pure rfl
  · exact .pure rfl

omit h in
/-- Whether a call left a product is the same on both sides. -/
theorem productOf_alike {d d' : Disk} (hd : d.Alike S F d') (r : Reducer) (subject : Subject)
    {result : Reducer.Result} (hproduct : ∀ p, result.product = some p → Known S F p) :
    r.productOf s subject d result = r.productOf s subject d' result := by
  unfold Reducer.productOf Reducer.Result.succeeded
  cases hp : result.product with
  | none => rfl
  | some p => simp only [Option.any_some, hd.isFile (hproduct p hp)]

theorem adopt {subject : Subject} (hext : subject.extension = ext) (r : Reducer)
    {result : Reducer.Result} (hproduct : ∀ p, result.product = some p → Known S F p)
    (hadjusted : Known S F (pathOf (root ++ [Artifacts.adjustedLineFile]))) :
    Paired (Site.Alike root S) F (r.adopt s subject result) (r.adopt s subject result)
      (Equal (Held S ext)) := by
  have hname : IsName (r.title ++ "_reduced." ++ subject.extension) :=
    r.names_product subject _ List.mem_cons_self
  refine (Work.lift_paired Action.getDisk_paired).bind fun F₁ d d' hF₁ hd => ?_
  have hsame := productOf_alike (s := s) hd r subject fun p hp => (hproduct p hp).mono hF₁
  rw [hsame]
  cases houtput : r.productOf s subject d' result with
  | error e => exact .throw e
  | ok output =>
    have hsource : Known S F₁ output := by
      have hresult : result.product = some output := by
        unfold Reducer.productOf at houtput
        cases hp : result.product with
        | none =>
          rw [hp] at houtput
          dsimp only at houtput
          split at houtput <;> cases houtput
        | some p =>
          rw [hp] at houtput
          dsimp only at houtput
          split at houtput
          · exact congrArg some (Except.ok.inj houtput)
          · split at houtput <;> cases houtput
      exact (hproduct output hresult).mono hF₁
    refine (Workspace.copyIn_paired (h.spot hname) hsource r.stage).bind
      fun F₂ product product' hF₂ hp => ?_
    obtain ⟨rfl, hfresh⟩ := hp
    refine (Work.lift_paired (countLines_paired hfresh.known)).bind fun F₃ n n' hF₃ hn => ?_
    subst hn
    split
    · exact .abort _
    refine Work.workspace_paired.bind fun F₄ k k' hF₄ hk => ?_
    have hline : IsName Artifacts.adjustedLineFile := by decide
    rw [(h.spot hline).path k hk.1, (h.spot hline).path k' hk.2]
    have hadjusted := hadjusted.mono (((hF₁.trans hF₂).trans hF₃).trans hF₄)
    refine (Work.lift_paired (adjustedLine_paired hadjusted)).bind fun F₅ line line' hF₅ hl => ?_
    subst hl
    refine (Work.lift_paired (clampLine_paired _ _)).bind fun F₆ line line' hF₆ hl => ?_
    subst hl
    exact .pure ⟨rfl, (hfresh.mono (((hF₃.trans hF₄).trans hF₅).trans hF₆)).known, hext⟩

theorem reducerRun {subject : Subject} (hext : subject.extension = ext) (r : Reducer) :
    Paired (Site.Alike root S) F (r.run host s subject) (r.run host' s subject)
      (Equal (Held S ext)) := by
  refine (h.invoke hext r).bind fun F₁ result result' _ hr => ?_
  obtain ⟨rfl, hproduct, hadjusted⟩ := hr
  exact h.adopt hext r hproduct hadjusted

end Abreast

/-! ## Stages -/

/-- Progress with a program that is the same on both sides. -/
abbrev Along (S : Set Location) (ext : String) : Set Location → Progress → Progress → Prop :=
  Equal fun F p => Held S ext F p.subject

namespace Progress

variable (p : Progress) (stage : Stage)

theorem record_paired (outcome : Outcome) (detail : String) :
    Paired (World.Alike S) F (p.record stage outcome detail) (p.record stage outcome detail)
      (Equal fun _ q => q.subject = p.subject) := by
  have hannounce (r : StageRecord) :
      Paired (World.Alike S) F (announce r) (announce r) fun _ _ _ => True := by
    unfold announce
    split
    · exact Action.warn_paired _ _
    · exact .pure trivial
  exact (hannounce _).bind fun F₁ _ _ _ _ => .pure ⟨rfl, rfl⟩

/-- A record leaves the program as it was. -/
theorem record_along (hp : Held S ext F p.subject) (outcome : Outcome) (detail : String) :
    Paired (World.Alike S) F (p.record stage outcome detail) (p.record stage outcome detail)
      (Along S ext) := by
  refine (p.record_paired stage outcome detail).mono fun F₁ q q' hF₁ hq => ⟨hq.1, ?_⟩
  show Held S ext F₁ q.subject
  rw [hq.2]
  exact hp.mono hF₁

theorem adoptOrKeep_paired (hp : Held S ext F p.subject) {r r' : Except Fault Subject}
    (hr : Matches (Equal (Held S ext) F) r r') :
    Paired (World.Alike S) F (p.adoptOrKeep stage r) (p.adoptOrKeep stage r')
      (Along S ext) := by
  cases hr with
  | ok hnext =>
    obtain ⟨rfl, hnext⟩ := hnext
    refine (p.record_paired stage _ _).bind fun F₁ q q' hF₁ hq => ?_
    exact .pure ⟨hq.1 ▸ rfl, hnext.mono hF₁⟩
  | error e => exact p.record_along stage hp _ _

end Progress

namespace Abreast

variable (h : Abreast s ext root S script host host')
include h

/-- A stage that is given the same program on both sides leaves the same record, and the same program
again. -/
theorem runStage (stage : Stage) {p : Progress} (hp : Held S ext F p.subject) :
    Paired (Site.Alike root S) F (runStage host s stage p) (runStage host' s stage p)
      (Along S ext) := by
  have hslicing (pass : Pass) : Paired (Site.Alike root S) F (slicingStage host s pass p)
      (slicingStage host' s pass p) (Along S ext) := by
    unfold slicingStage
    split
    · exact Work.lift_paired (p.record_along _ hp _ _)
    · refine (Work.attempt_paired (h.passRun hp pass _)).bind fun F₁ r r' hF₁ hr => ?_
      exact Work.lift_paired (p.adoptOrKeep_paired _ (hp.mono hF₁) hr)
  have hreducing (r : Reducer) : Paired (Site.Alike root S) F (reducerStage host s r p)
      (reducerStage host' s r p) (Along S ext) := by
    refine (Work.attempt_paired (h.reducerRun hp.extension r)).bind fun F₁ r r' hF₁ hr => ?_
    exact Work.lift_paired (p.adoptOrKeep_paired _ (hp.mono hF₁) hr)
  have hcriteria : Paired (Site.Alike root S) F (criteriaStage host s p)
      (criteriaStage host' s p) (Along S ext) := by
    refine (h.criteria hp.extension).bind fun F₁ cs cs' hF₁ hcs => ?_
    subst hcs
    refine (Work.lift_paired (p.record_along _ (hp.mono hF₁) _ _)).bind fun F₂ q q' _ hq => ?_
    obtain ⟨rfl, hq⟩ := hq
    exact .pure ⟨rfl, hq⟩
  cases stage with
  | extractCriteria => exact hcriteria
  | staticSlice => exact hslicing .static
  | dynamicSlice => exact hslicing .dynamic
  | graphReduce => exact hreducing .graph
  | statementReduce => exact hreducing .statement
  | _ => exact .pure ⟨rfl, hp⟩

theorem runStages (stages : List Stage) {p : Progress} (hp : Held S ext F p.subject) :
    Paired (Site.Alike root S) F (runStages host s stages p) (runStages host' s stages p)
      (Along S ext) := by
  induction stages generalizing F p with
  | nil => exact .pure ⟨rfl, hp⟩
  | cons stage stages ih =>
    refine (h.runStage stage hp).bind fun F₁ q q' _ hq => ?_
    obtain ⟨rfl, hq⟩ := hq
    exact ih hq

end Abreast

/-! ## Saving -/

section

variable {candidate output : Path} (houtput : Clean S output)
include houtput

theorem makeRoom_alike {d d' : Disk} (h : d.Alike S F d') :
    (makeRoom d output).1 = (makeRoom d' output).1 ∧
      (makeRoom d output).2.Alike S F (makeRoom d' output).2 := by
  rcases makeRoom_eq output with hroom | ⟨parent, hparent, hroom⟩
  · rw [hroom, hroom]
    exact ⟨rfl, h⟩
  · obtain ⟨hr, hd⟩ := h.makeDirs (houtput.parent hparent)
    rw [hroom, hroom]
    generalize d.makeDirs parent = a, d'.makeDirs parent = a' at hr hd
    obtain ⟨r, e⟩ := a
    obtain ⟨r', e'⟩ := a'
    obtain rfl : r = r' := hr
    cases r with
    | ok u => exact ⟨rfl, hd⟩
    | error x => exact ⟨rfl, hd⟩

/-- A candidate that is the same on both sides is saved on both, or cannot be saved on any. -/
theorem saveCandidate_alike {d d' : Disk} (h : d.Alike S F d') (hcandidate : Known S F candidate) :
    (saveCandidate d candidate output).1 = (saveCandidate d' candidate output).1 ∧
      (saveCandidate d candidate output).2.Alike S F (saveCandidate d' candidate output).2 := by
  have husable : isUsable d candidate = isUsable d' candidate := by
    unfold isUsable
    rw [h.isFile hcandidate, h.size hcandidate]
  cases hu : isUsable d candidate with
  | false =>
    have hu' := husable.symm.trans hu
    unfold saveCandidate
    rw [hu, hu']
    exact ⟨rfl, h⟩
  | true =>
    obtain ⟨hr, hd⟩ := makeRoom_alike houtput h
    rw [saveCandidate_usable hu, saveCandidate_usable (husable.symm.trans hu)]
    generalize makeRoom d output = a, makeRoom d' output = a' at hr hd
    obtain ⟨r, e⟩ := a
    obtain ⟨r', e'⟩ := a'
    obtain rfl : r = r' := hr
    cases r with
    | error x => exact ⟨rfl, hd⟩
    | ok u =>
      have hcopy := hd.copy hcandidate houtput.opens
      generalize hc : e.copy candidate output = c, hc' : e'.copy candidate output = c' at hcopy
      dsimp only
      rw [hc, hc']
      cases hcopy with
      | ok hd => exact ⟨rfl, hd.mono (Set.subset_insert _ F)⟩
      | error x => exact ⟨rfl, hd⟩

theorem saveFirst_alike {d d' : Disk} (h : d.Alike S F d') {files : List Path}
    (hfiles : AllKnown S F files) (problems : List SaveProblem) :
    (saveFirst output files problems d).1 = (saveFirst output files problems d').1 ∧
      (saveFirst output files problems d).2.Alike S F (saveFirst output files problems d').2 := by
  induction files generalizing d d' problems with
  | nil => exact ⟨rfl, h⟩
  | cons file files ih =>
    obtain ⟨hr, hd⟩ := saveCandidate_alike houtput h (hfiles file List.mem_cons_self)
    unfold saveFirst
    generalize saveCandidate d file output = a, saveCandidate d' file output = a' at hr hd
    obtain ⟨r, e⟩ := a
    obtain ⟨r', e'⟩ := a'
    obtain rfl : r = r' := hr
    cases r with
    | ok u => exact ⟨rfl, hd⟩
    | error x => exact ih hd (fun f hf => hfiles f (List.mem_cons_of_mem _ hf)) _

end

/-- The same program is saved on both sides, if it is to be saved past no stale file. -/
theorem save_paired {p : Progress} (hp : Known S F p.subject.source)
    (hsource : Known S F s.sourceFile) (houtput : Clean S s.outputPath) :
    Paired (World.Alike S) F (save s p) (save s p) fun _ v v' => v = v' := by
  refine Action.getDisk_paired.bind fun F₁ d d' hF₁ hd => ?_
  have hfiles : AllKnown S F₁ [p.subject.source, s.sourceFile] :=
    AllKnown.mono (fun f hf => by
      rcases List.mem_pair.mp hf with rfl | rfl
      · exact hp
      · exact hsource) hF₁
  obtain ⟨hr, hsaved⟩ := saveFirst_alike houtput hd hfiles []
  have hset : Paired (World.Alike S) F₁
      (Action.setDisk (saveFirst s.outputPath [p.subject.source, s.sourceFile] [] d).2)
      (Action.setDisk (saveFirst s.outputPath [p.subject.source, s.sourceFile] [] d').2)
      fun _ _ _ => True :=
    fun w w' hw => ⟨F₁, subset_rfl, ⟨hsaved, hw.calls⟩, .ok trivial⟩
  refine hset.bind fun F₂ _ _ _ _ => ?_
  rw [hr]
  cases (saveFirst s.outputPath [p.subject.source, s.sourceFile] [] d').1 with
  | ok candidate =>
    exact (p.record_paired _ _ _).bind fun F₃ q q' _ hq => .pure (hq.1 ▸ rfl)
  | error problems =>
    have hreport : Paired (World.Alike S) F₂
        (Action.report .error "The result variant could not be saved.")
        (Action.report .error "The result variant could not be saved.") fun _ _ _ => True :=
      fun w w' hw => ⟨F₂, subset_rfl, ⟨hw.disk, hw.calls⟩, .ok trivial⟩
    refine hreport.bind fun F₃ _ _ _ _ => ?_
    exact (p.record_paired _ _ _).bind fun F₄ q q' _ hq => .pure (hq.1 ▸ rfl)

/-- Two runs that are abreast when their stages begin are so when their program is saved, and have
the same to report. -/
theorem Abreast.work (h : Abreast s ext root S script host host') {p : Progress}
    (hp : Held S ext F p.subject) (hsource : Known S F s.sourceFile)
    (houtput : Clean S s.outputPath) :
    Paired (Site.Alike root S) F (work host s p) (work host' s p) fun _ v v' => v = v' := by
  refine (h.runStages _ hp).bind fun F₁ q q' hF₁ hq => ?_
  obtain ⟨rfl, hq⟩ := hq
  exact Work.lift_paired (save_paired hq.source (hsource.mono hF₁) houtput)

end Whittle.Pipeline
