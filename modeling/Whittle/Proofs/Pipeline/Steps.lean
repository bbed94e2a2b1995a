import Whittle.Proofs.Pipeline.Footprint

/-!
# The steps of the stages

Each stage is followed through all its parts, with everything that can fail on the way: it goes by
the steps that its `charter` allows (`runStage_follows`), and so do all stages of a run
(`runStages_follows`). Where an invariant is kept by operations at the places that a stage touches,
it is kept by the stage, if the tools keep it (`runStage_stays`).
-/

namespace Whittle.Pipeline

open Text Disk

/-! ## Calls and files of numbers -/

section

variable {host : Host} {c : Charter} {ms : List Location}

theorem runChecked_abides {command : Command} {products : List Location}
    (hcall : c.call command.program command.argv products) (hlisted : ∀ m ∈ products, m ∈ ms)
    (cwd : Path) : Abides host c ms (command.runChecked host cwd) fun _ => True := by
  refine .seq (.launch hcall hlisted cwd) fun code _ => ?_
  split
  · exact .fail
  · exact .ret trivial

theorem keepGood_abides (rs : List (Except Fault Criterion)) :
    Abides host c ms (Criterion.keepGood rs) fun _ => True := by
  induction rs with
  | nil => exact .ret trivial
  | cons r rs ih =>
    cases r with
    | ok c => exact .seq ih fun _ _ => .ret trivial
    | error e => exact .seq (.warn _) fun _ _ => ih

theorem load_abides (p : Path) : Abides host c ms (Slice.load p) fun _ => True :=
  .seq (.ask _) fun _ _ => .ret trivial

theorem gather_abides (files : List Path) :
    Abides host c ms (Slice.gather files) fun _ => True := by
  induction files with
  | nil => exact .ret trivial
  | cons p ps ih =>
    refine .seq (.attempt (load_abides p)) fun r _ => ?_
    split
    · exact .seq ih fun _ _ => .ret trivial
    · exact .seq (.warn _) fun _ _ => ih

theorem countLines_abides (p : Path) : Abides host c ms (countLines p) fun _ => True :=
  .seq (.ask _) fun _ _ => .ret trivial

theorem adjustedLine_abides (p : Path) : Abides host c ms (adjustedLine p) fun _ => True :=
  .seq .getDisk fun _ _ => .ret trivial

theorem extractLine_abides (subject : Subject) (e : Extract) :
    Abides host c ms (extractLine subject e) fun _ => True := by
  refine .seq (adjustedLine_abides e.adjusted) fun reported _ => ?_
  split
  · exact .ret trivial
  · exact .seq (.warn _) fun _ _ => .ret trivial

theorem clampLine_abides (line count : Nat) :
    Abides host c ms (Reducer.clampLine line count) fun _ => True := by
  unfold Reducer.clampLine
  dsimp only
  split
  · exact .seq (.warn _) fun _ _ => .ret trivial
  · exact .ret trivial

theorem record_abides (p : Progress) (stage : Stage) (outcome : Outcome) (detail : String) :
    Abides host c ms (p.record stage outcome detail) fun p' => p'.subject = p.subject := by
  have hannounce (r : StageRecord) : Abides host c ms (announce r) fun _ => True := by
    unfold announce
    split
    · exact .warn _
    · exact .ret trivial
  exact .seq (hannounce _) fun _ _ => .ret rfl

theorem adoptOrKeep_abides (p : Progress) (stage : Stage) {result : Except Fault Subject}
    (hresult : ∀ next, result = .ok next → next.extension = p.subject.extension) :
    Abides host c ms (p.adoptOrKeep stage result)
      fun p' => p'.subject.extension = p.subject.extension := by
  unfold Progress.adoptOrKeep
  split
  · rename_i next
    exact .seq (record_abides p stage _ _) fun _ _ => .ret (hresult next rfl)
  · exact (record_abides p stage _ _).mono fun _ h => congrArg Subject.extension h

variable {m : Location} (hm : m ∈ ms)
include hm

theorem store_abides (ns : List Nat) :
    Abides host c ms (Slice.store (pathOf m) ns) fun _ => True :=
  .writeTo hm _

theorem unify_abides (files : List Path) :
    Abides host c ms (Slice.unify files (pathOf m)) fun _ => True := by
  unfold Slice.unify
  split
  · exact .abort
  · refine .seq (gather_abides files) fun r _ => ?_
    dsimp only
    split
    · exact .abort
    · split
      · exact .abort
      · exact .seq (store_abides hm _) fun _ _ => .ret trivial

theorem plantFile_abides (language : Language) (arguments : String) :
    Abides host c ms (Insertion.plantFile (pathOf m) language arguments) fun _ => True := by
  refine .seq (.ask _) fun source _ => ?_
  split
  · refine .seq (P := fun _ => True) (.ret trivial) fun r _ => ?_
    exact .seq (.writeTo hm _) fun _ _ => .ret trivial
  · exact .abort

end

/-! ## Stages -/

section

variable {host : Host} {s : Settings} {l : Location} (hl : ∀ n ∈ l, IsName n) (subject : Subject)
  {on : Stage → Prop} {ms : List Location}
include hl

theorem criteria_follows (hon : on .extractCriteria) :
    Follows host (charter s subject.extension l on) l ms (criteria host s subject)
      fun _ => True := by
  have htry : Follows host (charter s subject.extension l on) l ms (tryCriteria host s subject)
      fun _ => True := by
    refine .prepareOutput hl rfl (by decide) (FileAt.criteria.product hon) _ ?_
    refine .seq .workspace fun k _ => ?_
    refine .seq (.lift (runChecked_abides (Job.Calls.allowed (.criteria rfl) l on) ?_ _)) fun _ _ => ?_
    · simp [Job.products]
    refine .seq (.lift (.ask _)) fun content _ => ?_
    exact .lift (keepGood_abides _)
  refine .seq (.attempt htry) fun r _ => ?_
  split
  · exact .ret trivial
  · exact .seq (.lift (.warn _)) fun _ _ => .ret trivial

section

variable {p : Pass} (hon : on p.stage)
include hon

/-- What follows the extraction of a slice finds the product in the ledger. -/
theorem extract_follows (unionFile : Path) {β : Type} {f : Extract → Work β} {Q : β → Prop}
    (hf : ∀ e, e.produced = pathOf (l ++ [Artifacts.sliceStem ++ "." ++ subject.extension]) →
      Follows host (charter s subject.extension l on) l
        ((l ++ [Artifacts.adjustedLineFile]) ::
          (l ++ [Artifacts.sliceStem ++ "." ++ subject.extension]) :: ms) (f e) Q) :
    Follows host (charter s subject.extension l on) l ms
      (extract host s subject unionFile p.stage >>= f) Q := by
  unfold extract
  rw [bind_assoc]
  refine .prepareOutput hl rfl (names_extract subject) ((FileAt.extract p).product hon) _ ?_
  rw [bind_assoc]
  refine .prepareOutput hl rfl (by decide) ((FileAt.extractLine p).product hon) _ ?_
  simp only [bind_assoc, pure_bind]
  refine .seq .workspace fun k _ => ?_
  refine .seq (.lift (runChecked_abides (Job.Calls.allowed (.extractor rfl unionFile) l on) ?_ _))
    fun _ _ => hf _ rfl
  simp [Job.products]

theorem adoptExtract_follows {e : Extract}
    (he : e.produced = pathOf (l ++ [Artifacts.sliceStem ++ "." ++ subject.extension]))
    (hlisted : l ++ [Artifacts.sliceStem ++ "." ++ subject.extension] ∈ ms) :
    Follows host (charter s subject.extension l on) l ms
      (adoptExtract subject e p.stage (p.productName subject.extension))
      fun next => next.extension = subject.extension := by
  have hne : l ++ [Artifacts.sliceStem ++ "." ++ subject.extension] ≠
      l ++ [p.productName subject.extension] := by
    simpa using p.extract_ne_productName subject.extension
  refine .seq (.lift .getDisk) fun d _ => ?_
  split
  · exact .abort
  · refine .seq (.lift (extractLine_abides subject e)) fun line _ => ?_
    rw [he]
    refine .seq (.moveIn hl rfl (p.names_product subject) ((FileAt.sliced p).product hon) hlisted
      hne _) fun product _ => ?_
    refine .seq (.lift (countLines_abides product)) fun count _ => ?_
    dsimp only
    split
    · exact .abort
    · exact .ret rfl

theorem cut_follows (unionFile : Path) :
    Follows host (charter s subject.extension l on) l ms
      (cut host s subject unionFile p.stage (p.productName subject.extension))
      fun next => next.extension = subject.extension :=
  extract_follows hl subject hon unionFile fun _ he =>
    adoptExtract_follows hl subject hon he (by simp)

omit hl hon in
theorem containerRun_follows (hb : s.backend = .container) (mount : Path) (command : String)
    (hlisted : l ++ [(p.recipe s).mountDir, Artifacts.sliceLinesFile] ∈ ms) :
    Follows host (charter s subject.extension l on) l ms
      (Container.run host s.tools.containerRuntime (p.recipe s) mount command) fun _ => True := by
  refine .seq (.lift .freshId) fun id _ => ?_
  refine .seq .workspace fun k _ => ?_
  refine .seq (.attempt (.lift
    (.launch (Job.Calls.allowed (.container p hb _ mount command) l on) ?_ _))) fun status _ => ?_
  · simpa [Job.products] using hlisted
  have hremove (name : String) (cwd : Path) :
      Follows host (charter s subject.extension l on) l ms
        (Container.remove host s.tools.containerRuntime name cwd) fun _ => True := by
    refine .seq (.attempt (.lift (.launch (Job.Calls.allowed (.removal hb name) l on) ?_ _))) fun r _ => ?_
    · simp [Job.products]
    split
    · split
      · exact .lift (.warn _)
      · exact .ret trivial
    · exact .lift (.warn _)
  refine .seq (hremove _ _) fun _ _ => ?_
  split
  · exact .ret trivial
  · exact .fail

theorem containerSlice_follows (hb : s.backend = .container)
    (hmount : IsName (p.recipe s).mountDir) (input : Path) (criterion : Criterion)
    (arguments : String) :
    Follows host (charter s subject.extension l on) l ms
      (Container.slice host s.tools.containerRuntime (p.recipe s) input criterion arguments p.stage)
      fun _ => True := by
  unfold Container.slice
  split
  · exact .fail
  · rename_i fileName hfile
    have hfile := isName_of_fileName hfile
    have hlines : IsName Artifacts.sliceLinesFile := by decide
    have hnames {n : String} (hn : IsName n) : ∀ k ∈ [(p.recipe s).mountDir, n], IsName k := by
      simpa using ⟨hmount, hn⟩
    refine .seq (.createDir hl rfl (by simpa using hmount) ((DirAt.mount p hb).directory hon) _)
      fun mount _ => ?_
    refine .seq (.copyIn hl rfl (hnames hfile) ((FileAt.mounted p hb hfile).product hon) input _)
      fun _ _ => ?_
    refine .prepareOutput hl rfl (hnames hlines) ((FileAt.mounted p hb hlines).product hon) _ ?_
    refine .prepareOutput hl rfl (by decide) ((FileAt.kept p).product hon) _ ?_
    refine .seq (containerRun_follows subject hb _ _ (by simp)) fun code _ => ?_
    dsimp only
    split
    · exact .abort
    · refine .seq (.lift .getDisk) fun d _ => ?_
      split
      · exact .abort
      · exact (Follows.moveIn hl rfl (by decide) ((FileAt.kept p).product hon)
          (by simp) (by simp) _).mono fun _ _ => trivial

theorem callSlicer_follows (hmount : Mounts s) (input : Path) (criterion : Criterion)
    (arguments : String) :
    Follows host (charter s subject.extension l on) l ms
      (p.callSlicer host s input criterion arguments) fun _ => True := by
  unfold Pass.callSlicer
  split
  · rename_i hb
    exact containerSlice_follows hl subject hon hb (hmount hb p) input criterion arguments
  · rename_i hb
    refine .prepareOutput hl rfl (by decide) ((FileAt.kept p).product hon) _ ?_
    refine .seq .workspace fun k _ => ?_
    refine .seq (.lift (runChecked_abides
      (Job.Calls.allowed (.slicer p hb input criterion arguments) l on) ?_ _)) fun _ _ => ?_
    · simp [Job.products]
    refine .seq (.lift .getDisk) fun d _ => ?_
    split
    · exact .abort
    · exact .ret trivial

theorem storeSlice_follows (i : Nat) (ns : List Nat) :
    Follows host (charter s subject.extension l on) l ms (p.storeSlice i ns) fun _ => True := by
  have hname : IsName (p.title ++ "_slice_" ++ natText i ++ ".txt") :=
    isName_numbered (by cases p <;> decide) i (by decide)
  refine .prepareOutput hl rfl (by simpa using hname) ((FileAt.slice p i).product hon) _ ?_
  exact .seq (.lift (store_abides List.mem_cons_self ns)) fun _ _ => .ret trivial

end

section

variable (hon : on Pass.static.stage)
include hon

theorem staticInput_follows (i : Nat) :
    Follows host (charter s subject.extension l on) l ms (Pass.staticInput s subject i)
      fun _ => True := by
  have hname : IsName ("static_input_" ++ natText i ++ "." ++ subject.extension) := by
    rw [String.append_assoc]
    exact isName_numbered (by decide) i (Lacks.append (by decide) (lacks_extension subject))
  refine .prepareOutput hl rfl (by simpa using hname) ((FileAt.input i).product hon) _ ?_
  refine .seq (.lift (.copyTo List.mem_cons_self _)) fun _ _ => ?_
  split
  · refine .seq (.attempt (.lift (plantFile_abides List.mem_cons_self _ _))) fun r _ => ?_
    split
    · exact .ret trivial
    · exact .seq (.lift (.warn _)) fun _ _ => .ret trivial
  · exact .ret trivial

theorem staticSlices_follows (hmount : Mounts s) (cs : List Criterion) :
    ∀ i, Follows host (charter s subject.extension l on) l ms
      (Pass.staticSlices host s subject i cs) fun _ => True := by
  induction cs with
  | nil => intro i; exact .ret trivial
  | cons c cs ih =>
    intro i
    refine .seq (staticInput_follows hl subject hon i) fun r _ => ?_
    refine .seq (.attempt (callSlicer_follows hl subject hon hmount r.1 _ _)) fun raw _ => ?_
    split
    · exact .seq (.lift (.warn _)) fun _ _ => ih (i + 1)
    · refine .seq (.lift (load_abides _)) fun ns _ => ?_
      refine .seq (storeSlice_follows hl subject hon i _) fun path _ => ?_
      exact .seq (ih (i + 1)) fun _ _ => .ret trivial

end

section

variable (hon : on Pass.dynamic.stage)
include hon

theorem guardedSlices_follows (hmount : Mounts s) (input : Path) (guard : Insertion.Guard)
    (cs : List Criterion) :
    ∀ i, Follows host (charter s subject.extension l on) l ms
      (Pass.guardedSlices host s subject input guard i cs) fun _ => True := by
  induction cs with
  | nil => intro i; exact .ret trivial
  | cons c cs ih =>
    intro i
    refine .seq (.attempt (callSlicer_follows hl subject hon hmount input c _)) fun raw _ => ?_
    split
    · exact .seq (.lift (.warn _)) fun _ _ => ih (i + 1)
    · refine .seq (.lift (load_abides _)) fun ns _ => ?_
      refine .seq (storeSlice_follows hl subject hon i _) fun path _ => ?_
      exact .seq (ih (i + 1)) fun _ _ => .ret trivial

theorem dynamicSlices_follows (hmount : Mounts s) (cs : List Criterion) :
    Follows host (charter s subject.extension l on) l ms (Pass.dynamicSlices host s subject cs)
      fun _ => True := by
  have hname : IsName ("dynamic_input." ++ subject.extension) :=
    (IsFront.append (by decide) (lacks_extension subject)).isName
  unfold Pass.dynamicSlices
  split
  · exact .ret trivial
  · refine .seq (.lift (.ask _)) fun source _ => ?_
    split
    · exact .fail
    · refine .prepareOutput hl rfl (by simpa using hname) (FileAt.guarded.product hon) _ ?_
      refine .seq (.lift (.writeTo List.mem_cons_self _)) fun _ _ => ?_
      exact guardedSlices_follows hl subject hon hmount _ _ _ 0

end

section

variable {p : Pass} (hmount : Mounts s) (cs : List Criterion) (hon : on p.stage)
include hmount hon

theorem unite_follows :
    Follows host (charter s subject.extension l on) l ms (p.unite host s subject cs)
      fun _ => True := by
  have hslices : Follows host (charter s subject.extension l on) l ms (p.slices host s subject cs)
      fun _ => True := by
    cases p with
    | static => exact staticSlices_follows hl subject hon hmount cs 0
    | dynamic => exact dynamicSlices_follows hl subject hon hmount cs
  refine .seq hslices fun files _ => ?_
  refine .prepareOutput hl rfl (by decide) ((FileAt.union p).product hon) _ ?_
  exact .seq (.lift (unify_abides List.mem_cons_self files)) fun _ _ => .ret trivial

theorem passRun_follows :
    Follows host (charter s subject.extension l on) l ms (p.run host s subject cs)
      fun next => next.extension = subject.extension :=
  .seq (unite_follows hl subject hmount cs hon) fun unionFile _ =>
    cut_follows hl subject hon unionFile

end

section

variable {r : Reducer} (hon : on r.stage)
include hon

theorem invoke_follows :
    Follows host (charter s subject.extension l on) l ms (r.invoke host s subject)
      fun _ => True := by
  refine .seq (.createDir hl rfl (by decide) ((DirAt.reduced r).directory hon) _) fun _ _ => ?_
  refine .prepareOutput hl rfl (names_reduced subject) ((FileAt.reduction r).product hon) _ ?_
  refine .prepareOutput hl rfl (by decide) ((FileAt.reductionLine r).product hon) _ ?_
  refine .seq .workspace fun k _ => ?_
  refine .seq (.lift (.launch (Job.Calls.allowed (.reducer r rfl) l on) ?_ _)) fun code _ => ?_
  · simp [Job.products]
  exact .seq (.lift .getDisk) fun d _ => .ret trivial

theorem adopt_follows (result : Reducer.Result) :
    Follows host (charter s subject.extension l on) l ms (r.adopt s subject result)
      fun next => next.extension = subject.extension := by
  refine .seq (.lift .getDisk) fun d _ => ?_
  split
  · exact .fail
  · refine .seq (.copyIn hl rfl (r.names_product subject) ((FileAt.reduced r).product hon) _ _)
      fun product _ => ?_
    refine .seq (.lift (countLines_abides product)) fun count _ => ?_
    dsimp only
    split
    · exact .abort
    · refine .seq .workspace fun k _ => ?_
      refine .seq (.lift (adjustedLine_abides _)) fun reported _ => ?_
      exact .seq (.lift (clampLine_abides _ _)) fun _ _ => .ret rfl

theorem reducerRun_follows :
    Follows host (charter s subject.extension l on) l ms (r.run host s subject)
      fun next => next.extension = subject.extension :=
  .seq (invoke_follows hl subject hon) fun result _ => adopt_follows hl subject hon result

end

end

/-! ## One stage, and all of them -/

section

variable {host : Host} {s : Settings} {l : Location} (hl : ∀ n ∈ l, IsName n) (hmount : Mounts s)
  {on : Stage → Prop} {ms : List Location}
include hl hmount

/-- A stage goes by steps that its charter allows, and leaves the extension of the program. -/
theorem runStage_follows (p : Progress) (stage : Stage) (hon : on stage) :
    Follows host (charter s p.subject.extension l on) l ms (runStage host s stage p)
      fun p' => p'.subject.extension = p.subject.extension := by
  have hslicing (pass : Pass) (hon : on pass.stage) :
      Follows host (charter s p.subject.extension l on) l ms (slicingStage host s pass p)
        fun p' => p'.subject.extension = p.subject.extension := by
    unfold slicingStage
    split
    · exact (Follows.lift (record_abides p _ _ _)).mono fun _ h => congrArg Subject.extension h
    · refine .seq (.attempt (passRun_follows hl p.subject hmount p.criteria hon)) fun r hr => ?_
      exact .lift (adoptOrKeep_abides p _ hr)
  have hreducer (reducer : Reducer) (hon : on reducer.stage) :
      Follows host (charter s p.subject.extension l on) l ms (reducerStage host s reducer p)
        fun p' => p'.subject.extension = p.subject.extension := by
    refine .seq (.attempt (reducerRun_follows hl p.subject hon)) fun r hr => ?_
    exact .lift (adoptOrKeep_abides p _ hr)
  cases stage with
  | extractCriteria =>
    refine .seq (criteria_follows hl p.subject hon) fun cs _ => ?_
    refine .seq (.lift (record_abides p _ _ _)) fun next h => ?_
    exact .ret (congrArg Subject.extension h)
  | staticSlice => exact hslicing .static hon
  | dynamicSlice => exact hslicing .dynamic hon
  | graphReduce => exact hreducer .graph hon
  | statementReduce => exact hreducer .statement hon
  | init => exact .ret rfl
  | validate => exact .ret rfl
  | save => exact .ret rfl
  | cleanup => exact .ret rfl
  | done => exact .ret rfl

/-- So does a row of stages. -/
theorem runStages_follows (ext : String) (stages : List Stage) (hon : ∀ stage ∈ stages, on stage)
    (p : Progress) (hext : p.subject.extension = ext) :
    Follows host (charter s ext l on) l ms (runStages host s stages p) fun _ => True := by
  induction stages generalizing p with
  | nil => exact .ret trivial
  | cons stage stages ih =>
    subst hext
    refine .seq (runStage_follows hl hmount p stage (hon stage List.mem_cons_self))
      fun next hnext => ?_
    exact ih (fun later h => hon later (List.mem_cons_of_mem _ h)) next hnext

end

/-! ## What stages keep -/

section

variable {T : Disk → Disk → Prop} {free : Location → Prop} (hp : Permits T free) {host : Host}
  {s : Settings} {l : Location}
include hp

/-- What operations at the places of some stages keep is kept by an action that goes by their
steps. -/
theorem stays_of_follows {on : Stage → Prop} {ext : String} {α : Type} {a : Work α} {Q : α → Prop}
    (h : Follows host (charter s ext l on) l [] a Q)
    (htouch : ∀ stage, on stage → ∀ m, Touches s ext stage m → free (l ++ m)) :
    StaysIn host T free (pathOf l) a Q :=
  h.stays hp
    (fun k hk => by
      obtain ⟨stage, m, hon, hm, rfl⟩ := hk
      exact htouch stage hon m hm.touches)
    fun k hk => by
      obtain ⟨stage, m, hon, hm, rfl⟩ := hk
      exact htouch stage hon m hm.touches

/-- The same for one stage. -/
theorem stays_of_stage {stage : Stage} {ext : String} {α : Type} {a : Work α} {Q : α → Prop}
    (h : Follows host (charter s ext l (· = stage)) l [] a Q)
    (htouch : ∀ m, Touches s ext stage m → free (l ++ m)) :
    StaysIn host T free (pathOf l) a Q :=
  stays_of_follows hp h fun _ hon => hon ▸ htouch

variable (hl : ∀ n ∈ l, IsName n)
include hl

section

variable (subject : Subject)

theorem unite_stays {p : Pass} (hmount : Mounts s) (cs : List Criterion)
    (htouch : ∀ m, Touches s subject.extension p.stage m → free (l ++ m)) :
    StaysIn host T free (pathOf l) (p.unite host s subject cs) fun _ => True := by
  refine stays_of_stage hp ?_ htouch
  exact unite_follows hl subject hmount cs rfl

theorem extract_stays {p : Pass} (unionFile : Path)
    (htouch : ∀ m, Touches s subject.extension p.stage m → free (l ++ m)) :
    StaysIn host T free (pathOf l) (extract host s subject unionFile p.stage)
      fun e => e.produced = pathOf (l ++ [Artifacts.sliceStem ++ "." ++ subject.extension]) := by
  refine stays_of_stage hp ?_ htouch
  rw [← bind_pure (extract host s subject unionFile p.stage)]
  refine extract_follows hl subject ?_ unionFile fun _ he => ?_
  · rfl
  · exact .ret he

theorem invoke_stays {r : Reducer}
    (htouch : ∀ m, Touches s subject.extension r.stage m → free (l ++ m)) :
    StaysIn host T free (pathOf l) (r.invoke host s subject) fun _ => True := by
  refine stays_of_stage hp ?_ htouch
  exact invoke_follows hl subject rfl

theorem adopt_stays {r : Reducer}
    (htouch : ∀ m, Touches s subject.extension r.stage m → free (l ++ m))
    (result : Reducer.Result) :
    StaysIn host T free (pathOf l) (r.adopt s subject result)
      fun next => next.extension = subject.extension := by
  refine stays_of_stage hp ?_ htouch
  refine adopt_follows hl subject ?_ result
  rfl

end

variable (hmount : Mounts s)
include hmount

/-- A stage leaves a disk that is in relation `T` to the one it found if operations at the places
that it touches lead to such disks, and its tools do. -/
theorem runStage_stays (p : Progress) (stage : Stage)
    (htouch : ∀ m, Touches s p.subject.extension stage m → free (l ++ m)) :
    StaysIn host T free (pathOf l) (runStage host s stage p)
      fun p' => p'.subject.extension = p.subject.extension := by
  refine stays_of_stage hp ?_ htouch
  exact runStage_follows hl hmount p stage rfl

/-- What the places of every stage permit is permitted to a row of stages. -/
theorem runStages_stays (ext : String) (stages : List Stage)
    (htouch : ∀ stage ∈ stages, ∀ m, Touches s ext stage m → free (l ++ m)) (p : Progress)
    (hext : p.subject.extension = ext) :
    StaysIn host T free (pathOf l) (runStages host s stages p) fun _ => True :=
  stays_of_follows hp (runStages_follows hl hmount ext stages (fun _ h => h) p hext) htouch

end

end Whittle.Pipeline
