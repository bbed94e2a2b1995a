import Whittle.Pipeline.Run
import Whittle.Proofs.Workspace.Trail

/-!
# Where the stages work

`Touches` lists the places at which a stage writes, copies, removes and makes anything, seen from the
work directory: files (`FileAt`) and directories (`DirAt`). A tool is called for a `Job`, which says
where it leaves its products. Both together are the `charter` of a run.
-/

namespace Whittle.Pipeline

open Text Disk

/-- The name of the program that a stage adopts. -/
def Pass.productName (p : Pass) (ext : String) : String := p.title ++ "_sliced." ++ ext

def Reducer.productName (r : Reducer) (ext : String) : String := r.title ++ "_reduced." ++ ext

/-- The places, seen from the work directory, that a stage touches for programs with an
extension. -/
inductive Touches (s : Settings) (ext : String) : Stage → Location → Prop
  | criteria : Touches s ext .extractCriteria [Artifacts.criteriaFile]
  | input (i : Nat) :
    Touches s ext .staticSlice ["static_input_" ++ natText i ++ "." ++ ext]
  | guarded : Touches s ext .dynamicSlice ["dynamic_input." ++ ext]
  | kept (p : Pass) : Touches s ext p.stage [Artifacts.sliceLinesFile]
  | mount (p : Pass) (hb : s.backend = .container) :
    Touches s ext p.stage [(p.recipe s).mountDir]
  | mounted (p : Pass) (hb : s.backend = .container) {n : String} (hn : IsName n) :
    Touches s ext p.stage [(p.recipe s).mountDir, n]
  | slice (p : Pass) (i : Nat) :
    Touches s ext p.stage [p.title ++ "_slice_" ++ natText i ++ ".txt"]
  | union (p : Pass) : Touches s ext p.stage [Artifacts.unionFile]
  | extract (p : Pass) : Touches s ext p.stage [Artifacts.sliceStem ++ "." ++ ext]
  | extractLine (p : Pass) : Touches s ext p.stage [Artifacts.adjustedLineFile]
  | sliced (p : Pass) : Touches s ext p.stage [p.productName ext]
  | reducedDir (r : Reducer) : Touches s ext r.stage [Artifacts.reducedDir]
  | reduction (r : Reducer) :
    Touches s ext r.stage [Artifacts.reducedDir, Artifacts.reducedStem ++ "." ++ ext]
  | reductionLine (r : Reducer) : Touches s ext r.stage [Artifacts.adjustedLineFile]
  | reduced (r : Reducer) : Touches s ext r.stage [r.productName ext]

/-- The places of the files of a stage. -/
inductive FileAt (s : Settings) (ext : String) : Stage → Location → Prop
  | criteria : FileAt s ext .extractCriteria [Artifacts.criteriaFile]
  | input (i : Nat) : FileAt s ext .staticSlice ["static_input_" ++ natText i ++ "." ++ ext]
  | guarded : FileAt s ext .dynamicSlice ["dynamic_input." ++ ext]
  | kept (p : Pass) : FileAt s ext p.stage [Artifacts.sliceLinesFile]
  | mounted (p : Pass) (hb : s.backend = .container) {n : String} (hn : IsName n) :
    FileAt s ext p.stage [(p.recipe s).mountDir, n]
  | slice (p : Pass) (i : Nat) : FileAt s ext p.stage [p.title ++ "_slice_" ++ natText i ++ ".txt"]
  | union (p : Pass) : FileAt s ext p.stage [Artifacts.unionFile]
  | extract (p : Pass) : FileAt s ext p.stage [Artifacts.sliceStem ++ "." ++ ext]
  | extractLine (p : Pass) : FileAt s ext p.stage [Artifacts.adjustedLineFile]
  | sliced (p : Pass) : FileAt s ext p.stage [p.productName ext]
  | reduction (r : Reducer) :
    FileAt s ext r.stage [Artifacts.reducedDir, Artifacts.reducedStem ++ "." ++ ext]
  | reductionLine (r : Reducer) : FileAt s ext r.stage [Artifacts.adjustedLineFile]
  | reduced (r : Reducer) : FileAt s ext r.stage [r.productName ext]

/-- The places of the directories of a stage. -/
inductive DirAt (s : Settings) : Stage → Location → Prop
  | mount (p : Pass) (hb : s.backend = .container) : DirAt s p.stage [(p.recipe s).mountDir]
  | reduced (r : Reducer) : DirAt s r.stage [Artifacts.reducedDir]

theorem FileAt.touches {s : Settings} {ext : String} {stage : Stage} {m : Location}
    (h : FileAt s ext stage m) : Touches s ext stage m := by
  cases h with
  | criteria => exact .criteria
  | input i => exact .input i
  | guarded => exact .guarded
  | kept p => exact .kept p
  | mounted p hb hn => exact .mounted p hb hn
  | slice p i => exact .slice p i
  | union p => exact .union p
  | extract p => exact .extract p
  | extractLine p => exact .extractLine p
  | sliced p => exact .sliced p
  | reduction r => exact .reduction r
  | reductionLine r => exact .reductionLine r
  | reduced r => exact .reduced r

theorem DirAt.touches {s : Settings} {ext : String} {stage : Stage} {m : Location}
    (h : DirAt s stage m) : Touches s ext stage m := by
  cases h with
  | mount p hb => exact .mount p hb
  | reduced r => exact .reducedDir r

/-- Containers, if any are used, see a directory in the work directory. -/
def Mounts (s : Settings) : Prop :=
  s.backend = .container → ∀ p : Pass, IsName (p.recipe s).mountDir

section

variable {s s' : Settings} (hbackend : s'.backend = s.backend)
  (hrecipe : ∀ p : Pass, p.recipe s' = p.recipe s)
include hbackend hrecipe

/-- Where a stage works is decided by the backend and the container recipes. -/
theorem Touches.of_same {ext : String} {stage : Stage} {m : Location}
    (h : Touches s' ext stage m) : Touches s ext stage m := by
  cases h with
  | criteria => exact .criteria
  | input i => exact .input i
  | guarded => exact .guarded
  | kept p => exact .kept p
  | mount p hb =>
    rw [hrecipe]
    exact .mount p (hbackend ▸ hb)
  | mounted p hb hn =>
    rw [hrecipe]
    exact .mounted p (hbackend ▸ hb) hn
  | slice p i => exact .slice p i
  | union p => exact .union p
  | extract p => exact .extract p
  | extractLine p => exact .extractLine p
  | sliced p => exact .sliced p
  | reducedDir r => exact .reducedDir r
  | reduction r => exact .reduction r
  | reductionLine r => exact .reductionLine r
  | reduced r => exact .reduced r

theorem FileAt.of_same {ext : String} {stage : Stage} {m : Location}
    (h : FileAt s' ext stage m) : FileAt s ext stage m := by
  cases h with
  | mounted p hb hn =>
    rw [hrecipe]
    exact .mounted p (hbackend ▸ hb) hn
  | _ => constructor

theorem DirAt.of_same {stage : Stage} {m : Location} (h : DirAt s' stage m) : DirAt s stage m := by
  cases h with
  | mount p hb =>
    rw [hrecipe]
    exact .mount p (hbackend ▸ hb)
  | reduced r => exact .reduced r

theorem Mounts.of_same (h : Mounts s) : Mounts s' := fun hb p => by
  rw [hrecipe]
  exact h (hbackend ▸ hb) p

end

/-! ## Jobs -/

/-- What a tool is called for. -/
inductive Job where
  | criteria
  | slicer (p : Pass)
  | container (p : Pass)
  | removal
  | extractor
  | reducer (r : Reducer)

namespace Job

/-- Where a tool leaves its products, seen from the work directory. -/
def products (s : Settings) (ext : String) : Job → List Location
  | .criteria => [[Artifacts.criteriaFile]]
  | .slicer _ => [[Artifacts.sliceLinesFile]]
  | .container p => [[(p.recipe s).mountDir, Artifacts.sliceLinesFile]]
  | .removal => []
  | .extractor => [[Artifacts.sliceStem ++ "." ++ ext], [Artifacts.adjustedLineFile]]
  | .reducer _ =>
    [[Artifacts.reducedDir, Artifacts.reducedStem ++ "." ++ ext], [Artifacts.adjustedLineFile]]

/-- The calls that are made for a job, for programs with an extension. -/
inductive Calls (s : Settings) (ext : String) : Job → Path → List String → Prop
  | criteria {subject : Subject} (he : subject.extension = ext) :
    Calls s ext .criteria s.tools.variableExtractor (extractorCommand s subject).argv
  | slicer (p : Pass) (hb : s.backend = .local) (input : Path) (criterion : Criterion)
    (arguments : String) :
    Calls s ext (.slicer p) (p.program s) (p.command s input criterion arguments).argv
  | container (p : Pass) (hb : s.backend = .container) (name : String) (mount : Path)
    (command : String) :
    Calls s ext (.container p) s.tools.containerRuntime
      ((p.recipe s).runArguments name mount command)
  | removal (hb : s.backend = .container) (name : String) :
    Calls s ext .removal s.tools.containerRuntime ["rm", "-f", name]
  | extractor {subject : Subject} (he : subject.extension = ext) (unionFile : Path) :
    Calls s ext .extractor s.tools.sliceExtractor (cutCommand s subject unionFile).argv
  | reducer (r : Reducer) {subject : Subject} (he : subject.extension = ext) :
    Calls s ext (.reducer r) (r.program s) (r.command s subject).argv

end Job

/-- What the stages that are on may put into a work directory. -/
def charter (s : Settings) (ext : String) (l : Location) (on : Stage → Prop) : Charter where
  product k := ∃ stage m, on stage ∧ FileAt s ext stage m ∧ k = l ++ m
  directory k := ∃ stage m, on stage ∧ DirAt s stage m ∧ k = l ++ m
  call program argv ks := ∃ job : Job, job.Calls s ext program argv ∧
    ks = (job.products s ext).map (l ++ ·)

theorem Job.Calls.allowed {s : Settings} {ext : String} {job : Job} {program : Path}
    {argv : List String} (h : job.Calls s ext program argv) (l : Location) (on : Stage → Prop) :
    (charter s ext l on).call program argv ((job.products s ext).map (l ++ ·)) :=
  ⟨job, h, rfl⟩

section

variable {s : Settings} {ext : String} {l : Location} {on : Stage → Prop} {stage : Stage}
  {m : Location} (hon : on stage)
include hon

theorem FileAt.product (h : FileAt s ext stage m) : (charter s ext l on).product (l ++ m) :=
  ⟨stage, m, hon, h, rfl⟩

theorem DirAt.directory (h : DirAt s stage m) : (charter s ext l on).directory (l ++ m) :=
  ⟨stage, m, hon, h, rfl⟩

end

/-! ## Names -/

theorem lacks_extension (subject : Subject) : Lacks '/' subject.extension := by
  unfold Subject.extension
  cases subject.language <;> decide

theorem isName_numbered {front ending : String} (h : IsFront front) (i : Nat)
    (he : Lacks '/' ending) : IsName (front ++ natText i ++ ending) :=
  ((h.append (lacks_natText (by decide) i)).append he).isName

theorem names_extract (subject : Subject) :
    ∀ k ∈ [Artifacts.sliceStem ++ "." ++ subject.extension], IsName k := by
  have hfront : IsFront (Artifacts.sliceStem ++ ".") := by decide
  simpa using (hfront.append (lacks_extension subject)).isName

theorem names_reduced (subject : Subject) :
    ∀ k ∈ [Artifacts.reducedDir, Artifacts.reducedStem ++ "." ++ subject.extension], IsName k := by
  have hdir : IsName Artifacts.reducedDir := by decide
  have hfront : IsFront (Artifacts.reducedStem ++ ".") := by decide
  simpa using ⟨hdir, (hfront.append (lacks_extension subject)).isName⟩

theorem Pass.names_product (p : Pass) (subject : Subject) :
    ∀ k ∈ [p.productName subject.extension], IsName k := by
  have hfront : IsFront (p.title ++ "_sliced.") := by cases p <;> decide
  simpa [productName] using (hfront.append (lacks_extension subject)).isName

theorem Reducer.names_product (r : Reducer) (subject : Subject) :
    ∀ k ∈ [r.productName subject.extension], IsName k := by
  have hfront : IsFront (r.title ++ "_reduced.") := by cases r <;> decide
  simpa [productName] using (hfront.append (lacks_extension subject)).isName

theorem Pass.extract_ne_productName (p : Pass) (ext : String) :
    Artifacts.sliceStem ++ "." ++ ext ≠ p.productName ext := by
  have hfront : Diverge (Artifacts.sliceStem ++ ".") (p.title ++ "_sliced.") := by
    cases p <;> decide
  exact hfront.append_ne _ _

end Whittle.Pipeline
