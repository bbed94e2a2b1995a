import Whittle.Proofs.Pipeline.Adoption
import Whittle.Proofs.Pipeline.Products

/-!
# How a stage ends

Whatever its tools do, a stage ends (`runStage_ends`): with the program it was given, or with the
product of its tool under the name that is its own (`Ends`). A record says which of the two it was.
-/

namespace Whittle.Pipeline

open Text Disk

/-- The tool whose product a stage may adopt. -/
def toolOf (s : Settings) : Stage → Option Path
  | .staticSlice => some s.tools.sliceExtractor
  | .dynamicSlice => some s.tools.sliceExtractor
  | .graphReduce => some s.tools.graphReducer
  | .statementReduce => some s.tools.statementReducer
  | _ => none

/-- Where that tool leaves its product, seen from the work directory. -/
def leftAt (ext : String) : Stage → Location
  | .graphReduce => [Artifacts.reducedDir, Artifacts.reducedStem ++ "." ++ ext]
  | .statementReduce => [Artifacts.reducedDir, Artifacts.reducedStem ++ "." ++ ext]
  | _ => [Artifacts.sliceStem ++ "." ++ ext]

/-- A stage leaves the program as it was, or adopts the product of its tool and says so. -/
inductive Ends (host : Host) (s : Settings) (l : Location) (stage : Stage) (p p' : Progress)
    (site site' : Site) : Prop
  | kept (subject : p'.subject = p.subject) (new : List StageRecord)
    (records : p'.records = p.records ++ new) (plain : ∀ r ∈ new, r.outcome ≠ .adopted)
  | adopted (front detail : String) (program : Path) (name : productFront stage = some front)
    (tool : toolOf s stage = some program)
    (records : p'.records = p.records ++ [⟨stage, .adopted, detail⟩])
    (adoption : Adoption host program (pathOf (l ++ leftAt p.subject.extension stage))
      (pathOf (l ++ [front ++ p.subject.extension])) p.subject p'.subject site site')

theorem announce_apply (r : StageRecord) (w : World) :
    ∃ notices, announce r w = (.ok (), { w with notices := notices }) := by
  unfold announce
  split
  · exact ⟨_, rfl⟩
  · exact ⟨w.notices, rfl⟩

theorem record_apply (p : Progress) (stage : Stage) (outcome : Outcome) (detail : String)
    (w : World) :
    ∃ notices, p.record stage outcome detail w =
      (.ok { p with records := p.records ++ [⟨stage, outcome, detail⟩] },
        { w with notices := notices }) := by
  obtain ⟨notices, h⟩ := announce_apply ⟨stage, outcome, detail⟩ w
  exact ⟨notices, bind_of_ok h⟩

theorem adoptOrKeep_ok (p : Progress) (stage : Stage) (next : Subject) (w : World) :
    ∃ notices, p.adoptOrKeep stage (.ok next) w =
      (.ok { p with subject := next, records := p.records ++ [⟨stage, .adopted, next.detail⟩] },
        { w with notices := notices }) := by
  obtain ⟨notices, h⟩ := record_apply p stage .adopted next.detail w
  exact ⟨notices, bind_of_ok h⟩

theorem lift_apply {α : Type} {a : Action α} {s : Site} {r : Except Fault α} {w : World}
    (h : a s.world = (r, w)) : (liftM a : Work α) s = (r, { s with world := w }) := by
  show ((a s.world).1, { s with world := (a s.world).2 }) = _
  rw [h]

section

variable {host : Host} {s : Settings} {l : Location} {p : Progress} {stage : Stage} {site : Site}

/-- An attempt at a new program ends with the program it made, or with the one before. -/
theorem attempt_ends {a : Work Subject} {front : String} {program : Path}
    (hname : productFront stage = some front) (htool : toolOf s stage = some program)
    (hadopt : ∀ next site₁, a site = (.ok next, site₁) →
      ((Work.attempt a >>= fun r => liftM (p.adoptOrKeep stage r) : Work Progress)
        site).2.world.calls = site₁.world.calls →
      Adoption host program (pathOf (l ++ leftAt p.subject.extension stage))
        (pathOf (l ++ [front ++ p.subject.extension])) p.subject next site site₁) :
    ∃ p' site', (Work.attempt a >>= fun r => liftM (p.adoptOrKeep stage r) : Work Progress) site =
        (.ok p', site') ∧ Ends host s l stage p p' site site' := by
  cases ha : a site with
  | mk r site₁ =>
    have hattempt : Work.attempt a site = (.ok r, site₁) := by rw [Work.attempt, ha]
    rw [bind_of_ok hattempt] at hadopt ⊢
    cases r with
    | ok next =>
      obtain ⟨notices, h⟩ := adoptOrKeep_ok p stage next site₁.world
      rw [lift_apply h] at hadopt ⊢
      obtain ⟨htext, horigin⟩ := hadopt next site₁ ha rfl
      exact ⟨_, _, rfl, .adopted front _ program hname htool rfl ⟨htext, horigin⟩⟩
    | error e =>
      obtain ⟨notices, h⟩ := record_apply p stage .keptPrevious e.message site₁.world
      rw [lift_apply (show p.adoptOrKeep stage (.error e) site₁.world = _ from h)]
      exact ⟨_, _, rfl, .kept rfl _ rfl (by simp)⟩

theorem criteria_apply (subject : Subject) :
    ∃ cs site', criteria host s subject site = (.ok cs, site') := by
  unfold criteria
  cases h : tryCriteria host s subject site with
  | mk r site₁ =>
    have hattempt : Work.attempt (tryCriteria host s subject) site = (.ok r, site₁) := by
      rw [Work.attempt, h]
    rw [bind_of_ok hattempt]
    cases r with
    | ok cs => exact ⟨cs, site₁, rfl⟩
    | error e => exact ⟨[], _, rfl⟩

end

/-! ### Stages that adopt -/

theorem Pass.runStage_stage (host : Host) (s : Settings) (pass : Pass) (p : Progress) :
    runStage host s pass.stage p = slicingStage host s pass p := by cases pass <;> rfl

theorem Pass.toolOf_stage (s : Settings) (pass : Pass) :
    toolOf s pass.stage = some s.tools.sliceExtractor := by cases pass <;> rfl

theorem Pass.leftAt_stage (ext : String) (pass : Pass) :
    leftAt ext pass.stage = [Artifacts.sliceStem ++ "." ++ ext] := by cases pass <;> rfl

theorem Pass.productFront_stage (pass : Pass) :
    productFront pass.stage = some (pass.title ++ "_sliced.") := by cases pass <;> rfl

theorem Reducer.runStage_stage (host : Host) (s : Settings) (reducer : Reducer) (p : Progress) :
    runStage host s reducer.stage p = reducerStage host s reducer p := by cases reducer <;> rfl

theorem Reducer.toolOf_stage (s : Settings) (reducer : Reducer) :
    toolOf s reducer.stage = some (reducer.program s) := by cases reducer <;> rfl

theorem Reducer.leftAt_stage (ext : String) (reducer : Reducer) :
    leftAt ext reducer.stage = [Artifacts.reducedDir, Artifacts.reducedStem ++ "." ++ ext] := by
  cases reducer <;> rfl

theorem Reducer.productFront_stage (reducer : Reducer) :
    productFront reducer.stage = some (reducer.title ++ "_reduced.") := by cases reducer <;> rfl

section

variable {q : Path} {free : Location → Prop} (hp : Permits (Spares q) free) {host : Host}
  {s : Settings} {l : Location} {p : Progress} {stage : Stage} {site : Site}
  (hl : ∀ n ∈ l, IsName n) (hroot : site.workspace.root = pathOf l) (hmount : Mounts s)
  (hd : site.world.disk.Linkless) (hline : 1 ≤ p.subject.failureLine)
  (htouch : ∀ m, Touches s p.subject.extension stage m → free (l ++ m))
  (hanswered : ∀ made, (runStage host s stage p site).2.world.calls = site.world.calls ++ made →
    Answered host (Spares q) site.world.calls made)
include hp hl hroot hd hline htouch hanswered

include hmount in
theorem slicing_ends (pass : Pass) (hstage : stage = pass.stage) :
    ∃ p' site', runStage host s stage p site = (.ok p', site') ∧
      Ends host s l stage p p' site site' := by
  subst hstage
  rw [pass.runStage_stage] at hanswered ⊢
  unfold slicingStage at hanswered ⊢
  split
  · obtain ⟨notices, h⟩ := record_apply p pass.stage .keptPrevious "no criteria" site.world
    exact ⟨_, _, lift_apply h, .kept rfl _ rfl (by simp)⟩
  · rename_i hcriteria
    rw [if_neg hcriteria] at hanswered
    refine attempt_ends pass.productFront_stage (pass.toolOf_stage s) fun next site₁ ha hcalls => ?_
    rw [pass.leftAt_stage]
    refine passRun_adoption hp hl hroot hmount hd hline (fun made hmade => ?_) htouch ha
    exact hanswered made (hcalls.trans hmade)

theorem reducing_ends (reducer : Reducer) (hstage : stage = reducer.stage) :
    ∃ p' site', runStage host s stage p site = (.ok p', site') ∧
      Ends host s l stage p p' site site' := by
  subst hstage
  rw [reducer.runStage_stage] at hanswered ⊢
  refine attempt_ends reducer.productFront_stage (reducer.toolOf_stage s)
    fun next site₁ ha hcalls => ?_
  rw [reducer.leftAt_stage]
  refine reducerRun_adoption hp hl hroot hd hline (fun made hmade => ?_) htouch ha
  exact hanswered made (hcalls.trans hmade)

include hmount in
/-- A stage never fails. It leaves the program as it was, or adopts what its tool left. -/
theorem runStage_ends :
    ∃ p' site', runStage host s stage p site = (.ok p', site') ∧
      Ends host s l stage p p' site site' := by
  have hkeep : ∃ p' site', (pure p : Work Progress) site = (.ok p', site') ∧
      Ends host s l stage p p' site site' :=
    ⟨p, site, rfl, .kept rfl [] (by simp) (by simp)⟩
  cases stage with
  | extractCriteria =>
    obtain ⟨cs, site₁, hcs⟩ := @criteria_apply host s site p.subject
    let listed := String.intercalate ", " (cs.map Criterion.text)
    obtain ⟨notices, h⟩ := record_apply p .extractCriteria .completed
      (natText cs.length ++ " criteria [" ++ listed ++ "]") site₁.world
    exact ⟨_, _, (bind_of_ok hcs).trans (bind_of_ok (lift_apply h)), .kept rfl _ rfl (by simp)⟩
  | staticSlice => exact slicing_ends hp hl hroot hmount hd hline htouch hanswered .static rfl
  | dynamicSlice => exact slicing_ends hp hl hroot hmount hd hline htouch hanswered .dynamic rfl
  | graphReduce => exact reducing_ends hp hl hroot hd hline htouch hanswered .graph rfl
  | statementReduce => exact reducing_ends hp hl hroot hd hline htouch hanswered .statement rfl
  | init => exact hkeep
  | validate => exact hkeep
  | save => exact hkeep
  | cleanup => exact hkeep
  | done => exact hkeep

end

end Whittle.Pipeline
