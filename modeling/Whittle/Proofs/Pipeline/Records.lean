import Whittle.Proofs.Pipeline.Saving
import Whittle.Proofs.Pipeline.Soundness

/-!
# What the records of a run say

Every stage leaves one record. That of a stage which may change the program says whether it did, and
names the program that is then current (`runStage_recorded`). So the records of a whole run tell
where its last program came from (`run_reports`), whatever the tools did.
-/

namespace Whittle

open Text

/-! ## Details -/

/-- What stands behind the last occurrence of a character, and what stands before it. -/
theorem append_cons_inj_of_lacking {α : Type} {c : α} {as bs xs ys : List α} (hx : c ∉ xs)
    (hy : c ∉ ys) (h : as ++ c :: xs = bs ++ c :: ys) : as = bs ∧ xs = ys := by
  rcases List.append_eq_append_iff.mp h with ⟨zs, hbs, hxs⟩ | ⟨zs, has, hys⟩
  · cases zs with
    | nil =>
      simp only [List.nil_append, List.cons.injEq, true_and] at hxs
      exact ⟨by simpa using hbs.symm, hxs⟩
    | cons z zs =>
      simp only [List.cons_append, List.cons.injEq] at hxs
      exact absurd (hxs.2 ▸ by simp) hx
  · cases zs with
    | nil =>
      simp only [List.nil_append, List.cons.injEq, true_and] at hys
      exact ⟨by simpa using has, hys.symm⟩
    | cons z zs =>
      simp only [List.cons_append, List.cons.injEq] at hys
      exact absurd (hys.2 ▸ by simp) hy

namespace Subject

/-- The source and the failure line of a program are those that a detail names. -/
def NamedBy (s : Subject) (detail : String) : Prop :=
  ∀ t : Subject, t.detail = detail ↔ t.source = s.source ∧ t.failureLine = s.failureLine

theorem detail_toList (s : Subject) :
    s.detail.toList = (s.source.text ++ " line").toList ++ ' ' :: (natText s.failureLine).toList := by
  simp [detail]

/-- A detail names one source and one failure line: there is no blank in a number. -/
theorem namedBy_detail (s : Subject) : s.NamedBy s.detail := by
  intro t
  constructor
  · intro h
    have hchars := congrArg String.toList h
    rw [detail_toList, detail_toList] at hchars
    obtain ⟨hsource, hline⟩ := append_cons_inj_of_lacking (lacks_natText (by decide) _)
      (lacks_natText (by decide) _) hchars
    have hsource : t.source.text = s.source.text := by
      simpa only [String.toList_inj, String.append_left_inj] using hsource
    exact ⟨congrArg Path.mk hsource, natText_injective (String.toList_inj.mp hline)⟩
  · rintro ⟨hsource, hline⟩
    rw [detail, detail, hsource, hline]

end Subject

namespace Pipeline

/-! ## What a stage tries -/

/-- The program that a stage tries to make; `none` where it does not try. -/
def attemptOf (host : Host) (s : Settings) (p : Progress) : Stage → Option (Work Subject)
  | .staticSlice => slicing .static
  | .dynamicSlice => slicing .dynamic
  | .graphReduce => some (Reducer.graph.run host s p.subject)
  | .statementReduce => some (Reducer.statement.run host s p.subject)
  | _ => none
where
  slicing (pass : Pass) : Option (Work Subject) :=
    if p.criteria = [] then none else some (pass.run host s p.subject p.criteria)

/-- The program that a stage puts in the place of the one before, if it makes one. -/
def replacement (host : Host) (s : Settings) (stage : Stage) (p : Progress) (site : Site) :
    Option Subject :=
  (attemptOf host s p stage).bind fun attempt => (attempt site).1.toOption

section

variable {host : Host} {s : Settings} {subject next : Subject} {site site' : Site}

theorem adoptExtract_adopts {e : Extract} {owner : Stage} {name : String}
    (h : adoptExtract subject e owner name site = (.ok next, site')) :
    ∃ source line, next = subject.adopt source line := by
  obtain ⟨d, s₁, -, h⟩ := bind_eq_ok h
  split at h
  · cases h
  · obtain ⟨line, s₂, -, h⟩ := bind_eq_ok h
    obtain ⟨product, s₃, -, h⟩ := bind_eq_ok h
    obtain ⟨count, s₄, -, h⟩ := bind_eq_ok h
    dsimp only at h
    split at h
    · cases h
    · obtain ⟨rfl, -⟩ := pure_eq_ok h
      exact ⟨product, line, rfl⟩

theorem passRun_adopts {pass : Pass} {cs : List Criterion}
    (h : pass.run host s subject cs site = (.ok next, site')) :
    ∃ source line, next = subject.adopt source line := by
  obtain ⟨unionFile, s₁, -, h⟩ := bind_eq_ok h
  obtain ⟨e, s₂, -, h⟩ := bind_eq_ok h
  exact adoptExtract_adopts h

theorem reducerAdopt_adopts {r : Reducer} {result : Reducer.Result}
    (h : r.adopt s subject result site = (.ok next, site')) :
    ∃ source line, next = subject.adopt source line := by
  obtain ⟨d, s₁, -, h⟩ := bind_eq_ok h
  cases houtput : r.productOf s subject d result with
  | error e =>
    rw [houtput] at h
    cases h
  | ok output =>
    rw [houtput] at h
    obtain ⟨product, s₂, -, h⟩ := bind_eq_ok h
    obtain ⟨count, s₃, -, h⟩ := bind_eq_ok h
    dsimp only at h
    split at h
    · cases h
    · obtain ⟨w, s₄, -, h⟩ := bind_eq_ok h
      obtain ⟨reported, s₅, -, h⟩ := bind_eq_ok h
      obtain ⟨line, s₆, -, h⟩ := bind_eq_ok h
      obtain ⟨rfl, -⟩ := pure_eq_ok h
      exact ⟨product, line, rfl⟩

/-- Only the source and the failure line of a program are ever replaced. -/
theorem replacement_adopts {stage : Stage} {p : Progress}
    (h : replacement host s stage p site = some next) :
    ∃ source line, next = p.subject.adopt source line := by
  obtain ⟨attempt, hattempt, hnext⟩ := Option.bind_eq_some_iff.mp h
  cases hrun : attempt site with
  | mk r site' =>
    rw [hrun] at hnext
    cases r with
    | error e => cases hnext
    | ok made =>
      cases hnext
      have hslicing : ∀ pass, attemptOf.slicing host s p pass = some attempt →
          ∃ source line, next = p.subject.adopt source line := by
        intro pass hpass
        unfold attemptOf.slicing at hpass
        split at hpass
        · cases hpass
        · cases hpass
          exact passRun_adopts hrun
      have hreducing : ∀ r : Reducer, some (r.run host s p.subject) = some attempt →
          ∃ source line, next = p.subject.adopt source line := by
        intro r hr
        cases hr
        obtain ⟨result, site₁, -, hadopt⟩ := bind_eq_ok hrun
        exact reducerAdopt_adopts hadopt
      cases stage with
      | staticSlice => exact hslicing .static hattempt
      | dynamicSlice => exact hslicing .dynamic hattempt
      | graphReduce => exact hreducing .graph hattempt
      | statementReduce => exact hreducing .statement hattempt
      | init | validate | extractCriteria | save | cleanup | done => cases hattempt

end

/-! ## The record of a stage -/

/-- How a stage may be recorded to have ended that was not left out, given where the program was
saved. -/
def endings (saved : Option Path) : Stage → List Outcome
  | .staticSlice | .dynamicSlice | .graphReduce | .statementReduce => [.adopted, .keptPrevious]
  | .save => [if saved.isSome then .completed else .failed]
  | _ => [.completed]

/-- How a stage may be recorded to have ended. -/
def outcomes (s : Settings) (saved : Option Path) (stage : Stage) : List Outcome :=
  if s.enables stage then endings saved stage else [.skipped]

/-- A stage that was to put `next` in the place of the program has done so, and has left one record
that says so. -/
structure Recorded (stage : Stage) (next : Option Subject) (p p' : Progress) (r : StageRecord) :
    Prop where
  records : p'.records = p.records ++ [r]
  stage : r.stage = stage
  subject : p'.subject = next.getD p.subject
  adopted : r.outcome = .adopted ↔ next.isSome
  named : r.outcome = .adopted → r.detail = p'.subject.detail

section

variable (host : Host) {s : Settings} (p : Progress) {stage : Stage} (site : Site)

theorem attempt_recorded (a : Work Subject) :
    ∃ p' site' r, (Work.attempt a >>= fun r => liftM (p.adoptOrKeep stage r) : Work Progress) site =
        (.ok p', site') ∧ Recorded stage (a site).1.toOption p p' r ∧
      r.outcome ∈ [.adopted, .keptPrevious] := by
  cases ha : a site with
  | mk result site₁ =>
    have hattempt : Work.attempt a site = (.ok result, site₁) := by rw [Work.attempt, ha]
    rw [bind_of_ok hattempt]
    cases result with
    | ok next =>
      obtain ⟨notices, h⟩ := adoptOrKeep_ok p stage next site₁.world
      exact ⟨_, _, _, lift_apply h, ⟨rfl, rfl, rfl, by simp [Except.toOption], fun _ => rfl⟩,
        List.mem_cons_self⟩
    | error e =>
      obtain ⟨notices, h⟩ := record_apply p stage .keptPrevious e.message site₁.world
      refine ⟨_, _, _, lift_apply (show p.adoptOrKeep stage (.error e) site₁.world = _ from h),
        ⟨rfl, rfl, rfl, by simp [Except.toOption], by simp⟩, by simp⟩

theorem slicing_recorded (pass : Pass) :
    ∃ p' site' r, slicingStage host s pass p site = (.ok p', site') ∧
      Recorded pass.stage (replacement host s pass.stage p site) p p' r ∧
      r.outcome ∈ [.adopted, .keptPrevious] := by
  have hattempt : attemptOf host s p pass.stage = attemptOf.slicing host s p pass := by
    cases pass <;> rfl
  unfold replacement slicingStage
  rw [hattempt, attemptOf.slicing]
  split
  · obtain ⟨notices, h⟩ := record_apply p pass.stage .keptPrevious "no criteria" site.world
    exact ⟨_, _, _, lift_apply h, ⟨rfl, rfl, rfl, by simp, by simp⟩, by simp⟩
  · exact attempt_recorded p site (pass.run host s p.subject p.criteria)

theorem reducing_recorded (reducer : Reducer) :
    ∃ p' site' r, reducerStage host s reducer p site = (.ok p', site') ∧
      Recorded reducer.stage (replacement host s reducer.stage p site) p p' r ∧
      r.outcome ∈ [.adopted, .keptPrevious] := by
  have hattempt : attemptOf host s p reducer.stage = some (reducer.run host s p.subject) := by
    cases reducer <;> rfl
  unfold replacement
  rw [hattempt]
  exact attempt_recorded p site (reducer.run host s p.subject)

/-- A stage of a run ends whatever its tools do, and its one record says whether it has replaced the
program. -/
theorem runStage_recorded (saved : Option Path) (hstage : stage ∈ workStages s) :
    ∃ p' site' r, runStage host s stage p site = (.ok p', site') ∧
      Recorded stage (replacement host s stage p site) p p' r ∧
      r.outcome ∈ endings saved stage := by
  cases stage with
  | extractCriteria =>
    obtain ⟨cs, site₁, hcs⟩ := @criteria_apply host s site p.subject
    let listed := String.intercalate ", " (cs.map Criterion.text)
    obtain ⟨notices, h⟩ := record_apply p .extractCriteria .completed
      (natText cs.length ++ " criteria [" ++ listed ++ "]") site₁.world
    exact ⟨_, _, _, (bind_of_ok hcs).trans (bind_of_ok (lift_apply h)),
      ⟨rfl, rfl, rfl, by simp [replacement, attemptOf], by simp⟩, List.mem_cons_self⟩
  | staticSlice => exact slicing_recorded host p site .static
  | dynamicSlice => exact slicing_recorded host p site .dynamic
  | graphReduce => exact reducing_recorded host p site .graph
  | statementReduce => exact reducing_recorded host p site .statement
  | init | validate | save | cleanup | done => simp [workStages] at hstage

end

/-! ## The records of a run -/

/-- The last record of a stage that has replaced the program. -/
def lastAdoption (records : List StageRecord) : Option StageRecord :=
  records.reverse.find? fun r => r.outcome = .adopted

/-- A program is the one that the last adoption names, and the first one if there was none. Language
and arguments are those of the first one. -/
structure Traces (first : Subject) (records : List StageRecord) (last : Subject) : Prop where
  named : ∀ r, lastAdoption records = some r → last.NamedBy r.detail
  kept : lastAdoption records = none → last = first
  language : last.language = first.language
  arguments : last.arguments = first.arguments

theorem lastAdoption_concat (records : List StageRecord) {r : StageRecord}
    (h : r.outcome = .adopted) : lastAdoption (records ++ [r]) = some r := by
  simp [lastAdoption, h]

theorem lastAdoption_append (records : List StageRecord) {new : List StageRecord}
    (h : ∀ r ∈ new, r.outcome ≠ .adopted) :
    lastAdoption (records ++ new) = lastAdoption records := by
  have hnew : (new.reverse.find? fun r => r.outcome = .adopted) = none := by simpa using h
  unfold lastAdoption
  rw [List.reverse_append, List.find?_append, hnew, Option.none_or]

/-- Records that are no adoptions tell nothing new. -/
theorem Traces.append {first last : Subject} {records new : List StageRecord}
    (h : Traces first records last) (hnew : ∀ r ∈ new, r.outcome ≠ .adopted) :
    Traces first (records ++ new) last := by
  have hsame := lastAdoption_append records hnew
  exact ⟨hsame ▸ h.named, hsame ▸ h.kept, h.language, h.arguments⟩

theorem Traces.refl {first : Subject} {records : List StageRecord}
    (h : ∀ r ∈ records, r.outcome ≠ .adopted) : Traces first records first := by
  have hnone : Traces first [] first := ⟨nofun, fun _ => rfl, rfl, rfl⟩
  simpa using hnone.append h

theorem Recorded.traces {first : Subject} {host : Host} {s : Settings} {stage : Stage}
    {p p' : Progress} {site : Site} {r : StageRecord}
    (h : Recorded stage (replacement host s stage p site) p p' r)
    (hp : Traces first p.records p.subject) : Traces first p'.records p'.subject := by
  rw [h.records]
  cases hnext : replacement host s stage p site with
  | none =>
    have hplain : r.outcome ≠ .adopted := by
      rw [Ne, h.adopted, hnext]
      decide
    have hsubject : p'.subject = p.subject := by rw [h.subject, hnext, Option.getD_none]
    rw [hsubject]
    exact hp.append (by simpa using hplain)
  | some next =>
    have hadopted : r.outcome = .adopted := by rw [h.adopted, hnext, Option.isSome_some]
    obtain ⟨source, line, hmade⟩ := replacement_adopts hnext
    have hsubject : p'.subject = p.subject.adopt source line := by
      rw [h.subject, hnext, Option.getD_some, hmade]
    have hlast := lastAdoption_concat p.records hadopted
    refine ⟨fun last hr => ?_, fun hnone => ?_, ?_, ?_⟩
    · rw [hlast] at hr
      cases hr
      rw [h.named hadopted]
      exact p'.subject.namedBy_detail
    · rw [hlast] at hnone
      cases hnone
    · rw [hsubject]
      exact hp.language
    · rw [hsubject]
      exact hp.arguments

/-- The records that a row of stages has left. -/
structure Told (saved : Option Path) (stages : List Stage) (p p' : Progress) : Prop where
  records : ∃ new, p'.records = p.records ++ new ∧ new.map StageRecord.stage = stages ∧
    ∀ r ∈ new, r.outcome ∈ endings saved r.stage
  traces : ∀ first, Traces first p.records p.subject → Traces first p'.records p'.subject

section

variable {host : Host} {s : Settings} {saved : Option Path} {p p' p'' : Progress} {site site' : Site}
  {stage : Stage} {stages : List Stage}

theorem Told.refl (p : Progress) : Told saved [] p p :=
  ⟨⟨[], by simp, rfl, by simp⟩, fun _ h => h⟩

theorem Recorded.told {r : StageRecord} (h : Recorded stage (replacement host s stage p site) p p' r)
    (hr : r.outcome ∈ endings saved stage) (hrest : Told saved stages p' p'') :
    Told saved (stage :: stages) p p'' := by
  obtain ⟨new, hnew, hstages, hendings⟩ := hrest.records
  refine ⟨⟨r :: new, ?_, ?_, ?_⟩, fun first hp => hrest.traces first (h.traces hp)⟩
  · rw [hnew, h.records, List.append_assoc, List.singleton_append]
  · rw [List.map_cons, h.stage, hstages]
  · rintro x hx
    rcases List.mem_cons.mp hx with rfl | hx
    · rwa [h.stage]
    · exact hendings x hx

/-- Stages run to their end, and leave one record each, in order. -/
theorem runStages_told (host : Host) (p : Progress) (site : Site) (saved : Option Path)
    (hstages : ∀ stage ∈ stages, stage ∈ workStages s) :
    ∃ p' site', runStages host s stages p site = (.ok p', site') ∧ Told saved stages p p' := by
  induction stages generalizing p site with
  | nil => exact ⟨p, site, rfl, .refl p⟩
  | cons stage stages ih =>
    obtain ⟨p₁, site₁, r, hrun, hrecorded, hr⟩ :=
      runStage_recorded host p site saved (hstages stage List.mem_cons_self)
    obtain ⟨p', site', hrest, htold⟩ := ih p₁ site₁ fun x hx => hstages x (List.mem_cons_of_mem _ hx)
    exact ⟨p', site', (bind_of_ok hrun).trans hrest, hrecorded.told hr htold⟩

theorem runStages_append {done rest : List Stage}
    (h : runStages host s done p site = (.ok p', site')) :
    runStages host s (done ++ rest) p site = runStages host s rest p' site' := by
  induction done generalizing p site with
  | nil =>
    cases h
    rfl
  | cons first done ih =>
    obtain ⟨p₁, site₁, hfirst, hdone⟩ := bind_eq_ok h
    exact (bind_of_ok hfirst).trans (ih hdone)

end

/-- Saving leaves one record, which says whether the program was saved. -/
theorem save_recorded {s : Settings} {p next : Progress} {saved : Option Path} {w w' : World}
    (h : save s p w = (.ok (next, saved), w')) :
    ∃ r, next.records = p.records ++ [r] ∧ r.stage = .save ∧ r.outcome ∈ endings saved .save ∧
      next.subject = p.subject := by
  obtain ⟨d, w₁, -, h⟩ := bind_eq_ok h
  obtain ⟨_, w₂, -, h⟩ := bind_eq_ok h
  generalize saveFirst s.outputPath [p.subject.source, s.sourceFile] [] d = tried at h
  obtain ⟨result, d'⟩ := tried
  cases result with
  | ok candidate =>
    obtain ⟨q, w₃, hrecord, h⟩ := bind_eq_ok h
    obtain ⟨notices, happly⟩ := record_apply p .save .completed
      (candidate.text ++ " -> " ++ s.outputPath.text) w₂
    cases happly.symm.trans hrecord
    cases h
    exact ⟨_, rfl, rfl, List.mem_cons_self, rfl⟩
  | error problems =>
    obtain ⟨_, w₃, -, h⟩ := bind_eq_ok h
    obtain ⟨q, w₄, hrecord, h⟩ := bind_eq_ok h
    obtain ⟨notices, happly⟩ := record_apply p .save .failed (Fault.notSaved problems).message w₃
    cases happly.symm.trans hrecord
    cases h
    exact ⟨_, rfl, rfl, List.mem_cons_self, rfl⟩

/-! ## The report -/

/-- A stage of a run has replaced the program. -/
def Replaces (host : Host) (b : Start) (w : World) (stage : Stage) : Prop :=
  ∃ done rest p site, workStages b.settings = done ++ stage :: rest ∧
    runStages host b.settings done b.progress ⟨w, b.workspace⟩ = (.ok p, site) ∧
    (replacement host b.settings stage p site).isSome

/-- What a report tells about the run that began with `b`. -/
structure Tells (host : Host) (given : Settings) (b : Start) (w : World) (report : Report) :
    Prop where
  once : ∀ stage, (report.stages.map StageRecord.stage).count stage = 1
  outcomes : ∀ r ∈ report.stages, r.outcome ∈ outcomes given report.outputPath r.stage
  final : ∃ last site,
    runStages host b.settings (workStages b.settings) b.progress ⟨w, b.workspace⟩ =
      (.ok last, site) ∧
    report.finalState = some last.subject ∧
    Traces b.progress.subject report.stages last.subject
  steps : ∀ done stage rest, workStages b.settings = done ++ stage :: rest →
    ∃ p site p' site',
      runStages host b.settings done b.progress ⟨w, b.workspace⟩ = (.ok p, site) ∧
      runStage host b.settings stage p site = (.ok p', site') ∧
      p'.subject = (replacement host b.settings stage p site).getD p.subject
  replaced : ∀ stage, outcomeOf report.stages stage = some .adopted ↔ Replaces host b w stage

/-- The outcome of a stage is that of its record, if it has one only. -/
theorem outcomeOf_of_mem {records : List StageRecord} {r : StageRecord} (hr : r ∈ records)
    (honce : (records.map StageRecord.stage).count r.stage = 1) :
    outcomeOf records r.stage = some r.outcome := by
  unfold outcomeOf
  cases hfind : records.reverse.find? fun x => x.stage = r.stage with
  | none =>
    have := List.find?_eq_none.mp hfind r (List.mem_reverse.mpr hr)
    simp at this
  | some x =>
    have hstage : x.stage = r.stage := by simpa using List.find?_some hfind
    have hx : x ∈ records := List.mem_reverse.mp (List.mem_of_find?_eq_some hfind)
    obtain ⟨before, behind, rfl⟩ := List.append_of_mem hx
    have hnone : r.stage ∉ before.map StageRecord.stage ∧
        r.stage ∉ behind.map StageRecord.stage := by
      simp only [List.map_append, List.map_cons, List.count_append, hstage, List.count_cons_self]
        at honce
      exact ⟨List.count_eq_zero.mp (by omega), List.count_eq_zero.mp (by omega)⟩
    have hrx : r = x := by
      rcases List.mem_append.mp hr with hr | hr
      · exact absurd (List.mem_map_of_mem hr) hnone.1
      · rcases List.mem_cons.mp hr with rfl | hr
        · rfl
        · exact absurd (List.mem_map_of_mem hr) hnone.2
    rw [Option.map_some, hrx]

/-- The stages in the order in which they are reported: those that are left out come first. -/
def reportOrder (s : Settings) : List Stage :=
  [.init, .validate] ++ (optionalStages.filter fun x => !s.enables x) ++ workStages s ++
    [.save, .cleanup, .done]

theorem count_reportOrder (s : Settings) (stage : Stage) : (reportOrder s).count stage = 1 := by
  have hwork : workStages s = optionalStages.filter s.enables ++ [Stage.statementReduce] := by
    have hlast : s.enables .statementReduce = true := rfl
    show (optionalStages ++ [Stage.statementReduce]).filter s.enables = _
    rw [List.filter_append, List.filter_cons_of_pos hlast, List.filter_nil]
  have hsplit : (optionalStages.filter fun x => !s.enables x).count stage +
      (optionalStages.filter s.enables).count stage = optionalStages.count stage := by
    have := (List.filter_append_perm s.enables optionalStages).count_eq stage
    rw [List.count_append] at this
    omega
  have hall : ([Stage.init, .validate].count stage + optionalStages.count stage +
      [Stage.statementReduce].count stage + [Stage.save, .cleanup, .done].count stage) = 1 := by
    cases stage <;> rfl
  rw [reportOrder, hwork]
  simp only [List.count_append]
  omega

theorem mem_workStages_of_adopted {s : Settings} {saved : Option Path} {stage : Stage}
    (h : .adopted ∈ outcomes s saved stage) : stage ∈ workStages s := by
  unfold outcomes at h
  split at h
  · rename_i henabled
    refine List.mem_filter.mpr ⟨?_, henabled⟩
    cases stage with
    | save => cases saved <;> simp [endings] at h
    | init | validate | extractCriteria | cleanup | done => simp [endings] at h
    | staticSlice | dynamicSlice | graphReduce | statementReduce => decide
  · simp at h

section

variable {host : Host} {s : Settings} {p₀ last : Progress} {site₀ site₁ : Site}
  (hrun : runStages host s (workStages s) p₀ site₀ = (.ok last, site₁))
include hrun

/-- The record that a stage has left is still there when all stages are through. -/
theorem runStages_step (saved : Option Path) {done rest : List Stage} {stage : Stage}
    (hsplit : workStages s = done ++ stage :: rest) :
    ∃ p site p' site' r, runStages host s done p₀ site₀ = (.ok p, site) ∧
      runStage host s stage p site = (.ok p', site') ∧
      Recorded stage (replacement host s stage p site) p p' r ∧
      r ∈ last.records := by
  have hmem : ∀ x, x ∈ done ∨ x = stage ∨ x ∈ rest → x ∈ workStages s := by
    intro x hx
    simpa [hsplit] using hx
  obtain ⟨p, site, hdone, -⟩ := runStages_told host p₀ site₀ saved
    fun x hx => hmem x (.inl hx)
  obtain ⟨p', site', r, hstage, hrecorded, -⟩ := runStage_recorded host p site saved
    (hmem stage (.inr (.inl rfl)))
  obtain ⟨p'', site'', hrest, htold⟩ := runStages_told host p' site' saved
    fun x hx => hmem x (.inr (.inr hx))
  have hall : runStages host s (workStages s) p₀ site₀ = (.ok p'', site'') := by
    rw [hsplit, runStages_append hdone]
    exact (bind_of_ok hstage).trans hrest
  cases hall.symm.trans hrun
  obtain ⟨new, hnew, -⟩ := htold.records
  refine ⟨p, site, p', site', r, hdone, hstage, hrecorded, ?_⟩
  rw [hnew, hrecorded.records]
  simp

end

/-! ### The first and the last records -/

theorem start_told {host : Host} {given : Settings} {base : Path} {w w' : World} {b : Start}
    (h : start host given base w = (.ok b, w')) :
    b.settings.enables = given.enables ∧
      (∃ language, b.progress.subject = Subject.initial b.settings language) ∧
      ∃ first second, b.progress.records =
        [⟨.init, .completed, first⟩, ⟨.validate, .completed, second⟩] ++ skippedRecords b.settings := by
  obtain ⟨d, w₁, -, h⟩ := bind_eq_ok h
  obtain ⟨language, w₂, -, h⟩ := bind_eq_ok h
  obtain ⟨source, w₃, -, h⟩ := bind_eq_ok h
  obtain ⟨workspace, w₄, -, h⟩ := bind_eq_ok h
  obtain ⟨rfl, -⟩ := pure_eq_ok h
  exact ⟨rfl, ⟨language, rfl⟩, _, _, rfl⟩

/-- Records of other stages than those that may change the program. -/
structure Uneventful (s : Settings) (saved : Option Path) (stages : List Stage)
    (records : List StageRecord) : Prop where
  stages : records.map StageRecord.stage = stages
  outcomes : ∀ r ∈ records, r.outcome ∈ outcomes s saved r.stage
  plain : ∀ r ∈ records, r.outcome ≠ .adopted

theorem uneventful_of_start {s : Settings} {records : List StageRecord} {first second : String}
    (h : records = [⟨.init, .completed, first⟩, ⟨.validate, .completed, second⟩] ++ skippedRecords s)
    (saved : Option Path) :
    Uneventful s saved ([.init, .validate] ++ optionalStages.filter fun x => !s.enables x) records := by
  subst h
  constructor
  · rw [List.map_append, skippedRecords, List.map_map]
    exact congrArg _ (List.map_id _)
  · intro r hr
    rcases List.mem_append.mp hr with hr | hr
    · simp only [List.mem_cons, List.not_mem_nil, or_false] at hr
      rcases hr with rfl | rfl <;> exact List.mem_cons_self
    · obtain ⟨stage, hstage, rfl⟩ := List.mem_map.mp hr
      have hdisabled : s.enables stage = false := by simpa using (List.mem_filter.mp hstage).2
      simp [outcomes, hdisabled]
  · intro r hr
    rcases List.mem_append.mp hr with hr | hr
    · simp only [List.mem_cons, List.not_mem_nil, or_false] at hr
      rcases hr with rfl | rfl <;> simp
    · obtain ⟨stage, -, rfl⟩ := List.mem_map.mp hr
      simp

/-- A run that answers has gone through its stages, and then left the records of its end. -/
theorem conclude_told {host : Host} {s : Settings} {p : Progress} {workspace : Workspace}
    {w w' : World} {report : Report} (h : conclude host s p workspace w = (.ok report, w')) :
    ∃ last site closing,
      runStages host s (workStages s) p ⟨w, workspace⟩ = (.ok last, site) ∧
      report.finalState = some last.subject ∧ report.stages = last.records ++ closing ∧
      Uneventful s report.outputPath [.save, .cleanup, .done] closing := by
  unfold conclude at h
  cases hwork : work host s p ⟨w, workspace⟩ with
  | mk result site₂ =>
    rw [hwork] at h
    cases result with
    | error e => cases h
    | ok answer =>
      obtain ⟨next, saved⟩ := answer
      cases h
      obtain ⟨last, site, hstages, hsave⟩ := bind_eq_ok hwork
      obtain ⟨w₁, hsave, -⟩ := lift_eq_ok hsave
      obtain ⟨r, hrecords, hstage, houtcome, hsubject⟩ := save_recorded hsave
      have hplain : r.outcome ≠ .adopted := by
        intro e
        rw [e] at houtcome
        cases saved <;> simp [endings] at houtcome
      refine ⟨last, site, r :: _, hstages, congrArg some hsubject,
        by rw [hrecords, List.append_assoc, List.singleton_append], ?_, ?_, ?_⟩
      · rw [List.map_cons, hstage]
        rfl
      · simp only [List.mem_cons, List.not_mem_nil, or_false]
        rintro x (rfl | rfl | rfl)
        · rw [hstage]
          exact houtcome
        · exact List.mem_cons_self
        · exact List.mem_cons_self
      · simp only [List.mem_cons, List.not_mem_nil, or_false]
        rintro x (rfl | rfl | rfl)
        · exact hplain
        · simp
        · simp

/-- A run that answers reports every stage once, with an outcome that fits what was asked for and
where the program was saved. Its last program is the one that the last adoption names, and a stage
is reported to have been adopted if and only if it has replaced the program. -/
theorem run_reports {host : Host} {given : Settings} {base : Path} {w w' : World} {report : Report}
    (h : run host given base w = (.ok report, w')) :
    ∃ b w₁, start host given base w = (.ok b, w₁) ∧
      (∃ language, b.progress.subject = Subject.initial b.settings language) ∧
      Tells host given b w₁ report := by
  obtain ⟨b, w₁, hstart, hconclude⟩ := bind_eq_ok h
  obtain ⟨henables, hinitial, first, second, hbefore⟩ := start_told hstart
  obtain ⟨last, site, closing, hrun, hfinal, hreport, hclosing⟩ := conclude_told hconclude
  have hopening := uneventful_of_start hbefore report.outputPath
  obtain ⟨p', site', hagain, htold⟩ := runStages_told host b.progress ⟨w₁, b.workspace⟩
    report.outputPath fun x hx => hx
  cases hagain.symm.trans hrun
  obtain ⟨new, hnew, hstages, hendings⟩ := htold.records
  have honce : ∀ stage, (report.stages.map StageRecord.stage).count stage = 1 := by
    intro stage
    rw [hreport, hnew, List.map_append, List.map_append, hopening.stages, hstages, hclosing.stages]
    exact count_reportOrder b.settings stage
  have houtcomes : ∀ r ∈ report.stages,
      r.outcome ∈ outcomes b.settings report.outputPath r.stage := by
    intro r hr
    rw [hreport, hnew] at hr
    rcases List.mem_append.mp hr with hr | hr
    · rcases List.mem_append.mp hr with hr | hr
      · exact hopening.outcomes r hr
      · have hwork : r.stage ∈ workStages b.settings := hstages ▸ List.mem_map_of_mem hr
        rw [outcomes, if_pos (List.mem_filter.mp hwork).2]
        exact hendings r hr
    · exact hclosing.outcomes r hr
  have hrecorded {done rest : List Stage} {stage : Stage}
      (hsplit : workStages b.settings = done ++ stage :: rest) :
      ∃ p site p' site', runStages host b.settings done b.progress ⟨w₁, b.workspace⟩ =
          (.ok p, site) ∧ runStage host b.settings stage p site = (.ok p', site') ∧
        p'.subject = (replacement host b.settings stage p site).getD p.subject ∧
        (outcomeOf report.stages stage = some .adopted ↔
          (replacement host b.settings stage p site).isSome) := by
    obtain ⟨p, site, p', site', r, hdone, hstep, hrecorded, hr⟩ :=
      runStages_step hrun report.outputPath hsplit
    have hmem : r ∈ report.stages := hreport ▸ List.mem_append_left _ hr
    have houtcome := outcomeOf_of_mem hmem (honce r.stage)
    rw [hrecorded.stage] at houtcome
    refine ⟨p, site, p', site', hdone, hstep, hrecorded.subject, ?_⟩
    rw [houtcome, ← hrecorded.adopted, Option.some.injEq]
  refine ⟨b, w₁, hstart, hinitial, honce, ?_, ⟨last, site, hrun, hfinal, ?_⟩, ?_, ?_⟩
  · intro r hr
    have := houtcomes r hr
    rwa [outcomes, henables] at this
  · rw [hreport]
    exact (htold.traces _ (.refl hopening.plain)).append hclosing.plain
  · intro done stage rest hsplit
    obtain ⟨p, site, p', site', hdone, hstep, hsubject, -⟩ := hrecorded hsplit
    exact ⟨p, site, p', site', hdone, hstep, hsubject⟩
  · intro stage
    constructor
    · intro hadopted
      obtain ⟨r, hr, houtcome⟩ := Option.map_eq_some_iff.mp hadopted
      have hstage : r.stage = stage := by simpa using List.find?_some hr
      have hmay := houtcomes r (List.mem_reverse.mp (List.mem_of_find?_eq_some hr))
      rw [houtcome, hstage] at hmay
      obtain ⟨done, rest, hsplit⟩ := List.append_of_mem (mem_workStages_of_adopted hmay)
      obtain ⟨p, site, p', site', hdone, -, -, hiff⟩ := hrecorded hsplit
      exact ⟨done, rest, p, site, hsplit, hdone, hiff.mp hadopted⟩
    · rintro ⟨done, rest, p, site, hsplit, hdone, hmade⟩
      obtain ⟨q, site', p', site'', hagain, -, -, hiff⟩ := hrecorded hsplit
      cases hagain.symm.trans hdone
      exact hiff.mpr hmade

/-- The run with one reducer adopts what the reducer leaves. -/
theorem sampleRun_outcomes :
    (run sampleHost sampleSettings ⟨"/"⟩ (.ofDisk sampleDisk)).1.toOption.map (fun report =>
      (outcomeOf report.stages .graphReduce, outcomeOf report.stages .statementReduce,
        outcomeOf report.stages .save)) =
      some (some .skipped, some .adopted, some .completed) := by decide +kernel

theorem run_reports_sample : ∃ report w',
    run sampleHost sampleSettings ⟨"/"⟩ (.ofDisk sampleDisk) = (.ok report, w') ∧
    outcomeOf report.stages .statementReduce = some .adopted ∧
    ∃ b w₁, start sampleHost sampleSettings ⟨"/"⟩ (.ofDisk sampleDisk) = (.ok b, w₁) ∧
      (∃ language, b.progress.subject = Subject.initial b.settings language) ∧
      Tells sampleHost sampleSettings b w₁ report := by
  have hfacts := sampleRun_outcomes
  cases h : run sampleHost sampleSettings ⟨"/"⟩ (.ofDisk sampleDisk) with
  | mk r w' =>
    rw [h] at hfacts
    cases r with
    | error e => cases hfacts
    | ok report =>
      simp only [Except.toOption, Option.map_some, Option.some.injEq, Prod.mk.injEq] at hfacts
      exact ⟨report, w', rfl, hfacts.2.1, run_reports h⟩

end Pipeline

end Whittle
