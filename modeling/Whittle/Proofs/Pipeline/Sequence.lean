import Whittle.Proofs.Pipeline.Feeding
import Whittle.Proofs.Pipeline.Gate
import Whittle.Proofs.Pipeline.Stale

/-!
# The calls of a run, in order

Each stage asks its tools for the program that is current when it begins (`StageCalls`), and the calls
of a run are those of its stages, one after the other (`Sequence`). All of them are made in the work
directory (`run_calls_in_order`).
-/

namespace Whittle

open Text Disk Insertion

/-- The tool is told the failure line first, and the program last. -/
structure Call.Tells (c : Call) (subject : Subject) : Prop where
  line : c.argv.head? = some ("--loc-line=" ++ natText subject.failureLine)
  source : [subject.source.text, "--"] <:+ c.argv

theorem Command.call_tells {c : Command} {subject : Subject}
    (hline : c.locLine = some subject.failureLine) (hsource : c.source = some subject.source)
    (x : Site) : (c.call x).Tells subject := by
  constructor
  · unfold call argv
    rw [hline]
    simp [setting]
  · unfold call argv
    rw [hsource]
    show _ <:+ _ ++ [subject.source.text] ++ ["--"]
    rw [List.append_assoc]
    exact List.suffix_append _ _

namespace Pipeline

/-! ## Slicing -/

/-- What the dynamic slicer is to read for all criteria. -/
def guardedInput (subject : Subject) (cs : List Criterion) : Work (Path × Guard) := do
  let source ← Action.ask (·.readText subject.source)
  match guardSource subject.language source subject.failureLine cs with
  | .error e => throw e
  | .ok (text, guard) =>
    let input ← Workspace.prepareOutput ("dynamic_input." ++ subject.extension) .dynamicSlice
    Action.change (·.writeText input text)
    return (input, guard)

theorem dynamicSlices_eq (host : Host) (s : Settings) (subject : Subject) {cs : List Criterion}
    (hcs : cs ≠ []) : Pass.dynamicSlices host s subject cs = guardedInput subject cs >>= fun r =>
      Pass.guardedSlices host s subject r.1 r.2 0 (r.2.criteria cs) := by
  unfold Pass.dynamicSlices guardedInput
  rw [if_neg hcs, bind_assoc]
  refine bind_congr fun source => ?_
  cases guardSource subject.language source subject.failureLine cs with
  | error e => rfl
  | ok r => simp only [bind_assoc, pure_bind]

/-- There is nothing for the dynamic slicer to read only after an I/O error, or where the failure line
is no line of what stands at the place of the program. -/
theorem guardedInput_eq_error {subject : Subject} {cs : List Criterion} {x y : Site} {e : Fault}
    (h : guardedInput subject cs x = (.error e, y)) :
    (∃ cause, e = .io cause) ∨ ∃ source, x.world.disk.readText subject.source = .ok source ∧
      (subject.failureLine = 0 ∨ lineCount source < subject.failureLine) := by
  rcases bind_cases h with ⟨e', hask, heq⟩ | ⟨source, x₁, hask, h⟩
  · cases heq
    exact .inl (FailsIo.lift (.ask _) x e y hask)
  · obtain ⟨w, hw, -⟩ := lift_eq_ok hask
    obtain ⟨hread, -⟩ := Action.ask_eq_ok hw
    cases hguard : guardSource subject.language source subject.failureLine cs with
    | error e' =>
      refine .inr ⟨source, hread, ?_⟩
      unfold guardSource at hguard
      dsimp only at hguard
      split at hguard
      · rename_i hline
        simpa using hline
      · cases hguard
    | ok r =>
      rw [hguard] at h
      have hio : FailsIo (do
          let input ← Workspace.prepareOutput ("dynamic_input." ++ subject.extension) .dynamicSlice
          Action.change (·.writeText input r.1)
          return (input, r.2)) :=
        .seq (.prepareOutput _ _) fun _ => .seq (.lift (.change _)) fun _ => .ret _
      exact .inl (hio x₁ e y h)

variable (host : Host) (s : Settings) (calm : Prop)

/-- The calls for the slices of a pass. The static slicer is called for one criterion after the other,
and what it reads is a rendering of the program if nobody disturbs that. The dynamic slicer is
called for one criterion after the other, unless there is nothing that it could read. -/
inductive Slicing (subject : Subject) (cs : List Criterion) (x : Site) : Pass → List Call → Prop
  | static {made : List Call}
    (h : (Inquiry.static s subject).Row host s (fun c q z => calm → Fed s subject c q z) 0 cs x
      made) : Slicing subject cs x .static made
  | guarded {input : Path} {guard : Guard} {y : Site} {made : List Call}
    (hinput : guardedInput subject cs x = (.ok (input, guard), y))
    (h : (Inquiry.guarded subject input guard).Row host s (fun _ _ _ => True) 0
      (guard.criteria cs) y made) : Slicing subject cs x .dynamic made
  | unguarded {e : IoError} {y : Site} (hinput : guardedInput subject cs x = (.error (.io e), y)) :
    Slicing subject cs x .dynamic []
  | refused {source : String} (hread : x.world.disk.readText subject.source = .ok source)
    (hline : subject.failureLine = 0 ∨ lineCount source < subject.failureLine) (hcalm : ¬ calm) :
    Slicing subject cs x .dynamic []

/-- The calls of a pass: those for the slices, and then one of the slice extractor if the slices could
be united. -/
inductive PassCalls (pass : Pass) (subject : Subject) (cs : List Criterion) (x : Site) :
    List Call → Prop
  | failed {made : List Call} {e : Fault} {y : Site} (h : Slicing host s calm subject cs x pass made)
    (hunite : pass.unite host s subject cs x = (.error e, y)) : PassCalls pass subject cs x made
  | united {made last : List Call} {unionFile : Path} {y : Site}
    (h : Slicing host s calm subject cs x pass made)
    (hunite : pass.unite host s subject cs x = (.ok unionFile, y))
    (hcut : Once (extractPreparation subject pass.stage)
      (fun _ z => [(cutCommand s subject unionFile).call z]) y last)
    (tells : ∀ c ∈ last, c.Tells subject) : PassCalls pass subject cs x (made ++ last)

/-- The calls of a stage. -/
inductive StageCalls : Stage → Progress → Site → List Call → Prop
  | criteria {p : Progress} {x : Site} {made : List Call}
    (h : Once criteriaPreparation (fun _ y => [(extractorCommand s p.subject).call y]) x made)
    (tells : ∀ c ∈ made, c.Tells p.subject) : StageCalls .extractCriteria p x made
  | idle {pass : Pass} {p : Progress} {x : Site} (h : p.criteria = []) :
    StageCalls pass.stage p x []
  | pass {pass : Pass} {p : Progress} {x : Site} {made : List Call} (hcriteria : p.criteria ≠ [])
    (h : PassCalls host s calm pass p.subject p.criteria x made) : StageCalls pass.stage p x made
  | reducer {r : Reducer} {p : Progress} {x : Site} {made : List Call}
    (h : Once (r.preparation p.subject) (fun _ y => [(r.command s p.subject).call y]) x made)
    (tells : ∀ c ∈ made, c.Tells p.subject) : StageCalls r.stage p x made

/-- The calls of a row of stages. Each of them begins with the program that the last adoption names. -/
inductive Sequence (first : Subject) : List Stage → Progress → Site → List Call → Prop
  | done {p : Progress} {x : Site} : Sequence first [] p x []
  | stage {stage : Stage} {rest : List Stage} {p p' : Progress} {x y : Site} {made more : List Call}
    (h : StageCalls host s calm stage p x made) (traces : Traces first p.records p.subject)
    (hrun : runStage host s stage p x = (.ok p', y)) (hrest : Sequence first rest p' y more) :
    Sequence first (stage :: rest) p x (made ++ more)

/-! ## A pass that nobody disturbs -/

/-- The program of a stage is found on a disk without links, and the tools leave it alone up to the
last of some calls. -/
structure Calm (stage : Stage) (subject : Subject) (final : List Call) (x : Site) : Prop where
  builtIn : BuiltIn s
  place : ∃ l m, (∀ n ∈ l, IsName n) ∧ (∀ n ∈ m, IsName n) ∧ x.workspace.root = pathOf l ∧
    subject.source = pathOf m ∧ ∀ k, Touches s subject.extension stage k → ¬ l ++ k <+: m
  linkless : x.world.disk.Linkless
  text : ∃ text, x.world.disk.readText subject.source = .ok text ∧ 1 ≤ subject.failureLine ∧
    subject.failureLine ≤ lineCount text
  answered : ∀ made, final = x.world.calls ++ made →
    Answered host (Spares subject.source) x.world.calls made

variable {host s calm}

/-- A part of the stage leaves it so. -/
theorem Calm.step {stage : Stage} {subject : Subject} {final : List Call} {x y : Site}
    (h : Calm host s stage subject final x) {α : Type} {a : Work α} {Q : α → Prop}
    (ha : ∀ l, (∀ n ∈ l, IsName n) → Mounts s →
      Follows host (charter s subject.extension l (· = stage)) l [] a Q)
    {r : Except Fault α} (hrun : a x = (r, y)) (hfinal : y.world.calls <+: final) :
    Calm host s stage subject final y := by
  obtain ⟨l, m, hl, hm, hroot, hsource, htouch⟩ := h.place
  have hp := permits_spares hm
  rw [← hsource] at hp
  obtain ⟨hroot', hpasses, -⟩ :=
    (stays_of_stage hp (ha l hl h.builtIn.mounts) htouch).of_run hroot hrun
  obtain ⟨made, hcalls, hspares⟩ := hpasses
  obtain ⟨more, hmore⟩ := hfinal
  have hanswered := h.answered (made ++ more) (by rw [← hmore, hcalls, List.append_assoc])
  obtain ⟨hmade, -⟩ := hanswered.append
  obtain ⟨hlinkless, hbytes⟩ := hspares hmade h.linkless
  obtain ⟨text, htext, hpos, hle⟩ := h.text
  obtain ⟨b, hread, hutf8⟩ := readText_eq_ok htext
  refine ⟨h.builtIn, ⟨l, m, hl, hm, hroot', hsource, htouch⟩, hlinkless,
    ⟨text, readText_of_read (hbytes b hread) hutf8, hpos, hle⟩, fun others hothers => ?_⟩
  have hall := h.answered (made ++ others) (by rw [hothers, hcalls, List.append_assoc])
  rw [hcalls]
  exact hall.append.2

section

variable {subject : Subject} {cs : List Criterion} {final : List Call} {x : Site}

theorem static_slicing (hcalm : calm → Calm host s .staticSlice subject final x)
    (hfinal : (Pass.staticSlices host s subject 0 cs x).2.world.calls <+: final) :
    ∃ made, Slicing host s calm subject cs x .static made ∧
      (Pass.staticSlices host s subject 0 cs x).2.world.calls = x.world.calls ++ made := by
  rw [Inquiry.staticSlices_eq] at hfinal ⊢
  have hidle (i : Nat) (c : Criterion) : Idles ((Inquiry.static s subject).ask i c) :=
    .seq (staticInput_idles s subject i) fun _ => .ret _
  have hio (i : Nat) (c : Criterion) : FailsIo ((Inquiry.static s subject).ask i c) := by
    refine .seq ?_ fun _ => .ret _
    refine .seq (.prepareOutput _ _) fun input => .seq (.lift (.change _)) fun _ => ?_
    split
    · refine .seq (.attempt _) fun r => ?_
      split
      · exact .ret _
      · exact .seq (.lift (.warn _)) fun _ => .ret _
    · exact .ret _
  have hfed : ∀ i c x q y places z, (calm → Calm host s .staticSlice subject final x) →
      (Inquiry.static s subject).ask i c x = (.ok q, y) →
      Pass.static.preparation s q.input y = (.ok places, z) → calm → Fed s subject c q z := by
    intro i c x q y places z hx hask hprepare h
    obtain ⟨l, m, hl, hm, hroot, hsource, htouch⟩ := (hx h).place
    obtain ⟨text, htext, -⟩ := (hx h).text
    exact static_fed (hx h).builtIn hl hm hsource htouch hroot (hx h).linkless htext host hask
      hprepare
  have hstep : ∀ i c x files y, (calm → Calm host s .staticSlice subject final x) →
      (Inquiry.static s subject).turns host s i [c] x = (.ok files, y) →
      y.world.calls <+: final → calm → Calm host s .staticSlice subject final y := by
    intro i c x files y hx hrun hy h
    rw [← Inquiry.staticSlices_eq] at hrun
    have hfollows : ∀ l, (∀ n ∈ l, IsName n) → Mounts s →
        Follows host (charter s subject.extension l (· = .staticSlice)) l []
          (Pass.staticSlices host s subject i [c]) fun _ => True := by
      intro l hl hmounts
      refine staticSlices_follows hl subject ?_ hmounts [c] i
      rfl
    exact (hx h).step hfollows hrun hy
  obtain ⟨made, hrow, hcalls⟩ := Inquiry.turns_row hidle hio hfed hstep cs 0 x hcalm hfinal
  exact ⟨made, .static hrow, hcalls⟩

theorem dynamic_slicing (hcs : cs ≠ [])
    (hcalm : calm → Calm host s .dynamicSlice subject final x) :
    ∃ made, Slicing host s calm subject cs x .dynamic made ∧
      (Pass.dynamicSlices host s subject cs x).2.world.calls = x.world.calls ++ made := by
  rw [dynamicSlices_eq host s subject hcs]
  have hidle (input : Path) (guard : Guard) (i : Nat) (c : Criterion) :
      Idles ((Inquiry.guarded subject input guard).ask i c) := .ret _
  have hio (input : Path) (guard : Guard) (i : Nat) (c : Criterion) :
      FailsIo ((Inquiry.guarded subject input guard).ask i c) := .ret _
  have hinput : Idles (guardedInput subject cs) := by
    refine .seq (.lift (.ask _)) fun source => ?_
    split
    · exact .fail _
    · exact .seq (.prepareOutput _ _) fun _ => .seq (.lift (.change _)) fun _ => .ret _
  have hsame := (hinput.rel x trivial).world.calls
  cases hguarded : guardedInput subject cs x with
  | mk r y =>
    rw [hguarded] at hsame
    cases r with
    | ok r =>
      obtain ⟨input, guard⟩ := r
      rw [bind_of_ok hguarded]
      dsimp only
      rw [Inquiry.guardedSlices_eq]
      obtain ⟨made, hrow, hcalls⟩ := @Inquiry.turns_row host s _ (hidle input guard)
        (hio input guard) (fun _ _ _ => True) (fun _ => True) _
        (fun _ _ _ _ _ _ _ _ _ _ => trivial) (fun _ _ _ _ _ _ _ _ => trivial) (guard.criteria cs)
        0 y trivial (List.prefix_refl _)
      exact ⟨made, .guarded hguarded hrow, hcalls.trans (congrArg (· ++ made) hsame)⟩
    | error e =>
      rw [bind_of_error hguarded]
      refine ⟨[], ?_, hsame.trans (List.append_nil _).symm⟩
      rcases guardedInput_eq_error hguarded with ⟨cause, rfl⟩ | ⟨source, hread, hline⟩
      · exact .unguarded hguarded
      · refine .refused hread hline fun h => ?_
        obtain ⟨text, htext, hpos, hle⟩ := (hcalm h).text
        cases htext.symm.trans hread
        omega

/-! ## A stage -/

theorem pass_calls (pass : Pass) (hcs : cs ≠ [])
    (hcalm : calm → Calm host s pass.stage subject final x)
    (hfinal : (pass.run host s subject cs x).2.world.calls <+: final) :
    ∃ made, PassCalls host s calm pass subject cs x made ∧
      (pass.run host s subject cs x).2.world.calls = x.world.calls ++ made := by
  have hunited : (pass.unite host s subject cs x).2.world.calls =
      (pass.slices host s subject cs x).2.world.calls :=
    calls_before_idles (fun files => .seq (.prepareOutput _ _) fun unionFile =>
      .seq (.lift (unify_silent files unionFile)) fun _ => .ret _) x
  -- what the slice extractor is asked comes behind the slices
  have hrun : ∃ last, (∀ e y, pass.unite host s subject cs x = (.error e, y) → last = []) ∧
      (∀ unionFile y, pass.unite host s subject cs x = (.ok unionFile, y) →
        Once (extractPreparation subject pass.stage)
          (fun _ z => [(cutCommand s subject unionFile).call z]) y last) ∧
      (pass.run host s subject cs x).2.world.calls =
        (pass.unite host s subject cs x).2.world.calls ++ last := by
    unfold Pass.run
    cases hunite : pass.unite host s subject cs x with
    | mk r y =>
      cases r with
      | error e =>
        rw [bind_of_error hunite]
        exact ⟨[], fun _ _ _ => rfl, nofun, (List.append_nil _).symm⟩
      | ok unionFile =>
        obtain ⟨last, honce, hcut⟩ := cut_calls host s subject unionFile pass.stage
          (pass.title ++ "_sliced." ++ subject.extension) y
        rw [bind_of_ok hunite]
        refine ⟨last, nofun, fun unionFile' y' h => ?_, hcut⟩
        cases h
        exact honce
  obtain ⟨last, hfailed, honce, hrun⟩ := hrun
  rw [hrun, hunited] at hfinal
  rw [hrun, hunited]
  obtain ⟨made, hslicing, hcalls⟩ : ∃ made, Slicing host s calm subject cs x pass made ∧
      (pass.slices host s subject cs x).2.world.calls = x.world.calls ++ made := by
    cases pass with
    | static => exact static_slicing hcalm ((List.prefix_append _ last).trans hfinal)
    | dynamic => exact dynamic_slicing hcs hcalm
  refine ⟨made ++ last, ?_, by rw [hcalls, List.append_assoc]⟩
  cases hunite : pass.unite host s subject cs x with
  | mk r y =>
    cases r with
    | error e =>
      rw [hfailed e y hunite, List.append_nil]
      exact .failed hslicing hunite
    | ok unionFile =>
      refine .united hslicing hunite (honce unionFile y hunite) fun c hc => ?_
      cases honce unionFile y hunite with
      | called => exact List.mem_singleton.mp hc ▸ Command.call_tells rfl rfl _
      | unprepared => cases hc

end

section

variable {stage : Stage} {p p' : Progress} {x y : Site}

/-- What is made of an attempt calls no tool. -/
theorem adopting_calls (a : Work Subject) :
    (Work.attempt a >>= fun r => liftM (p.adoptOrKeep stage r) : Work Progress) x = (.ok p', y) →
      y.world.calls = (a x).2.world.calls := by
  intro h
  have hcalls := calls_before_idles (a := Work.attempt a)
    (f := fun r => liftM (p.adoptOrKeep stage r)) (fun r => .lift (adoptOrKeep_silent p stage r)) x
  rwa [h] at hcalls

theorem slicingStage_calls {pass : Pass}
    (hcalm : calm → Calm host s pass.stage p.subject y.world.calls x)
    (h : slicingStage host s pass p x = (.ok p', y)) :
    ∃ made, StageCalls host s calm pass.stage p x made ∧ y.world.calls = x.world.calls ++ made := by
  unfold slicingStage at h
  split at h
  · rename_i hnone
    have hidle := (Idles.lift (record_silent p pass.stage .keptPrevious "no criteria")).rel x trivial
    rw [h] at hidle
    exact ⟨[], .idle hnone, hidle.world.calls.trans (List.append_nil _).symm⟩
  · rename_i hsome
    have hcalls := adopting_calls (pass.run host s p.subject p.criteria) h
    rw [hcalls] at hcalm ⊢
    obtain ⟨made, hmade, hall⟩ := pass_calls pass hsome hcalm (List.prefix_refl _)
    exact ⟨made, .pass hsome hmade, hall⟩

theorem reducerStage_calls {r : Reducer} (h : reducerStage host s r p x = (.ok p', y)) :
    ∃ made, StageCalls host s calm r.stage p x made ∧ y.world.calls = x.world.calls ++ made := by
  have hcalls := adopting_calls (r.run host s p.subject) h
  obtain ⟨made, honce, hall⟩ := Reducer.run_calls host s p.subject r x
  refine ⟨made, .reducer honce fun c hc => ?_, hcalls.trans hall⟩
  cases honce with
  | called => exact List.mem_singleton.mp hc ▸ Command.call_tells rfl rfl _
  | unprepared => cases hc

theorem criteriaStage_calls (h : criteriaStage host s p x = (.ok p', y)) :
    ∃ made, StageCalls host s calm .extractCriteria p x made ∧
      y.world.calls = x.world.calls ++ made := by
  obtain ⟨made, honce, hall⟩ := criteria_calls host s p.subject x
  have hcalls : (criteriaStage host s p x).2.world.calls =
      (criteria host s p.subject x).2.world.calls :=
    calls_before_idles (fun cs => .seq (.lift (record_silent p _ _ _)) fun _ => .ret _) x
  rw [h, hall] at hcalls
  refine ⟨made, .criteria honce fun c hc => ?_, hcalls⟩
  cases honce with
  | called => exact List.mem_singleton.mp hc ▸ Command.call_tells rfl rfl _
  | unprepared => cases hc

theorem runStage_calls (hstage : stage ∈ workStages s)
    (hcalm : calm → Calm host s stage p.subject y.world.calls x)
    (h : runStage host s stage p x = (.ok p', y)) :
    ∃ made, StageCalls host s calm stage p x made ∧ y.world.calls = x.world.calls ++ made := by
  cases stage with
  | extractCriteria => exact criteriaStage_calls h
  | staticSlice => exact @slicingStage_calls _ _ _ _ _ _ _ .static hcalm h
  | dynamicSlice => exact @slicingStage_calls _ _ _ _ _ _ _ .dynamic hcalm h
  | graphReduce => exact @reducerStage_calls _ _ _ _ _ _ _ .graph h
  | statementReduce => exact @reducerStage_calls _ _ _ _ _ _ _ .statement h
  | init | validate | save | cleanup | done => simp [workStages] at hstage

end

/-! ## A run -/

/-- A sound program that the tools of a stage leave alone is one that nobody disturbs. -/
theorem Calm.of_sound {first : Subject} {l : Location} {stage : Stage} {rest : List Stage}
    {p p' : Progress} {x y : Site} (hs : BuiltIn s) (hl : ∀ n ∈ l, IsName n)
    (h : Sound s first l (stage :: rest) p x) (hsparing : Sparing host s stage p x)
    (hrun : runStage host s stage p x = (.ok p', y)) :
    Calm host s stage p.subject y.world.calls x where
  builtIn := hs
  place := by
    obtain ⟨m, hm, hsource, hplace⟩ := h.place
    exact ⟨l, m, hl, hm, h.root, hsource, hplace stage List.mem_cons_self⟩
  linkless := h.linkless
  text := h.text
  answered made hmade := hsparing made (by rw [hrun]; exact hmade)

/-- Nobody disturbs the program of a run: it does not lie where the run works or takes its lock, there
are no links, and the tools leave the program alone that is current when they are called. -/
structure Undisturbed (host : Host) (given : Settings) (base : Path) (w : World) (b : Start)
    (w₁ : World) : Prop where
  absolute : base.isAbsolute = true
  plain : w.disk.Plain
  builtIn : BuiltIn given
  apart : ∃ root source, (∀ n ∈ root, IsName n) ∧ (∀ n ∈ source, IsName n) ∧
    b.workspace.root = pathOf root ∧ b.settings.sourceFile = pathOf source ∧
    ∀ k, (k = [Artifacts.lockFile] ∨ ∃ stage ∈ workStages b.settings,
      Touches b.settings b.progress.subject.extension stage k) → ¬ root ++ k <+: source
  spares : SparesCurrent host b.settings b.progress ⟨w₁, b.workspace⟩

section

variable {given : Settings} {base : Path} {w w₁ : World} {b : Start}
  (h : Undisturbed host given base w b w₁) (hstart : start host given base w = (.ok b, w₁))
include h hstart

theorem Undisturbed.settings_builtIn : BuiltIn b.settings := by
  obtain ⟨root, source, hbegun⟩ := start_begun h.absolute hstart
  exact hbegun.builtIn h.builtIn

/-- The program is sound when the stages begin. -/
theorem Undisturbed.sound : ∃ l, (∀ n ∈ l, IsName n) ∧
    Sound b.settings b.progress.subject l (workStages b.settings) b.progress ⟨w₁, b.workspace⟩ := by
  obtain ⟨root, source, hbegun⟩ := start_eq_ok h.absolute h.plain hstart
  obtain ⟨root', source', hroot, hsource, hrootPath, hsourcePath, hapart⟩ := h.apart
  obtain rfl := pathOf_injective hroot hbegun.rootNames
    (congrArg Path.parts (hrootPath.symm.trans hbegun.rootPath))
  obtain rfl := pathOf_injective hsource hbegun.sourceNames
    (congrArg Path.parts (hsourcePath.symm.trans hbegun.sourcePath))
  obtain ⟨language, -, hsubject⟩ := hbegun.subject
  have hleaves : Leaves source' w.disk w₁.disk := by
    refine start_leaves h.absolute h.plain.numbered (fun l hl => ⟨h.plain.linkless.straight l, ?_⟩)
      (fun hfailed => by cases hfailed) hstart
    cases hl.symm.trans hbegun.acquired.place
    exact hapart _ (.inl rfl)
  obtain ⟨text, htext, hlines⟩ := hbegun.readable
  obtain ⟨content, hread, hutf8⟩ := readText_eq_ok htext
  rw [hsourcePath] at hread
  have hkept : w₁.disk.read b.settings.sourceFile = .ok content :=
    hsourcePath ▸ read_of_holds (h.plain.linkless.clear source') hsource hleaves.holds hread
  refine ⟨root', hroot, hrootPath, hbegun.linkless, ⟨source', hsource, ?_, ?_⟩, ?_, rfl, rfl⟩
  · rw [hsubject]
    exact hsourcePath
  · exact fun stage hstage k hk => hapart k (.inr ⟨stage, hstage, hk⟩)
  · rw [hsubject]
    exact ⟨text, readText_of_read hkept hutf8, hlines⟩

end

section

variable {p₀ : Progress} {x₀ : Site}

/-- The stages that are still to come make their calls in order, and each of them finds the program
sound. -/
theorem runStages_sequence (hs : calm → BuiltIn s) (hspares : calm → SparesCurrent host s p₀ x₀)
    (rest : List Stage) :
    ∀ done p x last y, workStages s = done ++ rest → runStages host s done p₀ x₀ = (.ok p, x) →
      Traces p₀.subject p.records p.subject →
      (calm → ∃ l, (∀ n ∈ l, IsName n) ∧ Sound s p₀.subject l rest p x) →
      runStages host s rest p x = (.ok last, y) →
      ∃ made, Sequence host s calm p₀.subject rest p x made ∧
        y.world.calls = x.world.calls ++ made := by
  induction rest with
  | nil =>
    intro done p x last y _ _ _ _ h
    cases h
    exact ⟨[], .done, (List.append_nil _).symm⟩
  | cons stage rest ih =>
    intro done p x last y hstages hdone htraces hsound h
    obtain ⟨p', x', hstage, hrest⟩ := bind_eq_ok h
    have hmem : stage ∈ workStages s := hstages ▸ by simp
    have hsparing (hc : calm) : Sparing host s stage p x :=
      hspares hc done stage rest p x hstages hdone
    have hcalm : calm → Calm host s stage p.subject x'.world.calls x := by
      intro hc
      obtain ⟨l, hl, hx⟩ := hsound hc
      exact .of_sound (hs hc) hl hx (hsparing hc) hstage
    obtain ⟨made, hmade, hcalls⟩ := runStage_calls hmem hcalm hstage
    have htraces' : Traces p₀.subject p'.records p'.subject := by
      obtain ⟨q, z, r, hagain, hrecorded, -⟩ := runStage_recorded host p x none hmem
      cases hagain.symm.trans hstage
      exact hrecorded.traces htraces
    have hsound' : calm → ∃ l, (∀ n ∈ l, IsName n) ∧ Sound s p₀.subject l rest p' x' := by
      intro hc
      obtain ⟨l, hl, hx⟩ := hsound hc
      obtain ⟨q, z, hagain, hnext, -⟩ :=
        hx.step (hs hc) hl (not_mem_of_workStages hstages) (hsparing hc)
      cases hagain.symm.trans hstage
      exact ⟨l, hl, hnext⟩
    obtain ⟨more, hmore, hcalls'⟩ := ih (done ++ [stage]) p' x' last y
      (by rw [hstages, List.append_assoc, List.singleton_append]) (runStages_snoc hdone hstage)
      htraces' hsound' hrest
    exact ⟨made ++ more, .stage hmade htraces hstage hmore,
      by rw [hcalls', hcalls, List.append_assoc]⟩

end

/-- Every tool is called in the work directory. -/
theorem settled_habit (host : Host) (s : Settings) (root : Path) :
    Habit host s root fun x y =>
      ∃ made, y.world.calls = x.world.calls ++ made ∧ ∀ c ∈ made, c.cwd = root where
  trans := by
    rintro x y z ⟨made, hcalls, hcwd⟩ ⟨more, hcalls', hcwd'⟩
    refine ⟨made ++ more, by rw [hcalls', hcalls, List.append_assoc], ?_⟩
    exact List.forall_mem_append.mpr ⟨hcwd, hcwd'⟩
  idle h := ⟨[], by rw [h.world.calls, List.append_nil], nofun⟩
  call c line _ x _ := ⟨[_], rfl, by simp⟩
  container p mount command x hx := by
    obtain ⟨y, hrun, -, hcalls, -⟩ :=
      Container.run_named host s.tools.containerRuntime (p.recipe s) mount command x
    rw [hrun]
    refine ⟨_, hcalls, ?_⟩
    simpa [ContainerRun.calls, ContainerRun.ofSite] using hx

/-- The calls of a run that answers are those of its stages in order, and they are made in the work
directory. Each stage asks for the program that the last adoption before it names. Where nobody
disturbs the program, the static slicer reads it, and the dynamic slicer is called. -/
theorem run_calls_in_order {host : Host} {given : Settings} {base : Path} {w w' : World}
    {report : Report} (h : run host given base w = (.ok report, w')) :
    ∃ b w₁ made, start host given base w = (.ok b, w₁) ∧
      (∃ language, b.progress.subject = Subject.initial b.settings language) ∧
      w'.calls = w.calls ++ made ∧ (∀ c ∈ made, c.cwd = b.workspace.root) ∧
      Sequence host b.settings (Undisturbed host given base w b w₁) b.progress.subject
        (workStages given) b.progress ⟨w₁, b.workspace⟩ made := by
  obtain ⟨b, w₁, hstart, -⟩ := run_completes h
  obtain ⟨-, hinitial, first, second, hrecords⟩ := start_told hstart
  have hcalls := run_calls_stages hstart
  obtain ⟨last, site, next, saved, w₂, hrun, -⟩ :=
    conclude_ok host b.settings b.progress b.workspace w₁
  rw [h, hrun] at hcalls
  have htraces : Traces b.progress.subject b.progress.records b.progress.subject :=
    .refl (uneventful_of_start hrecords none).plain
  obtain ⟨made, hmade, hall⟩ := runStages_sequence
    (fun hcalm : Undisturbed host given base w b w₁ => hcalm.settings_builtIn hstart) (·.spares)
    (workStages b.settings) [] _ _ last site rfl rfl htraces (·.sound hstart) hrun
  obtain ⟨others, hothers, hcwd⟩ := ((settled_habit host b.settings b.workspace.root).runStages
    (workStages b.settings) b.progress).rel ⟨w₁, b.workspace⟩ rfl
  rw [hrun, hall] at hothers
  obtain rfl : made = others := List.append_cancel_left hothers
  refine ⟨b, w₁, made, hstart, hinitial, ?_, hcwd, workStages_of_start hstart ▸ hmade⟩
  rw [hcalls, hall, start_calls hstart]

/-! ### A program with the name of a product -/

/-- The tools of a script do what is allowed at the places of its edits. -/
theorem answered_hostOf {T : Disk → Disk → Prop} {free : Location → Prop} (hp : Permits T free)
    {script : Script} (hscript : ∀ n program argv, ∀ e ∈ (script n program argv).edits,
      free e.place ∧ ∀ n ∈ e.place, IsName n) (searchPath : Option (List Path))
    (made : List Call) : ∀ before, Answered (hostOf script searchPath) T before made := by
  have hedits : ∀ es : List Edit, (∀ e ∈ es, free e.place ∧ ∀ n ∈ e.place, IsName n) →
      ∀ d, T d (es.foldl Edit.apply d) := by
    intro es
    induction es with
    | nil => exact fun _ => hp.refl
    | cons e es ih =>
      intro hes d
      obtain ⟨⟨hfree, hnames⟩, hrest⟩ := List.forall_mem_cons.mp hes
      refine hp.trans ?_ (ih hrest (e.apply d))
      cases e with
      | write place content =>
        simp only [Edit.apply]
        cases hd : d.write (pathOf place) content false with
        | ok d' => exact hp.write hfree hnames hd
        | error e => exact hp.refl d
      | remove place =>
        simp only [Edit.apply]
        cases hd : d.unlink (pathOf place) with
        | ok d' => exact hp.unlink hfree hnames hd
        | error e => exact hp.refl d
  induction made with
  | nil => exact fun _ => trivial
  | cons call made ih => exact fun before => ⟨hedits _ (hscript _ _ _) _, ih _⟩

/-- One criterion, and a slice of one line, on which the failure is not. -/
def slicingScript : Script := fun _ program _ =>
  if program = ⟨"/bin/ve"⟩ then ⟨[.write ["w", "criteria.txt"] "3:z\n".toUTF8], .ok 0⟩
  else if program = ⟨"/bin/ss"⟩ then ⟨[.write ["w", "slice_lines.txt"] "1\n".toUTF8], .ok 0⟩
  else if program = ⟨"/bin/se"⟩ then ⟨[.write ["w", "slice.c"] "int x;\n".toUTF8], .ok 0⟩
  else ⟨[], .ok 1⟩

/-- A program of three lines at some place, a work directory, and the tools of all stages. -/
def slicingDisk (source : Location) : Disk where
  entries :=
    [(["w"], .dir), (source, .file 0 "int x;\nint y;\nint z;\n".toUTF8 false), (["bin"], .dir),
     (["bin", "ve"], .file 1 ByteArray.empty true), (["bin", "ss"], .file 2 ByteArray.empty true),
     (["bin", "ds"], .file 3 ByteArray.empty true), (["bin", "se"], .file 4 ByteArray.empty true),
     (["bin", "red"], .file 5 ByteArray.empty true)]
  cwd := []
  nextId := 6
  locked := []

def slicingSettings (source : Location) : Settings where
  sourceFile := pathOf source
  line := 3
  delta := false
  backend := .local
  workDir := ⟨"/w"⟩
  outputFile := some ⟨"/o.c"⟩
  tools :=
    { variableExtractor := ⟨"/bin/ve"⟩
      staticSlicer := ⟨"/bin/ss"⟩
      dynamicSlicer := ⟨"/bin/ds"⟩
      sliceExtractor := ⟨"/bin/se"⟩
      statementReducer := ⟨"/bin/red"⟩ }

def slicingStart (source : Location) : Except Fault Start × World :=
  start (hostOf slicingScript none) (slicingSettings source) ⟨"/"⟩ (.ofDisk (slicingDisk source))

def slicingRun (source : Location) : Except Fault Report × World :=
  run (hostOf slicingScript none) (slicingSettings source) ⟨"/"⟩ (.ofDisk (slicingDisk source))

theorem slicingScript_edits {n : Nat} {program : Path} {argv : List String} {e : Edit}
    (h : e ∈ (slicingScript n program argv).edits) :
    e.place ∈ [["w", "criteria.txt"], ["w", "slice_lines.txt"], ["w", "slice.c"]] := by
  unfold slicingScript at h
  split at h
  · cases List.mem_singleton.mp h
    decide
  · split at h
    · cases List.mem_singleton.mp h
      decide
    · split at h
      · cases List.mem_singleton.mp h
        decide
      · cases h

/-- The tools leave a program alone that is none of their products. -/
theorem slicingScript_spares {source : Location} (hnames : ∀ n ∈ source, IsName n)
    (hapart : ∀ l ∈ [["w", "criteria.txt"], ["w", "slice_lines.txt"], ["w", "slice.c"]],
      ¬ l <+: source) (before made : List Call) :
    Answered (hostOf slicingScript none) (Spares (pathOf source)) before made := by
  refine answered_hostOf (permits_spares hnames) (fun n program argv e he => ?_) none made before
  have hplace := slicingScript_edits he
  refine ⟨hapart _ hplace, ?_⟩
  revert hplace
  generalize e.place = l
  revert l
  decide

/-- The programs that the stages begin with. -/
def slicingSources (b : Start) (w : World) : List (Option Path) :=
  (List.range 4).map fun k => (runStages (hostOf slicingScript none) b.settings
    ((workStages b.settings).take k) b.progress ⟨w, b.workspace⟩).1.toOption.map (·.subject.source)

theorem slicingStart_undisturbed : ∃ b w₁, slicingStart ["a.c"] = (.ok b, w₁) ∧
    Undisturbed (hostOf slicingScript none) (slicingSettings ["a.c"]) ⟨"/"⟩
      (.ofDisk (slicingDisk ["a.c"])) b w₁ := by
  have hfacts : (slicingStart ["a.c"]).1.toOption.map (fun b =>
      (b.workspace.root, b.settings.sourceFile, (workStages b.settings).length,
        slicingSources b (slicingStart ["a.c"]).2)) =
      some (pathOf ["w"], pathOf ["a.c"], 4, List.replicate 4 (some (pathOf ["a.c"]))) := by
    decide +kernel
  cases hstart : slicingStart ["a.c"] with
  | mk r w₁ =>
    rw [hstart] at hfacts
    cases r with
    | error e => cases hfacts
    | ok b =>
      simp only [Except.toOption, Option.map_some, Option.some.injEq, Prod.mk.injEq] at hfacts
      obtain ⟨hroot, hsource, hlength, hsources⟩ := hfacts
      refine ⟨b, w₁, rfl, by decide, ?_, ?_,
        ⟨["w"], ["a.c"], by decide, by decide, hroot, hsource, fun k _ => by simp⟩, ?_⟩
      · exact plain_of_entries (by decide) (by decide) (by decide)
      · intro hb
        cases hb
      · intro done stage rest p x hstages hdone made _
        have hk : done.length < 4 := by
          rw [← hlength, hstages, List.length_append, List.length_cons]
          omega
        have hsource := List.getElem_of_eq hsources (i := done.length)
          (by simpa [slicingSources] using hk)
        simp only [slicingSources, List.getElem_map, List.getElem_range, List.getElem_replicate,
          hstages, List.take_left', hdone, Except.toOption, Option.map_some,
          Option.some.injEq] at hsource
        rw [hsource]
        exact slicingScript_spares (by decide) (by decide) _ _

/-- All tools are called if the program is outside the work directory. -/
theorem run_calls_all : ∃ report w' b w₁ made,
    slicingRun ["a.c"] = (.ok report, w') ∧ slicingStart ["a.c"] = (.ok b, w₁) ∧
      Undisturbed (hostOf slicingScript none) (slicingSettings ["a.c"]) ⟨"/"⟩
        (.ofDisk (slicingDisk ["a.c"])) b w₁ ∧
      w'.calls = made ∧
      made.map Call.program = [⟨"/bin/ve"⟩, ⟨"/bin/ss"⟩, ⟨"/bin/se"⟩, ⟨"/bin/ds"⟩, ⟨"/bin/red"⟩] ∧
      (∀ c ∈ made, c.cwd = b.workspace.root) ∧
      Sequence (hostOf slicingScript none) b.settings
        (Undisturbed (hostOf slicingScript none) (slicingSettings ["a.c"]) ⟨"/"⟩
          (.ofDisk (slicingDisk ["a.c"])) b w₁)
        b.progress.subject (workStages (slicingSettings ["a.c"])) b.progress ⟨w₁, b.workspace⟩ made := by
  obtain ⟨b, w₁, hstart, hcalm⟩ := slicingStart_undisturbed
  have hfacts : (slicingRun ["a.c"]).1.isOk = true ∧ (slicingRun ["a.c"]).2.calls.map Call.program =
      [⟨"/bin/ve"⟩, ⟨"/bin/ss"⟩, ⟨"/bin/se"⟩, ⟨"/bin/ds"⟩, ⟨"/bin/red"⟩] := by decide +kernel
  cases hrun : slicingRun ["a.c"] with
  | mk r w' =>
    rw [hrun] at hfacts
    cases r with
    | error e => cases hfacts.1
    | ok report =>
      obtain ⟨b', w₁', made, hstart', -, hcalls, hcwd, hmade⟩ := run_calls_in_order hrun
      cases hstart'.symm.trans hstart
      obtain rfl : w'.calls = made := hcalls
      exact ⟨report, w', b, w₁, _, rfl, hstart, hcalm, rfl, hfacts.2, hcwd, hmade⟩

/-- A program with the name of the product of the static pass is overwritten by that pass, although
the pass fails. So the dynamic slicer is not called, and that is not for an I/O error. The tools leave
the program alone. -/
theorem run_skips_slicer :
    (∀ made, Answered (hostOf slicingScript none) (Spares (pathOf ["w", "static_sliced.c"])) []
        made) ∧
      (slicingRun ["w", "static_sliced.c"]).1.toOption.map (fun report =>
        (report.stages.filter fun r => r.stage ∈ [.extractCriteria, .dynamicSlice]).map fun r =>
          (r.outcome, r.detail)) =
        some [(.completed, "1 criteria [3:z]"),
          (.keptPrevious, (Fault.lineOutsideSource 3 1).message)] ∧
      (slicingRun ["w", "static_sliced.c"]).2.calls.map Call.program =
        [⟨"/bin/ve"⟩, ⟨"/bin/ss"⟩, ⟨"/bin/se"⟩, ⟨"/bin/red"⟩] := by
  refine ⟨fun made => slicingScript_spares (by decide) (by decide) [] made, ?_⟩
  decide +kernel

end Pipeline

end Whittle
