import Whittle.Proofs.Pipeline.Containers
import Whittle.Proofs.Pipeline.Courses

/-!
# What a stage asks its tools

Before a tool is called the places of its products are prepared. If that fails the tool is not called,
and otherwise it is called once (`Once`): so with the variable extractor, the slice extractor, the
reducers, and with the slicer for one criterion (`Attempt`). A pass makes an attempt for one criterion
after the other, and only what ends with an I/O error is not gone on with (`Row`).
-/

namespace Whittle

open Text Disk

/-! ## Calls behind a preparation -/

/-- The call of a command from a site. -/
def Command.call (c : Command) (x : Site) : Call :=
  ⟨c.program, c.argv, x.workspace.root, x.world.disk⟩

/-- The calls that are made behind a preparation; there are none if it fails. -/
inductive Once {α : Type} (prepare : Work α) (calls : α → Site → List Call) (x : Site) :
    List Call → Prop
  | called {v : α} {y : Site} (h : prepare x = (.ok v, y)) : Once prepare calls x (calls v y)
  | unprepared {e : Fault} {y : Site} (h : prepare x = (.error e, y)) : Once prepare calls x []

/-- An action that makes these calls, whatever becomes of it. -/
def Makes {α : Type} (a : Work α) (calls : Site → List Call) : Prop :=
  ∀ x, (a x).2.world.calls = x.world.calls ++ calls x

section

variable {α β : Type}

/-- What is done behind an action without a call changes nothing of its calls. -/
theorem calls_before_idles {a : Work α} {f : α → Work β} (hf : ∀ v, Idles (f v)) (x : Site) :
    ((a >>= f) x).2.world.calls = (a x).2.world.calls := by
  cases h : a x with
  | mk r y =>
    cases r with
    | error e => rw [bind_of_error h]
    | ok v =>
      rw [bind_of_ok h]
      exact ((hf v).rel y trivial).world.calls

theorem Makes.before_idles {a : Work α} {calls : Site → List Call} (ha : Makes a calls)
    {f : α → Work β} (hf : ∀ v, Idles (f v)) : Makes (a >>= f) calls := fun x =>
  (calls_before_idles hf x).trans (ha x)

theorem Makes.attempt {a : Work α} {calls : Site → List Call} (ha : Makes a calls) :
    Makes (Work.attempt a) calls := ha

/-- A tool is called, and what follows calls none. -/
theorem makes_run (host : Host) (c : Command) {next : Int → Work β} (hnext : ∀ v, Idles (next v)) :
    Makes (Work.workspace >>= fun k => liftM (c.run host k.root) >>= next) fun x => [c.call x] := by
  have hrun : Makes (Work.workspace >>= fun k => liftM (c.run host k.root)) fun x => [c.call x] :=
    fun _ => rfl
  simpa only [bind_assoc] using hrun.before_idles hnext

theorem makes_runChecked (host : Host) (c : Command) {next : Unit → Work β}
    (hnext : ∀ v, Idles (next v)) :
    Makes (Work.workspace >>= fun k => liftM (c.runChecked host k.root) >>= next)
      fun x => [c.call x] := by
  have hrun : Makes (Work.workspace >>= fun k => liftM (c.runChecked host k.root))
      fun x => [c.call x] := by
    intro x
    obtain ⟨r, hrun, -⟩ := c.runChecked_apply host x.workspace.root x.world
    rw [bind_of_ok (show Work.workspace x = (.ok x.workspace, x) from rfl), Work.lift_apply, hrun]
    rfl
  simpa only [bind_assoc] using hrun.before_idles hnext

/-- A preparation, and then an action that makes its calls. -/
theorem once_of_makes {prepare : Work α} {next : α → Work β} {calls : α → Site → List Call}
    (hprepare : Idles prepare) (hnext : ∀ v, Makes (next v) (calls v)) (x : Site) :
    ∃ made, Once prepare calls x made ∧
      ((prepare >>= next) x).2.world.calls = x.world.calls ++ made := by
  have hcalls := (hprepare.rel x trivial).world.calls
  cases h : prepare x with
  | mk r y =>
    rw [h] at hcalls
    cases r with
    | error e =>
      refine ⟨[], .unprepared h, ?_⟩
      rw [bind_of_error h, List.append_nil]
      exact hcalls
    | ok v =>
      refine ⟨calls v y, .called h, ?_⟩
      rw [bind_of_ok h, hnext v y]
      exact congrArg (· ++ calls v y) hcalls

end

namespace Pipeline

/-! ## Single tools -/

section

variable (host : Host) (s : Settings) (subject : Subject)

def criteriaPreparation : Work Path :=
  Workspace.prepareOutput Artifacts.criteriaFile .extractCriteria

theorem criteria_calls (x : Site) :
    ∃ made, Once criteriaPreparation (fun _ y => [(extractorCommand s subject).call y]) x made ∧
      (criteria host s subject x).2.world.calls = x.world.calls ++ made := by
  have hprepare : Idles criteriaPreparation := .prepareOutput _ _
  have htry : tryCriteria host s subject = criteriaPreparation >>= fun output =>
      Work.workspace >>= fun k =>
        liftM ((extractorCommand s subject).runChecked host k.root) >>= fun _ =>
          liftM (Action.ask (·.readText output)) >>= fun text => liftM (Criterion.readAll text) := rfl
  obtain ⟨made, honce, hcalls⟩ := once_of_makes hprepare
    (fun output => makes_runChecked host (extractorCommand s subject) fun _ =>
      .seq (.lift (.ask (·.readText output))) fun _ => .lift (keepGood_silent _)) x
  refine ⟨made, honce, (calls_before_idles (fun r => ?_) x).trans (htry ▸ hcalls)⟩
  split
  · exact .ret _
  · exact .seq (.lift (.warn _)) fun _ => .ret _

/-- The places of what the slice extractor leaves. -/
def extractPreparation (owner : Stage) : Work Extract := do
  let produced ← Workspace.prepareOutput (Artifacts.sliceStem ++ "." ++ subject.extension) owner
  let adjusted ← Workspace.prepareOutput Artifacts.adjustedLineFile owner
  return ⟨produced, adjusted⟩

theorem cut_calls (unionFile : Path) (owner : Stage) (name : String) (x : Site) :
    ∃ made, Once (extractPreparation subject owner)
        (fun _ y => [(cutCommand s subject unionFile).call y]) x made ∧
      (cut host s subject unionFile owner name x).2.world.calls = x.world.calls ++ made := by
  have hprepare : Idles (extractPreparation subject owner) :=
    .seq (.prepareOutput _ _) fun _ => .seq (.prepareOutput _ _) fun _ => .ret _
  have hextract : extract host s subject unionFile owner = extractPreparation subject owner >>=
      fun e => Work.workspace >>= fun k =>
        liftM ((cutCommand s subject unionFile).runChecked host k.root) >>= fun _ => pure e := by
    simp only [extract, extractPreparation, bind_assoc, pure_bind]
  obtain ⟨made, honce, hcalls⟩ := once_of_makes hprepare
    (fun e => makes_runChecked host (cutCommand s subject unionFile) fun _ => .ret e) x
  refine ⟨made, honce, (calls_before_idles (fun e => ?_) x).trans ?_⟩
  · exact adoptExtract_idles subject e owner name
  · rw [hextract]
    exact hcalls

/-- The places of what a reducer leaves. -/
def Reducer.preparation (r : Reducer) : Work Path := do
  let _ ← Workspace.createDir Artifacts.reducedDir r.stage
  let output ← Workspace.prepareOutput
    (Artifacts.reducedDir ++ "/" ++ Artifacts.reducedStem ++ "." ++ subject.extension) r.stage
  let _ ← Workspace.prepareOutput Artifacts.adjustedLineFile r.stage
  return output

theorem Reducer.run_calls (r : Reducer) (x : Site) :
    ∃ made, Once (r.preparation subject) (fun _ y => [(r.command s subject).call y]) x made ∧
      (r.run host s subject x).2.world.calls = x.world.calls ++ made := by
  have hprepare : Idles (r.preparation subject) :=
    .seq (.createDir _ _) fun _ => .seq (.prepareOutput _ _) fun _ =>
      .seq (.prepareOutput _ _) fun _ => .ret _
  have hinvoke : r.invoke host s subject = r.preparation subject >>= fun output =>
      Work.workspace >>= fun k => liftM ((r.command s subject).run host k.root) >>= fun code => do
        return ⟨code, if (← Action.getDisk).isFile output then some output else none⟩ := by
    simp only [invoke, preparation, bind_assoc, pure_bind]
  obtain ⟨made, honce, hcalls⟩ := once_of_makes hprepare
    (fun output => makes_run host (r.command s subject) fun code =>
      .seq (.lift .getDisk) fun d => .ret (⟨code, if d.isFile output then some output else none⟩ : Result)) x
  refine ⟨made, honce, (calls_before_idles (fun result => ?_) x).trans ?_⟩
  · exact reducerAdopt_idles s r subject result
  · rw [hinvoke]
    exact hcalls

end

/-! ## The slicer -/

/-- What the slicer of a pass is asked for a criterion, and how its answer is taken back to the
program. -/
structure Query where
  input : Path
  criterion : Criterion
  restore : List Nat → List Nat

namespace Pass

/-- The places of what a slicer leaves. A container is also given its input. The answer is the
directory that a container sees, and the file of the lines that are kept. -/
def preparation (s : Settings) (p : Pass) (input : Path) : Work (Path × Path) :=
  match s.backend, input.fileName with
  | .local, _ => do
    let raw ← Workspace.prepareOutput Artifacts.sliceLinesFile p.stage
    return (input, raw)
  | .container, none => throw (.badContainerInput input)
  | .container, some fileName => do
    let mount ← Workspace.createDir (p.recipe s).mountDir p.stage
    let _ ← Workspace.copyIn input ((p.recipe s).mountDir ++ "/" ++ fileName) p.stage
    let produced ← Workspace.prepareOutput
      ((p.recipe s).mountDir ++ "/" ++ Artifacts.sliceLinesFile) p.stage
    let _ ← Workspace.prepareOutput Artifacts.sliceLinesFile p.stage
    return (mount, produced)

/-- The calls for a criterion: one of the slicer, or one that runs it in a container and one that
removes the container. -/
def queryCalls (host : Host) (s : Settings) (p : Pass) (arguments : String) (q : Query)
    (places : Path × Path) (x : Site) : List Call :=
  match s.backend with
  | .local => [(p.command s q.input q.criterion arguments).call x]
  | .container =>
    (ContainerRun.ofSite host s.tools.containerRuntime (p.recipe s) places.1
      ((p.recipe s).render (q.input.fileName.getD "") q.criterion arguments) x).calls
        s.tools.containerRuntime

theorem preparation_idles (s : Settings) (p : Pass) (input : Path) :
    Idles (p.preparation s input) := by
  unfold preparation
  split
  · exact .seq (.prepareOutput _ _) fun _ => .ret _
  · exact .fail _
  · exact .seq (.createDir _ _) fun _ => .seq (.copyIn _ _ _) fun _ =>
      .seq (.prepareOutput _ _) fun _ => .seq (.prepareOutput _ _) fun _ => .ret _

theorem makes_container (host : Host) (runtime : Path) (recipe : ContainerRecipe) (mount : Path)
    (command : String) :
    Makes (Container.run host runtime recipe mount command) fun x =>
      (ContainerRun.ofSite host runtime recipe mount command x).calls runtime := by
  intro x
  obtain ⟨y, hrun, -, hcalls, -⟩ := Container.run_named host runtime recipe mount command x
  rw [hrun]
  exact hcalls

section

variable (host : Host) {s : Settings} (p : Pass) (arguments : String) (q : Query)

/-- Without a container, the slicer is called behind the preparation, and has to leave its lines. -/
theorem callSlicer_of_local (hb : s.backend = .local) :
    p.callSlicer host s q.input q.criterion arguments =
      p.preparation s q.input >>= fun places => Work.workspace >>= fun k =>
        liftM ((p.command s q.input q.criterion arguments).runChecked host k.root) >>= fun _ =>
          (do
            if !(← Action.getDisk).isFile places.2 then throw (.noSliceLines (p.program s))
            return places.2) := by
  simp only [callSlicer, preparation, hb, bind_assoc, pure_bind]

/-- In a container, it runs behind the preparation; only then is its answer looked at, and its lines
are moved out of the directory that the container sees. -/
theorem callSlicer_of_container (hb : s.backend = .container) {fileName : String}
    (hname : q.input.fileName = some fileName) :
    p.callSlicer host s q.input q.criterion arguments =
      p.preparation s q.input >>= fun places =>
        Container.run host s.tools.containerRuntime (p.recipe s) places.1
          ((p.recipe s).render fileName q.criterion arguments) >>= fun code => (do
            if code ≠ 0 then throw (.exited (p.recipe s).image code)
            if !(← Action.getDisk).isFile places.2 then
              throw (.containerNoSliceLines (p.recipe s).image)
            Workspace.moveIn places.2 Artifacts.sliceLinesFile p.stage) := by
  simp only [callSlicer, Container.slice, preparation, hb, hname, bind_assoc, pure_bind]

theorem callSlicer_calls (x : Site) :
    ∃ made, Once (p.preparation s q.input) (p.queryCalls host s arguments q) x made ∧
      (p.callSlicer host s q.input q.criterion arguments x).2.world.calls =
        x.world.calls ++ made := by
  have hprepare := p.preparation_idles s q.input
  cases hb : s.backend with
  | «local» =>
    rw [callSlicer_of_local host p arguments q hb]
    refine once_of_makes hprepare (fun places => ?_) x
    have hcalls : p.queryCalls host s arguments q places =
        fun y => [(p.command s q.input q.criterion arguments).call y] := by
      funext y
      simp only [queryCalls, hb]
    rw [hcalls]
    refine makes_runChecked host _ fun _ => .seq (.lift .getDisk) fun d => ?_
    split
    · exact .abort _ _
    · exact .ret _
  | container =>
    cases hname : q.input.fileName with
    | none =>
      -- a container cannot be given an input without a name
      have hslicer : p.callSlicer host s q.input q.criterion arguments =
          throw (.badContainerInput q.input) := by
        simp only [callSlicer, Container.slice, hb, hname]
      refine ⟨[], .unprepared (e := .badContainerInput q.input) (y := x) ?_, ?_⟩
      · simp only [preparation, hb, hname]
        rfl
      · rw [hslicer, List.append_nil]
        rfl
    | some fileName =>
      rw [callSlicer_of_container host p arguments q hb hname]
      refine once_of_makes hprepare (fun places => ?_) x
      have hcalls : p.queryCalls host s arguments q places = fun y =>
          (ContainerRun.ofSite host s.tools.containerRuntime (p.recipe s) places.1
            ((p.recipe s).render fileName q.criterion arguments) y).calls
              s.tools.containerRuntime := by
        funext y
        simp only [queryCalls, hb, hname, Option.getD_some]
      rw [hcalls]
      refine (makes_container host _ _ _ _).before_idles fun code => ?_
      split
      · exact .abort _ _
      · refine .seq (.lift .getDisk) fun d => ?_
        split
        · exact .abort _ _
        · exact .moveIn _ _ _

end

end Pass

/-! ## I/O errors -/

/-- Only an I/O error makes an action fail. -/
def FailsIo {σ α : Type} (a : ExceptT Fault (StateM σ) α) : Prop :=
  ∀ x e y, a x = (.error e, y) → ∃ cause, e = .io cause

namespace FailsIo

section

variable {σ α β : Type}

theorem seq {a : ExceptT Fault (StateM σ) α} {f : α → ExceptT Fault (StateM σ) β} (ha : FailsIo a)
    (hf : ∀ v, FailsIo (f v)) : FailsIo (a >>= f) := by
  intro x e y h
  rcases bind_cases h with ⟨e', he, heq⟩ | ⟨v, x₁, -, h⟩
  · cases heq
    exact ha x e y he
  · exact hf v x₁ e y h

theorem ret (v : α) : FailsIo (pure v : ExceptT Fault (StateM σ) α) := by
  intro x e y h
  cases h

theorem ask (f : Disk → Except IoError α) : FailsIo (Action.ask f) := by
  intro w e w' h
  rw [Action.ask_apply] at h
  split at h <;> cases h
  exact ⟨_, rfl⟩

theorem change (f : Disk → Except IoError Disk) : FailsIo (Action.change f) := by
  intro w e w' h
  rw [Action.change_apply] at h
  split at h <;> cases h
  exact ⟨_, rfl⟩

theorem lift {a : Action α} (ha : FailsIo a) : FailsIo (liftM a : Work α) := by
  intro x e y h
  rw [Work.lift_apply] at h
  obtain ⟨he, -⟩ := Prod.mk.inj h
  exact ha x.world e _ (Prod.ext he rfl)

theorem attempt (a : Work α) : FailsIo (Work.attempt a) := by
  intro x e y h
  cases h

end

theorem warn (text : String) : FailsIo (Action.warn text) := by
  intro w e w' h
  cases h

theorem workspace : FailsIo Work.workspace := by
  intro x e y h
  cases h

theorem register (p : Path) (owner : Stage) : FailsIo (Workspace.register p owner) := by
  intro x e y h
  cases h

theorem prepareOutput (name : String) (owner : Stage) :
    FailsIo (Workspace.prepareOutput name owner) := by
  refine seq workspace fun k => seq (register _ owner) fun _ => seq ?_ fun _ => ret _
  exact lift (change _)

end FailsIo

/-! ## Criterion after criterion -/

/-- How the slicer of a pass is asked: with these arguments, and with what is made for a criterion at
an index. -/
structure Inquiry where
  pass : Pass
  arguments : String
  ask : Nat → Criterion → Work Query

namespace Inquiry

/-- The static slicer has a copy of the program for every criterion. -/
def static (s : Settings) (subject : Subject) : Inquiry where
  pass := .static
  arguments := ""
  ask i c := do
    let (input, planting) ← Pass.staticInput s subject i
    return ⟨input, (planting.map fun p => p.shift c).getD c,
      fun ns => (planting.map fun p => p.restore ns).getD ns⟩

/-- The dynamic slicer has one guarded copy. -/
def guarded (subject : Subject) (input : Path) (guard : Insertion.Guard) : Inquiry where
  pass := .dynamic
  arguments := subject.arguments
  ask _ c := pure ⟨input, c, guard.restore⟩

def warning (a : Inquiry) (c : Criterion) (e : Fault) : String :=
  match a.pass with
  | .static => "Static slicing of '" ++ c.text ++ "' failed: " ++ e.message
  | .dynamic => "Dynamic slicing of '" ++ c.text ++ "' failed: " ++ e.message

variable (host : Host) (s : Settings) (a : Inquiry)

/-- One criterion, and then the rest. -/
def turn (i : Nat) (c : Criterion) (rest : Work (List Path)) : Work (List Path) := do
  let q ← a.ask i c
  let r ← Work.attempt (a.pass.callSlicer host s q.input q.criterion a.arguments)
  a.pass.sequel i q.restore (a.warning c) rest r

/-- All criteria, one after the other. -/
def turns : Nat → List Criterion → Work (List Path)
  | _, [] => return []
  | i, c :: cs => a.turn host s i c (turns (i + 1) cs)

theorem staticSlices_eq (subject : Subject) (cs : List Criterion) :
    ∀ i, Pass.staticSlices host s subject i cs = (static s subject).turns host s i cs := by
  induction cs with
  | nil => exact fun _ => rfl
  | cons c cs ih =>
    intro i
    rw [Pass.staticSlices_cons, ih (i + 1)]
    simp only [turns, turn, static, bind_assoc, pure_bind]
    rfl

theorem guardedSlices_eq (subject : Subject) (input : Path) (guard : Insertion.Guard)
    (cs : List Criterion) : ∀ i, Pass.guardedSlices host s subject input guard i cs =
      (guarded subject input guard).turns host s i cs := by
  induction cs with
  | nil => exact fun _ => rfl
  | cons c cs ih =>
    intro i
    rw [Pass.guardedSlices_cons, ih (i + 1)]
    simp only [turns, turn, guarded, pure_bind]
    rfl

/-- What is done for one criterion: what the slicer reads is made, the places of its products are
prepared, and it is called. Where it is called, what it is asked is `fed`. -/
inductive Attempt (fed : Criterion → Query → Site → Prop) (i : Nat) (c : Criterion) (x : Site) :
    List Call → Prop
  | asked {q : Query} {y z : Site} {places : Path × Path} (hask : a.ask i c x = (.ok q, y))
    (hprepare : a.pass.preparation s q.input y = (.ok places, z)) (hfed : fed c q z) :
    Attempt fed i c x (a.pass.queryCalls host s a.arguments q places z)
  | unprepared {q : Query} {y z : Site} {e : Fault} (hask : a.ask i c x = (.ok q, y))
    (hprepare : a.pass.preparation s q.input y = (.error e, z)) : Attempt fed i c x []
  | unasked {e : IoError} {y : Site} (hask : a.ask i c x = (.error (.io e), y)) :
    Attempt fed i c x []

/-- One attempt for every criterion, in order. Behind an attempt that ends with an I/O error there is
no other. -/
inductive Row (fed : Criterion → Query → Site → Prop) : Nat → List Criterion → Site → List Call → Prop
  | done {i : Nat} {x : Site} : Row fed i [] x []
  | ended {i : Nat} {c : Criterion} {cs : List Criterion} {x y : Site} {made : List Call}
    {e : IoError} (h : a.Attempt host s fed i c x made)
    (hend : a.turns host s i [c] x = (.error (.io e), y)) : Row fed i (c :: cs) x made
  | next {i : Nat} {c : Criterion} {cs : List Criterion} {x y : Site} {made more : List Call}
    {files : List Path} (h : a.Attempt host s fed i c x made)
    (hnext : a.turns host s i [c] x = (.ok files, y)) (rest : Row fed (i + 1) cs y more) :
    Row fed i (c :: cs) x (made ++ more)

variable {host s a}

/-- What is done with the answer of a slicer ends with an I/O error or goes on with the rest. -/
theorem sequel_goes (p : Pass) (i : Nat) (restore : List Nat → List Nat) (warning : Fault → String)
    (r : Except Fault Path) (x : Site) :
    ∃ y, y.world.calls = x.world.calls ∧
      ((∃ e, ∀ rest, p.sequel i restore warning rest r x = (.error (.io e), y)) ∨
        ∃ files, ∀ rest, p.sequel i restore warning rest r x =
          (rest >>= fun more => pure (files ++ more)) y) := by
  cases r with
  | error e =>
    refine ⟨x.warned (warning e), rfl, .inr ⟨[], fun rest => ?_⟩⟩
    simp only [List.nil_append, bind_pure]
    exact bind_of_ok (warn_at (warning e) x)
  | ok raw =>
    have hload : Idles (liftM (Slice.load raw) : Work (List Nat)) := .lift (load_silent raw)
    have hloaded := (hload.rel x trivial).world.calls
    cases hr : (liftM (Slice.load raw) : Work (List Nat)) x with
    | mk r y =>
      rw [hr] at hloaded
      cases r with
      | error e =>
        obtain ⟨cause, rfl⟩ := FailsIo.lift (.seq (.ask _) fun _ => .ret _) x e y hr
        exact ⟨y, hloaded, .inl ⟨cause, fun rest => bind_of_error hr⟩⟩
      | ok ns =>
        have hstored := ((storeSlice_idles p i (restore ns)).rel y trivial).world.calls
        cases hr' : p.storeSlice i (restore ns) y with
        | mk r z =>
          rw [hr'] at hstored
          cases r with
          | error e =>
            have hio : FailsIo (p.storeSlice i (restore ns)) :=
              .seq (.prepareOutput _ _) fun _ => .seq (.lift (.change _)) fun _ => .ret _
            obtain ⟨cause, rfl⟩ := hio y e z hr'
            exact ⟨z, hstored.trans hloaded,
              .inl ⟨cause, fun rest => (bind_of_ok hr).trans (bind_of_error hr')⟩⟩
          | ok path =>
            exact ⟨z, hstored.trans hloaded,
              .inr ⟨[path], fun rest => (bind_of_ok hr).trans (bind_of_ok hr')⟩⟩

section

variable (hidle : ∀ i c, Idles (a.ask i c)) (hio : ∀ i c, FailsIo (a.ask i c))
include hidle hio

/-- A turn makes its attempt, and then it ends with an I/O error or goes on with the rest. -/
theorem turn_attempt {fed : Criterion → Query → Site → Prop} {i : Nat} {c : Criterion} {x : Site}
    (hfed : ∀ q y places z, a.ask i c x = (.ok q, y) →
      a.pass.preparation s q.input y = (.ok places, z) → fed c q z) :
    ∃ made y, a.Attempt host s fed i c x made ∧ y.world.calls = x.world.calls ++ made ∧
      ((∃ e, ∀ rest, a.turn host s i c rest x = (.error (.io e), y)) ∨
        ∃ files, ∀ rest, a.turn host s i c rest x =
          (rest >>= fun more => pure (files ++ more)) y) := by
  have hasked := ((hidle i c).rel x trivial).world.calls
  cases hask : a.ask i c x with
  | mk r y =>
    rw [hask] at hasked
    cases r with
    | error e =>
      obtain ⟨cause, rfl⟩ := hio i c x e y hask
      exact ⟨[], y, .unasked hask, hasked.trans (List.append_nil _).symm,
        .inl ⟨cause, fun rest => bind_of_error hask⟩⟩
    | ok q =>
      obtain ⟨made, honce, hcalls⟩ := Pass.callSlicer_calls host a.pass a.arguments q y
      have hattempt : a.Attempt host s fed i c x made := by
        cases honce with
        | called hprepare => exact .asked hask hprepare (hfed _ _ _ _ hask hprepare)
        | unprepared hprepare => exact .unprepared hask hprepare
      cases hslicer : a.pass.callSlicer host s q.input q.criterion a.arguments y with
      | mk r z =>
        rw [hslicer] at hcalls
        obtain ⟨z', hsame, hgoes⟩ := sequel_goes a.pass i q.restore (a.warning c) r z
        have hturn (rest : Work (List Path)) : a.turn host s i c rest x =
            a.pass.sequel i q.restore (a.warning c) rest r z := by
          refine (bind_of_ok hask).trans (bind_of_ok ?_)
          rw [Work.attempt_apply, hslicer]
        refine ⟨made, z', hattempt, ?_, ?_⟩
        · rw [hsame, hcalls, hasked]
        · simpa only [hturn] using hgoes

theorem turns_adds (cs : List Criterion) :
    ∀ i x, x.world.calls <+: (a.turns host s i cs x).2.world.calls := by
  induction cs with
  | nil => exact fun i x => List.prefix_refl _
  | cons c cs ih =>
    intro i x
    obtain ⟨made, y, -, hcalls, ⟨e, hend⟩ | ⟨files, hgo⟩⟩ :=
      @turn_attempt host s a hidle hio (fun _ _ _ => True) i c x fun _ _ _ _ _ _ => trivial
    · rw [show a.turns host s i (c :: cs) x = (.error (.io e), y) from hend _]
      exact ⟨made, hcalls.symm⟩
    · have hsame := calls_before_idles (a := a.turns host s (i + 1) cs)
        (f := fun more => pure (files ++ more)) (fun _ => .ret _) y
      rw [show a.turns host s i (c :: cs) x = _ from hgo _, hsame]
      exact List.IsPrefix.trans ⟨made, hcalls.symm⟩ (ih (i + 1) y)

/-- All criteria are gone through in order. What holds at the beginning, and behind every turn that
the others go on from, feeds every attempt. -/
theorem turns_row {fed : Criterion → Query → Site → Prop} {I : Site → Prop} {final : List Call}
    (hfed : ∀ i c x q y places z, I x → a.ask i c x = (.ok q, y) →
      a.pass.preparation s q.input y = (.ok places, z) → fed c q z)
    (hstep : ∀ i c x files y, I x → a.turns host s i [c] x = (.ok files, y) →
      y.world.calls <+: final → I y) (cs : List Criterion) :
    ∀ i x, I x → (a.turns host s i cs x).2.world.calls <+: final →
      ∃ made, a.Row host s fed i cs x made ∧
        (a.turns host s i cs x).2.world.calls = x.world.calls ++ made := by
  induction cs with
  | nil => exact fun i x _ _ => ⟨[], .done, (List.append_nil _).symm⟩
  | cons c cs ih =>
    intro i x hx hfinal
    obtain ⟨made, y, hattempt, hcalls, ⟨e, hend⟩ | ⟨files, hgo⟩⟩ :=
      turn_attempt hidle hio (i := i) (c := c) (hfed i c x · · · · hx)
    · refine ⟨made, .ended hattempt (hend _), ?_⟩
      rw [show a.turns host s i (c :: cs) x = (.error (.io e), y) from hend _, hcalls]
    · have hone : a.turns host s i [c] x = (.ok (files ++ []), y) := hgo _
      have hsame : (a.turns host s i (c :: cs) x).2.world.calls =
          (a.turns host s (i + 1) cs y).2.world.calls := by
        rw [show a.turns host s i (c :: cs) x =
          (a.turns host s (i + 1) cs >>= fun more => pure (files ++ more)) y from hgo _]
        exact calls_before_idles (fun _ => .ret _) y
      rw [hsame] at hfinal
      have hy : I y := hstep i c x _ y hx hone ((turns_adds hidle hio cs (i + 1) y).trans hfinal)
      obtain ⟨more, hrow, hmore⟩ := ih (i + 1) y hy hfinal
      refine ⟨made ++ more, .next hattempt hone hrow, ?_⟩
      rw [hsame, hmore, hcalls, List.append_assoc]

end

end Inquiry

end Pipeline

end Whittle
