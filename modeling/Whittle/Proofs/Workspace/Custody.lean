import Whittle.Pipeline.Run
import Whittle.Proofs.Tool.Calls

/-!
# What stages keep to

Between two calls of tools a stage changes the disk, the notices and the ledger, and nothing else
(`Idle`). So a relation that allows for this, for one call of a tool, and for a container that is run
and removed (`Habit`) is kept by every stage, whatever it does and wherever it fails
(`runStages_keeps`). One such relation says that a workspace is handed from stage to stage with its
directory, its lock and the fact that it has not been released (`runStages_ledgerOnly`).
-/

namespace Whittle

/-- Nothing of a workspace was changed but the ledger. -/
def Workspace.Same (k k' : Workspace) : Prop := k' = { k with ledger := k'.ledger }

theorem Workspace.Same.refl (k : Workspace) : k.Same k := rfl

theorem Workspace.Same.trans {k k₁ k₂ : Workspace} (h : k.Same k₁) (h₁ : k₁.Same k₂) :
    k.Same k₂ := by
  unfold Same at h h₁ ⊢
  rw [h₁, h]

theorem Workspace.Same.root {k k' : Workspace} (h : k.Same k') : k'.root = k.root := by
  rw [h]

/-! ## Without calls -/

/-- No tool was called and no identifier drawn. -/
structure World.Idle (w w' : World) : Prop where
  calls : w'.calls = w.calls
  drawn : w'.drawn = w.drawn

theorem World.Idle.refl (w : World) : w.Idle w := ⟨rfl, rfl⟩

theorem World.Idle.trans {w w₁ w₂ : World} (h : w.Idle w₁) (h₁ : w₁.Idle w₂) : w.Idle w₂ :=
  ⟨h₁.calls.trans h.calls, h₁.drawn.trans h.drawn⟩

/-- An action that calls no tool, whatever becomes of it. -/
abbrev Silent {α : Type} (a : Action α) : Prop :=
  Keeps (fun _ => True) World.Idle a fun _ => True

namespace Silent

variable {α β : Type} {a : Action α}

theorem seq {f : α → Action β} (ha : Silent a) (hf : ∀ v, Silent (f v)) : Silent (a >>= f) :=
  Keeps.bind (fun _ _ _ => .trans) ha fun v _ => hf v

theorem ret (v : α) : Silent (pure v) := Keeps.pure .refl trivial

theorem fail (e : Fault) : Silent (throw e : Action α) := Keeps.throw .refl

theorem abort (e : Fault) (f : α → Action β) : Silent ((throw e : Action α) >>= f) :=
  Keeps.bind (P := fun _ => False) (fun _ _ _ => .trans) (Keeps.throw .refl) fun _ h => h.elim

theorem of_idle (h : ∀ w : World, w.Idle (a w).2) : Silent a :=
  ⟨fun _ _ => trivial, fun w _ => h w, fun _ _ _ _ => trivial⟩

theorem getDisk : Silent Action.getDisk := of_idle .refl

theorem warn (text : String) : Silent (Action.warn text) := of_idle fun _ => ⟨rfl, rfl⟩

theorem ask (f : Disk → Except IoError α) : Silent (Action.ask f) := by
  refine of_idle fun w => ?_
  rw [Action.ask_apply]
  split <;> exact ⟨rfl, rfl⟩

theorem change (f : Disk → Except IoError Disk) : Silent (Action.change f) := by
  refine of_idle fun w => ?_
  rw [Action.change_apply]
  split <;> exact ⟨rfl, rfl⟩

theorem transact (f : Disk → Except IoError Unit × Disk) : Silent (Action.transact f) := by
  refine of_idle fun w => ?_
  rw [Action.transact_apply]
  split <;> exact ⟨rfl, rfl⟩

theorem attempt (h : Silent a) : Silent (Action.attempt a) :=
  ⟨fun _ _ => trivial, h.rel, fun _ _ _ _ => trivial⟩

end Silent

/-- No tool was called and no identifier drawn, and of the workspace the ledger was changed at
most. -/
structure Idle (x y : Site) : Prop where
  world : x.world.Idle y.world
  workspace : x.workspace.Same y.workspace

theorem Idle.refl (x : Site) : Idle x x := ⟨.refl _, .refl _⟩

theorem Idle.trans {x y z : Site} (h : Idle x y) (h₁ : Idle y z) : Idle x z :=
  ⟨h.world.trans h₁.world, h.workspace.trans h₁.workspace⟩

theorem Idle.root {x y : Site} (h : Idle x y) : y.workspace.root = x.workspace.root :=
  h.workspace.root

/-- An action on a workspace that calls no tool, whatever becomes of it. -/
abbrev Idles {α : Type} (a : Work α) : Prop := Keeps (fun _ => True) Idle a fun _ => True

namespace Idles

variable {α β : Type} {a : Work α}

theorem seq {f : α → Work β} (ha : Idles a) (hf : ∀ v, Idles (f v)) : Idles (a >>= f) :=
  Keeps.bind (fun _ _ _ => .trans) ha fun v _ => hf v

theorem ret (v : α) : Idles (pure v) := Keeps.pure .refl trivial

theorem fail (e : Fault) : Idles (throw e : Work α) := Keeps.throw .refl

theorem abort (e : Fault) (f : α → Work β) : Idles ((throw e : Work α) >>= f) :=
  Keeps.bind (P := fun _ => False) (fun _ _ _ => .trans) (Keeps.throw .refl) fun _ h => h.elim

theorem lift {a : Action α} (h : Silent a) : Idles (liftM a : Work α) :=
  ⟨fun _ _ => trivial, fun x _ => ⟨h.rel x.world trivial, rfl⟩, fun _ _ _ _ => trivial⟩

theorem workspace : Idles Work.workspace :=
  ⟨fun _ _ => trivial, fun x _ => .refl x, fun _ _ _ _ => trivial⟩

theorem register (p : Path) (owner : Stage) : Idles (Workspace.register p owner) :=
  ⟨fun _ _ => trivial, fun _ _ => ⟨.refl _, rfl⟩, fun _ _ _ _ => trivial⟩

theorem attempt (h : Idles a) : Idles (Work.attempt a) :=
  ⟨fun _ _ => trivial, h.rel, fun _ _ _ _ => trivial⟩

theorem removeStale (p : Path) : Idles (Workspace.removeStale p) := lift (.change _)

theorem prepareOutput (name : String) (owner : Stage) :
    Idles (Workspace.prepareOutput name owner) :=
  .seq .workspace fun _ => .seq (.register _ _) fun _ => .seq (.removeStale _) fun _ => .ret _

theorem createDir (name : String) (owner : Stage) : Idles (Workspace.createDir name owner) := by
  refine .seq .workspace fun k => .seq (.lift .getDisk) fun d => ?_
  dsimp only
  split
  · exact .seq (.register _ _) fun _ => .seq (.lift (.transact _)) fun _ => .ret _
  · exact .seq (.lift (.transact _)) fun _ => .ret _

theorem copyIn (source : Path) (name : String) (owner : Stage) :
    Idles (Workspace.copyIn source name owner) :=
  .seq .workspace fun _ => .seq (.register _ _) fun _ => .seq (.lift (.change _)) fun _ => .ret _

theorem moveIn (source : Path) (name : String) (owner : Stage) :
    Idles (Workspace.moveIn source name owner) := by
  refine .seq .workspace fun k => .seq (.register _ _) fun _ => ?_
  refine .seq (.removeStale _) fun _ => .seq (.lift (.attempt (.change _))) fun moved => ?_
  split
  · exact .ret _
  · exact .seq (.lift (.change _)) fun _ =>
      .seq (.lift (.attempt (.change _))) fun _ => .ret _

end Idles

/-- An action that changes nothing of the workspace but the ledger. -/
def LedgerOnly {α : Type} (a : Work α) : Prop :=
  Keeps (fun _ => True) (fun s s' : Site => s.workspace.Same s'.workspace) a fun _ => True

theorem Idles.ledgerOnly {α : Type} {a : Work α} (h : Idles a) : LedgerOnly a :=
  ⟨h.inv, fun x hx => (h.rel x hx).workspace, h.post⟩

namespace Pipeline

/-! ## Parts of stages that call no tool -/

theorem keepGood_silent (rs : List (Except Fault Criterion)) : Silent (Criterion.keepGood rs) := by
  induction rs with
  | nil => exact .ret _
  | cons r rs ih =>
    cases r with
    | ok c => exact .seq ih fun _ => .ret _
    | error e => exact .seq (.warn _) fun _ => ih

theorem load_silent (p : Path) : Silent (Slice.load p) := .seq (.ask _) fun _ => .ret _

theorem gather_silent (files : List Path) : Silent (Slice.gather files) := by
  induction files with
  | nil => exact .ret _
  | cons p ps ih =>
    refine .seq (load_silent p).attempt fun r => ?_
    split
    · exact .seq ih fun _ => .ret _
    · exact .seq (.warn _) fun _ => ih

theorem unify_silent (files : List Path) (output : Path) : Silent (Slice.unify files output) := by
  unfold Slice.unify
  split
  · exact .abort _ _
  · refine .seq (gather_silent files) fun r => ?_
    dsimp only
    split
    · exact .abort _ _
    · split
      · exact .abort _ _
      · exact .seq (.change _) fun _ => .ret _

theorem plantFile_silent (p : Path) (language : Language) (arguments : String) :
    Silent (Insertion.plantFile p language arguments) := by
  refine .seq (.ask _) fun source => ?_
  split
  · exact .seq (.ret _) fun _ => .seq (.change _) fun _ => .ret _
  · exact .abort _ _

theorem countLines_silent (p : Path) : Silent (countLines p) := .seq (.ask _) fun _ => .ret _

theorem adjustedLine_silent (p : Path) : Silent (adjustedLine p) := .seq .getDisk fun _ => .ret _

theorem extractLine_silent (subject : Subject) (e : Extract) : Silent (extractLine subject e) := by
  refine .seq (adjustedLine_silent _) fun reported => ?_
  split
  · exact .ret _
  · exact .seq (.warn _) fun _ => .ret _

theorem clampLine_silent (line count : Nat) : Silent (Reducer.clampLine line count) := by
  unfold Reducer.clampLine
  dsimp only
  split
  · exact .seq (.warn _) fun _ => .ret _
  · exact .ret _

theorem record_silent (p : Progress) (stage : Stage) (outcome : Outcome) (detail : String) :
    Silent (p.record stage outcome detail) := by
  have hannounce (r : StageRecord) : Silent (announce r) := by
    unfold announce
    split
    · exact .warn _
    · exact .ret _
  exact .seq (hannounce _) fun _ => .ret _

theorem adoptOrKeep_silent (p : Progress) (stage : Stage) (result : Except Fault Subject) :
    Silent (p.adoptOrKeep stage result) := by
  unfold Progress.adoptOrKeep
  split
  · exact .seq (record_silent p stage _ _) fun _ => .ret _
  · exact record_silent p stage _ _

theorem storeSlice_idles (p : Pass) (i : Nat) (ns : List Nat) : Idles (p.storeSlice i ns) :=
  .seq (.prepareOutput _ _) fun _ => .seq (.lift (.change _)) fun _ => .ret _

theorem staticInput_idles (s : Settings) (subject : Subject) (i : Nat) :
    Idles (Pass.staticInput s subject i) := by
  refine .seq (.prepareOutput _ _) fun input => .seq (.lift (.change _)) fun _ => ?_
  split
  · refine .seq (Idles.lift (plantFile_silent _ _ _)).attempt fun r => ?_
    split
    · exact .ret _
    · exact .seq (.lift (.warn _)) fun _ => .ret _
  · exact .ret _

theorem adoptExtract_idles (subject : Subject) (e : Extract) (owner : Stage) (name : String) :
    Idles (adoptExtract subject e owner name) := by
  refine .seq (.lift .getDisk) fun d => ?_
  split
  · exact .abort _ _
  · refine .seq (.lift (extractLine_silent _ _)) fun line => .seq (.moveIn _ _ _) fun product => ?_
    refine .seq (.lift (countLines_silent _)) fun count => ?_
    dsimp only
    split
    · exact .abort _ _
    · exact .ret _

theorem reducerAdopt_idles (s : Settings) (r : Reducer) (subject : Subject)
    (result : Reducer.Result) : Idles (r.adopt s subject result) := by
  refine .seq (.lift .getDisk) fun d => ?_
  split
  · exact .fail _
  · refine .seq (.copyIn _ _ _) fun product => .seq (.lift (countLines_silent _)) fun count => ?_
    dsimp only
    split
    · exact .abort _ _
    · exact .seq .workspace fun _ => .seq (.lift (adjustedLine_silent _)) fun _ =>
        .seq (.lift (clampLine_silent _ _)) fun _ => .ret _

/-! ## Habits -/

/-- A relation that is kept between calls, by the call of a tool that is told the failure line, and
by a container that is run and removed, in a work directory. -/
structure Habit (host : Host) (s : Settings) (root : Path) (R : Site → Site → Prop) : Prop where
  trans : ∀ {x y z}, R x y → R y z → R x z
  idle : ∀ {x y}, Idle x y → R x y
  call : ∀ (c : Command) {line : Nat}, c.locLine = some line → ∀ x : Site,
    x.workspace.root = root →
    R x { x with world := x.world.after host ⟨c.program, c.argv, root, x.world.disk⟩ }
  container : ∀ (p : Pass) (mount : Path) (command : String) (x : Site), x.workspace.root = root →
    R x (Container.run host s.tools.containerRuntime (p.recipe s) mount command x).2

/-- An action on a workspace in a directory that keeps to a relation. -/
abbrev Obeys {α : Type} (root : Path) (R : Site → Site → Prop) (a : Work α) (Q : α → Prop) : Prop :=
  Keeps (fun x : Site => x.workspace.root = root) R a Q

namespace Habit

variable {host : Host} {s : Settings} {root : Path} {R : Site → Site → Prop}
  (h : Habit host s root R)
include h

section

variable {α β : Type}

theorem seq {a : Work α} {f : α → Work β} {P : α → Prop} {Q : β → Prop} (ha : Obeys root R a P)
    (hf : ∀ v, P v → Obeys root R (f v) Q) : Obeys root R (a >>= f) Q :=
  ha.bind (fun _ _ _ => h.trans) hf

theorem of_idles {a : Work α} (ha : Idles a) : Obeys root R a fun _ => True where
  inv x hx := (ha.rel x trivial).root.trans hx
  rel x _ := h.idle (ha.rel x trivial)
  post _ _ _ _ := trivial

/-- A part that calls no tool, and then another one. -/
theorem behind {a : Work α} {f : α → Work β} {Q : β → Prop} (ha : Idles a)
    (hf : ∀ v, Obeys root R (f v) Q) : Obeys root R (a >>= f) Q :=
  h.seq (h.of_idles ha) fun v _ => hf v

omit h in
theorem attempt {a : Work α} {Q : α → Prop} (ha : Obeys root R a Q) :
    Obeys root R (Work.attempt a) fun _ => True :=
  ⟨ha.inv, ha.rel, fun _ _ _ _ => trivial⟩

theorem workspace : Obeys root R Work.workspace fun k => k.root = root where
  inv _ hx := hx
  rel x _ := h.idle (.refl x)
  post x hx k hk := by
    cases hk
    exact hx

theorem run (c : Command) {line : Nat} (hline : c.locLine = some line) :
    Obeys root R (liftM (c.run host root)) fun _ => True where
  inv _ hx := hx
  rel x hx := h.call c hline x hx
  post _ _ _ _ := trivial

theorem runChecked (c : Command) {line : Nat} (hline : c.locLine = some line) :
    Obeys root R (liftM (c.runChecked host root)) fun _ => True where
  inv _ hx := hx
  rel x hx := by
    obtain ⟨r, hrun, -⟩ := c.runChecked_apply host root x.world
    show R x { x with world := (c.runChecked host root x.world).2 }
    rw [hrun]
    exact h.call c hline x hx
  post _ _ _ _ := trivial

end

/-! ### Stages -/

variable (subject : Subject)

theorem criteria : Obeys root R (criteria host s subject) fun _ => True := by
  have htry : Obeys root R (tryCriteria host s subject) fun _ => True := by
    refine h.behind (.prepareOutput _ _) fun output => h.seq h.workspace fun k hk => ?_
    rw [hk]
    refine h.seq (h.runChecked (extractorCommand s subject) rfl) fun _ _ => ?_
    exact h.of_idles (.seq (.lift (.ask _)) fun _ => .lift (keepGood_silent _))
  refine h.seq (attempt htry) fun r _ => h.of_idles ?_
  split
  · exact .ret _
  · exact .seq (.lift (.warn _)) fun _ => .ret _

theorem cut (unionFile : Path) (owner : Stage) (name : String) :
    Obeys root R (cut host s subject unionFile owner name) fun _ => True := by
  have hextract : Obeys root R (extract host s subject unionFile owner) fun _ => True := by
    refine h.behind (.prepareOutput _ _) fun _ => h.behind (.prepareOutput _ _) fun _ => ?_
    refine h.seq h.workspace fun k hk => ?_
    rw [hk]
    exact h.seq (h.runChecked (cutCommand s subject unionFile) rfl) fun _ _ => h.of_idles (.ret _)
  exact h.seq hextract fun e _ => h.of_idles (adoptExtract_idles subject e owner name)

theorem containerSlice (p : Pass) (input : Path) (criterion : Criterion) (arguments : String)
    (owner : Stage) :
    Obeys root R (Container.slice host s.tools.containerRuntime (p.recipe s) input criterion
      arguments owner) fun _ => True := by
  have hrun (mount : Path) (command : String) :
      Obeys root R (Container.run host s.tools.containerRuntime (p.recipe s) mount command)
        fun _ => True := by
    refine ⟨fun x hx => ?_, fun x hx => h.container p mount command x hx, fun _ _ _ _ => trivial⟩
    obtain ⟨name, x', hrun, hworkspace, -⟩ :=
      Container.run_apply host s.tools.containerRuntime (p.recipe s) mount command x
    rw [hrun, hworkspace]
    exact hx
  unfold Container.slice
  split
  · exact h.of_idles (.fail _)
  · refine h.behind (.createDir _ _) fun mount => h.behind (.copyIn _ _ _) fun _ => ?_
    refine h.behind (.prepareOutput _ _) fun produced => h.behind (.prepareOutput _ _) fun _ => ?_
    refine h.seq (hrun _ _) fun code _ => h.of_idles ?_
    dsimp only
    split
    · exact .abort _ _
    · refine .seq (.lift .getDisk) fun d => ?_
      split
      · exact .abort _ _
      · exact .moveIn _ _ _

theorem callSlicer (p : Pass) (input : Path) (criterion : Criterion) (arguments : String) :
    Obeys root R (p.callSlicer host s input criterion arguments) fun _ => True := by
  unfold Pass.callSlicer
  split
  · exact h.containerSlice p input criterion arguments _
  · refine h.behind (.prepareOutput _ _) fun raw => h.seq h.workspace fun k hk => ?_
    rw [hk]
    refine h.seq (h.runChecked (p.command s input criterion arguments) rfl) fun _ _ => ?_
    refine h.of_idles (.seq (.lift .getDisk) fun d => ?_)
    split
    · exact .abort _ _
    · exact .ret _

theorem staticSlices (cs : List Criterion) :
    ∀ i, Obeys root R (Pass.staticSlices host s subject i cs) fun _ => True := by
  induction cs with
  | nil => intro i; exact h.of_idles (.ret _)
  | cons c cs ih =>
    intro i
    refine h.behind (staticInput_idles s subject i) fun r => ?_
    refine h.seq (attempt (h.callSlicer .static r.1 _ _)) fun raw _ => ?_
    split
    · exact h.behind (.lift (.warn _)) fun _ => ih (i + 1)
    · refine h.behind (.lift (load_silent _)) fun ns => ?_
      refine h.behind (storeSlice_idles .static i _) fun path => ?_
      exact h.seq (ih (i + 1)) fun _ _ => h.of_idles (.ret _)

theorem guardedSlices (input : Path) (guard : Insertion.Guard) (cs : List Criterion) :
    ∀ i, Obeys root R (Pass.guardedSlices host s subject input guard i cs) fun _ => True := by
  induction cs with
  | nil => intro i; exact h.of_idles (.ret _)
  | cons c cs ih =>
    intro i
    refine h.seq (attempt (h.callSlicer .dynamic input c _)) fun raw _ => ?_
    split
    · exact h.behind (.lift (.warn _)) fun _ => ih (i + 1)
    · refine h.behind (.lift (load_silent _)) fun ns => ?_
      refine h.behind (storeSlice_idles .dynamic i _) fun path => ?_
      exact h.seq (ih (i + 1)) fun _ _ => h.of_idles (.ret _)

theorem passRun (p : Pass) (cs : List Criterion) :
    Obeys root R (p.run host s subject cs) fun _ => True := by
  have hslices : Obeys root R (p.slices host s subject cs) fun _ => True := by
    cases p with
    | static => exact h.staticSlices subject cs 0
    | dynamic =>
      show Obeys root R (Pass.dynamicSlices host s subject cs) fun _ => True
      unfold Pass.dynamicSlices
      split
      · exact h.of_idles (.ret _)
      · refine h.behind (.lift (.ask _)) fun source => ?_
        split
        · exact h.of_idles (.fail _)
        · refine h.behind (.prepareOutput _ _) fun input => h.behind (.lift (.change _)) fun _ => ?_
          exact h.guardedSlices subject _ _ _ 0
  have hunite : Obeys root R (p.unite host s subject cs) fun _ => True := by
    refine h.seq hslices fun files _ => h.of_idles ?_
    exact .seq (.prepareOutput _ _) fun _ => .seq (.lift (unify_silent _ _)) fun _ => .ret _
  exact h.seq hunite fun unionFile _ => h.cut subject unionFile _ _

theorem reducerRun (r : Reducer) : Obeys root R (r.run host s subject) fun _ => True := by
  have hinvoke : Obeys root R (r.invoke host s subject) fun _ => True := by
    refine h.behind (.createDir _ _) fun _ => h.behind (.prepareOutput _ _) fun _ => ?_
    refine h.behind (.prepareOutput _ _) fun _ => h.seq h.workspace fun k hk => ?_
    rw [hk]
    refine h.seq (h.run (r.command s subject) rfl) fun code _ => ?_
    exact h.of_idles (.seq (.lift .getDisk) fun _ => .ret _)
  exact h.seq hinvoke fun result _ => h.of_idles (reducerAdopt_idles s r subject result)

theorem runStage (stage : Stage) (p : Progress) :
    Obeys root R (runStage host s stage p) fun _ => True := by
  have hslicing (pass : Pass) : Obeys root R (slicingStage host s pass p) fun _ => True := by
    unfold slicingStage
    split
    · exact h.of_idles (.lift (record_silent _ _ _ _))
    · exact h.seq (attempt (h.passRun p.subject pass p.criteria)) fun _ _ =>
        h.of_idles (.lift (adoptOrKeep_silent _ _ _))
  have hreducer (r : Reducer) : Obeys root R (reducerStage host s r p) fun _ => True :=
    h.seq (attempt (h.reducerRun p.subject r)) fun _ _ =>
      h.of_idles (.lift (adoptOrKeep_silent _ _ _))
  cases stage with
  | extractCriteria =>
    exact h.seq (h.criteria p.subject) fun _ _ =>
      h.of_idles (.seq (.lift (record_silent _ _ _ _)) fun _ => .ret _)
  | staticSlice => exact hslicing .static
  | dynamicSlice => exact hslicing .dynamic
  | graphReduce => exact hreducer .graph
  | statementReduce => exact hreducer .statement
  | init | validate | save | cleanup | done => exact h.of_idles (.ret _)

/-- What is kept between calls and by every call is kept by a row of stages. -/
theorem runStages (stages : List Stage) (p : Progress) :
    Obeys root R (runStages host s stages p) fun _ => True := by
  induction stages generalizing p with
  | nil => exact h.of_idles (.ret _)
  | cons stage stages ih => exact h.seq (h.runStage stage p) fun next _ => ih next

end Habit

/-! ## The workspace -/

theorem ledger_habit (host : Host) (s : Settings) (root : Path) :
    Habit host s root fun x y => x.workspace.Same y.workspace where
  trans h h₁ := h.trans h₁
  idle h := h.workspace
  call _ _ _ x _ := .refl x.workspace
  container p mount command x _ := by
    obtain ⟨name, x', hrun, hworkspace, -⟩ :=
      Container.run_apply host s.tools.containerRuntime (p.recipe s) mount command x
    rw [hrun, hworkspace]
    exact .refl _

/-- A row of stages leaves the workspace with nothing changed but the ledger. -/
theorem runStages_ledgerOnly (host : Host) (s : Settings) (stages : List Stage) (p : Progress) :
    LedgerOnly (runStages host s stages p) where
  inv _ _ := trivial
  rel x _ := ((ledger_habit host s x.workspace.root).runStages stages p).rel x rfl
  post _ _ _ _ := trivial

end Pipeline

end Whittle
