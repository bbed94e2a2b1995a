import Mathlib.Data.List.Nodup
import Mathlib.Data.List.Range
import Whittle.Proofs.Pipeline.Gate

/-!
# Containers that are removed

Whatever the container runtime does, each container that a run asks it for is removed by the next
thing it is asked, and no name is used twice (`run_removes_containers`). The answer to a removal is
only reported: what a slicer in a container comes to does not depend on it (`slice_agrees`).
-/

namespace Whittle

open Text Disk

/-! ## Calls of the runtime -/

/-- A container that was run and removed, with the disks on which that was done. -/
structure ContainerRun where
  name : String
  recipe : ContainerRecipe
  mount : Path
  command : String
  cwd : Path
  disk : Disk
  left : Disk

/-- The container that a command is run in from a site. -/
def ContainerRun.ofSite (host : Host) (runtime : Path) (recipe : ContainerRecipe) (mount : Path)
    (command : String) (x : Site) : ContainerRun where
  name := Container.nextName host x.world
  recipe := recipe
  mount := mount
  command := command
  cwd := x.workspace.root
  disk := x.world.disk
  left := (host.launch x.world.calls ⟨runtime,
    recipe.runArguments (Container.nextName host x.world) mount command, x.workspace.root,
    x.world.disk⟩).disk

/-- The calls of the runtime for a container. -/
def ContainerRun.calls (runtime : Path) (c : ContainerRun) : List Call :=
  [⟨runtime, c.recipe.runArguments c.name c.mount c.command, c.cwd, c.disk⟩,
   ⟨runtime, ["rm", "-f", c.name], c.cwd, c.left⟩]

namespace Call

/-- Whether the first argument tells the failure line, as with every tool outside of containers. -/
def tellsLine (c : Call) : Bool :=
  c.argv.head?.any fun first => "--loc-line=".toList.isPrefixOf first.toList

/-- Whether the container runtime is asked for something. A tool that is the same program is told
the failure line. -/
def isOfRuntime (runtime : Path) (c : Call) : Bool := c.program = runtime && !c.tellsLine

end Call

theorem Command.tellsLine_argv {c : Command} {line : Nat} (h : c.locLine = some line) (cwd : Path)
    (d : Disk) : Call.tellsLine ⟨c.program, c.argv, cwd, d⟩ = true := by
  have hhead : c.argv.head? = some (setting "loc-line" (natText line)) := by
    unfold argv
    rw [h]
    rfl
  have hfront : "--loc-line=".toList <+: (setting "loc-line" (natText line)).toList :=
    ⟨(natText line).toList, by simp [setting]⟩
  simp only [Call.tellsLine, hhead, Option.any_some]
  exact List.isPrefixOf_iff_prefix.mpr hfront

theorem ContainerRun.filter_calls (runtime : Path) (c : ContainerRun) :
    (c.calls runtime).filter (·.isOfRuntime runtime) = c.calls runtime := by
  refine List.filter_eq_self.mpr fun call hcall => ?_
  have hother (rest : List String) {first : String} (hfirst : first ∈ ["run", "rm"]) :
      Call.isOfRuntime runtime ⟨runtime, first :: rest, call.cwd, call.disk⟩ = true := by
    have hline : "--loc-line=".toList.isPrefixOf first.toList = false := by
      revert first
      decide
    simp only [Call.isOfRuntime, Call.tellsLine, List.head?_cons, Option.any_some, hline]
    simp
  rcases List.mem_pair.mp hcall with rfl | rfl
  · exact hother _ (by decide)
  · exact hother _ (by decide)

/-- Among calls, every container that is run is removed by the next call of the runtime. -/
structure Removes (runtime root : Path) (made : List Call) (runs : List ContainerRun) : Prop where
  calls : made.filter (·.isOfRuntime runtime) = runs.flatMap (·.calls runtime)
  cwd : ∀ c ∈ runs, c.cwd = root

theorem Removes.append {runtime root : Path} {made more : List Call}
    {runs others : List ContainerRun} (h : Removes runtime root made runs)
    (h₁ : Removes runtime root more others) :
    Removes runtime root (made ++ more) (runs ++ others) where
  calls := by rw [List.filter_append, List.flatMap_append, h.calls, h₁.calls]
  cwd := List.forall_mem_append.mpr ⟨h.cwd, h₁.cwd⟩

/-- The second site comes from the first by calls among which containers are removed; their names
are the next ones. -/
def Balances (host : Host) (runtime root : Path) (x y : Site) : Prop :=
  ∃ made runs, y.world.calls = x.world.calls ++ made ∧ Removes runtime root made runs ∧
    runs.map ContainerRun.name =
      (List.range' x.world.drawn runs.length).map (Artifacts.containerFront ++ host.freshId ·) ∧
    y.world.drawn = x.world.drawn + runs.length

namespace Pipeline

theorem balances_habit (host : Host) (s : Settings) (root : Path) :
    Habit host s root (Balances host s.tools.containerRuntime root) where
  trans := by
    rintro x y z ⟨made, runs, hcalls, hremoves, hnames, hdrawn⟩
      ⟨more, others, hcalls₁, hremoves₁, hnames₁, hdrawn₁⟩
    refine ⟨made ++ more, runs ++ others, ?_, hremoves.append hremoves₁, ?_, ?_⟩
    · rw [hcalls₁, hcalls, List.append_assoc]
    · rw [List.map_append, hnames, hnames₁, hdrawn, ← List.map_append, List.length_append,
        List.range'_append_1]
    · rw [hdrawn₁, hdrawn, List.length_append, Nat.add_assoc]
  idle h := ⟨[], [], by rw [h.world.calls, List.append_nil], ⟨rfl, nofun⟩, rfl, h.world.drawn⟩
  call c line hline x hx := by
    refine ⟨[_], [], rfl, ⟨?_, nofun⟩, rfl, rfl⟩
    simp [Call.isOfRuntime, Command.tellsLine_argv hline]
  container p mount command x hx := by
    obtain ⟨y, hrun, -, hcalls, -, hdrawn⟩ :=
      Container.run_named host s.tools.containerRuntime (p.recipe s) mount command x
    rw [hrun]
    let c := ContainerRun.ofSite host s.tools.containerRuntime (p.recipe s) mount command x
    refine ⟨c.calls s.tools.containerRuntime, [c], hcalls, ⟨?_, ?_⟩, rfl, hdrawn⟩
    · rw [c.filter_calls, List.flatMap_singleton]
    · simpa [c, ContainerRun.ofSite] using hx

/-! ## A whole run -/

/-- An action that calls no tool, but may draw identifiers. -/
abbrev Uncalled {α : Type} (a : Action α) : Prop :=
  Keeps (fun _ => True) (fun w w' : World => w'.calls = w.calls) a fun _ => True

theorem uncalled_acquire (host : Host) (dir : Path) : Uncalled (Workspace.acquire host dir) := by
  have seq {α β : Type} {a : Action α} {f : α → Action β} (ha : Uncalled a)
      (hf : ∀ v, Uncalled (f v)) : Uncalled (a >>= f) :=
    Keeps.bind (fun _ _ _ h h₁ => h₁.trans h) ha fun v _ => hf v
  have single {α : Type} {a : Action α} (h : ∀ w, (a w).2.calls = w.calls) : Uncalled a :=
    ⟨fun _ _ => trivial, fun w _ => h w, fun _ _ _ _ => trivial⟩
  have silent {α : Type} {a : Action α} (h : Silent a) : Uncalled a :=
    single fun w => (h.rel w trivial).calls
  have hlock (root : Path) : Uncalled (HeldLock.acquire host root) := by
    refine seq (silent (.ask _)) fun opened => seq (single fun _ => rfl) fun _ => ?_
    split
    · exact silent (.fail _)
    · exact seq (single fun _ => rfl) fun _ => silent (.ret _)
  refine seq (silent .getDisk) fun d => seq (silent (.transact _)) fun _ => ?_
  refine seq (silent (.ask _)) fun root => ?_
  refine seq (single fun w => (hlock root).rel w trivial) fun lock => ?_
  split
  · exact seq (single fun _ => rfl) fun runId => silent (.ret _)
  · split
    · exact seq (silent .getDisk) fun d => seq (single fun _ => rfl) fun _ => silent (.fail _)
    · exact silent (.fail _)

variable {host : Host} {given : Settings} {base : Path} {w w' : World}

/-- The attempt to begin calls no tool. -/
theorem start_calls {r : Except Fault Start} (h : start host given base w = (r, w')) :
    w'.calls = w.calls := by
  rw [start, bind_of_ok (Action.getDisk_apply w)] at h
  rcases bind_cases h with ⟨e, hvalidate, -⟩ | ⟨language, w₁, hvalidate, h⟩
  · exact (Settings.validate_world hvalidate).2
  · have hcalls := (Settings.validate_world hvalidate).2
    rcases bind_cases h with ⟨e, hask, -⟩ | ⟨source, w₂, hask, h⟩
    · rw [Action.ask_world hask, hcalls]
    · obtain ⟨-, rfl⟩ := Action.ask_eq_ok hask
      have hacquire := (uncalled_acquire host (prepare host w.disk base given).workDir).rel w₁ trivial
      rcases bind_cases h with ⟨e, hfailed, -⟩ | ⟨workspace, w₂, hacquired, h⟩
      · rw [← hcalls, ← hacquire]
        exact congrArg (fun t => t.2.calls) hfailed.symm
      · cases h
        rw [← hcalls, ← hacquire]
        exact congrArg (fun t => t.2.calls) hacquired.symm

theorem tools_of_start {b : Start} (h : start host given base w = (.ok b, w')) :
    b.settings.tools = (prepare host w.disk base given).tools := by
  rw [start, bind_of_ok (Action.getDisk_apply w)] at h
  obtain ⟨language, w₁, -, h⟩ := bind_eq_ok h
  obtain ⟨source, w₂, -, h⟩ := bind_eq_ok h
  obtain ⟨workspace, w₃, -, h⟩ := bind_eq_ok h
  obtain ⟨rfl, -⟩ := pure_eq_ok h
  rfl

/-- The calls of a run are those of its stages. -/
theorem run_calls_stages {b : Start} {w₁ : World} (hstart : start host given base w = (.ok b, w₁)) :
    (run host given base w).2.calls =
      (runStages host b.settings (workStages b.settings) b.progress
        ⟨w₁, b.workspace⟩).2.world.calls := by
  obtain ⟨last, site, next, saved, w₂, hrun, hsave, -, report, hconclude, -⟩ :=
    conclude_ok host b.settings b.progress b.workspace w₁
  obtain ⟨next', saved', w₃, hsave', hcalls, -⟩ := save_cases b.settings last site.world
  cases hsave'.symm.trans hsave
  unfold run
  rw [bind_of_ok hstart, hconclude, hrun, release_calls]
  exact hcalls

/-- The names of the containers are the identifiers that were drawn for them. -/
theorem run_balances (host : Host) (given : Settings) (base : Path) (w : World) :
    ∃ made runs root first, (run host given base w).2.calls = w.calls ++ made ∧
      Removes (prepare host w.disk base given).tools.containerRuntime root made runs ∧
      runs.map ContainerRun.name =
        (List.range' first runs.length).map (Artifacts.containerFront ++ host.freshId ·) := by
  cases hstart : start host given base w with
  | mk r w₁ =>
    have hcalls := start_calls hstart
    cases r with
    | error e =>
      refine ⟨[], [], ⟨""⟩, 0, ?_, ⟨rfl, nofun⟩, rfl⟩
      rw [run, bind_of_error hstart, hcalls, List.append_nil]
    | ok b =>
      obtain ⟨made, runs, hmade, hremoves, hnames, -⟩ :=
        ((balances_habit host b.settings b.workspace.root).runStages (workStages b.settings)
          b.progress).rel ⟨w₁, b.workspace⟩ rfl
      refine ⟨made, runs, b.workspace.root, _, ?_, ?_, hnames⟩
      · rw [run_calls_stages hstart, hmade, hcalls]
      · rw [← tools_of_start hstart]
        exact hremoves

end Pipeline

/-! ## Removals -/

/-- A host that differs from another one at most in what it answers and reports when a container is
removed. -/
structure Host.AgreesButRemovals (host host' : Host) : Prop where
  freshId : host'.freshId = host.freshId
  launch : ∀ before call, (∀ name, call.argv ≠ ["rm", "-f", name]) →
    host'.launch before call = host.launch before call
  removal : ∀ before call, (host'.launch before call).disk = (host.launch before call).disk

/-- The site with other notices. -/
def Site.withNotices (x : Site) (notices : List Notice) : Site :=
  { x with world := { x.world with notices := notices } }

/-- Two actions of which the second, from a site that differs in the notices, comes to the same as the
first but for the notices. -/
def Concurs {α : Type} (a b : Work α) : Prop :=
  ∀ x notices, ∃ notices', b (x.withNotices notices) = ((a x).1, (a x).2.withNotices notices')

namespace Concurs

variable {α β : Type} {a b : Work α}

theorem seq {f g : α → Work β} (h : Concurs a b) (hf : ∀ v, Concurs (f v) (g v)) :
    Concurs (a >>= f) (b >>= g) := by
  intro x notices
  obtain ⟨notices₁, hb⟩ := h x notices
  cases ha : a x with
  | mk r y =>
    rw [ha] at hb
    cases r with
    | error e =>
      rw [bind_of_error ha, bind_of_error hb]
      exact ⟨notices₁, rfl⟩
    | ok v =>
      rw [bind_of_ok ha, bind_of_ok hb]
      exact hf v y notices₁

theorem ret (v : α) : Concurs (pure v) (pure v) := fun _ notices => ⟨notices, rfl⟩

theorem fail (e : Fault) : Concurs (throw e : Work α) (throw e) := fun _ notices => ⟨notices, rfl⟩

theorem abort (e : Fault) (f : α → Work β) :
    Concurs ((throw e : Work α) >>= f) ((throw e : Work α) >>= f) := by
  intro x notices
  have hfail (y : Site) : ((throw e : Work α) >>= f) y = (.error e, y) := bind_of_error rfl
  rw [hfail, hfail]
  exact ⟨notices, rfl⟩

theorem workspace : Concurs Work.workspace Work.workspace := fun _ notices => ⟨notices, rfl⟩

theorem register (p : Path) (owner : Stage) :
    Concurs (Workspace.register p owner) (Workspace.register p owner) :=
  fun _ notices => ⟨notices, rfl⟩

theorem getDisk : Concurs (liftM Action.getDisk : Work Disk) (liftM Action.getDisk) :=
  fun _ notices => ⟨notices, rfl⟩

theorem warn (text text' : String) :
    Concurs (liftM (Action.warn text) : Work Unit) (liftM (Action.warn text')) :=
  fun _ notices => ⟨notices ++ [⟨.warning, text'⟩], rfl⟩

theorem freshId {host host' : Host} (h : host'.freshId = host.freshId) :
    Concurs (liftM (Action.freshId host) : Work String) (liftM (Action.freshId host')) := by
  intro x notices
  refine ⟨notices, ?_⟩
  show (Except.ok (host'.freshId x.world.drawn), _) = _
  rw [h]
  rfl

theorem lift {a : Action α} (notices' : List Notice → List Notice)
    (h : ∀ w : World, ∀ notices, a { w with notices := notices } =
      ((a w).1, { (a w).2 with notices := notices' notices })) :
    Concurs (liftM a : Work α) (liftM a) := by
  intro x notices
  refine ⟨notices' notices, ?_⟩
  show ((a { x.world with notices := notices }).1,
    { x with world := (a { x.world with notices := notices }).2 }) = _
  rw [h]
  rfl

theorem change_apply (f : Disk → Except IoError Disk) (w : World) (notices : List Notice) :
    Action.change f { w with notices := notices } =
      ((Action.change f w).1, { (Action.change f w).2 with notices := notices }) := by
  rw [Action.change_apply, Action.change_apply]
  cases f w.disk <;> rfl

theorem change (f : Disk → Except IoError Disk) :
    Concurs (liftM (Action.change f) : Work Unit) (liftM (Action.change f)) :=
  lift id (change_apply f)

theorem attemptChange (f : Disk → Except IoError Disk) :
    Concurs (liftM (Action.attempt (Action.change f)) : Work (Except Fault Unit))
      (liftM (Action.attempt (Action.change f))) := by
  refine lift id fun w notices => ?_
  rw [Action.attempt, change_apply]
  rfl

theorem moveIn (source : Path) (name : String) (owner : Stage) :
    Concurs (Workspace.moveIn source name owner) (Workspace.moveIn source name owner) := by
  refine workspace.seq fun k => (register _ owner).seq fun _ => ?_
  refine Concurs.seq (change _) fun _ => (attemptChange _).seq fun moved => ?_
  split
  · exact .ret _
  · exact (change _).seq fun _ => (attemptChange _).seq fun _ => .ret _

theorem prepareOutput (name : String) (owner : Stage) :
    Concurs (Workspace.prepareOutput name owner) (Workspace.prepareOutput name owner) :=
  workspace.seq fun _ => (register _ owner).seq fun _ => Concurs.seq (change _) fun _ => .ret _

theorem createDir (name : String) (owner : Stage) :
    Concurs (Workspace.createDir name owner) (Workspace.createDir name owner) := by
  have hmake (p : Path) : Concurs (liftM (Action.transact (·.makeDirs p)) : Work Unit)
      (liftM (Action.transact (·.makeDirs p))) := by
    refine lift id fun w notices => ?_
    rw [Action.transact_apply, Action.transact_apply]
    cases (w.disk.makeDirs p).1 <;> rfl
  refine workspace.seq fun k => getDisk.seq fun d => ?_
  dsimp only
  split
  · exact (register _ owner).seq fun _ => (hmake _).seq fun _ => .ret _
  · exact (hmake _).seq fun _ => .ret _

theorem copyIn (source : Path) (name : String) (owner : Stage) :
    Concurs (Workspace.copyIn source name owner) (Workspace.copyIn source name owner) :=
  workspace.seq fun _ => (register _ owner).seq fun _ => (change _).seq fun _ => .ret _

variable {host host' : Host} (h : host.AgreesButRemovals host')
include h

theorem launch (runtime : Path) {argv : List String} (hargv : ∀ name, argv ≠ ["rm", "-f", name])
    (cwd : Path) :
    Concurs (Work.attempt (liftM (Action.launch host runtime argv cwd)))
      (Work.attempt (liftM (Action.launch host' runtime argv cwd))) := by
  intro x notices
  let call : Call := ⟨runtime, argv, cwd, x.world.disk⟩
  have hsame := h.launch x.world.calls call hargv
  refine ⟨notices ++ (host'.launch x.world.calls call).notices, ?_⟩
  show (Except.ok (host'.launch x.world.calls call).result,
    { x with world := (x.withNotices notices).world.after host' call }) = _
  rw [World.after, show (x.withNotices notices).world.calls = x.world.calls from rfl, hsame]
  rfl

theorem remove (runtime : Path) (name : String) (cwd : Path) :
    Concurs (Container.remove host runtime name cwd) (Container.remove host' runtime name cwd) := by
  intro x notices
  obtain ⟨y, hrun, hworkspace, hcalls, hdisk, hdrawn⟩ :=
    Container.remove_apply host runtime name cwd x
  obtain ⟨y', hrun', hworkspace', hcalls', hdisk', hdrawn'⟩ :=
    Container.remove_apply host' runtime name cwd (x.withNotices notices)
  rw [hrun, hrun']
  refine ⟨y'.world.notices, congrArg (Prod.mk _) ?_⟩
  have hdisk : y'.world.disk = y.world.disk := by
    rw [hdisk, hdisk']
    exact h.removal _ _
  obtain ⟨⟨d, ns, cs, n⟩, k⟩ := y
  obtain ⟨⟨d', ns', cs', n'⟩, k'⟩ := y'
  cases hdisk
  cases hworkspace
  cases hworkspace'
  cases hcalls
  cases hcalls'
  cases hdrawn
  cases hdrawn'
  rfl

theorem run (runtime : Path) (recipe : ContainerRecipe) (mount : Path) (command : String) :
    Concurs (Container.run host runtime recipe mount command)
      (Container.run host' runtime recipe mount command) := by
  refine (freshId h.freshId).seq fun id => workspace.seq fun k => ?_
  refine (launch h runtime (fun name => ?_) _).seq fun status => ?_
  · simp [ContainerRecipe.runArguments]
  refine (remove h runtime _ _).seq fun _ => ?_
  split
  · exact .ret _
  · exact .fail _

end Concurs

/-- What a slicer in a container comes to does not depend on how its removal is answered. -/
theorem Container.slice_concurs {host host' : Host} (h : host.AgreesButRemovals host')
    (runtime : Path) (recipe : ContainerRecipe) (input : Path) (criterion : Criterion)
    (arguments : String) (owner : Stage) :
    Concurs (slice host runtime recipe input criterion arguments owner)
      (slice host' runtime recipe input criterion arguments owner) := by
  unfold slice
  split
  · exact .fail _
  · refine (Concurs.createDir _ owner).seq fun mount => (Concurs.copyIn _ _ owner).seq fun _ => ?_
    refine (Concurs.prepareOutput _ owner).seq fun produced => ?_
    refine (Concurs.prepareOutput _ owner).seq fun _ => ?_
    refine (Concurs.run h runtime recipe _ _).seq fun code => ?_
    dsimp only
    split
    · exact .abort _ _
    · refine Concurs.getDisk.seq fun d => ?_
      split
      · exact .abort _ _
      · exact .moveIn _ _ owner

/-! ## No container is left -/

namespace Pipeline

/-- However the runtime behaves, it is asked in pairs by a run: to run a container, and then to remove
it in the same directory. No two containers have one name. What comes of a removal makes no
difference to the slice. -/
theorem run_removes_containers {host : Host} (hids : Function.Injective host.freshId) :
    (∀ (given : Settings) (base : Path) (w : World), ∃ made runs root,
      (run host given base w).2.calls = w.calls ++ made ∧
        Removes (prepare host w.disk base given).tools.containerRuntime root made runs ∧
        (runs.map ContainerRun.name).Nodup) ∧
    ∀ host', host.AgreesButRemovals host' → ∀ runtime recipe input criterion arguments owner x,
      ∃ notices, Container.slice host' runtime recipe input criterion arguments owner x =
        ((Container.slice host runtime recipe input criterion arguments owner x).1,
          (Container.slice host runtime recipe input criterion arguments owner x).2.withNotices
            notices) := by
  refine ⟨fun given base w => ?_, fun host' h runtime recipe input criterion arguments owner x => ?_⟩
  · obtain ⟨made, runs, root, first, hcalls, hremoves, hnames⟩ := run_balances host given base w
    refine ⟨made, runs, root, hcalls, hremoves, ?_⟩
    rw [hnames]
    refine List.Nodup.map (fun i j hij => hids ?_) List.nodup_range'
    simpa using hij
  · exact Container.slice_concurs h runtime recipe input criterion arguments owner x
      x.world.notices

/-! ### Two containers that cannot be removed -/

/-- A program, and the tools of a static pass in containers. -/
def containerDisk : Disk where
  entries :=
    [(["a.c"], .file 0 "int x, y;\n".toUTF8 false), (["bin"], .dir),
     (["bin", "ve"], .file 1 ByteArray.empty true), (["bin", "se"], .file 2 ByteArray.empty true),
     (["bin", "red"], .file 3 ByteArray.empty true),
     (["bin", "docker"], .file 4 ByteArray.empty true)]
  cwd := []
  nextId := 5
  locked := []

def containerSettings : Settings where
  sourceFile := ⟨"/a.c"⟩
  line := 1
  dynamicSlice := false
  delta := false
  workDir := ⟨"/w"⟩
  outputFile := some ⟨"/o.c"⟩
  tools :=
    { variableExtractor := ⟨"/bin/ve"⟩
      sliceExtractor := ⟨"/bin/se"⟩
      statementReducer := ⟨"/bin/red"⟩
      containerRuntime := ⟨"/bin/docker"⟩ }

/-- There are two criteria, and everything else fails, removals included. -/
def stubbornHost : Host where
  launch _ call :=
    if call.program = ⟨"/bin/ve"⟩ then
      ⟨[], .ok 0, (call.disk.write (pathOf ["w", "criteria.txt"]) "1:x\n1:y\n".toUTF8
        false).toOption.getD call.disk⟩
    else ⟨[], .ok 1, call.disk⟩
  searchPath := none
  freshId n := natText n
  processId := 1
  now := (0, 0)

theorem stubbornRun_asks :
    ((run stubbornHost containerSettings ⟨"/"⟩ (.ofDisk containerDisk)).2.calls.filter
      (·.isOfRuntime (prepare stubbornHost containerDisk ⟨"/"⟩
        containerSettings).tools.containerRuntime)).length = 4 := by decide +kernel

theorem run_removes_stubborn : Function.Injective stubbornHost.freshId ∧
    ∃ made runs root,
      (run stubbornHost containerSettings ⟨"/"⟩ (.ofDisk containerDisk)).2.calls = made ∧
      Removes (prepare stubbornHost containerDisk ⟨"/"⟩ containerSettings).tools.containerRuntime
        root made runs ∧
      (runs.map ContainerRun.name).Nodup ∧ runs.length = 2 := by
  have hids : Function.Injective stubbornHost.freshId := fun _ _ => natText_injective
  obtain ⟨made, runs, root, hcalls, hremoves, hnames⟩ :=
    (run_removes_containers hids).1 containerSettings ⟨"/"⟩ (.ofDisk containerDisk)
  rw [show (World.ofDisk containerDisk).calls = [] from rfl, List.nil_append] at hcalls
  have htwo : ∀ runs : List ContainerRun, ∀ runtime,
      (runs.flatMap (·.calls runtime)).length = 2 * runs.length := by
    intro runs runtime
    induction runs with
    | nil => rfl
    | cons c runs ih =>
      rw [List.flatMap_cons, List.length_append, ih, List.length_cons]
      have : (c.calls runtime).length = 2 := rfl
      omega
  refine ⟨hids, made, runs, root, hcalls, hremoves, hnames, ?_⟩
  have hasked := stubbornRun_asks
  rw [hcalls, show containerDisk = (World.ofDisk containerDisk).disk from rfl, hremoves.calls,
    htwo] at hasked
  omega

end Pipeline

end Whittle
