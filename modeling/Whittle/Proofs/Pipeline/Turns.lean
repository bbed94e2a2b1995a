import Whittle.Proofs.Disk.Canonical
import Whittle.Proofs.Pipeline.Bench
import Whittle.Proofs.Pipeline.Given
import Whittle.Proofs.Tool.Calls

/-!
# One criterion after the other
-/

namespace Whittle.Pipeline

open Text Disk Slice

namespace Bench

variable (b : Bench)

/-! ## Calls of a slicer -/

/-- The copy of the program for a criterion. -/
def input (i : Nat) : Location := b.root ++ [b.inputName i]

/-- The file of the lines that were kept. -/
def lines : Location := b.root ++ [Artifacts.sliceLinesFile]

/-- The slice of a criterion. -/
def slice (i : Nat) : Location := b.root ++ [b.sliceName i]

/-- Where the slicer reads. -/
def reads (i : Nat) : Location :=
  match b.settings.backend with
  | .local => b.input i
  | .container => b.mount ++ [b.inputName i]

/-- Where the slicer leaves its product. -/
def product : Location :=
  match b.settings.backend with
  | .local => b.lines
  | .container => b.mount ++ [Artifacts.sliceLinesFile]

/-- The arguments that the slicer of the pass is told. -/
def arguments : String :=
  match b.pass with
  | .static => ""
  | .dynamic => b.subject.arguments

/-- The call of the slicer, in a container with a name if it runs in one. -/
def call (name : String) (i : Nat) (c : Criterion) (d : Disk) : Call :=
  match b.settings.backend with
  | .local =>
    ⟨b.pass.program b.settings,
      (b.pass.command b.settings (pathOf (b.input i)) c b.arguments).argv, pathOf b.root, d⟩
  | .container =>
    ⟨b.settings.tools.containerRuntime,
      b.recipe.runArguments name (pathOf b.mount)
        (b.recipe.render (b.inputName i) c b.arguments), pathOf b.root, d⟩

/-- The call that removes a container. -/
def removal (name : String) (d : Disk) : Call :=
  ⟨b.settings.tools.containerRuntime, ["rm", "-f", name], pathOf b.root, d⟩

/-- The call of the slicer with what has to follow it. -/
def calls (host : Host) (before : List Call) (name : String) (call : Call) : List Call :=
  match b.settings.backend with
  | .local => [call]
  | .container => [call, b.removal name (host.launch before call).disk]

/-- A slicer changes its product only, and a container is removed without a trace. -/
structure Behaves (host : Host) : Prop where
  slicer : ∀ before name i c d, d.get? b.product = none →
    Fills b.product d (host.launch before (b.call name i c d)).disk
  removal : ∀ before name d, (host.launch before (b.removal name d)).disk.cwd = d.cwd ∧
    ∀ l, (host.launch before (b.removal name d)).disk.get? l = d.get? l

/-- No directory can be made for containers. -/
def Blocked (d : Disk) : Prop :=
  b.settings.backend = .container ∧ ∃ n, d.get? b.mount = some n ∧ n ≠ .dir

end Bench

/-- The bytes that a call leaves at a place, if it exits with zero. -/
def leftBy (host : Host) (before : List Call) (call : Call) (P : Location) : Option ByteArray :=
  match (host.launch before call).result, (host.launch before call).disk.get? P with
  | .ok 0, some (.file _ content _) => some content
  | _, _ => none

/-- What was done for one criterion: the calls, and the product if the slicer left one. -/
structure Turn where
  calls : List Call
  left : Option ByteArray

/-- The slicer is called for a criterion: it finds the given text and no product. There is no call
if there is no place for what the slicer is to see. -/
inductive Bench.Takes (b : Bench) (host : Host) (g : Given) (blocked : Prop) (before : List Call)
    (i : Nat) (c : Criterion) : Turn → Prop
  | blocked (h : blocked) : Takes b host g blocked before i c ⟨[], none⟩
  | called {name : String} {d : Disk} (htext : d.readText (pathOf (b.reads i)) = .ok g.text)
    (hclear : d.get? b.product = none) :
    Takes b host g blocked before i c
      ⟨b.calls host before name (b.call name i (g.criterion c) d),
        leftBy host before (b.call name i (g.criterion c) d) b.product⟩

/-- Where a call of the slicer, and what has to go before it, may change something. -/
inductive Bench.Stirs (b : Bench) (i : Nat) : Location → Prop
  | lines : Stirs b i b.lines
  | product : Stirs b i b.product
  | mounted (hb : b.settings.backend = .container) : Stirs b i (b.mount ++ [b.inputName i])

theorem Bench.Takes.imp {b : Bench} {host : Host} {g : Given} {blocked blocked' : Prop}
    {before : List Call} {i : Nat} {c : Criterion} {t : Turn} (himp : blocked → blocked')
    (h : b.Takes host g blocked before i c t) : b.Takes host g blocked' before i c t := by
  cases h with
  | blocked h => exact .blocked (himp h)
  | called htext hclear => exact .called htext hclear

section

variable {host : Host} {before : List Call} {call : Call} {P : Location}

theorem leftBy_none (h : (host.launch before call).result ≠ .ok 0) :
    leftBy host before call P = none := by
  unfold leftBy
  split
  · rename_i hresult _
    exact absurd hresult h
  · rfl

theorem leftBy_eq (h : (host.launch before call).result = .ok 0)
    (hfree : (host.launch before call).disk.Free P) :
    (leftBy host before call P = none ∧ (host.launch before call).disk.get? P = none) ∨
      ∃ id content x, leftBy host before call P = some content ∧
        (host.launch before call).disk.get? P = some (.file id content x) := by
  unfold leftBy
  rw [h]
  rcases hfree with e | ⟨id, content, x, e⟩
  · exact .inl ⟨by rw [e]; rfl, e⟩
  · exact .inr ⟨id, content, x, by rw [e]; rfl, e⟩

end

/-! ## What is read -/

namespace Bench

variable {b : Bench} (hfits : b.Fits) {host : Host} (hhost : b.Behaves host) {g : Given}
  {site : Site} (hroot : site.workspace.root = pathOf b.root) (hready : b.Ready site.world.disk)
  {i : Nat} (hi : i < b.count) {id : Nat} {content : ByteArray} {x : Bool}
  (hinput : site.world.disk.get? (b.input i) = some (.file id content x))
  (htext : String.fromUTF8? content = some g.text) (c : Criterion)

theorem fileName_input {d : Disk} (hready : b.Ready d) (i : Nat) :
    (pathOf (b.input i)).fileName = some (b.inputName i) := by
  refine fileName_pathOf fun k hk => ?_
  rcases List.mem_append.mp hk with hk | hk
  · exact hready.entered.reached.isName k hk
  · exact List.mem_singleton.mp hk ▸ b.isName_inputName i

theorem Stirs.uses {b : Bench} {i : Nat} (hi : i < b.count) {P : Location} (h : b.Stirs i P) :
    b.Uses P := by
  cases h with
  | lines => exact .file .lines
  | mounted hb => exact .mounted hb (.input hi)
  | product =>
    cases hb : b.settings.backend with
    | «local» =>
      simp only [Bench.product, hb]
      exact .file .lines
    | container =>
      simp only [Bench.product, hb]
      exact .mounted hb .lines

/-- A container will see the text of a criterion, and no product. -/
structure Served (b : Bench) (i : Nat) (text : String) (d : Disk) : Prop where
  ready : b.Ready d
  dir : d.get? b.mount = some .dir
  input : ∃ id content x, d.get? (b.mount ++ [b.inputName i]) = some (.file id content x) ∧
    String.fromUTF8? content = some text
  clear : d.get? (b.mount ++ [Artifacts.sliceLinesFile]) = none

/-- The result of a call of the slicer. -/
structure Answers (b : Bench) (t : Turn) (r : Except Fault Path) (d : Disk) : Prop where
  failed : t.left = none → ∃ e, r = .error e
  left : ∀ content, t.left = some content → r = .ok (pathOf b.lines) ∧
    ∃ id x, d.get? b.lines = some (.file id content x)

theorem Answers.of_none {t : Turn} (h : t.left = none) (e : Fault) (d : Disk) :
    b.Answers t (.error e) d := by
  refine ⟨fun _ => ⟨e, rfl⟩, fun content hleft => ?_⟩
  cases h.symm.trans hleft

theorem Answers.of_some {t : Turn} {d : Disk} (h : t.left = some content)
    (hn : d.get? b.lines = some (.file id content x)) :
    b.Answers t (.ok (pathOf b.lines)) d := by
  refine ⟨fun hleft => ?_, fun content' hleft => ?_⟩
  · cases h.symm.trans hleft
  · cases h.symm.trans hleft
    exact ⟨rfl, id, x, hn⟩

/-- A call of the slicer for a criterion was a turn: what was called, where there was work, and what
was answered. -/
structure IsTurn (b : Bench) (host : Host) (g : Given) (i : Nat) (c : Criterion) (site : Site)
    (t : Turn) (r : Except Fault Path) (site' : Site) : Prop where
  takes : b.Takes host g (b.Blocked site.world.disk) site.world.calls i c t
  calls : site'.world.calls = site.world.calls ++ t.calls
  works : Works b.Uses b.Mount (b.Stirs i) site site'
  answers : b.Answers t r site'.world.disk

include hfits hhost hroot hready hi hinput htext

theorem callSlicer_local (hb : b.settings.backend = .local) :
    ∃ t r site', b.pass.callSlicer host b.settings (pathOf (b.input i)) (g.criterion c)
        b.arguments site = (r, site') ∧ b.IsTurn host g i c site t r site' := by
  have hproduct : b.product = b.lines := by simp only [product, hb]
  have hreads : b.reads i = b.input i := by simp only [reads, hb]
  have hpath : site.workspace.path Artifacts.sliceLinesFile = pathOf b.lines :=
    hready.path hroot .lines
  have hlines : site.world.disk.Handy b.lines := hready.file hfits .lines
  have hne : b.input i ≠ b.lines := by simpa [input, lines] using b.inputName_ne_lines i
  have hapart {P : Location} (hP : b.Uses P) (h : b.lines <+: P) : b.lines = P :=
    Uses.apart hfits (.file .lines) hP h
  obtain ⟨s₁, hprepare, hsets⟩ := prepareOutput_ok hlines hpath b.pass.stage
    (hready.free _ (.file .lines))
  have hnone : s₁.world.disk.get? b.lines = none := hsets.alters.self
  have hinput₁ := (hsets.alters.other hne).trans hinput
  have hhandy := hsets.handy (hready.file hfits (.input hi)) (hapart (.file (.input hi)))
  have hlines₁ := hsets.handy hlines fun _ => rfl
  -- the call and what it leaves
  let command := b.pass.command b.settings (pathOf (b.input i)) (g.criterion c) b.arguments
  let call := b.call "" i (g.criterion c) s₁.world.disk
  have hcall : call = ⟨command.program, command.argv, s₁.workspace.root, s₁.world.disk⟩ := by
    simp only [call, Bench.call, hb, hsets.root, hroot]
    rfl
  obtain ⟨r, hrun, hr⟩ := command.runChecked_apply host s₁.workspace.root s₁.world
  rw [← hcall] at hr hrun
  let s₂ : Site := { s₁ with world := s₁.world.after host call }
  have hrun : (liftM (command.runChecked host s₁.workspace.root) : Work Unit) s₁ = (r, s₂) := by
    rw [Work.lift_apply, hrun]
  have hfills : Fills b.lines s₁.world.disk s₂.world.disk := by
    rw [← hproduct]
    exact hhost.slicer _ _ _ _ _ (hproduct ▸ hnone)
  have hisFile := (hlines₁.beside hfills.other fun _ => rfl).isFile_eq hfills.free
  have hworks : Works b.Uses b.Mount (b.Stirs i) site s₂ := by
    have hcalled : Works b.Uses b.Mount (· = b.lines) s₁ s₂ := ⟨rfl, hfills.edits⟩
    refine ((hsets.works (.inl hnone)).trans hcalled).mono ?_
    rintro P rfl
    exact .lines
  let t : Turn := ⟨b.calls host s₁.world.calls "" call, leftBy host s₁.world.calls call b.product⟩
  have htakes : b.Takes host g (b.Blocked site.world.disk) site.world.calls i c t := by
    rw [← hsets.calls]
    exact .called (by rw [hreads]; exact readText_of_file hhandy hinput₁ htext) (hproduct ▸ hnone)
  have hcalls : s₂.world.calls = site.world.calls ++ t.calls := by
    show s₁.world.calls ++ [call] = _
    rw [hsets.calls]
    simp only [t, calls, hb]
  have hturn (r : Except Fault Path) (h : b.Answers t r s₂.world.disk) :
      b.IsTurn host g i c site t r s₂ := ⟨htakes, hcalls, hworks, h⟩
  unfold Pass.callSlicer
  simp only [hb]
  rw [bind_of_ok hprepare, bind_of_ok (show Work.workspace s₁ = (.ok s₁.workspace, s₁) from rfl)]
  cases r with
  | error e =>
    have hfailed : (host.launch s₁.world.calls call).result ≠ .ok 0 := fun h => nomatch hr.mpr h
    exact ⟨t, .error e, s₂, bind_of_error hrun, hturn _ (.of_none (leftBy_none hfailed) e _)⟩
  | ok _ =>
    have hok := hr.mp rfl
    rw [bind_of_ok hrun]
    rw [bind_of_ok (show (liftM Action.getDisk : Work Disk) s₂ = (.ok s₂.world.disk, s₂) from rfl)]
    rcases leftBy_eq hok (hproduct ▸ hfills.free) with ⟨hleft, hn⟩ | ⟨id', content', x', hleft, hn⟩
    · simp only [hisFile.trans (congrArg Option.isSome (hproduct ▸ hn))]
      exact ⟨t, _, s₂, rfl, hturn _ (.of_none hleft _ _)⟩
    · simp only [hisFile.trans (congrArg Option.isSome (hproduct ▸ hn))]
      exact ⟨t, _, s₂, rfl, hturn _ (.of_some hleft (hproduct ▸ hn))⟩

omit hhost htext in
/-- The directory that a container sees is made, and the file for a criterion is copied to it. -/
theorem serves_input (hb : b.settings.backend = .container)
    (hblocked : ¬ b.Blocked site.world.disk) :
    ∃ s' id', Works b.Uses b.Mount (b.Stirs i) site s' ∧ s'.world.calls = site.world.calls ∧
      s'.world.disk.get? b.mount = some .dir ∧
      s'.world.disk.get? (b.mount ++ [b.inputName i]) = some (.file id' content x) ∧
      ∀ (α : Type) (k : Path → Work α), (do
        let mount ← Workspace.createDir b.recipe.mountDir b.pass.stage
        let _ ← Workspace.copyIn (pathOf (b.input i)) (b.recipe.mountDir ++ "/" ++ b.inputName i)
          b.pass.stage
        k mount) site = k (pathOf b.mount) s' := by
  have hin : b.MountedName (b.inputName i) := .input hi
  have hmount : site.world.disk.get? b.mount = none ∨ site.world.disk.get? b.mount = some .dir := by
    cases hn : site.world.disk.get? b.mount with
    | none => exact .inl rfl
    | some n =>
      by_cases hdir : n = .dir
      · exact .inr (by rw [hdir])
      · exact absurd ⟨hb, n, hn, hdir⟩ hblocked
  obtain ⟨s₁, hmade, hsets₁⟩ := createDir_ok (hready.mount hfits hb)
    (hready.path_mount hfits hroot hb) b.pass.stage b.mount_ne_nil hmount
  have hworks₁ : Works b.Uses b.Mount (b.Stirs i) site s₁ := by
    refine ⟨hsets₁.root, ?_⟩
    rcases hmount with hn | hn
    · exact .of_made ⟨hb, rfl⟩ (fun h => h.not_mount hfits hb (List.prefix_refl _)) hn hsets₁.cwd
        hsets₁.alters
    · refine .of_get? hsets₁.cwd fun l => ?_
      rw [hsets₁.alters.get?]
      split
      · rename_i e
        rw [e, hn]
      · rfl
  have hready₁ := hready.edits hfits (fun P => Stirs.uses hi) hworks₁.edits
  have hdir₁ : s₁.world.disk.get? b.mount = some .dir := hsets₁.alters.self
  have hinput₁ : s₁.world.disk.get? (b.input i) = some (.file id content x) := by
    rw [hsets₁.alters.other, hinput]
    intro e
    exact (Uses.file (.input hi)).not_mount hfits hb (e ▸ List.prefix_refl _)
  obtain ⟨s₂, id', hcopied, hsets₂⟩ := copyIn_ok (hready₁.inMount hfits hb hdir₁ hin)
    (hready₁.path_mounted hfits (hworks₁.root.trans hroot) hb hin) b.pass.stage
    (hready₁.mounted hb i hi) ((hready₁.file hfits (.input hi)).stat hinput₁ nofun)
    (by simp [mount])
  have hworks₂ : Works b.Uses b.Mount (b.Stirs i) s₁ s₂ := by
    refine (hsets₂.works (.inr ⟨_, _, _, hsets₂.alters.self⟩)).mono ?_
    rintro P rfl
    exact .mounted hb
  exact ⟨s₂, id', hworks₁.trans hworks₂, hsets₂.calls.trans hsets₁.calls,
    (hsets₂.alters.other (by simp)).trans hdir₁, hsets₂.alters.self,
    fun α k => (bind_of_ok hmade).trans (bind_of_ok hcopied)⟩

omit hhost hinput htext in
/-- The places of the product are cleared, in the directory that a container sees and beside it. -/
theorem serves_clear (hb : b.settings.backend = .container)
    (hdir : site.world.disk.get? b.mount = some .dir) :
    ∃ s', Works b.Uses b.Mount (b.Stirs i) site s' ∧ s'.world.calls = site.world.calls ∧
      s'.world.disk.get? (b.mount ++ [Artifacts.sliceLinesFile]) = none ∧
      (∀ P, P ≠ b.mount ++ [Artifacts.sliceLinesFile] → P ≠ b.lines →
        s'.world.disk.get? P = site.world.disk.get? P) ∧
      ∀ (α : Type) (k : Path → Work α), (do
        let produced ← Workspace.prepareOutput
          (b.recipe.mountDir ++ "/" ++ Artifacts.sliceLinesFile) b.pass.stage
        let _ ← Workspace.prepareOutput Artifacts.sliceLinesFile b.pass.stage
        k produced) site = k (pathOf (b.mount ++ [Artifacts.sliceLinesFile])) s' := by
  have hout : b.MountedName Artifacts.sliceLinesFile := .lines
  obtain ⟨s₁, hprepared₁, hsets₁⟩ := prepareOutput_ok (hready.inMount hfits hb hdir hout)
    (hready.path_mounted hfits hroot hb hout) b.pass.stage (hready.free _ (.mounted hb hout))
  have hworks₁ : Works b.Uses b.Mount (b.Stirs i) site s₁ := by
    refine (hsets₁.works (.inl hsets₁.alters.self)).mono ?_
    rintro P rfl
    have hproduct : b.product = b.mount ++ [Artifacts.sliceLinesFile] := by simp only [product, hb]
    exact hproduct ▸ .product
  have hready₁ := hready.edits hfits (fun P => Stirs.uses hi) hworks₁.edits
  obtain ⟨s₂, hprepared₂, hsets₂⟩ := prepareOutput_ok (hready₁.file hfits .lines)
    (hready₁.path (hworks₁.root.trans hroot) .lines) b.pass.stage (hready₁.free _ (.file .lines))
  have hworks₂ : Works b.Uses b.Mount (b.Stirs i) s₁ s₂ := by
    refine (hsets₂.works (.inl hsets₂.alters.self)).mono ?_
    rintro P rfl
    exact .lines
  refine ⟨s₂, hworks₁.trans hworks₂, hsets₂.calls.trans hsets₁.calls, ?_, fun P hP hlines => ?_,
    fun α k => (bind_of_ok hprepared₁).trans (bind_of_ok hprepared₂)⟩
  · rw [hsets₂.alters.other, hsets₁.alters.self]
    simp [mount]
  · rw [hsets₂.alters.other hlines, hsets₁.alters.other hP]

omit hhost in
/-- What a container is to see is put where it sees it. -/
theorem serves (hb : b.settings.backend = .container) (hblocked : ¬ b.Blocked site.world.disk) :
    ∃ s', Works b.Uses b.Mount (b.Stirs i) site s' ∧ s'.world.calls = site.world.calls ∧
      b.Served i g.text s'.world.disk ∧ ∀ (α : Type) (k : Path → Path → Work α), (do
        let mount ← Workspace.createDir b.recipe.mountDir b.pass.stage
        let _ ← Workspace.copyIn (pathOf (b.input i)) (b.recipe.mountDir ++ "/" ++ b.inputName i)
          b.pass.stage
        let produced ← Workspace.prepareOutput
          (b.recipe.mountDir ++ "/" ++ Artifacts.sliceLinesFile) b.pass.stage
        let _ ← Workspace.prepareOutput Artifacts.sliceLinesFile b.pass.stage
        k mount produced) site =
      k (pathOf b.mount) (pathOf (b.mount ++ [Artifacts.sliceLinesFile])) s' := by
  obtain ⟨s₁, id', hworks₁, hcalls₁, hdir, hcopy, hstart₁⟩ :=
    serves_input hfits hroot hready hi hinput hb hblocked
  have hready₁ := hready.edits hfits (fun P => Stirs.uses hi) hworks₁.edits
  obtain ⟨s₂, hworks₂, hcalls₂, hclear, hother, hstart₂⟩ :=
    serves_clear hfits (hworks₁.root.trans hroot) hready₁ hi hb hdir
  have hworks := hworks₁.trans hworks₂
  refine ⟨s₂, hworks, hcalls₂.trans hcalls₁, ⟨?_, ?_, ?_, hclear⟩,
    fun α k => (hstart₁ α _).trans (hstart₂ α _)⟩
  · exact hready.edits hfits (fun P => Stirs.uses hi) hworks.edits
  · rw [hother _ (by simp), hdir]
    exact fun e => (Uses.file (b := b) .lines).not_mount hfits hb (e ▸ List.prefix_refl _)
  · refine ⟨id', content, x, ?_, htext⟩
    rw [hother, hcopy]
    · simpa using b.inputName_ne_lines i
    · simp [lines, mount]

omit hhost hi hinput htext in
theorem callSlicer_blocked (hb : b.settings.backend = .container)
    (hblocked : b.Blocked site.world.disk) :
    ∃ e, b.pass.callSlicer host b.settings (pathOf (b.input i)) (g.criterion c)
      b.arguments site = (.error e, site) := by
  obtain ⟨-, n, hn, hdir⟩ := hblocked
  have hmade := createDir_blocked (hready.mount hfits hb) (hready.path_mount hfits hroot hb)
    b.pass.stage hn hdir fun target e => hready.not_link hb target (hn.trans (congrArg some e))
  unfold Pass.callSlicer
  simp only [hb]
  unfold Container.slice
  simp only [fileName_input hready i]
  exact ⟨_, bind_of_error hmade⟩

omit hready hinput htext in
/-- What a container leaves of what it was served. -/
theorem container_runs (hb : b.settings.backend = .container) (blocked : Prop)
    (hserved : b.Served i g.text site.world.disk) :
    ∃ name site', let call := b.call name i (g.criterion c) site.world.disk
      Container.run host b.settings.tools.containerRuntime b.recipe (pathOf b.mount)
          (b.recipe.render (b.inputName i) (g.criterion c) b.arguments) site =
        ((host.launch site.world.calls call).result, site') ∧
      site'.workspace = site.workspace ∧
      site'.world.calls = site.world.calls ++ b.calls host site.world.calls name call ∧
      Fills b.product site.world.disk site'.world.disk ∧
      site'.world.disk.get? b.product = (host.launch site.world.calls call).disk.get? b.product ∧
      b.Takes host g blocked site.world.calls i c
        ⟨b.calls host site.world.calls name call, leftBy host site.world.calls call b.product⟩ := by
  have hproduct : b.product = b.mount ++ [Artifacts.sliceLinesFile] := by simp only [product, hb]
  have hreads : b.reads i = b.mount ++ [b.inputName i] := by simp only [reads, hb]
  obtain ⟨name, s', hrun, hworkspace, hcalls, hdisk⟩ := Container.run_apply host
    b.settings.tools.containerRuntime b.recipe (pathOf b.mount)
    (b.recipe.render (b.inputName i) (g.criterion c) b.arguments) site
  rw [hroot] at hrun hcalls hdisk
  let call := b.call name i (g.criterion c) site.world.disk
  have hcall : call = ⟨b.settings.tools.containerRuntime, b.recipe.runArguments name (pathOf b.mount)
      (b.recipe.render (b.inputName i) (g.criterion c) b.arguments), pathOf b.root,
      site.world.disk⟩ := by
    simp only [call, Bench.call, hb]
  rw [← hcall] at hrun hcalls hdisk
  obtain ⟨hcwd, hget⟩ := hhost.removal (site.world.calls ++ [call]) name
    (host.launch site.world.calls call).disk
  rw [removal, ← hdisk] at hcwd hget
  have hfills : Fills b.product site.world.disk (host.launch site.world.calls call).disk :=
    hhost.slicer _ _ _ _ _ (hproduct ▸ hserved.clear)
  obtain ⟨id, content, x, hinput, htext⟩ := hserved.input
  refine ⟨name, s', hrun, hworkspace, ?_, ?_, hget b.product, .called ?_ (hproduct ▸ hserved.clear)⟩
  · rw [hcalls]
    simp only [calls, removal, hb]
    rfl
  · exact ⟨hcwd.trans hfills.cwd, fun l hl => (hget l).trans (hfills.other l hl),
      hfills.free.of_get? (hget _)⟩
  · rw [hreads]
    exact readText_of_file (hserved.ready.inMount hfits hb hserved.dir (.input hi)) hinput htext

omit hhost hi hinput htext in
/-- Behind a container its product, if it left one, is moved into the work directory. -/
theorem fetches (hb : b.settings.backend = .container)
    (hdir : site.world.disk.get? b.mount = some .dir) {before calls : List Call} {call : Call}
    {code : Int} (hresult : (host.launch before call).result = .ok code)
    (hfree : site.world.disk.Free b.product)
    (hleft : site.world.disk.get? b.product = (host.launch before call).disk.get? b.product) :
    ∃ r s', (do
        if code ≠ 0 then throw (.exited b.recipe.image code)
        if !(← Action.getDisk).isFile (pathOf (b.mount ++ [Artifacts.sliceLinesFile])) then
          throw (.containerNoSliceLines b.recipe.image)
        Workspace.moveIn (pathOf (b.mount ++ [Artifacts.sliceLinesFile])) Artifacts.sliceLinesFile
          b.pass.stage : Work Path) site = (r, s') ∧
      s'.world.calls = site.world.calls ∧ Works b.Uses b.Mount (b.Stirs i) site s' ∧
      b.Answers ⟨calls, leftBy host before call b.product⟩ r s'.world.disk := by
  have hproduct : b.product = b.mount ++ [Artifacts.sliceLinesFile] := by simp only [product, hb]
  have hhandy : site.world.disk.Handy b.product := by
    rw [hproduct]
    exact hready.inMount hfits hb hdir .lines
  have hisFile := hhandy.isFile_eq hfree
  rw [hproduct] at hisFile
  by_cases hcode : code = 0
  · subst hcode
    have hdisk : (liftM Action.getDisk : Work Disk) site = (.ok site.world.disk, site) := rfl
    rcases leftBy_eq hresult (hfree.of_get? hleft.symm) with
      ⟨hnone, hn⟩ | ⟨id, content, x, hsome, hn⟩
    · have hmissing := hisFile.trans (congrArg Option.isSome (hproduct ▸ hleft.trans hn))
      refine ⟨.error (.containerNoSliceLines b.recipe.image), site, (bind_of_ok hdisk).trans ?_,
        rfl, .refl site, .of_none hnone _ _⟩
      simp only [hmissing]
      rfl
    · have hthere := hisFile.trans (congrArg Option.isSome (hproduct ▸ hleft.trans hn))
      have hapart {P Q : Location} (hP : b.Uses P) (hQ : b.Uses Q) (h : P <+: Q) : P = Q :=
        Uses.apart hfits hP hQ h
      have hlines : b.Uses b.lines := .file .lines
      have houtput : b.Uses (b.mount ++ [Artifacts.sliceLinesFile]) := .mounted hb .lines
      have hne : b.lines ≠ b.mount ++ [Artifacts.sliceLinesFile] := by simp [lines, mount]
      obtain ⟨s', hmoved, hcalls, hfile, hworks⟩ :=
        moveIn_ok (U := b.Uses) (G := b.Mount) (n := .file id content x)
          (hready.file hfits .lines) (hready.path hroot .lines) b.pass.stage (hproduct ▸ hhandy)
          (hready.free _ (.file .lines)) ((hproduct ▸ hleft).trans (hproduct ▸ hn))
          (by rintro ⟨⟩) (by rintro target ⟨⟩) (fun h => hne (hapart hlines houtput h))
          (fun h => hne (hapart houtput hlines h).symm)
          (fun R hR h => ⟨(hapart hlines hR h).symm, rfl⟩)
          (fun R hR h => (hapart houtput hR h).symm)
      refine ⟨.ok (pathOf b.lines), s', (bind_of_ok hdisk).trans ?_, hcalls, hworks.mono ?_,
        .of_some hsome hfile⟩
      · simp only [hthere]
        exact hmoved
      · rintro P (rfl | rfl)
        · exact hproduct ▸ .product
        · exact .lines
  · refine ⟨.error (.exited b.recipe.image code), site, ?_, rfl, .refl site, .of_none ?_ _ _⟩
    · simp only [ne_eq, hcode, not_false_eq_true, if_true]
      rfl
    · exact leftBy_none (by rw [hresult]; simpa using hcode)

theorem callSlicer_container (hb : b.settings.backend = .container) :
    ∃ t r site', b.pass.callSlicer host b.settings (pathOf (b.input i)) (g.criterion c)
        b.arguments site = (r, site') ∧ b.IsTurn host g i c site t r site' := by
  by_cases hblocked : b.Blocked site.world.disk
  · obtain ⟨e, hslicer⟩ := callSlicer_blocked hfits hroot hready c hb hblocked
    exact ⟨_, _, _, hslicer, .blocked hblocked, (List.append_nil _).symm, .refl site,
      .of_none rfl e _⟩
  obtain ⟨s₁, hworks₁, hcalls₁, hserved, hstart⟩ :=
    serves hfits hroot hready hi hinput htext hb hblocked
  obtain ⟨name, s₂, hrun, hworkspace, hcalls₂, hfills, hleft, htakes⟩ := container_runs hfits hhost
    (hworks₁.root.trans hroot) hi c hb (b.Blocked site.world.disk) hserved
  let call := b.call name i (g.criterion c) s₁.world.disk
  have hrun : Container.run host b.settings.tools.containerRuntime (b.pass.recipe b.settings)
      (pathOf b.mount) ((b.pass.recipe b.settings).render (b.inputName i) (g.criterion c)
        b.arguments) s₁ = ((host.launch s₁.world.calls call).result, s₂) := hrun
  have hworks₂ : Works b.Uses b.Mount (b.Stirs i) site s₂ := by
    have hcalled : Works b.Uses b.Mount (· = b.product) s₁ s₂ :=
      ⟨congrArg Workspace.root hworkspace, hfills.edits⟩
    refine hworks₁.trans (hcalled.mono ?_)
    rintro P rfl
    exact .product
  rw [hcalls₁] at hcalls₂ htakes
  unfold Pass.callSlicer
  simp only [hb]
  unfold Container.slice
  simp only [fileName_input hready i]
  cases hresult : (host.launch s₁.world.calls call).result with
  | error e =>
    rw [hresult] at hrun
    refine ⟨_, .error e, s₂, (hstart Path _).trans (bind_of_error hrun), htakes, hcalls₂, hworks₂,
      .of_none (leftBy_none ?_) e _⟩
    rw [← hcalls₁, hresult]
    exact nofun
  | ok code =>
    rw [hresult] at hrun
    have hdir : s₂.world.disk.get? b.mount = some .dir := by
      rw [hfills.other _ (by simp [product, hb]), hserved.dir]
    obtain ⟨r, s₃, hfetch, hcalls₃, hworks₃, hanswers⟩ := fetches (i := i) hfits
      (hworks₂.root.trans hroot) (hready.edits hfits (fun P => Stirs.uses hi) hworks₂.edits) hb hdir
      hresult hfills.free hleft
    rw [hcalls₁] at hanswers
    exact ⟨_, r, s₃, (hstart Path _).trans ((bind_of_ok hrun).trans hfetch), htakes,
      hcalls₃.trans hcalls₂, hworks₂.trans hworks₃, hanswers⟩

/-- Whatever becomes of a call of the slicer, it is a turn. -/
theorem callSlicer_turn :
    ∃ t r site', b.pass.callSlicer host b.settings (pathOf (b.input i)) (g.criterion c)
        b.arguments site = (r, site') ∧ b.IsTurn host g i c site t r site' := by
  cases hb : b.settings.backend with
  | «local» => exact callSlicer_local hfits hhost hroot hready hi hinput htext c hb
  | container => exact callSlicer_container hfits hhost hroot hready hi hinput htext c hb

end Bench

end Whittle.Pipeline
