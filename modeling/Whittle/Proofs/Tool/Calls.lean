import Whittle.Proofs.Action
import Whittle.Tool.Command
import Whittle.Tool.Container

/-!
# What a call leaves of a world

A call is recorded and the tool's disk taken over, whatever its result (`World.after`). A container
is removed by a second call.
-/

namespace Whittle

/-- The world behind a call. -/
def World.after (host : Host) (w : World) (call : Call) : World where
  disk := (host.launch w.calls call).disk
  notices := w.notices ++ (host.launch w.calls call).notices
  calls := w.calls ++ [call]
  drawn := w.drawn

theorem Action.launch_apply (host : Host) (program : Path) (argv : List String) (cwd : Path)
    (w : World) : Action.launch host program argv cwd w =
      ((host.launch w.calls ⟨program, argv, cwd, w.disk⟩).result,
        w.after host ⟨program, argv, cwd, w.disk⟩) := rfl

theorem Command.runChecked_apply (host : Host) (c : Command) (cwd : Path) (w : World) :
    ∃ r, c.runChecked host cwd w = (r, w.after host ⟨c.program, c.argv, cwd, w.disk⟩) ∧
      (r = .ok () ↔ (host.launch w.calls ⟨c.program, c.argv, cwd, w.disk⟩).result = .ok 0) := by
  have hrun := Action.launch_apply host c.program c.argv cwd w
  unfold Command.runChecked Command.run
  cases hresult : (host.launch w.calls ⟨c.program, c.argv, cwd, w.disk⟩).result with
  | error e =>
    rw [hresult] at hrun
    exact ⟨.error e, bind_of_error hrun, by simp⟩
  | ok code =>
    rw [hresult] at hrun
    by_cases hcode : code = 0
    · exact ⟨.ok (), (bind_of_ok hrun).trans (by simp only [hcode]; rfl), by simp [hcode]⟩
    · refine ⟨.error (.exited c.toolName code), (bind_of_ok hrun).trans ?_, by simp [hcode]⟩
      simp only [ne_eq, hcode, not_false_eq_true, if_true]
      rfl

namespace Container

theorem remove_apply (host : Host) (runtime : Path) (name : String) (cwd : Path) (s : Site) :
    ∃ s', remove host runtime name cwd s = (.ok (), s') ∧ s'.workspace = s.workspace ∧
      s'.world.calls = s.world.calls ++ [⟨runtime, ["rm", "-f", name], cwd, s.world.disk⟩] ∧
      s'.world.disk =
        (host.launch s.world.calls ⟨runtime, ["rm", "-f", name], cwd, s.world.disk⟩).disk ∧
      s'.world.drawn = s.world.drawn := by
  have hrun : Work.attempt (liftM (Action.launch host runtime ["rm", "-f", name] cwd)) s =
      (.ok (host.launch s.world.calls ⟨runtime, ["rm", "-f", name], cwd, s.world.disk⟩).result,
        { s with world := s.world.after host ⟨runtime, ["rm", "-f", name], cwd, s.world.disk⟩ }) :=
    rfl
  unfold remove
  rw [bind_of_ok hrun]
  generalize (host.launch s.world.calls _).result = result
  cases result with
  | error e => exact ⟨_, rfl, rfl, rfl, rfl, rfl⟩
  | ok code =>
    by_cases hcode : code = 0
    · subst hcode
      exact ⟨_, rfl, rfl, rfl, rfl, rfl⟩
    · simp only [ne_eq, hcode, not_false_eq_true, if_true]
      exact ⟨_, rfl, rfl, rfl, rfl, rfl⟩

/-- The name of the next container. -/
def nextName (host : Host) (w : World) : String :=
  Artifacts.containerFront ++ host.freshId w.drawn

/-- The command is run by one call and the container removed by the next. -/
theorem run_named (host : Host) (runtime : Path) (recipe : ContainerRecipe) (mount : Path)
    (command : String) (s : Site) :
    ∃ s', let name := nextName host s.world
      let call : Call := ⟨runtime, recipe.runArguments name mount command, s.workspace.root,
        s.world.disk⟩
      let removal : Call := ⟨runtime, ["rm", "-f", name], s.workspace.root,
        (host.launch s.world.calls call).disk⟩
      run host runtime recipe mount command s = ((host.launch s.world.calls call).result, s') ∧
        s'.workspace = s.workspace ∧ s'.world.calls = s.world.calls ++ [call, removal] ∧
        s'.world.disk = (host.launch (s.world.calls ++ [call]) removal).disk ∧
        s'.world.drawn = s.world.drawn + 1 := by
  let name := nextName host s.world
  let drawn : Site := { s with world := { s.world with drawn := s.world.drawn + 1 } }
  let call : Call := ⟨runtime, recipe.runArguments name mount command, s.workspace.root,
    s.world.disk⟩
  let called : Site := { drawn with world := drawn.world.after host call }
  have hfresh : (liftM (Action.freshId host) : Work String) s =
      (.ok (host.freshId s.world.drawn), drawn) := rfl
  have hlaunch : Work.attempt (liftM (Action.launch host runtime
      (recipe.runArguments name mount command) s.workspace.root)) drawn =
        (.ok (host.launch s.world.calls call).result, called) := rfl
  obtain ⟨s', hremove, hworkspace, hcalls, hdisk, hdrawn⟩ :=
    remove_apply host runtime name s.workspace.root called
  refine ⟨s', ?_, hworkspace, hcalls.trans (List.append_assoc _ _ _), hdisk, hdrawn⟩
  show run host runtime recipe mount command s = ((host.launch s.world.calls call).result, s')
  unfold run
  rw [bind_of_ok hfresh, bind_of_ok (show Work.workspace drawn = (.ok s.workspace, drawn) from rfl)]
  refine (bind_of_ok hlaunch).trans ((bind_of_ok hremove).trans ?_)
  cases (host.launch s.world.calls call).result <;> rfl

theorem run_apply (host : Host) (runtime : Path) (recipe : ContainerRecipe) (mount : Path)
    (command : String) (s : Site) :
    ∃ name s', let call : Call := ⟨runtime, recipe.runArguments name mount command,
        s.workspace.root, s.world.disk⟩
      let removal : Call := ⟨runtime, ["rm", "-f", name], s.workspace.root,
        (host.launch s.world.calls call).disk⟩
      run host runtime recipe mount command s = ((host.launch s.world.calls call).result, s') ∧
        s'.workspace = s.workspace ∧ s'.world.calls = s.world.calls ++ [call, removal] ∧
        s'.world.disk = (host.launch (s.world.calls ++ [call]) removal).disk := by
  obtain ⟨s', hrun, hworkspace, hcalls, hdisk, -⟩ := run_named host runtime recipe mount command s
  exact ⟨_, s', hrun, hworkspace, hcalls, hdisk⟩

end Container

end Whittle
