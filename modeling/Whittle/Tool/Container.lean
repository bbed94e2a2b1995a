import Whittle.Settings.Basic
import Whittle.Workspace.Basic

/-!
# Slicers in containers

The input is copied into a directory that the container sees, the command of the recipe is run in
a container with a name of its own, the container is removed whatever became of it, and the lines
it kept are moved into the work directory.
-/

namespace Whittle.Container

/-- Remove a container. A failure to do so is only reported. -/
def remove (host : Host) (runtime : Path) (name : String) (cwd : Path) : Work Unit := do
  match ← Work.attempt (Action.launch host runtime ["rm", "-f", name] cwd) with
  | .ok code =>
    if code ≠ 0 then
      Action.warn ("Removing container " ++ name ++ " exited with " ++ Text.intText code)
  | .error e => Action.warn ("Failed to remove container " ++ name ++ ": " ++ e.message)

/-- Run a command in a new container, which is gone afterwards. -/
def run (host : Host) (runtime : Path) (recipe : ContainerRecipe) (mount : Path)
    (command : String) : Work Int := do
  let name := Artifacts.containerFront ++ (← Action.freshId host)
  let cwd := (← Work.workspace).root
  let status ← Work.attempt
    (Action.launch host runtime (recipe.runArguments name mount command) cwd)
  remove host runtime name cwd
  match status with
  | .ok code => return code
  | .error e => throw e

/-- Slice an input for a criterion; the answer is the file of the lines that were kept. -/
def slice (host : Host) (runtime : Path) (recipe : ContainerRecipe) (input : Path)
    (criterion : Criterion) (arguments : String) (owner : Stage) : Work Path := do
  match input.fileName with
  | none => throw (.badContainerInput input)
  | some fileName =>
    let mount ← Workspace.createDir recipe.mountDir owner
    let _ ← Workspace.copyIn input (recipe.mountDir ++ "/" ++ fileName) owner
    let produced ← Workspace.prepareOutput
      (recipe.mountDir ++ "/" ++ Artifacts.sliceLinesFile) owner
    let _ ← Workspace.prepareOutput Artifacts.sliceLinesFile owner
    let code ← run host runtime recipe mount (recipe.render fileName criterion arguments)
    if code ≠ 0 then throw (.exited recipe.image code)
    if !(← Action.getDisk).isFile produced then throw (.containerNoSliceLines recipe.image)
    Workspace.moveIn produced Artifacts.sliceLinesFile owner

end Whittle.Container
