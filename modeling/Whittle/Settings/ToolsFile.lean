import Whittle.Json.Reader
import Whittle.Settings.Toolchain

/-!
# Toolchains from a file

A tools file is a JSON object that names some of the programs; the others keep their defaults, and
members it does not know are passed over. An array lists the values of the members in order. A
recipe has to be given whole. No member may be given twice.
-/

namespace Whittle

namespace Json

/-- The values of an object or array at the named members: none where nothing is given. Repeated
members, and elements behind the last name, are refused. -/
def fields (names : List String) : Json → Option (List (Option Json))
  | .object members =>
    if names.any fun n => (members.filter fun m => m.1 = n).length > 1 then none
    else some (names.map fun n => (members.find? fun m => m.1 = n).map Prod.snd)
  | .array elements =>
    if elements.length > names.length then none
    else some ((elements.map some) ++ List.replicate (names.length - elements.length) none)
  | _ => none

end Json

namespace ContainerRecipe

def memberNames : List String := ["image", "mount_dir", "mount_point", "command_template"]

def ofJson (j : Json) : Option ContainerRecipe :=
  match j.fields memberNames with
  | some [some (.string image), some (.string mountDir), some (.string mountPoint),
      some (.string template)] => some ⟨image, mountDir, mountPoint, template⟩
  | _ => none

end ContainerRecipe

namespace Toolchain

def memberNames : List String :=
  ["variable_extractor", "slice_extractor", "static_slicer", "dynamic_slicer", "graph_reducer",
   "statement_reducer", "container_runtime", "static_container", "dynamic_container"]

/-- A program, or the one given by default. -/
def programOf (default : Path) : Option Json → Option Path
  | none => some default
  | some (.string s) => some ⟨s⟩
  | some _ => none

/-- A recipe, or the one given by default. -/
def recipeOf (default : ContainerRecipe) : Option Json → Option ContainerRecipe
  | none => some default
  | some j => ContainerRecipe.ofJson j

def ofJson (j : Json) : Option Toolchain :=
  let t : Toolchain := {}
  match j.fields memberNames with
  | some [extractor, cutter, static, dynamic, graph, statement, runtime, staticRecipe,
      dynamicRecipe] => do
    return {
      variableExtractor := ← programOf t.variableExtractor extractor
      sliceExtractor := ← programOf t.sliceExtractor cutter
      staticSlicer := ← programOf t.staticSlicer static
      dynamicSlicer := ← programOf t.dynamicSlicer dynamic
      graphReducer := ← programOf t.graphReducer graph
      statementReducer := ← programOf t.statementReducer statement
      containerRuntime := ← programOf t.containerRuntime runtime
      staticContainer := ← recipeOf t.staticContainer staticRecipe
      dynamicContainer := ← recipeOf t.dynamicContainer dynamicRecipe }
  | _ => none

/-- The toolchain of a tools file, or the default one without a file. -/
def load (d : Disk) : Option Path → Except Fault Toolchain
  | none => .ok {}
  | some p =>
    match d.readText p with
    | .error e => .error (.toolsUnreadable p e)
    | .ok text =>
      match (Json.read text).bind ofJson with
      | some t => .ok t
      | none => .error (.toolsMalformed p)

end Toolchain

end Whittle
