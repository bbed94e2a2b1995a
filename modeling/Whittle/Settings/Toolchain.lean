import Whittle.Artifacts
import Whittle.Criterion
import Whittle.Text.Replace

/-!
# The programs a run needs

Six tools, a container runtime, and the recipes of the two slicers that are run in containers. The
command of a recipe is a template: `ContainerRecipe.render` fills its placeholders one kind after
the other, in the order of `Placeholder.all`.
-/

namespace Whittle

open Text

inductive Placeholder where
  | file
  | stem
  | criterionLine
  | criterion
  | arguments
  | output
  deriving DecidableEq, Repr

namespace Placeholder

def name : Placeholder → String
  | file => "file"
  | stem => "stem"
  | criterionLine => "criterion_line"
  | criterion => "criterion"
  | arguments => "arguments"
  | output => "output"

/-- A placeholder as it stands in a template: its name in braces. -/
def text (p : Placeholder) : String := "\x7b" ++ p.name ++ "\x7d"

def all : List Placeholder := [file, stem, criterionLine, criterion, arguments, output]

end Placeholder

structure ContainerRecipe where
  image : String
  /-- The directory of the workspace that the container sees, and where it sees it. -/
  mountDir : String
  mountPoint : String
  template : String
  deriving DecidableEq, Repr

namespace ContainerRecipe

/-- Compile to bitcode, slice, and map the slice back to lines. -/
def staticDefault : ContainerRecipe where
  image := "mchalupa/dg"
  mountDir := "dg-data"
  mountPoint := "/data-mapped"
  template :=
    "clang -emit-llvm -c -g /data-mapped/" ++ Placeholder.file.text ++ " -o _code.bc " ++
    "&& /opt/dg/tools/llvm-slicer -c " ++ Placeholder.criterion.text ++ " _code.bc " ++
    "&& /opt/dg/tools/llvm-to-source _code.sliced > /data-mapped/" ++ Placeholder.output.text

/-- Where the dynamic slicer keeps a test. -/
def testDir : String := "/giri/test/UnitTests/temp/"

/-- Build a traced program with a makefile of its own, run it, and export the lines it kept. -/
def dynamicDefault : ContainerRecipe where
  image := "liuml07/giri"
  mountDir := "giri-data"
  mountPoint := "/data-mapped"
  template :=
    "mkdir " ++ testDir ++ " " ++
    "&& echo " ++ Placeholder.file.text ++ " " ++ Placeholder.criterionLine.text ++ " > " ++
    testDir ++ "criterion-loc.txt " ++
    "&& cp /data-mapped/" ++ Placeholder.file.text ++ " " ++ testDir ++ " " ++
    "&& printf '%s\\n' 'NAME = " ++ Placeholder.stem.text ++ "' 'LDFLAGS = -lm' 'INPUT ?= " ++
    Placeholder.arguments.text ++ "' " ++
    "'CRITERION ?= -criterion-loc=criterion-loc.txt' " ++
    "'MAPPING ?= -mapping-function=main' " ++
    "'include ../../Makefile.common' > " ++ testDir ++ "Makefile " ++
    "&& make -C " ++ testDir ++ " " ++
    "&& cat " ++ testDir ++ Placeholder.stem.text ++ ".slice.loc > /data-mapped/" ++
    Placeholder.output.text

/-- The part of a file name before its first dot. -/
def firstStem (fileName : String) : String :=
  String.ofList (fileName.toList.takeWhile (· ≠ '.'))

/-- Text that may stand between single quotes of a shell. -/
def quoteArguments (arguments : String) : String := replaceAll "'" "'\\''" arguments

/-- What a placeholder stands for. -/
def valueOf (fileName : String) (criterion : Criterion) (arguments : String) :
    Placeholder → String
  | .file => fileName
  | .stem => firstStem fileName
  | .criterionLine => natText criterion.line
  | .criterion => criterion.text
  | .arguments => quoteArguments arguments
  | .output => Artifacts.sliceLinesFile

/-- The command of a recipe for one input and one criterion. -/
def render (r : ContainerRecipe) (fileName : String) (criterion : Criterion)
    (arguments : String) : String :=
  Placeholder.all.foldl
    (fun text p => replaceAll p.text (valueOf fileName criterion arguments p) text) r.template

/-- The arguments with which the runtime runs a command in a named container. -/
def runArguments (r : ContainerRecipe) (name : String) (mount : Path) (command : String) :
    List String :=
  ["run", "--name", name, "-v", mount.text ++ ":" ++ r.mountPoint ++ ":rw", r.image, "/bin/bash",
   "-c", command]

end ContainerRecipe

structure Toolchain where
  variableExtractor : Path := ⟨"VariableExtractor"⟩
  sliceExtractor : Path := ⟨"SliceExtractor"⟩
  staticSlicer : Path := ⟨"StaticSlicer"⟩
  dynamicSlicer : Path := ⟨"DynamicSlicer"⟩
  graphReducer : Path := ⟨"DeltaReduction"⟩
  statementReducer : Path := ⟨"NaiveReduction"⟩
  containerRuntime : Path := ⟨"docker"⟩
  staticContainer : ContainerRecipe := .staticDefault
  dynamicContainer : ContainerRecipe := .dynamicDefault
  deriving DecidableEq, Repr

namespace Toolchain

def default : Toolchain := {}

def program (t : Toolchain) : Role → Path
  | .variableExtractor => t.variableExtractor
  | .sliceExtractor => t.sliceExtractor
  | .staticSlicer => t.staticSlicer
  | .dynamicSlicer => t.dynamicSlicer
  | .graphReducer => t.graphReducer
  | .statementReducer => t.statementReducer
  | .containerRuntime => t.containerRuntime

/-- The toolchain with every program replaced. -/
def mapPrograms (f : Path → Path) (t : Toolchain) : Toolchain :=
  { t with
    variableExtractor := f t.variableExtractor
    sliceExtractor := f t.sliceExtractor
    staticSlicer := f t.staticSlicer
    dynamicSlicer := f t.dynamicSlicer
    graphReducer := f t.graphReducer
    statementReducer := f t.statementReducer
    containerRuntime := f t.containerRuntime }

theorem program_mapPrograms (f : Path → Path) (t : Toolchain) (r : Role) :
    (t.mapPrograms f).program r = f (t.program r) := by
  cases r <;> rfl

/-- Find a program: an absolute path stands for itself, a path of several parts is looked up from
`base`, and a single name in the directories of the search path, the first one first. -/
def locate (searchPath : Option (List Path)) (d : Disk) (base program : Path) : Option Path :=
  if program.isAbsolute then if d.isFile program then some program else none
  else if program.parts.length > 1 then
    if d.isFile (base.join program) then some (base.join program) else none
  else
    match searchPath with
    | none => none
    | some dirs => (dirs.map fun dir => dir.join program).find? fun p => d.isFile p

/-- Every program that is found, by where it was found; the others as they were. -/
def resolve (searchPath : Option (List Path)) (d : Disk) (base : Path) (t : Toolchain) :
    Toolchain :=
  t.mapPrograms fun p => (locate searchPath d base p).getD p

end Toolchain

end Whittle
