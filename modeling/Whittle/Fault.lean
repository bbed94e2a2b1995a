import Whittle.Artifacts
import Whittle.Decimal.Shortest
import Whittle.Disk.Errno

/-!
# What can go wrong

A `Fault` is a cause; `Fault.kind` sorts the causes, `Fault.detail` words each one, and
`Fault.message` puts the wording behind the heading of its kind. A tool may report a fault in its
own words: `described`.
-/

namespace Whittle

open Text

inductive FaultKind where
  | io
  | config
  | validation
  | unsupportedLanguage
  | tool
  | toolFailed
  | container
  | entryPoint
  | unification
  | workspaceBusy
  | lock
  | save
  deriving DecidableEq, Repr

namespace FaultKind

/-- The message of a kind around a detail. -/
def frame (k : FaultKind) (detail : String) : String :=
  match k with
  | io => "IO error: " ++ detail
  | config => "Configuration error: " ++ detail
  | validation => "Validation failed:\n" ++ detail
  | unsupportedLanguage => "Unsupported language for source file: " ++ detail
  | tool => "Tool error: " ++ detail
  | toolFailed => detail
  | container => "Container error: " ++ detail
  | entryPoint => "Entry point error: " ++ detail
  | unification => "Unification error: " ++ detail
  | workspaceBusy => "Workspace " ++ detail ++ " is in use by another pipeline"
  | lock => "Lock error: " ++ detail
  | save => "Failed to save result: " ++ detail

/-- The exit code of a run that a fault of this kind ends. -/
def exitCode : FaultKind → Nat
  | save => 1
  | workspaceBusy => 3
  | _ => 2

end FaultKind

/-- The programs a run needs, by what they are needed for. -/
inductive Role where
  | statementReducer
  | graphReducer
  | variableExtractor
  | sliceExtractor
  | staticSlicer
  | dynamicSlicer
  | containerRuntime
  deriving DecidableEq, Repr

def Role.title : Role → String
  | statementReducer => "statement reducer"
  | graphReducer => "graph reducer"
  | variableExtractor => "variable extractor"
  | sliceExtractor => "slice extractor"
  | staticSlicer => "static slicer"
  | dynamicSlicer => "dynamic slicer"
  | containerRuntime => "container runtime"

/-- A reason to refuse settings. -/
inductive SettingsProblem where
  | sourceMissing (source : Path)
  | extensionUnknown (source : Path)
  | lineOutside (line : Nat) (source : Path) (lines : Nat)
  | sourceUnreadable (source : Path) (cause : IoError)
  | ratioOutside (ratio : Decimal.Binary64)
  | outputInside (output workDir : Path)
  | programMissing (role : Role) (program : Path)
  deriving DecidableEq, Repr

def SettingsProblem.text : SettingsProblem → String
  | sourceMissing source => "source file not found: " ++ source.text
  | extensionUnknown source =>
    "unsupported language extension for " ++ source.text ++ " (expected .c, .cpp, .cc, .cxx)"
  | lineOutside line source lines =>
    "line " ++ natText line ++ " is outside of " ++ source.text ++ " (" ++ natText lines ++ " lines)"
  | sourceUnreadable source cause => "cannot read " ++ source.text ++ ": " ++ cause.message
  | ratioOutside ratio =>
    "reduction_ratio " ++ Decimal.numberText ratio ++ " must be between 0 and 1"
  | outputInside output workDir =>
    "output file " ++ output.text ++ " lies inside the work directory " ++ workDir.text ++
      ", which is removed after the run"
  | programMissing role program => role.title ++ " not found: " ++ program.text

/-- Why one candidate was not saved. -/
inductive SaveProblem where
  | unusable (candidate : Path)
  | noDirectory (dir : Path) (cause : IoError)
  | notCopied (candidate output : Path) (cause : IoError)
  deriving DecidableEq, Repr

def SaveProblem.text : SaveProblem → String
  | unusable candidate => candidate.text ++ " is missing or empty"
  | noDirectory dir cause => dir.text ++ ": " ++ cause.message
  | notCopied candidate output cause =>
    candidate.text ++ " -> " ++ output.text ++ ": " ++ cause.message

inductive Fault where
  | io (cause : IoError)
  | toolsUnreadable (file : Path) (cause : IoError)
  | toolsMalformed (file : Path)
  | invalid (problems : List SettingsProblem)
  | unsupportedLanguage (source : Path)
  | notStarted (program : Path) (cause : Errno)
  | badCriterion (text : String)
  | noSliceLines (program : Path)
  | noExtract (product : Path)
  | lineOutsideExtract (line lines : Nat)
  | lineOutsideSource (line lines : Nat)
  | noReduction (tool extension : String)
  | emptyReduction (tool : String)
  | exited (tool : String) (code : Int)
  | badContainerInput (input : Path)
  | containerNoSliceLines (image : String)
  | noEntryPoint
  | unnamedParameters
  | oneLineBody
  | nothingToUnify
  | nothingReadable
  | emptyUnion
  | workspaceBusy (dir : Path)
  | notSaved (problems : List SaveProblem)
  | described (kind : FaultKind) (text : String)
  deriving DecidableEq, Repr

namespace Fault

def kind : Fault → FaultKind
  | io _ => .io
  | toolsUnreadable .. => .config
  | toolsMalformed _ => .config
  | invalid _ => .validation
  | unsupportedLanguage _ => .unsupportedLanguage
  | notStarted .. => .tool
  | badCriterion _ => .tool
  | noSliceLines _ => .tool
  | noExtract _ => .tool
  | lineOutsideExtract .. => .tool
  | lineOutsideSource .. => .tool
  | noReduction .. => .tool
  | emptyReduction _ => .tool
  | exited .. => .toolFailed
  | badContainerInput _ => .container
  | containerNoSliceLines _ => .container
  | noEntryPoint => .entryPoint
  | unnamedParameters => .entryPoint
  | oneLineBody => .entryPoint
  | nothingToUnify => .unification
  | nothingReadable => .unification
  | emptyUnion => .unification
  | workspaceBusy _ => .workspaceBusy
  | notSaved _ => .save
  | described kind _ => kind

def detail : Fault → String
  | io cause => cause.message
  | toolsUnreadable file cause =>
    "Failed to read tools config " ++ file.text ++ ": " ++ cause.message
  | toolsMalformed file => "Invalid tools config " ++ file.text
  | invalid problems => String.intercalate "\n" (problems.map SettingsProblem.text)
  | unsupportedLanguage source => source.text
  | notStarted program cause => "Failed to start " ++ program.text ++ ": " ++ cause.message
  | badCriterion text => "invalid criterion '" ++ text ++ "'"
  | noSliceLines program => program.text ++ " produced no " ++ Artifacts.sliceLinesFile
  | noExtract product => "slice extractor produced no " ++ product.text
  | lineOutsideExtract line lines =>
    "adjusted line " ++ natText line ++ " outside of extracted slice (" ++ natText lines ++
      " lines)"
  | lineOutsideSource line lines =>
    "failure line " ++ natText line ++ " outside of source (" ++ natText lines ++ " lines)"
  | noReduction tool extension =>
    tool ++ " exited normally but wrote no " ++ Artifacts.reducedStem ++ "." ++ extension
  | emptyReduction tool => tool ++ " produced an empty file"
  | exited tool code => tool ++ " exited with code " ++ intText code
  | badContainerInput input => "bad input path " ++ input.text
  | containerNoSliceLines image => image ++ " produced no " ++ Artifacts.sliceLinesFile
  | noEntryPoint => "no definition of main() found"
  | unnamedParameters => "entry point does not name argc/argv parameters"
  | oneLineBody => "entry point body opens and closes on one line"
  | nothingToUnify => "no slice files to unify"
  | nothingReadable => "no slice file could be read"
  | emptyUnion => "union of slices is empty"
  | workspaceBusy dir => dir.text
  | notSaved problems => String.intercalate "; " (problems.map SaveProblem.text)
  | described _ text => text

def message (f : Fault) : String := f.kind.frame f.detail

def exitCode (f : Fault) : Nat := f.kind.exitCode

end Fault

end Whittle
