import Whittle.Settings.Basic

/-!
# Checking settings before a run

`Settings.check` lists everything that is wrong with the settings, and everything that is odd about
them; `Settings.validate` answers the language of the source if nothing is wrong. Neither changes
the disk.
-/

namespace Whittle

open Text

/-- Errors and warnings in the order in which they were found. -/
structure Findings (ε ω : Type) where
  errors : List ε
  warnings : List ω

namespace Findings

def empty {ε ω : Type} : Findings ε ω := ⟨[], []⟩

def addError {ε ω : Type} (f : Findings ε ω) (e : ε) : Findings ε ω :=
  { f with errors := f.errors ++ [e] }

def addWarning {ε ω : Type} (f : Findings ε ω) (w : ω) : Findings ε ω :=
  { f with warnings := f.warnings ++ [w] }

def isValid {ε ω : Type} (f : Findings ε ω) : Bool := f.errors.isEmpty

end Findings

inductive SettingsWarning where
  | anyFailure
  | nothingToInject
  deriving DecidableEq, Repr

def SettingsWarning.text : SettingsWarning → String
  | anyFailure => "error_message is empty; any failure will be accepted by the reducers"
  | nothingToInject => "inject is enabled but no arguments were given"

namespace Settings

/-- What is wrong with the source file. If it is missing nothing else is said about it. -/
def sourceProblems (s : Settings) (d : Disk) : List SettingsProblem :=
  if !d.isFile s.sourceFile then [.sourceMissing s.sourceFile]
  else
    (if (Language.ofPath s.sourceFile).isNone then [.extensionUnknown s.sourceFile] else []) ++
    match d.readText s.sourceFile with
    | .ok text =>
      if s.line = 0 ∨ s.line > lineCount text then
        [.lineOutside s.line s.sourceFile (lineCount text)]
      else []
    | .error e => [.sourceUnreadable s.sourceFile e]

def optionProblems (s : Settings) : List SettingsProblem :=
  if s.ratio.inUnitInterval then [] else [.ratioOutside s.ratio]

def isBlankText (s : String) : Bool := (trimChars s.toList).isEmpty

def optionWarnings (s : Settings) : List SettingsWarning :=
  (if isBlankText s.errorMessage then [.anyFailure] else []) ++
  (if s.inject && isBlankText s.arguments then [.nothingToInject] else [])

/-- The canonical form of the longest ancestor that exists, with the missing names behind it. The
path itself if its missing part has something other than names. -/
def settleFrom (d : Disk) (whole : Path) (missing : List String) (current : Path) : Nat → Path
  | 0 => whole
  | fuel + 1 =>
    match d.canonical current with
    | .ok p => missing.foldl (fun acc name => acc.join ⟨name⟩) p
    | .error _ =>
      match current.parent, current.fileName with
      | some parent, some name => settleFrom d whole (name :: missing) parent fuel
      | _, _ => whole

def settle (d : Disk) (p : Path) : Path := settleFrom d p [] p (p.parts.length + 1)

/-- The result must not lie in the directory that is cleaned up. -/
def outputProblems (s : Settings) (d : Disk) (base : Path) : List SettingsProblem :=
  let output := settle d (base.join s.outputPath)
  let workDir := settle d (base.join s.workDir)
  if output.startsWith workDir then [.outputInside output workDir] else []

/-- The programs that the enabled stages call. -/
def requiredRoles (s : Settings) : List Role :=
  [.statementReducer] ++
  (if s.delta then [.graphReducer] else []) ++
  (if s.slicing then
    [.variableExtractor, .sliceExtractor] ++
    match s.backend with
    | .local =>
      (if s.staticSlice then [.staticSlicer] else []) ++
      (if s.dynamicSlice then [.dynamicSlicer] else [])
    | .container => [.containerRuntime]
  else [])

def programProblems (s : Settings) (searchPath : Option (List Path)) (d : Disk) (base : Path) :
    List SettingsProblem :=
  s.requiredRoles.filterMap fun role =>
    let program := s.tools.program role
    if (Toolchain.locate searchPath d base program).isNone then
      some (.programMissing role program)
    else none

def check (s : Settings) (searchPath : Option (List Path)) (d : Disk) (base : Path) :
    Findings SettingsProblem SettingsWarning :=
  ⟨s.sourceProblems d ++ s.optionProblems ++ s.outputProblems d base ++
      s.programProblems searchPath d base,
    s.optionWarnings⟩

def warnAll : List SettingsWarning → Action Unit
  | [] => return ()
  | w :: ws => do
    Action.warn w.text
    warnAll ws

/-- The language of the source of settings with which nothing is wrong. -/
def validate (host : Host) (s : Settings) (base : Path) : Action Language := do
  let findings := s.check host.searchPath (← Action.getDisk) base
  warnAll findings.warnings
  if !findings.isValid then throw (.invalid findings.errors)
  match Language.ofPath s.sourceFile with
  | some language => return language
  | none => throw (.unsupportedLanguage s.sourceFile)

end Settings

end Whittle
