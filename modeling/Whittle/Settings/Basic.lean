import Whittle.Decimal.Shortest
import Whittle.Language
import Whittle.Settings.Toolchain
import Whittle.Stage

/-!
# The settings of a run

What is to be reduced, where it fails, which stages run, and where the result goes. `enables` says
which stages the settings leave in; `next` is the next of them.
-/

namespace Whittle

/-- Where slicers run. -/
inductive Backend where
  | local
  | container
  deriving DecidableEq, Repr, Inhabited

namespace Backend

def name : Backend → String
  | .local => "local"
  | .container => "container"

def lowerAscii (s : String) : String :=
  String.ofList (s.toList.map fun c =>
    if 'A'.toNat ≤ c.toNat ∧ c.toNat ≤ 'Z'.toNat then Char.ofNat (c.toNat + 32) else c)

/-- The backend of a name, in any case, or the complaint about it. -/
def read (s : String) : Except String Backend :=
  let lower := lowerAscii s
  if lower = "local" then .ok .local
  else if lower = "container" ∨ lower = "docker" then .ok .container
  else .error ("unknown slicer backend: " ++ lower ++ " (expected local or container)")

end Backend

structure Settings where
  /-- The failing program, and the line on which it fails. -/
  sourceFile : Path
  line : Nat
  /-- A part of the message of the failure. -/
  errorMessage : String := ""
  /-- The arguments with which the program fails. -/
  arguments : String := ""
  /-- The share of candidates the statement reducer may use. -/
  ratio : Decimal.Binary64 := .one
  dumpDot : Bool := false
  verbose : Bool := false
  log : Bool := false
  staticSlice : Bool := true
  dynamicSlice : Bool := true
  /-- Whether the graph reducer runs. -/
  delta : Bool := true
  /-- Whether the arguments are written into what the static slicer reads. -/
  inject : Bool := false
  backend : Backend := .container
  workDir : Path := ⟨".autopie"⟩
  outputFile : Option Path := none
  tools : Toolchain := {}
  deriving DecidableEq, Repr

namespace Settings

def slicing (s : Settings) : Bool := s.staticSlice || s.dynamicSlice

/-- The output file of the settings, or one beside where the run was started, named after the
source. -/
def outputPath (s : Settings) : Path :=
  match s.outputFile with
  | some p => p
  | none =>
    let stem := s.sourceFile.stem.getD "autopie"
    match s.sourceFile.extension with
    | some ext => ⟨stem ++ "_reduced." ++ ext⟩
    | none => ⟨stem ++ "_reduced"⟩

def enables (s : Settings) : Stage → Bool
  | .extractCriteria => s.slicing
  | .staticSlice => s.staticSlice
  | .dynamicSlice => s.dynamicSlice
  | .graphReduce => s.delta
  | _ => true

/-- The first enabled stage behind a stage; behind the last stage there is only itself. -/
def next (s : Settings) (stage : Stage) : Stage :=
  (((Stage.all.dropWhile (· ≠ stage)).drop 1).find? s.enables).getD .done

end Settings

/-- The program as it now stands: a stage either replaces its source and failure line or leaves
both. Language and arguments stay what they were. -/
structure Subject where
  source : Path
  failureLine : Nat
  language : Language
  arguments : String
  deriving DecidableEq, Repr

namespace Subject

def initial (s : Settings) (language : Language) : Subject :=
  ⟨s.sourceFile, s.line, language, s.arguments⟩

def adopt (s : Subject) (source : Path) (failureLine : Nat) : Subject :=
  { s with source := source, failureLine := failureLine }

def extension (s : Subject) : String := s.language.extension

/-- Where the program fails, for records. -/
def detail (s : Subject) : String := s.source.text ++ " line " ++ Text.natText s.failureLine

end Subject

end Whittle
