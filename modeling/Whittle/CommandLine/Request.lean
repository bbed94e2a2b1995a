import Whittle.Decimal.Reading
import Whittle.Settings.Basic
import Whittle.Settings.ToolsFile
import Whittle.Text.Blank

/-!
# What a command line asks for

A `Request` is settings together with the files that belong to them. Each `Opt` sets one part of a
request from the text of its value; `Opt.set` says which texts it refuses.
-/

namespace Whittle.CommandLine

open Text

/-- Why a command line is refused. -/
inductive Refusal where
  | unknownArgument
  /-- An option without the value it needs, or a path without a name. -/
  | valueMissing
  | valueMalformed
  /-- A value for something that takes none. -/
  | valueUnwanted
  | repeated
  | optionMissing
  deriving DecidableEq, Repr

def Refusal.message : Refusal → String
  | unknownArgument => "there is an argument that is not known"
  | valueMissing => "an option needs a value"
  | valueMalformed => "an option has a value it cannot take"
  | valueUnwanted => "a value stands where none is taken"
  | repeated => "an option stands twice"
  | optionMissing => "a required option is missing"

inductive Opt where
  | sourceFile
  | line
  | errorMessage
  | arguments
  | ratio
  | dumpDot
  | verbose
  | log
  | staticSlice
  | dynamicSlice
  | delta
  | inject
  | outputFile
  | workDir
  | backend
  | toolsConfig
  | report
  deriving DecidableEq, Repr

namespace Opt

def all : List Opt :=
  [sourceFile, line, errorMessage, arguments, ratio, dumpDot, verbose, log, staticSlice,
   dynamicSlice, delta, inject, outputFile, workDir, backend, toolsConfig, report]

def long : Opt → String
  | sourceFile => "source_file"
  | line => "line_number"
  | errorMessage => "error_message"
  | arguments => "arguments"
  | ratio => "reduction_ratio"
  | dumpDot => "dump_dot"
  | verbose => "verbose"
  | log => "log"
  | staticSlice => "static_slice"
  | dynamicSlice => "dynamic_slice"
  | delta => "delta"
  | inject => "inject"
  | outputFile => "output_file"
  | workDir => "work_dir"
  | backend => "slicer_backend"
  | toolsConfig => "tools_config"
  | report => "report"

def short : Opt → Option Char
  | dumpDot => some 'd'
  | verbose => some 'v'
  | log => some 'l'
  | _ => none

def ofLong (name : String) : Option Opt := all.find? fun o => o.long = name

def ofShort (c : Char) : Option Opt := all.find? fun o => o.short = some c

/-- The options without which there is nothing to do. -/
def required : List Opt := [sourceFile, line, errorMessage]

/-- Whether a word in front of which the option stands is its value even if it starts like an
option. -/
def takesHyphens (o : Opt) : Bool := o = arguments

end Opt

structure Request where
  settings : Settings := { sourceFile := ⟨""⟩, line := 0 }
  toolsFile : Option Path := none
  report : Option Path := none
  deriving DecidableEq, Repr

/-- Three words mean yes, in any case; everything else means no. -/
def readFlag (s : String) : Bool := ["true", "1", "yes"].contains (Backend.lowerAscii (trim s))

/-- A line number may have a sign, as long as that leaves it a line number. -/
def readLineNumber (s : String) : Option Nat :=
  match s.toList with
  | '-' :: digits => (readNat digits).filter (· = 0)
  | cs => readLine cs

def readPath (s : String) : Except Refusal Path :=
  if s = "" then .error .valueMissing else .ok ⟨s⟩

def readable {α : Type} : Option α → Except Refusal α
  | some a => .ok a
  | none => .error .valueMalformed

/-- The request with one option set. -/
def Opt.set (o : Opt) (value : String) (r : Request) : Except Refusal Request := do
  let s := r.settings
  match o with
  | sourceFile => return { r with settings := { s with sourceFile := ← readPath value } }
  | line => return { r with settings := { s with line := ← readable (readLineNumber value) } }
  | errorMessage => return { r with settings := { s with errorMessage := value } }
  | arguments => return { r with settings := { s with arguments := value } }
  | ratio =>
    return { r with settings := { s with ratio := ← readable (Decimal.readNumber value) } }
  | dumpDot => return { r with settings := { s with dumpDot := readFlag value } }
  | verbose => return { r with settings := { s with verbose := readFlag value } }
  | log => return { r with settings := { s with log := readFlag value } }
  | staticSlice => return { r with settings := { s with staticSlice := readFlag value } }
  | dynamicSlice => return { r with settings := { s with dynamicSlice := readFlag value } }
  | delta => return { r with settings := { s with delta := readFlag value } }
  | inject => return { r with settings := { s with inject := readFlag value } }
  | outputFile => return { r with settings := { s with outputFile := some (← readPath value) } }
  | workDir => return { r with settings := { s with workDir := ← readPath value } }
  | backend =>
    return { r with settings := { s with backend := ← readable (Backend.read value).toOption } }
  | toolsConfig => return { r with toolsFile := some (← readPath value) }
  | report => return { r with report := some (← readPath value) }

/-- The settings of a request, with the programs its tools file names. -/
def Request.load (d : Disk) (r : Request) : Except Fault Settings := do
  return { r.settings with tools := ← Toolchain.load d r.toolsFile }

end Whittle.CommandLine
