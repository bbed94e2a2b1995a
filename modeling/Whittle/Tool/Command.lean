import Whittle.World

/-!
# Command lines of tools

All tools understand the same options. `Command.argv` lists them in a fixed order: line, message,
arguments, other options, switches, product, source, and two dashes at the end.
-/

namespace Whittle

open Text

structure Command where
  program : Path
  locLine : Option Nat := none
  errorMessage : Option String := none
  arguments : Option String := none
  options : List (String × String) := []
  flags : List (String × Bool) := []
  output : Option String := none
  source : Option Path := none
  deriving DecidableEq, Repr

namespace Command

def boolText (b : Bool) : String := if b then "true" else "false"

/-- An option with its value. -/
def setting (name value : String) : String := "--" ++ name ++ "=" ++ value

def argv (c : Command) : List String :=
  (c.locLine.map fun n => setting "loc-line" (natText n)).toList ++
  (c.errorMessage.map (setting "error-message")).toList ++
  (c.arguments.map (setting "arguments")).toList ++
  c.options.map (fun o => setting o.1 o.2) ++
  c.flags.map (fun f => setting f.1 (boolText f.2)) ++
  (c.output.map ("-o=" ++ ·)).toList ++
  (c.source.map Path.text).toList ++
  ["--"]

/-- The name under which the program is reported. -/
def toolName (c : Command) : String := c.program.fileName.getD c.program.text

def run (host : Host) (c : Command) (cwd : Path) : Action Int :=
  Action.launch host c.program c.argv cwd

/-- Run a tool and fail unless it exits with zero. -/
def runChecked (host : Host) (c : Command) (cwd : Path) : Action Unit := do
  let code ← c.run host cwd
  if code ≠ 0 then throw (.exited c.toolName code)

end Command

end Whittle
