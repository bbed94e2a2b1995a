import Whittle.Pipeline.Cut

/-!
# Reducers

The graph reducer and the statement reducer are called in the same way and leave their product in
the same place. It is adopted if the reducer exits with zero and the product is a text with at
least one line; a failure line behind its end becomes its last line.
-/

namespace Whittle.Pipeline

open Text

inductive Reducer where
  | graph
  | statement
  deriving DecidableEq, Repr

namespace Reducer

def stage : Reducer → Stage
  | .graph => .graphReduce
  | .statement => .statementReduce

/-- What the name of the adopted product starts with. -/
def title : Reducer → String
  | .graph => "graph"
  | .statement => "statement"

def program (s : Settings) : Reducer → Path
  | .graph => s.tools.graphReducer
  | .statement => s.tools.statementReducer

/-- The call of a reducer. Only the statement reducer is told a ratio. -/
def command (s : Settings) (r : Reducer) (subject : Subject) : Command where
  program := r.program s
  locLine := some subject.failureLine
  errorMessage := some s.errorMessage
  arguments := some subject.arguments
  options := match r with
    | .graph => []
    | .statement => [("ratio", Decimal.numberText s.ratio)]
  flags := [("dump-dot", s.dumpDot), ("verbose", s.verbose), ("log", s.log)]
  source := some subject.source

/-- What a call of a reducer left. -/
structure Result where
  code : Int
  product : Option Path
  deriving DecidableEq, Repr

/-- Whether there is a product of a reducer that did not fail. -/
def Result.succeeded (d : Disk) (r : Result) : Bool := r.code = 0 && r.product.any fun p => d.isFile p

def invoke (host : Host) (s : Settings) (r : Reducer) (subject : Subject) : Work Result := do
  let _ ← Workspace.createDir Artifacts.reducedDir r.stage
  let output ← Workspace.prepareOutput
    (Artifacts.reducedDir ++ "/" ++ Artifacts.reducedStem ++ "." ++ subject.extension) r.stage
  let _ ← Workspace.prepareOutput Artifacts.adjustedLineFile r.stage
  let code ← (r.command s subject).run host (← Work.workspace).root
  return ⟨code, if (← Action.getDisk).isFile output then some output else none⟩

/-- The product of a call, or why there is none. -/
def productOf (s : Settings) (r : Reducer) (subject : Subject) (d : Disk) (result : Result) :
    Except Fault Path :=
  let tool := (r.command s subject).toolName
  match result.product with
  | some p =>
    if result.succeeded d then .ok p
    else if result.code ≠ 0 then .error (.exited tool result.code)
    else .error (.noReduction tool subject.extension)
  | none =>
    if result.code ≠ 0 then .error (.exited tool result.code)
    else .error (.noReduction tool subject.extension)

/-- A failure line, or the last line of a program that is shorter. -/
def clampLine (line count : Nat) : Action Nat := do
  let clamped := min line count
  if clamped ≠ line then
    Action.warn ("Failure line " ++ natText line ++ " clamped to " ++ natText clamped ++
      " (reduced file has " ++ natText count ++ " lines)")
  return clamped

/-- Adopt the product of a call. -/
def adopt (s : Settings) (r : Reducer) (subject : Subject) (result : Result) : Work Subject := do
  match r.productOf s subject (← Action.getDisk) result with
  | .error e => throw e
  | .ok output =>
    let product ← Workspace.copyIn output
      (r.title ++ "_reduced." ++ subject.extension) r.stage
    let count ← countLines product
    if count = 0 then throw (.emptyReduction (r.command s subject).toolName)
    let reported ← adjustedLine ((← Work.workspace).path Artifacts.adjustedLineFile)
    let line ← clampLine (reported.getD subject.failureLine) count
    return subject.adopt product line

/-- Call a reducer and adopt its product. -/
def run (host : Host) (s : Settings) (r : Reducer) (subject : Subject) : Work Subject := do
  adopt s r subject (← invoke host s r subject)

end Reducer

end Whittle.Pipeline
