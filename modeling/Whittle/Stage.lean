/-!
# Stages of a run

The stages in the order in which they run, how each one can end, and the record of both.
-/

namespace Whittle

inductive Stage where
  | init
  | validate
  | extractCriteria
  | staticSlice
  | dynamicSlice
  | graphReduce
  | statementReduce
  | save
  | cleanup
  | done
  deriving DecidableEq, Repr, Inhabited

namespace Stage

def name : Stage → String
  | init => "init"
  | validate => "validate"
  | extractCriteria => "extract_criteria"
  | staticSlice => "static_slice"
  | dynamicSlice => "dynamic_slice"
  | graphReduce => "graph_reduce"
  | statementReduce => "statement_reduce"
  | save => "save"
  | cleanup => "cleanup"
  | done => "done"

def all : List Stage :=
  [init, validate, extractCriteria, staticSlice, dynamicSlice, graphReduce, statementReduce, save,
   cleanup, done]

theorem mem_all (s : Stage) : s ∈ all := by cases s <;> decide

/-- The stage behind a stage; the last one is behind itself. -/
def successor : Stage → Stage
  | init => validate
  | validate => extractCriteria
  | extractCriteria => staticSlice
  | staticSlice => dynamicSlice
  | dynamicSlice => graphReduce
  | graphReduce => statementReduce
  | statementReduce => save
  | save => cleanup
  | cleanup => done
  | done => done

end Stage

inductive Outcome where
  /-- The stage ended and was not to change the program. -/
  | completed
  /-- The stage produced the program that is now current. -/
  | adopted
  /-- The stage failed and the program before it stays current. -/
  | keptPrevious
  /-- The settings leave the stage out. -/
  | skipped
  /-- The stage failed, and with it the run. -/
  | failed
  deriving DecidableEq, Repr

namespace Outcome

def name : Outcome → String
  | completed => "completed"
  | adopted => "adopted"
  | keptPrevious => "kept_previous"
  | skipped => "skipped"
  | failed => "failed"

/-- How an outcome is called in warnings. -/
def title : Outcome → String
  | completed => "Completed"
  | adopted => "Adopted"
  | keptPrevious => "KeptPrevious"
  | skipped => "Skipped"
  | failed => "Failed"

/-- Whether an outcome is worth a warning. -/
def isBad : Outcome → Bool
  | keptPrevious => true
  | failed => true
  | _ => false

end Outcome

structure StageRecord where
  stage : Stage
  outcome : Outcome
  detail : String
  deriving DecidableEq, Repr

end Whittle
