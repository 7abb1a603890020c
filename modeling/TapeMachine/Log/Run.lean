import TapeMachine.Log.Record
import TapeMachine.Run

/-!
# What runs write to a log

A machine notes that it has halted; an observer that logs also notes every step and, as news for
the user, every finished run. The records of a run come in the order of its steps.
-/

namespace TapeMachine.Log

/-- The record of a step. -/
def stepRecord (runId : String) (e : StepEvent) : Record :=
  { level := .debug
    message := "step"
    attrs := [("run_id", .text runId), ("step", .int e.step), ("head", .int e.head),
      ("read", .text e.symbol), ("transition", .text e.transition.line)] }

/-- What is said about the end of a run. -/
def endAttrs (runId : String) (r : Result) : List (String × Value) :=
  [("run_id", .text runId), ("state", .text r.state), ("reason", .text r.reason.name),
    ("steps", .int r.steps)]

/-- The machine's own note of its end. -/
def haltedRecord (runId : String) (r : Result) : Record :=
  { level := .debug, message := "machine halted", attrs := endAttrs runId r }

/-- The observer's note of the end of a run. -/
def haltRecord (runId : String) (r : Result) : Record :=
  { level := .info, message := "halt", attrs := endAttrs runId r }

/-- The records of a run with an observer that logs. -/
def runRecords (runId : String) (steps : List StepEvent) (r : Result) : List Record :=
  steps.map (stepRecord runId) ++ [haltedRecord runId r, haltRecord runId r]

/-- The record of a compiled program. -/
def compiledRecord (t : Table) : Record :=
  { level := .debug
    message := "program compiled"
    attrs := [("states", .int t.states.length), ("transitions", .int t.size)] }

end TapeMachine.Log
