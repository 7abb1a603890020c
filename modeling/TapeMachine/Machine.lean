import TapeMachine.Log.Run

/-!
# Machines

A machine is a table together with a tape. Its table can be changed and its tape edited until it
runs; running freezes the table and leaves the tape as the run left it, so that a second run goes
on where the first one stopped, again from the start state.
-/

namespace TapeMachine

/-- A table, a tape and how runs are carried out. -/
structure Machine where
  input : String
  table : Table := .empty
  tape : Tape
  runId : String := ""
  limit : Nat := 0
  sorted : Bool := false

namespace Machine

/-- A machine whose tape holds an input. -/
def ofInput (input : String) (table : Table := .empty) : Machine :=
  { input, table, tape := .ofInput input }

/-- Adds a transition to the table. -/
def add (m : Machine) (t : Transition) : Except TableError Machine :=
  (m.table.add t).map (fun table => { m with table })

/-- Chooses the start state. -/
def setInitial (m : Machine) (state : String) : Except TableError Machine :=
  (m.table.setInitial state).map (fun table => { m with table })

/-- One finished run of a machine: its result, what interrupted it and what was logged. -/
structure Finished where
  result : Result
  cause : Option StopCause
  records : List Log.Record

/-- Runs a machine. A run that never ends gives nothing. -/
def run (m : Machine) (interrupt : Option Interrupt := none) : Option (Machine × Finished) :=
  let opts : RunOptions := { limit := m.limit, sorted := m.sorted, interrupt }
  let m := { m with table := m.table.freeze }
  match traceRun m.table opts m.tape with
  | none => none
  | some e =>
    let result := e.result opts m.input
    some ({ m with tape := e.last.tape },
      { result, cause := e.cause? opts, records := Log.runRecords m.runId e.seen result })

end Machine

end TapeMachine
