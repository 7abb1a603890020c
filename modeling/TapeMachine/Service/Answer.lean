import TapeMachine.Engine
import TapeMachine.Store
import TapeMachine.Table.Diff

/-!
# What services answer with

The JSON objects in which compiled tables, results and failures are reported, and the objects in
which programs and inputs are handed in.
-/

namespace TapeMachine.Service

open Text (Json)

/-! ### Requests -/

/-- A program, the name of a table, and inputs; what is not given is empty. -/
structure Order where
  source : String := ""
  name : String := ""
  inputs : Json.Slots String := {}

/-- Reads one member of an order. -/
def Order.member (fields : List String) (name : String) (v : Json) (o : Order) : Option Order :=
  let names (field : String) : Bool := fields.contains field && Json.namesField field name
  if names "source" then (Json.stringOver o.source v).map (fun s => { o with source := s })
  else if names "name" then (Json.stringOver o.name v).map (fun s => { o with name := s })
  else if names "inputs" then
    (Json.slotsOver "" Json.stringOver o.inputs v).map (fun is => { o with inputs := is })
  else some o

/-- Reads an order that has the given fields. -/
def Order.ofJson? (fields : List String) (v : Json) : Option Order :=
  Json.recordOver (Order.member fields) {} v

/-! ### Answers -/

/-- A compiled table with its transitions. -/
def compiledAnswer (t : Table) : Json :=
  .object [("initial_state", .string t.initial),
    ("transitions", .array (t.transitions.map Transition.toJson)),
    ("canonical", .string (Canonical.encode t))]

/-- A compiled table with the number of its transitions. -/
def summaryAnswer (t : Table) : Json :=
  .object [("initial_state", .string t.initial), ("transitions", .nat t.size),
    ("canonical", .string (Canonical.encode t))]

/-- One result, with the argument as it was given. -/
def resultAnswer (arg : String) (r : Result) : Json :=
  .object [("input", .string r.input), ("tape", .string r.tape), ("state", .string r.state),
    ("reason", .string r.reason.name), ("steps", .nat r.steps), ("line", .string (r.line arg))]

/-- The results of all inputs. -/
def runAnswer (rs : List (String × Result)) : Json :=
  .object [("results", .array (rs.map (fun r => resultAnswer r.1 r.2)))]

/-- The names of all tables. -/
def tablesAnswer (names : List Bytes) : Json :=
  .object [("tables", .array (names.map .bytes))]

/-- A failure. -/
def errorAnswer (message : String) : Json :=
  .object [("error", .string message)]

/-- A fault of a program, with its line. -/
def compileErrorAnswer (e : Program.Error) : Json :=
  .object (("error", .string e.message) ::
    match e.line? with
    | some n => if n = 0 then [] else [("line", .int n)]
    | none => [])

/-- What became of a table that was put. -/
def putAnswer (name : Bytes) (d : TableDiff) : Json :=
  .object [("name", .bytes name), ("diff", d.toJson)]

end TapeMachine.Service
