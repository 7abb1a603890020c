import TapeMachine.Table
import TapeMachine.Text.Json

/-!
# Tables as JSON

A table is written as its start state and its transitions in table order. Reading builds the table
through `Table.add`, so a table that was read obeys the same rules as one built by hand.
-/

namespace TapeMachine

open Text (Json)

/-- A transition as a JSON object. -/
def Transition.toJson (t : Transition) : Json :=
  .object [("current_state", .string t.state), ("current_cell", .string t.read),
    ("new_cell", .string t.write), ("direction", .string t.move), ("new_state", .string t.next)]

/-- Reads one member of a transition over what is there. -/
def Transition.member (name : String) (v : Json) (t : Transition) : Option Transition :=
  if Json.namesField "current_state" name then
    (Json.stringOver t.state v).map (fun s => { t with state := s })
  else if Json.namesField "current_cell" name then
    (Json.stringOver t.read v).map (fun s => { t with read := s })
  else if Json.namesField "new_cell" name then
    (Json.stringOver t.write v).map (fun s => { t with write := s })
  else if Json.namesField "direction" name then
    (Json.stringOver t.move v).map (fun s => { t with move := s })
  else if Json.namesField "new_state" name then
    (Json.stringOver t.next v).map (fun s => { t with next := s })
  else some t

namespace Table

/-- A table as a JSON object. -/
def toJson (t : Table) : Json :=
  .object [("initial_state", .string t.initial),
    ("transitions", .array (t.transitions.map Transition.toJson))]

/-- What the JSON text of a table says, before any of it is checked. -/
structure Draft where
  initial : String := ""
  transitions : Json.Slots Transition := {}

/-- A transition of which nothing has been read. -/
def Draft.freshRule : Transition := ⟨"", "", "", "", ""⟩

/-- Reads one member of a table. -/
def Draft.member (name : String) (v : Json) (d : Draft) : Option Draft :=
  if Json.namesField "initial_state" name then
    (Json.stringOver d.initial v).map (fun s => { d with initial := s })
  else if Json.namesField "transitions" name then
    (Json.slotsOver freshRule (Json.recordOver Transition.member) d.transitions v).map
      (fun ts => { d with transitions := ts })
  else some d

/-- What a JSON value says about a table, if it has the shape of one. -/
def Draft.ofJson? (v : Json) : Option Draft :=
  Json.recordOver Draft.member {} v

/-- Why JSON text does not become a table. -/
inductive ReadError where
  /-- The text is not JSON, or a value has the wrong type. -/
  | json
  | refused (e : TableError)

/-- Replaces what a table holds by what the text says. A text that is not JSON of the right shape
changes nothing, and neither does any text change a frozen table; a refused transition ends the
reading and leaves those before it. -/
def readJson (t : Table) (text : String) : Table × Option ReadError :=
  match (Json.parse? text).bind Draft.ofJson? with
  | none => (t, some .json)
  | some d =>
    if t.frozen then (t, some (.refused .frozen))
    else
      match empty.addAll d.transitions.items with
      | (t', some e) => (t', some (.refused e))
      | (t', none) => (if d.initial == "" then t' else { t' with initial := d.initial }, none)

end Table

end TapeMachine
