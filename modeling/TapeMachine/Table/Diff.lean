import TapeMachine.Table.Json

/-!
# Differences between tables

What has to be done to one table, seen as a map from state and symbol to transition, to obtain
another: transitions to add, to remove and to change, and the new start state if it differs.
-/

namespace TapeMachine

open Text (Json)

/-- How one table differs from another. -/
structure TableDiff where
  added : List Transition := []
  removed : List Transition := []
  /-- The new transitions of pairs that both tables cover differently. -/
  changed : List Transition := []
  initial : Option String := none
deriving DecidableEq, Inhabited

namespace TableDiff

/-- The transition of a list for a pair of state and symbol. -/
def find? (ts : List Transition) (key : String × String) : Option Transition :=
  ts.find? (fun t => t.key == key)

/-- Compares two tables; without an old one, everything is added. -/
def between (old : Option Table) (new : Table) : TableDiff :=
  let before := (old.map Table.transitions).getD []
  let after := new.transitions
  { added := after.filter (fun t => (find? before t.key).isNone)
    removed := before.filter (fun t => (find? after t.key).isNone)
    changed := after.filter (fun t =>
      match find? before t.key with
      | some p => p != t
      | none => false)
    initial :=
      match old with
      | none => some new.initial
      | some o => if o.initial == new.initial then none else some new.initial }

/-- Whether nothing differs. -/
def isEmpty (d : TableDiff) : Bool :=
  d.added.isEmpty && d.removed.isEmpty && d.changed.isEmpty && d.initial.isNone

/-- A member for a list of transitions, left out when the list is empty. -/
def listMember (name : String) (ts : List Transition) : List (String × Json) :=
  if ts.isEmpty then [] else [(name, .array (ts.map Transition.toJson))]

/-- A difference as a JSON object without its empty parts. -/
def toJson (d : TableDiff) : Json :=
  .object (listMember "added" d.added ++ listMember "removed" d.removed ++
    listMember "changed" d.changed ++
    match d.initial with
    | none => []
    | some s => [("initial_state", .string s)])

end TableDiff

end TapeMachine
