import TapeMachine.Table

/-!
# Scripts

Building a table by a chain of calls: go to a state, go to a symbol of it, and say what is written,
how the head moves and where the machine goes. States and symbols keep the order in which they are
first visited, and coming back to one goes on with its rule. What is never said has the same
default as in a program: the cell is left as it is, the head stays, the state stays.
-/

namespace TapeMachine

/-- What has been said about one symbol of a state. -/
structure ScriptRule where
  symbol : String
  write : Option String := none
  move : Option Direction := none
  next : Option String := none
deriving DecidableEq

/-- A table in the making, and the state and symbol the next call is about. -/
structure Script where
  initial : String := ""
  groups : List (String × List ScriptRule) := []
  state? : Option String := none
  symbol? : Option String := none

namespace Script

/-- Chooses the state in which runs start. -/
def start (s : Script) (state : String) : Script :=
  { s with initial := state }

/-- Goes to a state. -/
def state (s : Script) (name : String) : Script :=
  { s with
    groups := if s.groups.any (fun g => g.1 == name) then s.groups else s.groups ++ [(name, [])]
    state? := some name
    symbol? := none }

/-- Changes the rules of a state. -/
def changeState (name : String) (f : List ScriptRule → List ScriptRule)
    (groups : List (String × List ScriptRule)) : List (String × List ScriptRule) :=
  groups.map (fun g => if g.1 == name then (g.1, f g.2) else g)

/-- Goes to a symbol of the current state. -/
def on (s : Script) (symbol : String) : Script :=
  match s.state? with
  | none => s
  | some name =>
    { s with
      groups := changeState name (fun rs =>
        if rs.any (fun r => r.symbol == symbol) then rs else rs ++ [{ symbol := symbol }]) s.groups
      symbol? := some symbol }

/-- Goes to the wildcard rule of the current state. -/
def otherwise (s : Script) : Script :=
  s.on wildcard

/-- Changes the current rule. -/
def change (s : Script) (f : ScriptRule → ScriptRule) : Script :=
  match s.state?, s.symbol? with
  | some name, some symbol =>
    let edit (rs : List ScriptRule) := rs.map (fun r => if r.symbol == symbol then f r else r)
    { s with groups := changeState name edit s.groups }
  | _, _ => s

/-- Says what is written. -/
def write (s : Script) (symbol : String) : Script :=
  s.change (fun r => { r with write := some symbol })

/-- Says that the cell is erased. -/
def erase (s : Script) : Script :=
  s.write blank

/-- Says how the head moves. -/
def move (s : Script) (d : Direction) : Script :=
  s.change (fun r => { r with move := some d })

/-- Says where the machine goes. -/
def goto (s : Script) (state : String) : Script :=
  s.change (fun r => { r with next := some state })

/-- Says that the machine halts, and under which name. -/
def halt (s : Script) (name : String) : Script :=
  s.goto (haltingState name)

/-- The transition of a rule, with the defaults for what was not said. -/
def transition (state : String) (r : ScriptRule) : Transition :=
  { state
    read := r.symbol
    write := r.write.getD wildcard
    move := (r.move.getD .stay).letter
    next := r.next.getD state }

/-- The transitions in table order; they need not be valid. -/
def transitions (s : Script) : List Transition :=
  s.groups.flatMap (fun g => g.2.map (transition g.1))

/-- The table of a script. -/
def build (s : Script) : Except TableError Table :=
  match Table.ofTransitions s.transitions with
  | .error e => .error e
  | .ok t => .ok (if s.initial == "" then t else { t with initial := s.initial })

/-- The wording of a refusal. -/
def failure (e : TableError) : String :=
  "failed to build table: " ++ e.message

end Script

end TapeMachine
