import TapeMachine.Transition

/-!
# Transition tables

A table holds, for each state in the order in which states were first seen, the transitions of
that state in the order in which they were added. It starts in the state of the first transition
unless a start state is chosen. Once frozen, a table refuses every change.

`Table.WellFormed` states what every operation keeps: states are listed once, each group holds
only transitions of its own state and at least one, no pair of state and symbol is covered twice,
and every transition is valid.
-/

namespace TapeMachine

/-- A machine's rules, grouped by state, and the state it starts in. -/
structure Table where
  initial : String := ""
  groups : List (String × List Transition) := []
  frozen : Bool := false
deriving DecidableEq, Inhabited

namespace Table

/-- The table with no transitions and no start state. -/
def empty : Table := {}

/-! ### Views -/

/-- The states that have transitions, in the order in which they were first seen. -/
def states (t : Table) : List String :=
  t.groups.map (·.1)

/-- The transitions of one state, in the order in which they were added. -/
def rules (t : Table) (state : String) : List Transition :=
  (t.groups.lookup state).getD []

/-- Whether any transition starts in the state. -/
def hasState (t : Table) (state : String) : Bool :=
  (t.groups.lookup state).isSome

/-- All transitions, state by state: the order of the canonical text. -/
def transitions (t : Table) : List Transition :=
  t.groups.flatMap (·.2)

/-- The number of transitions. -/
def size (t : Table) : Nat :=
  t.transitions.length

/-- Among the rules of a state, the one for the symbol, or else the wildcard rule. -/
def select (rules : List Transition) (symbol : String) : Option Transition :=
  match rules.find? (fun r => r.read == symbol) with
  | some r => some r
  | none => rules.find? (fun r => r.read == wildcard)

/-- The transition for reading a symbol in a state; an exact match wins over the wildcard. -/
def lookup (t : Table) (state symbol : String) : Option Transition :=
  select (t.rules state) symbol

/-! ### Operations -/

/-- Appends a transition to the group of its state, opening a new last group if there is none. -/
def insertRule (r : Transition) : List (String × List Transition) → List (String × List Transition)
  | [] => [(r.state, [r])]
  | (s, rs) :: gs =>
    if s == r.state then (s, rs ++ [r]) :: gs else (s, rs) :: insertRule r gs

/-- Adds a transition. A pair of state and symbol may be covered once only, the wildcard counting
as a symbol of its own. -/
def add (t : Table) (r : Transition) : Except TableError Table :=
  if t.frozen then .error .frozen
  else
    match r.defect? with
    | some e => .error e
    | none =>
      if (t.rules r.state).any (fun q => q.read == r.read) then .error (.duplicate r.state r.read)
      else
        .ok { t with
          initial := if t.groups.isEmpty && t.initial == "" then r.state else t.initial
          groups := insertRule r t.groups }

/-- Adds transitions in order and stops at the first that is refused; those before it stay. -/
def addAll (t : Table) : List Transition → Table × Option TableError
  | [] => (t, none)
  | r :: rs =>
    match t.add r with
    | .ok t' => t'.addAll rs
    | .error e => (t, some e)

/-- Chooses the state in which runs start. -/
def setInitial (t : Table) (state : String) : Except TableError Table :=
  if t.frozen then .error .frozen else .ok { t with initial := state }

/-- Freezes the table. -/
def freeze (t : Table) : Table :=
  { t with frozen := true }

/-- A copy that can be changed again. -/
def thaw (t : Table) : Table :=
  { t with frozen := false }

/-- The table of a list of transitions, or the first refusal. -/
def ofTransitions (rs : List Transition) : Except TableError Table :=
  match empty.addAll rs with
  | (t, none) => .ok t
  | (_, some e) => .error e

/-! ### Well-formedness -/

/-- What every table built by the operations above satisfies. -/
structure WellFormed (t : Table) : Prop where
  states_nodup : t.states.Nodup
  group_ne_nil : ∀ g ∈ t.groups, g.2 ≠ []
  group_state : ∀ g ∈ t.groups, ∀ r ∈ g.2, r.state = g.1
  keys_nodup : (t.transitions.map Transition.key).Nodup
  valid : ∀ r ∈ t.transitions, r.Valid

end Table

end TapeMachine
