import TapeMachine.Table

/-!
# State diagrams

A table as the text of a flowchart: a node for every state, shaped by what the state is, and one
edge for every pair of states that a rule connects. States are given identifiers of their own, so
that any name can be shown: a state gets the next identifier when it is met first. A run can be laid
over the diagram.
-/

namespace TapeMachine.Diagram

/-! ### Identifiers -/

/-- The states that have identifiers, in the order in which they got them. -/
abbrev Ids := List String

/-- The identifier of the state at a place. -/
def nodeId (i : Nat) : String := "s" ++ toString i

/-- The identifier of a state, if it has one. -/
def idOf? (ids : Ids) (state : String) : Option String :=
  (ids.findIdx? (· == state)).map nodeId

/-- The identifier of a state, which gets the next one if it has none. -/
def Ids.get (ids : Ids) (state : String) : String × Ids :=
  match idOf? ids state with
  | some id => (id, ids)
  | none => (nodeId ids.length, ids ++ [state])

/-! ### Lines -/

/-- A name or a label without the character that would end it. -/
def escape (s : String) : String :=
  String.ofList (s.toList.flatMap (fun c => if c == '"' then "#quot;".toList else [c]))

/-- What encloses the name of a node: a circle for the start state, a rounded box for a halting
state, a hexagon for a state without rules, and a plain box otherwise. -/
def shape (table : Table) (state : String) : String × String :=
  if state == table.initial then ("((\"", "\"))")
  else if isHalting state then ("([\"", "\"])")
  else if !table.hasState state then ("\x7b\x7b\"", "\"\x7d\x7d")
  else ("[\"", "\"]")

/-- The line that declares a node. -/
def nodeLine (table : Table) (id state : String) : String :=
  let (opening, closing) := shape table state
  "    " ++ id ++ opening ++ escape state ++ closing ++ "\n"

/-- What a rule does, as it stands at an edge. -/
def ruleLabel (t : Transition) : String :=
  t.read ++ "/" ++ t.write ++ "," ++ t.direction.letter

/-- The line that draws an edge. -/
def edgeLine (source label target : String) : String :=
  "    " ++ source ++ " -- \"" ++ escape label ++ "\" --> " ++ target ++ "\n"

/-! ### Edges -/

/-- The pairs of states that rules connect, in the order in which they are met, and what the rules
between two states do. -/
structure Connections where
  order : List (String × String) := []
  labels : String × String → Option (List String) := fun _ => none

/-- Notes what a rule connects and does. -/
def Connections.note (c : Connections) (t : Transition) : Connections :=
  let e := (t.state, t.next)
  { order := if (c.labels e).isSome then c.order else c.order ++ [e]
    labels := fun e' =>
      if e' = e then some ((c.labels e).getD [] ++ [ruleLabel t]) else c.labels e' }

/-- What all rules between two states do. -/
def Connections.label (c : Connections) (e : String × String) : String :=
  "<br/>".intercalate ((c.labels e).getD [])

/-! ### Drawing -/

/-- A diagram that is being drawn. -/
structure Drawing where
  ids : Ids := []
  text : String := ""

namespace Drawing

/-- Declares a state, unless it has been declared. -/
def declare (table : Table) (d : Drawing) (state : String) : Drawing :=
  if (idOf? d.ids state).isSome then d
  else
    let (id, ids) := d.ids.get state
    ⟨ids, d.text ++ nodeLine table id state⟩

/-- Declares the start state, and every state with the states that its rules lead to. -/
def declareAll (table : Table) (d : Drawing) : Drawing :=
  let d := if table.initial == "" then d else d.declare table table.initial
  table.groups.foldl (fun d g =>
    g.2.foldl (fun d r => d.declare table r.next) (d.declare table g.1)) d

/-- Draws an edge. -/
def connect (c : Connections) (d : Drawing) (e : String × String) : Drawing :=
  let (source, ids) := d.ids.get e.1
  let (target, ids) := ids.get e.2
  ⟨ids, d.text ++ edgeLine source (c.label e) target⟩

end Drawing

/-! ### Runs -/

/-- A run to be shown: the states it visited and the state it ended in. -/
structure Overlay where
  visited : List String := []
  final : String := ""

/-- The identifiers that have been shown as visited, when one more state is looked at. -/
def noteVisited (ids : Ids) (seen : List String) (state : String) : List String :=
  match idOf? ids state with
  | some id => if seen.contains id then seen else seen ++ [id]
  | none => seen

/-- The lines that introduce a run. -/
def legend : String :=
  "\n    %% Overlay Styles\n" ++
  "    classDef visited fill:#e1f5fe,stroke:#01579b,stroke-width:2px,color:#000;\n" ++
  "    classDef final fill:#ffeb3b,stroke:#fbc02d,stroke-width:4px,color:#000;\n"

/-- The lines that show a run. -/
def overlayText (ids : Ids) (o : Overlay) : String :=
  legend ++
  String.join ((o.visited.foldl (noteVisited ids) []).map
    (fun id => "    class " ++ id ++ " visited;\n")) ++
  match idOf? ids o.final with
  | some id => "    class " ++ id ++ " final;\n"
  | none => ""

/-- The diagram of a table, with a run laid over it if there is one. -/
def render (table : Table) (overlay : Option Overlay := none) : String :=
  let declared := Drawing.declareAll table { text := "graph LR\n" }
  let connections := table.transitions.foldl Connections.note {}
  let drawn := connections.order.foldl (Drawing.connect connections) declared
  drawn.text ++
  match overlay with
  | some o => overlayText drawn.ids o
  | none => ""

end TapeMachine.Diagram
