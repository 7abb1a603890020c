import TapeMachine.Program.Instruction
import TapeMachine.Table

/-!
# Drafts

A draft merges instructions into one entry for each state and symbol. States keep the order in
which they first occur, and so do the symbols of a state; of several directives of one kind for
the same state and symbol the last one counts. What is never said has a default: the cell is left
as it is, the head stays, and the machine stays in its state.
-/

namespace TapeMachine.Program

/-- What has been said about one state and symbol, and the line at which it was first mentioned. -/
structure Entry where
  state : String
  cell : String
  line : Int
  write : Option String := none
  move : Option String := none
  goto : Option String := none
deriving DecidableEq

namespace Entry

/-- Takes a directive in. -/
def apply (e : Entry) : Directive → Entry
  | .write s => { e with write := some s }
  | .move d => { e with move := some d }
  | .goto q => { e with goto := some q }

/-- The transition of an entry, with the defaults for what was not said. -/
def transition (e : Entry) : Transition :=
  { state := e.state
    read := e.cell
    write := e.write.getD wildcard
    move := e.move.getD wildcard
    next := e.goto.getD e.state }

end Entry

/-- The entries of a program, state by state. -/
structure Draft where
  groups : List (String × List Entry) := []
deriving DecidableEq

namespace Draft

/-- Takes an instruction into the entries of its state. -/
def mergeEntry (i : Instruction) : List Entry → List Entry
  | [] => [({ state := i.state, cell := i.cell, line := i.line } : Entry).apply i.directive]
  | e :: es => if e.cell == i.cell then e.apply i.directive :: es else e :: mergeEntry i es

/-- Takes an instruction into the groups of a draft. -/
def mergeGroup (i : Instruction) : List (String × List Entry) → List (String × List Entry)
  | [] => [(i.state, mergeEntry i [])]
  | (s, es) :: gs =>
    if s == i.state then (s, mergeEntry i es) :: gs else (s, es) :: mergeGroup i gs

/-- Takes an instruction in. -/
def merge (d : Draft) (i : Instruction) : Draft :=
  ⟨mergeGroup i d.groups⟩

/-- The draft of a list of instructions. -/
def ofInstructions (is : List Instruction) : Draft :=
  is.foldl merge {}

/-- The entries, in table order. -/
def entries (d : Draft) : List Entry :=
  d.groups.flatMap (·.2)

/-- The transitions, in table order; they need not be valid. -/
def transitions (d : Draft) : List Transition :=
  d.entries.map Entry.transition

/-- Adds entries to a table; a refusal points at the line of the entry. -/
def addEntries (t : Table) : List Entry → Except Error Table
  | [] => .ok t
  | e :: es =>
    match t.add e.transition with
    | .ok t' => addEntries t' es
    | .error r => .error (.at e.line (.refused r))

/-- The table of a draft. -/
def table (d : Draft) : Except Error Table :=
  addEntries .empty d.entries

end Draft

end TapeMachine.Program
