import Std.Data.TreeMap
import TapeMachine.Transition

/-!
# Tapes

A tape without ends and with one head. Only cells that hold something are kept. Each remembers when
it was created; writing over a cell leaves its age as it is, and erasing a cell forgets it, so that
a cell which is written again counts as new. A tape can be read off in the order in which its cells
were created or from left to right.
-/

namespace TapeMachine

/-- A cell that holds something: its symbol, and the moment at which it was created. -/
structure Cell where
  symbol : String
  stamp : Nat

/-- A tape and its head. -/
structure Tape where
  cells : Std.TreeMap Int Cell compare := {}
  head : Int := 0
  /-- The stamp of the next cell that is created. -/
  clock : Nat := 0

namespace Tape

/-- Puts a symbol into a cell; a cell that is there already keeps its age. -/
def put (t : Tape) (pos : Int) (symbol : String) : Tape :=
  match t.cells[pos]? with
  | some c => { t with cells := t.cells.insert pos { c with symbol } }
  | none => { t with cells := t.cells.insert pos ⟨symbol, t.clock⟩, clock := t.clock + 1 }

/-- Writes one character a cell from `pos` to the right. -/
def seed (t : Tape) (pos : Int) : List Char → Tape
  | [] => t
  | c :: cs => (t.put pos (String.ofList [c])).seed (pos + 1) cs

/-- The tape that holds an input from position 0 on, with the head on position 0. -/
def ofInput (input : String) : Tape :=
  ({} : Tape).seed 0 input.toList

/-- What a cell holds, blank if it was never written or was erased. -/
def symbolAt (t : Tape) (pos : Int) : String :=
  match t.cells[pos]? with
  | some c => c.symbol
  | none => blank

/-- The symbol under the head. -/
def read (t : Tape) : String :=
  t.symbolAt t.head

/-- Writes under the head: the wildcard leaves the cell as it is and the blank erases it. -/
def write (t : Tape) (symbol : String) : Tape :=
  if symbol == wildcard then t
  else if symbol == blank then { t with cells := t.cells.erase t.head }
  else t.put t.head symbol

/-- Moves the head. -/
def move (t : Tape) (d : Direction) : Tape :=
  { t with head := d.shift t.head }

/-- The number of cells that hold something. -/
def size (t : Tape) : Nat :=
  t.cells.size

/-- The cells from left to right. -/
def leftToRight (t : Tape) : List Cell :=
  t.cells.toList.map (·.2)

/-- The cells in the order in which they were created. -/
def byAge (t : Tape) : List Cell :=
  t.leftToRight.mergeSort (fun a b => a.stamp ≤ b.stamp)

/-- The symbols of some cells, one after the other. -/
def symbols (cells : List Cell) : String :=
  String.join (cells.map (·.symbol))

/-- The tape as text: from left to right if `sorted`, and otherwise in the order in which the
cells were created. -/
def render (t : Tape) (sorted : Bool) : String :=
  symbols (if sorted then t.leftToRight else t.byAge)

end Tape

end TapeMachine
