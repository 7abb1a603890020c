import TapeMachine.Text.Quoted

/-!
# Transitions

One rule of a machine: what it does when it reads a symbol in a state. The five fields are kept as
they were spelled, so that a table can be written out again exactly as it was entered; `defect?`
says which spellings a table refuses.
-/

namespace TapeMachine

/-- The symbol of a cell that was never written, or that was erased. -/
def blank : String := "_"

/-- Matches any symbol when read, and leaves the cell as it is when written. -/
def wildcard : String := "*"

/-! ### Halting states -/

/-- Whether reaching the state ends a run: its name starts with `halt`. -/
def isHalting (state : String) : Bool :=
  "halt".toList.isPrefixOf state.toList

/-- The halting state that a jump to `name!` reaches. -/
def haltingState (name : String) : String :=
  "halt-" ++ name

/-! ### Directions -/

/-- How the head moves after a step. -/
inductive Direction where
  | stay
  | left
  | right
deriving DecidableEq, Inhabited

/-- The one-character spelling of a direction. -/
def Direction.letter : Direction → String
  | .stay => "*"
  | .left => "l"
  | .right => "r"

/-- Reads one of the six accepted spellings. -/
def Direction.parse? (spelling : String) : Option Direction :=
  if spelling == "left" || spelling == "l" then some .left
  else if spelling == "right" || spelling == "r" then some .right
  else if spelling == "stay" || spelling == wildcard then some .stay
  else none

/-- The position next to `pos` in a direction. -/
def Direction.shift (d : Direction) (pos : Int) : Int :=
  match d with
  | .stay => pos
  | .left => pos - 1
  | .right => pos + 1

/-! ### Transitions -/

/-- What a machine does when it reads the symbol `read` in `state`. -/
structure Transition where
  state : String
  /-- A single symbol, or the wildcard for the state's default rule. -/
  read : String
  /-- A single symbol; the wildcard leaves the cell as it is and the blank erases it. -/
  write : String
  /-- A direction, in one of its spellings. -/
  move : String
  next : String
deriving DecidableEq, Inhabited

/-- Why a table refuses an operation. -/
inductive TableError where
  | badDirection (spelling : String)
  | badRead (symbol state : String)
  | badWrite (symbol state read : String)
  | duplicate (state read : String)
  | frozen
deriving DecidableEq

/-- The wording of each refusal. -/
def TableError.message : TableError → String
  | .badDirection spelling =>
    "direction must be '[l]eft' '[r]ight' or 'stay'/'*': got " ++ Text.quoted spelling
  | .badRead symbol state =>
    "symbols can only be a single character: read symbol " ++ Text.quoted symbol ++
      " in state " ++ state
  | .badWrite symbol state read =>
    "symbols can only be a single character: write symbol " ++ Text.quoted symbol ++
      " in " ++ state ++ "(" ++ read ++ ")"
  | .duplicate state read =>
    "duplicate transition: cannot add " ++ state ++ "(" ++ read ++ ") twice"
  | .frozen => "transition table is sealed"

namespace Transition

/-- The first thing wrong with a transition: its direction, then the length of the symbol it
reads, then the length of the symbol it writes. -/
def defect? (t : Transition) : Option TableError :=
  if (Direction.parse? t.move).isNone then some (.badDirection t.move)
  else if t.read.length ≠ 1 then some (.badRead t.read t.state)
  else if t.write.length ≠ 1 then some (.badWrite t.write t.state t.read)
  else none

/-- A transition is valid when nothing is wrong with it. -/
def Valid (t : Transition) : Prop := t.defect? = none

instance (t : Transition) : Decidable t.Valid :=
  inferInstanceAs (Decidable (_ = _))

/-- The direction a transition moves in; a spelling that is no direction stays. -/
def direction (t : Transition) : Direction :=
  (Direction.parse? t.move).getD .stay

/-- The five fields, in the order of a canonical line. -/
def fields (t : Transition) : List String :=
  [t.state, t.read, t.write, t.move, t.next]

/-- A transition as one canonical line, without its newline. -/
def line (t : Transition) : String :=
  " ".intercalate t.fields

/-- What identifies a transition within a table: its state and the symbol it reads. -/
def key (t : Transition) : String × String :=
  (t.state, t.read)

end Transition

end TapeMachine
