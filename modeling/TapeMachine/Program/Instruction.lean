import TapeMachine.Program.Token

/-!
# Instructions

A program is a sequence of blocks told apart by indentation. A state block opens with a header and
holds read blocks; a read block holds directives. A block ends at the first line that starts as
deep as its header or less deep, and a state block takes its read block with it. Reading the tokens
of a program once, from left to right, gives its instructions: which directive is given for which
state and symbol, and at which line.

`Scope` is what is open at a point of the text, `Statement` is what the next tokens say, and
`instructions` puts the two together.
-/

namespace TapeMachine.Program

open Text

/-- A change to the rule for a state and a symbol. -/
inductive Directive where
  | write (symbol : String)
  | move (direction : String)
  | goto (state : String)
deriving DecidableEq

/-- A directive, with the state and the symbol it is given for and its line. -/
structure Instruction where
  state : String
  cell : String
  directive : Directive
  line : Int
deriving DecidableEq

/-! ### Scopes -/

/-- An open block: the state or symbol of its header and the depth of its header. -/
structure Block where
  value : String
  depth : Nat
deriving DecidableEq

/-- What is open at a point of the text. A read block is open only within a state block. -/
structure Scope where
  state : Option Block := none
  read : Option Block := none
deriving DecidableEq

/-- How much deeper than its line a read block is that an arrow opens together with its state. -/
def arrowDepth : Nat := 4

/-- The value of a header. -/
def headerValue (text : List Char) : String :=
  String.ofList (trim text)

namespace Scope

/-- Closes the blocks whose header is at least as deep as a line that starts at `depth`. -/
def leave (s : Scope) (depth : Nat) : Scope :=
  match s.state with
  | some b =>
    if depth ≤ b.depth then {}
    else
      match s.read with
      | some r => if depth ≤ r.depth then { s with read := none } else s
      | none => s
  | none =>
    match s.read with
    | some r => if depth ≤ r.depth then { s with read := none } else s
    | none => s

end Scope

/-! ### Statements -/

/-- What the tokens at a point say. -/
inductive Statement where
  | openState (name : String)
  | openStateRead (name symbol : String)
  | openRead (symbol : String)
  | directive (d : Directive)
  /-- A `goto` before its target says nothing by itself. -/
  | nothing
deriving DecidableEq

/-- A token that can follow a keyword. -/
def Token.isOperand (t : Token) : Bool :=
  t.kind == .word || t.kind == .bracketed

/-- The operand at the front of the remaining tokens. -/
def operand? : List Token → Option Token
  | t :: _ => if t.isOperand then some t else none
  | [] => none

/-- The kind of the first of the remaining tokens. -/
def kind? : List Token → Option Kind
  | t :: _ => some t.kind
  | [] => none

/-- The state a directive leads to; a trailing `!` names a halting state. -/
def destination (name : List Char) : String :=
  match name.reverse with
  | '!' :: base => haltingState (String.ofList base.reverse)
  | _ => String.ofList name

/-- The directive at the front of the tokens, and how many tokens it takes beside its first. -/
def readDirective (t : Token) (rest : List Token) : Except Malformed (Statement × Nat) :=
  let jump : Except Malformed (Statement × Nat) :=
    .ok (.directive (.goto (destination t.value)), 0)
  if t.kind == .word then
    if t.text == "write".toList then
      match operand? rest with
      | some o => .ok (.directive (.write (String.ofList o.value)), 1)
      | none => .error .missingWriteSymbol
    else if t.text == "move".toList then
      match operand? rest with
      | some o => .ok (.directive (.move (String.ofList o.value)), 1)
      | none => .error .missingDirection
    else if t.text == "goto".toList then
      match operand? rest with
      | some _ => .ok (.nothing, 0)
      | none => .error .missingTarget
    else jump
  else jump

/-- A statement inside a state block that is no header: `read`, or a directive. -/
def readInState (state : Block) (read : Option Block) (t : Token) (rest : List Token) :
    Except Malformed (Statement × Nat) :=
  if t.kind == .word && t.text == "read".toList then
    match operand? rest with
    | some o =>
      let after := kind? rest.tail
      let opener := after == some .colon || after == some .arrow
      .ok (.openRead (headerValue o.value), if opener then 2 else 1)
    | none => .error .missingReadSymbol
  else if read.isNone then .error (.outsideRead t.text state.value)
  else readDirective t rest

/-- The statement that starts with the token `t`, and how many of the tokens after it it takes. -/
def readStatement (s : Scope) (t : Token) (rest : List Token) :
    Except Malformed (Statement × Nat) :=
  if t.kind == .arrow then .error .bareArrow
  else if t.kind == .colon then .error .bareColon
  else if kind? rest == some .colon then
    match s.state with
    | none => .ok (.openState (headerValue t.value), 1)
    | some _ => .ok (.openRead (headerValue t.value), 1)
  else
    match s.state with
    | none =>
      if t.kind == .word && kind? rest == some .bracketed &&
          (kind? rest.tail == some .arrow || kind? rest.tail == some .colon) then
        let symbol := (rest.head?.map Token.value).getD []
        .ok (.openStateRead (headerValue t.text) (headerValue symbol), 2)
      else if kind? rest == some .arrow then
        .ok (.openStateRead (headerValue t.value) wildcard, 1)
      else .error (.outsideState t.text)
    | some state =>
      if kind? rest == some .arrow then .ok (.openRead (headerValue t.value), 1)
      else readInState state s.read t rest

/-! ### Reading a program -/

/-- A point of a program: what is open, the depth of the line, and whether nothing but indentation
has been read on it. -/
structure Point where
  scope : Scope := {}
  depth : Nat := 0
  lineStart : Bool := true
deriving DecidableEq

/-- What a statement leaves open. -/
def Point.enter (p : Point) : Statement → Point
  | .openState name => { p with scope := { state := some ⟨name, p.depth⟩ } }
  | .openStateRead name symbol =>
    { p with scope :=
      { state := some ⟨name, p.depth⟩, read := some ⟨symbol, p.depth + arrowDepth⟩ } }
  | .openRead symbol => { p with scope := { p.scope with read := some ⟨symbol, p.depth⟩ } }
  | .directive _ => p
  | .nothing => p

/-- The instruction a statement gives in a scope. -/
def Scope.instruction? (s : Scope) (line : Int) : Statement → Option Instruction
  | .directive d =>
    match s.state, s.read with
    | some b, some r => some ⟨b.value, r.value, d, line⟩
    | _, _ => none
  | _ => none

/-- The point at which the first statement of a line stands, or any later one. -/
def Point.atStatement (p : Point) : Point :=
  if p.lineStart then { p with scope := p.scope.leave p.depth, lineStart := false } else p

/-- The instructions of the remaining tokens. -/
def readFrom (p : Point) : List Token → Except Error (List Instruction)
  | [] => .ok []
  | t :: rest =>
    match t.kind with
    | .newline => readFrom { p with depth := 0, lineStart := true } rest
    | .indent => readFrom { p with depth := t.width } rest
    | _ =>
      let q := p.atStatement
      match readStatement q.scope t rest with
      | .error m => .error (.at t.line (.malformed m))
      | .ok (s, taken) =>
        match readFrom (q.enter s) (rest.drop taken) with
        | .error e => .error e
        | .ok is => .ok ((q.scope.instruction? t.line s).toList ++ is)
termination_by ts => ts.length
decreasing_by
  all_goals simp only [List.length_cons, List.length_drop]; omega

/-- The instructions of a program's tokens; spacing between tokens means nothing. -/
def instructions (ts : List Token) : Except Error (List Instruction) :=
  readFrom {} (ts.filter (fun t => t.kind != .space))

end TapeMachine.Program
