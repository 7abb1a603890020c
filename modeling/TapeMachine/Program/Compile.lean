import TapeMachine.Program.Comment
import TapeMachine.Program.Draft
import TapeMachine.Program.Template

/-!
# Compiling programs

From program text to a transition table: comments are removed, templates taken out and their calls
replaced, the text is cut into tokens, the tokens are read as instructions, and the instructions
are merged into the rules of a table. Any fault ends the work; no table is made of half a program.
-/

namespace TapeMachine.Program

/-- The text of a program without comments and with its templates expanded. -/
def expanded (text : List Char) : Except Error (List Char) := do
  let (rest, templates) ← extractTemplates (stripComments text)
  expandTemplates templates rest

/-- The tokens of a program, with keywords in their normal form. -/
def programTokens (text : List Char) : Except Error (List Token) := do
  let ts ← tokenize (← expanded text)
  return normalize ts

/-- The draft of a program, whose transitions have not been checked. -/
def draft (text : List Char) : Except Error Draft := do
  let is ← instructions (← programTokens text)
  return .ofInstructions is

/-- Compiles a program into a frozen table. A non-empty `start` is the state in which runs start,
instead of the state of the first transition. -/
def compile (source : String) (start : String := "") : Except Error Table := do
  let t ← (← draft source.toList).table
  return (if start == "" then t else { t with initial := start }).freeze

end TapeMachine.Program
