import TapeMachine.Transition

/-!
# What can be wrong with a program

Every fault of a program text is found at a line, counted from one in the text after templates
have been expanded, except for two: a call that names nothing at all ends the program at once, and a
text on which the tokenizer goes round for ever has no answer.
-/

namespace TapeMachine.Program

/-- A text that cannot be read as a program. Texts are kept as lists of characters. -/
inductive Malformed where
  | nestedDefinition (line name : List Char)
  | namelessDefinition
  | openDefinition (name : List Char)
  | strayOpening
  | unexpandedCall (text : List Char)
  | strayClosing (c : Char)
  | bareArrow
  | bareColon
  | outsideState (text : List Char)
  | outsideRead (text : List Char) (state : String)
  | missingReadSymbol
  | missingWriteSymbol
  | missingDirection
  | missingTarget
deriving DecidableEq

/-- The wording of each fault. -/
def Malformed.message : Malformed → String
  | .nestedDefinition line name =>
    "#define " ++ String.ofList line ++ " inside macro " ++ String.ofList name
  | .namelessDefinition => "#define without a name"
  | .openDefinition name => "macro " ++ String.ofList name ++ " is missing #enifed"
  | .strayOpening => "unexpected '('"
  | .unexpandedCall text => "unexpanded macro call " ++ String.ofList text ++ "\x7d"
  | .strayClosing c => "unexpected " ++ String.ofList (Text.quoteChar c)
  | .bareArrow => "'->' without a state or symbol before it"
  | .bareColon => "':' without a header before it"
  | .outsideState text =>
    "unexpected " ++ String.ofList (Text.quote text) ++ " outside a state block"
  | .outsideRead text state =>
    String.ofList (Text.quote text) ++ " in state " ++ state ++ " outside a read block"
  | .missingReadSymbol => "read expects a symbol"
  | .missingWriteSymbol => "write expects a symbol"
  | .missingDirection => "move expects a direction"
  | .missingTarget => "goto expects a state"

/-- Why a program does not compile at a line. -/
inductive Cause where
  | malformed (m : Malformed)
  | undefinedTemplate (name : List Char)
  | refused (e : TableError)
deriving DecidableEq

/-- The wording of each cause. -/
def Cause.message : Cause → String
  | .malformed m => "syntax error: " ++ m.message
  | .undefinedTemplate name => "undefined macro: " ++ String.ofList name
  | .refused e => e.message

/-- Why a program does not compile. -/
inductive Error where
  | at (line : Int) (cause : Cause)
  /-- A call whose braces hold only white space that the call pattern takes for a name. -/
  | namelessCall
  /-- No answer at all: the tokenizer stays at one place of the text for ever. -/
  | endless
deriving DecidableEq

/-- The wording of each error. Work without an end has none. -/
def Error.message : Error → String
  | .at line cause => "line " ++ toString line ++ ": " ++ cause.message
  | .namelessCall => "runtime error: index out of range [0] with length 0"
  | .endless => ""

/-- Whether an error ends the program at once. -/
def Error.isCrash : Error → Bool
  | .namelessCall => true
  | _ => false

/-- The line an error points at. -/
def Error.line? : Error → Option Int
  | .at line _ => some line
  | _ => none

end TapeMachine.Program
