import TapeMachine.Engine

/-!
# Styled output

Result lines and the banner for a terminal. Styles are control sequences around a text; a terminal
without colours gets the text alone.
-/

namespace TapeMachine.Styled

/-- A text between the sequence that switches styles on and the one that switches them off. -/
def styled (codes : List String) (text : String) : String :=
  if codes.isEmpty then text
  else "\x1b[" ++ ";".intercalate codes ++ "m" ++ text ++ "\x1b[0m"

/-- The styles of the final state: green for a halting state, yellow where no rule was found, and
bold red where the run was cut short. -/
def reasonCodes : Option Reason → List String
  | some .haltState => ["32"]
  | some .noTransition => ["33"]
  | some .noState => ["33"]
  | some .stepLimit => ["31", "1"]
  | some .interrupted => ["31", "1"]
  | none => []

/-- The line for a result whose reason may be unknown, for a terminal with or without colours. -/
def resultLine (colors : Bool) (arg tape state : String) (reason : Option Reason) : String :=
  let style (codes : List String) (text : String) := if colors then styled codes text else text
  arg ++ " -> " ++ style ["1"] tape ++ ": " ++ style (reasonCodes reason) state

/-- Lines for a terminal, with colours or without. -/
def renderer (colors : Bool) : Renderer := fun arg r =>
  resultLine colors arg r.tape r.state (some r.reason)

/-- The banner for a terminal without colours. -/
def banner (version : String) : String :=
  "\n" ++
  " _____            _             \n" ++
  "|_   _|   _ _ __(_)_ __   __ _ \n" ++
  "  | || | | | '__| | '_ \\ / _\x60 |\n" ++
  "  | || |_| | |  | | | | | (_| |\n" ++
  "  |_| \\__,_|_|  |_|_| |_|\\__, |\n" ++
  "                         |___/ \n" ++
  "  v" ++ version ++ "\n\n"

end TapeMachine.Styled
