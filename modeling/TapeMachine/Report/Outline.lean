import TapeMachine.Table

/-!
# Outlines

A table as a Markdown document: a summary, and for each state a section with one row a rule.
-/

namespace TapeMachine.Outline

/-- A name with the characters escaped that would be taken for mark-up. -/
def escape (s : String) : String :=
  String.ofList (s.toList.flatMap (fun c =>
    if c == '|' || c == '*' || c == '_' || c.toNat == 0x60 then ['\\', c] else [c]))

/-- A text between the marks that show it as code. -/
def code (s : String) : String := "\x60" ++ s ++ "\x60"

/-- The next state of a rule; halting states are set in bold. -/
def nextCell (t : Transition) : String :=
  if isHalting t.next then "**" ++ escape t.next ++ "**" else escape t.next

/-- The row of a rule. -/
def row (t : Transition) : String :=
  "| " ++ code t.read ++ " | " ++ code t.write ++ " | " ++ t.direction.letter ++ " | " ++
    nextCell t ++ " |\n"

/-- The section of a state. -/
def stateSection (state : String) (rules : List Transition) : String :=
  "\n## " ++ escape state ++ "\n\n" ++
  "| Read | Write | Move | Next |\n" ++
  "|------|-------|------|------|\n" ++
  String.join (rules.map row)

/-- The document for a table. -/
def render (name : String) (table : Table) : String :=
  "# " ++ escape (if name == "" then "program" else name) ++ "\n\n" ++
  "- **Initial state:** " ++ code table.initial ++ "\n" ++
  "- **States:** " ++ toString table.states.length ++ "\n" ++
  "- **Transitions:** " ++ toString table.size ++ "\n" ++
  String.join (table.groups.map (fun g => stateSection g.1 g.2))

end TapeMachine.Outline
