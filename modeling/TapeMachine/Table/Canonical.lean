import TapeMachine.Table
import TapeMachine.Text.Blank

/-!
# The canonical text of a table

One transition a line, its five fields separated by a single space: state, symbol read, symbol
written, direction, next state. On reading, white space around and between fields is free, blank
lines and lines that start with `;` are passed over, and a line `; initial: S` names the start
state. A line longer than a reading buffer ends the reading with an error.
-/

namespace TapeMachine.Canonical

open Text

/-! ### Writing -/

/-- The lines of a table, each with its newline. -/
def encode (t : Table) : String :=
  String.join (t.transitions.map (fun r => r.line ++ "\n"))

/-- The line that names a table's start state. -/
def header (t : Table) : String :=
  "; initial: " ++ t.initial ++ "\n"

/-! ### Reading -/

/-- Why canonical text is not a table. -/
inductive Error where
  | fieldCount (line count : Nat)
  | refused (line : Nat) (e : TableError)
  | lineTooLong
deriving DecidableEq

/-- What is wrong with a line that has the wrong number of fields. -/
def fieldCountMessage (count : Nat) : String :=
  "malformed transition line: want 5 fields, got " ++ toString count

/-- The wording of each error. -/
def Error.message : Error → String
  | .fieldCount line count => "line " ++ toString line ++ ": " ++ fieldCountMessage count
  | .refused line e => "line " ++ toString line ++ ": " ++ e.message
  | .lineTooLong => "failed to read transitions: bufio.Scanner: token too long"

/-- The transition of a line, or the number of fields it has instead of five. -/
def parseLine (line : List Char) : Except Nat Transition :=
  match words line with
  | [a, b, c, d, e] =>
    .ok ⟨String.ofList a, String.ofList b, String.ofList c, String.ofList d, String.ofList e⟩
  | ws => .error ws.length

/-- The most bytes a line may have, without its newline. -/
def maxLine : Nat := 65535

/-- The number of bytes of a text. -/
def byteSize (cs : List Char) : Nat :=
  cs.foldl (fun n c => n + c.utf8Size) 0

/-- What a line says. -/
inductive Content where
  | nothing
  | start (state : String)
  | rule (t : Transition)

/-- The mark of the line that names the start state. -/
def startMark : List Char := "; initial:".toList

/-- Reads one line. -/
def content (line : List Char) : Except Nat Content :=
  let text := trim line
  if startMark.isPrefixOf text then
    .ok (.start (String.ofList (trim (text.drop startMark.length))))
  else if text.isEmpty || text.head? == some ';' then .ok .nothing
  else (parseLine text).map .rule

/-- Reads the remaining lines into a table; of several start lines the last one counts. -/
def decodeLines (t : Table) (start : String) (number : Nat) :
    List (List Char) → Except Error (Table × String)
  | [] => .ok (t, start)
  | l :: ls =>
    if maxLine < byteSize l then .error .lineTooLong
    else
      match content l with
      | .error count => .error (.fieldCount number count)
      | .ok .nothing => decodeLines t start (number + 1) ls
      | .ok (.start s) => decodeLines t s (number + 1) ls
      | .ok (.rule r) =>
        match t.add r with
        | .error e => .error (.refused number e)
        | .ok t' => decodeLines t' start (number + 1) ls

/-- Reads canonical text into a table that can still be changed. -/
def decode (text : String) : Except Error Table :=
  match decodeLines .empty "" 1 (lines text.toList) with
  | .error e => .error e
  | .ok (t, start) => .ok (if start == "" then t else { t with initial := start })

end TapeMachine.Canonical
