import TapeMachine.Log.Level
import TapeMachine.Text.Json

/-!
# Log records

A record has a level, a message and attributes. On a console it is one line of `key=value` pairs,
where a key or a value is quoted if it could be misread; in a file it is one JSON object a line. The
console shows records from a chosen level on, the file those from the debug level on.
-/

namespace TapeMachine.Log

open Text

/-- The value of an attribute. -/
inductive Value where
  | text (s : String)
  | int (n : Int)
  | bool (b : Bool)
  | nothing
deriving DecidableEq

/-- One record. -/
structure Record where
  level : Level
  message : String
  attrs : List (String × Value) := []
deriving DecidableEq

/-- The key under which an attribute is written. -/
def writtenKey (key : String) : String :=
  if key == "error" then "err" else key

/-- The attributes that are written; one without a key and without a value is left out. -/
def Record.writtenAttrs (r : Record) : List (String × Value) :=
  (r.attrs.map (fun a => (writtenKey a.1, a.2))).filter (fun a => a != ("", .nothing))

/-! ### Console lines -/

/-- A character that makes a text unclear. -/
def unclear (c : Char) : Bool :=
  let n := c.toNat
  if n < 0x80 then n < 0x20 || c == ' ' || c == '=' || c == '"'
  else n == 0xFFFD || isBlank c || !isPrintable c

/-- A text as it stands in a console line, quoted if it is empty or unclear. -/
def plain (s : String) : String :=
  if s.isEmpty || s.toList.any unclear then quoted s else s

/-- A value as text, before it is quoted. -/
def Value.shown : Value → String
  | .text s => s
  | .int n => toString n
  | .bool true => "true"
  | .bool false => "false"
  | .nothing => "<nil>"

/-- One pair of a console line. -/
def pair (key : String) (v : Value) : String :=
  plain key ++ "=" ++ plain v.shown

/-- The console line of a record, with its newline. -/
def Record.consoleLine (r : Record) : String :=
  " ".intercalate
    (pair "level" (.text r.level.name) :: pair "msg" (.text r.message) ::
      r.writtenAttrs.map (fun a => pair a.1 a.2)) ++ "\n"

/-- What a console that shows records from the level `least` on shows. -/
def console (least : Level) (rs : List Record) : String :=
  String.join ((rs.filter (fun r => least.shows r.level)).map Record.consoleLine)

/-! ### File lines -/

/-- How a character stands inside a string of a log file; backspace and form feed have no letter
there. -/
def escapeChar (c : Char) : List Char :=
  if c.toNat == 8 || c.toNat == 12 then '\\' :: 'u' :: hex 4 c.toNat
  else Json.escapeChar false c

/-- A string of a log file. -/
def fileString (s : String) : String :=
  "\"" ++ String.ofList (s.toList.flatMap escapeChar) ++ "\""

/-- A value of a log file. -/
def Value.fileText : Value → String
  | .text s => fileString s
  | .nothing => "null"
  | v => v.shown

/-- One member of a log file's object. -/
def member (key : String) (v : Value) : String :=
  fileString key ++ ":" ++ v.fileText

/-- The line of a record in a file, with its newline. -/
def Record.fileLine (r : Record) : String :=
  "\x7b" ++ ",".intercalate
    (member "level" (.text r.level.name) :: member "msg" (.text r.message) ::
      r.writtenAttrs.map (fun a => member a.1 a.2)) ++ "\x7d\n"

/-- What is written to a log file. -/
def file (rs : List Record) : String :=
  String.join ((rs.filter (fun r => Level.debug.shows r.level)).map Record.fileLine)

end TapeMachine.Log
