import TapeMachine.Text.Blank
import TapeMachine.Text.Integer
import TapeMachine.Text.UpperCase

/-!
# Log levels

A level is a rank. Four ranks have names, four apart from each other, and any other level is called
by the next name below it and its distance from that name; what lies below the lowest name is
counted down from it.
-/

namespace TapeMachine.Log

open Text

/-- How important a record is. -/
structure Level where
  rank : Int
deriving DecidableEq

namespace Level

/-- Single steps and other details. -/
def debug : Level := ⟨-4⟩

/-- What a user may want to know. -/
def info : Level := ⟨0⟩

/-- What deserves attention. -/
def warn : Level := ⟨4⟩

/-- What went wrong. -/
def error : Level := ⟨8⟩

/-- Whether records of the level `l` are shown where `least` is the least level shown. -/
def shows (least l : Level) : Bool := least.rank ≤ l.rank

/-- A name and the distance from it. -/
def nameWithOffset (base : String) (offset : Int) : String :=
  if offset = 0 then base
  else base ++ (if 0 < offset then "+" else "") ++ toString offset

/-- What a level is called. -/
def name (l : Level) : String :=
  if l.rank < info.rank then nameWithOffset "DEBUG" (l.rank - debug.rank)
  else if l.rank < warn.rank then nameWithOffset "INFO" (l.rank - info.rank)
  else if l.rank < error.rank then nameWithOffset "WARN" (l.rank - warn.rank)
  else nameWithOffset "ERROR" (l.rank - error.rank)

/-- The level of a name, in any case. -/
def named? (name : List Char) : Option Level :=
  match String.ofList (name.map upper) with
  | "DEBUG" => some debug
  | "INFO" => some info
  | "WARN" => some warn
  | "ERROR" => some error
  | _ => none

/-- Why a text is not a level. -/
inductive ParseError where
  | unknownName
  | badOffset (text : List Char) (e : IntegerError)

/-- The wording of an error in the text `given`, of which `text` is left without the white space
around it. -/
def ParseError.message (given : String) (e : ParseError) : String :=
  "invalid log level " ++ quoted given ++ ": slog: level string " ++
    String.ofList (quote (trim given.toList)) ++ ": " ++
    match e with
    | .unknownName => "unknown name"
    | .badOffset text e =>
      "strconv.Atoi: parsing " ++ String.ofList (quote text) ++ ": " ++ e.message

/-- A sign, which ends the name. -/
def isSign (c : Char) : Bool := c == '+' || c == '-'

/-- Reads a name and an offset from it. Ranks have 64 bits and wrap around. -/
def parse (given : String) : Except ParseError Level :=
  let text := trim given.toList
  let name := text.takeWhile (fun c => !isSign c)
  let offset := text.drop name.length
  match (if offset.isEmpty then .ok 0 else signed unsignedDecimal offset) with
  | .error e => .error (.badOffset offset e)
  | .ok n =>
    match named? name with
    | none => .error .unknownName
    | some l => .ok ⟨(l.rank + n).bmod range64⟩

end Level

end TapeMachine.Log
