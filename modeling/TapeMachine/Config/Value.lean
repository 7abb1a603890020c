import TapeMachine.Text.Blank
import TapeMachine.Text.Duration
import TapeMachine.Text.Integer

/-!
# Values of settings

What a settings file says about a setting, before it is known what the setting needs. A setting
takes any value that can be understood: a text that spells a number is a number, and the other way
round; a single value is a list of one; and a missing value leaves the setting as it is.
-/

namespace TapeMachine.Config

open Text

/-- A number as it is written: whole, or a binary fraction. -/
inductive Number where
  | whole (n : Int)
  | binary (negative : Bool) (b : Binary)
  | infinite (negative : Bool)
  | undefined

/-- What a key of a mapping can be if it is no text. -/
inductive KeyKind where
  | nothing
  | truth
  | integer
  /-- An integer beyond the greatest one of 64 bits with a sign. -/
  | unsigned
  | fraction
  | date
deriving DecidableEq

/-- The keys of a mapping: texts only, or also others, of which the kinds are told. A mapping whose
keys need not be texts stays so even if they all are. -/
inductive Keys where
  | textual
  | mixed (strange : List KeyKind)

/-- What a file says about a setting. -/
inductive Value where
  | nothing
  | bool (b : Bool)
  | number (n : Number)
  | text (s : String)
  | date
  | list (items : List Value)
  /-- The members whose keys are texts, and what keys there are. -/
  | mapping (members : List (String × Value)) (keys : Keys)

namespace Number

/-- Whether a number is zero. -/
def isZero : Number → Bool
  | .whole n => n == 0
  | .binary _ b => b.mantissa == 0
  | _ => false

/-- A number as an integer of 64 bits: a fraction is cut off, what does not fit becomes the least
integer, and a whole number beyond the greatest integer wraps around. -/
def toInteger : Number → Int
  | .whole n => n.bmod range64
  | .binary negative b =>
    let n : Int := if negative then -(b.floor : Int) else b.floor
    if -(half64 : Int) ≤ n && n < half64 then n else -(half64 : Int)
  | _ => -(half64 : Int)

/-- A number as text, without an exponent. -/
def toText : Number → String
  | .whole n => toString n
  | .binary negative b => (if negative then "-" else "") ++ b.shortest.text
  | .infinite negative => if negative then "-Inf" else "+Inf"
  | .undefined => "NaN"

end Number

/-- The texts that mean yes. -/
def yesTexts : List String := ["1", "t", "T", "true", "TRUE", "True"]

/-- The texts that mean no. -/
def noTexts : List String := ["0", "f", "F", "false", "FALSE", "False"]

/-- A text as a truth value. -/
def truth? (s : String) : Option Bool :=
  if yesTexts.contains s then some true else if noTexts.contains s then some false else none

namespace Value

/-- A value as a text. -/
def toText? : Value → Option String
  | .text s => some s
  | .bool true => some "1"
  | .bool false => some "0"
  | .number n => some n.toText
  | _ => none

/-- A value as an integer; the empty text is zero. -/
def toInteger? : Value → Option Int
  | .number n => some n.toInteger
  | .bool true => some 1
  | .bool false => some 0
  | .text s => if s == "" then some 0 else (literal s).toOption
  | _ => none

/-- A value as a truth value; the empty text is false. -/
def toBool? : Value → Option Bool
  | .bool b => some b
  | .number n => some !n.isZero
  | .text s => if s == "" then some false else truth? s
  | _ => none

/-- A value as a duration; a number counts nanoseconds. -/
def toDuration? : Value → Option Int
  | .text s => (Duration.parse s).toOption
  | v => v.toInteger?

/-- A value as one item of a list of texts; a missing value is the empty text. -/
def toItem? : Value → Option String
  | .nothing => some ""
  | v => v.toText?

/-- A value as a list of texts: a text is cut at commas, and any other single value is a list of
one. -/
def toTexts? : Value → Option (List String)
  | .text s => some (if s == "" then [] else (pieces (· == ',') s.toList).map String.ofList)
  | .list vs => vs.mapM toItem?
  | .mapping [] .textual => some []
  | .mapping [] (.mixed []) => some []
  | v => (toItem? v).map ([·])

end Value

/-! ### Records -/

/-- A setting: its key, and how a value changes the record. -/
structure Field (α : Type) where
  key : String
  set : Value → α → Option α

/-- A setting that holds what `read` makes of a value. -/
def Field.of {α β : Type} (key : String) (read : Value → Option β) (put : β → α → α) : Field α :=
  { key, set := fun v a => (read v).map (fun b => put b a) }

/-- The member that is meant by a key: the one with just this name, or else one whose name differs
only in case. -/
def memberFor (members : List (String × Value)) (key : String) : Option (String × Value) :=
  match members.find? (fun m => m.1 == key) with
  | some m => some m
  | none => members.find? (fun m => Json.namesField key m.1)

/-- Reads the members of a mapping into a record. Every member must be meant by a key; a member
without a value changes nothing. -/
def readFields {α : Type} (fields : List (Field α)) (members : List (String × Value)) (start : α) :
    Option α :=
  let used := fields.filterMap (fun f => (memberFor members f.key).map (·.1))
  if members.any (fun m => !used.contains m.1) then none
  else
    fields.foldlM (fun a f =>
      match memberFor members f.key with
      | none => some a
      | some (_, .nothing) => some a
      | some (_, v) => f.set v a) start

/-! ### Decoders -/

/-- A library that fills records: what it makes of single values, and how it reads the members of a
mapping into a record. -/
structure Decoder where
  text? : Value → Option String
  integer? : Value → Option Int
  bool? : Value → Option Bool
  duration? : Value → Option Int
  texts? : Value → Option (List String)
  record? {α : Type} (fields : List (Field α)) (members : List (String × Value)) (start : α) :
    Option α

/-- The decoder that takes any value that can be understood. -/
def Decoder.weak : Decoder where
  text? := Value.toText?
  integer? := Value.toInteger?
  bool? := Value.toBool?
  duration? := Value.toDuration?
  texts? := Value.toTexts?
  record? := readFields

end TapeMachine.Config
