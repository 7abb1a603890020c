import TapeMachine.Config.Value
import TapeMachine.Config.Yaml.Token

/-!
# What scalars mean

A plain scalar means what it looks like: nothing, a truth value, a number, a date, or else a text. A
tag in front of a scalar says what it is meant to be, and then it has to look like that.
-/

namespace TapeMachine.Config.Yaml

open Text

/-! ### Dates -/

/-- A number of one or two digits within bounds, and what follows it. -/
def field? (least greatest : Nat) (cs : List Char) : Option (Nat × List Char) :=
  let ds := (cs.takeWhile Json.isDigit).take 2
  let n := Binary.digitsValue ds
  if ds.isEmpty || n < least || greatest < n then none else some (n, cs.drop ds.length)

/-- What follows a given character. -/
def after? (c : Char) : List Char → Option (List Char)
  | d :: ds => if c == d then some ds else none
  | [] => none

/-- Whether a year has a 29th of February. -/
def isLeapYear (year : Nat) : Bool := year % 4 = 0 && (year % 100 != 0 || year % 400 = 0)

/-- The number of days of a month. -/
def daysIn (year month : Nat) : Nat :=
  if month = 2 then (if isLeapYear year then 29 else 28)
  else if [4, 6, 9, 11].contains month then 30
  else 31

/-- Passes over a date: a year of four digits, a month and a day. -/
def date? (cs : List Char) : Option (List Char) := do
  let year := cs.takeWhile Json.isDigit
  if year.length != 4 then none
  let (month, cs) ← field? 1 12 (← after? '-' (cs.drop 4))
  let (_, cs) ← field? 1 (daysIn (Binary.digitsValue year) month) (← after? '-' cs)
  some cs

/-- Passes over a time: hours, minutes, and seconds that may have a fraction. -/
def time? (cs : List Char) : Option (List Char) := do
  let (_, cs) ← field? 0 23 cs
  let (_, cs) ← field? 0 59 (← after? ':' cs)
  let (_, cs) ← field? 0 59 (← after? ':' cs)
  some (match cs with
    | c :: d :: rest =>
      if (c == '.' || c == ',') && Json.isDigit d then rest.dropWhile Json.isDigit else cs
    | _ => cs)

/-- Whether a text is a zone: the mark of universal time, or a distance from it. -/
def isZone : List Char → Bool
  | ['Z'] => true
  | [sign, a, b, ':', c, d] =>
    (sign == '+' || sign == '-') && [a, b, c, d].all Json.isDigit &&
      Binary.digitsValue [a, b] ≤ 24 && Binary.digitsValue [c, d] ≤ 60
  | _ => false

/-- Whether a text is a date, perhaps with a time. Behind a letter a time has a zone, and behind
spaces it has none. -/
def isDate (cs : List Char) : Bool :=
  match date? cs with
  | none => false
  | some [] => true
  | some (c :: rest) =>
    if c == 'T' || c == 't' then ((time? rest).map isZone).getD false
    else c == ' ' && time? (rest.dropWhile (· == ' ')) == some []

/-! ### Numbers -/

/-- A number with a binary fraction. -/
def fraction? (cs : List Char) : Option Number :=
  let (negative, body) := match cs with
    | '-' :: r => (true, r)
    | '+' :: r => (false, r)
    | r => (false, r)
  (Binary.decimal? body).bind (fun d => (Binary.ofDecimal? d).map (.binary negative))

/-- A number that starts with its point. Underscores may stand between digits. -/
def pointed? (cs : List Char) : Option Number :=
  if separatesDigits Json.isDigit false cs then fraction? (cs.filter (· != '_')) else none

/-- A whole number in digits of a base, with or without a sign. -/
def wholeIn? (base : Nat) (cs : List Char) : Option Int :=
  let magnitude (ds : List Char) :=
    if ds.isEmpty then .error .malformed else digitsValue base false 0 ds
  (signed magnitude cs).toOption

/-- A whole number in one of its spellings. Behind the mark of base 2 or 8 there may be a sign. -/
def whole? (cs : List Char) : Option Int :=
  match signed unsignedLiteral cs, unsignedLiteral cs, cs with
  | .ok n, _, _ => some n
  | _, .ok n, _ => some n
  | _, _, '0' :: 'b' :: ds => wholeIn? 2 ds
  | _, _, '0' :: 'o' :: ds => wholeIn? 8 ds
  | _, _, _ => none

/-! ### Plain scalars -/

/-- The words that mean something else than a text. -/
def word? (s : String) : Option Value :=
  match s with
  | "" | "~" | "null" | "Null" | "NULL" => some .nothing
  | "true" | "True" | "TRUE" => some (.bool true)
  | "false" | "False" | "FALSE" => some (.bool false)
  | ".nan" | ".NaN" | ".NAN" => some (.number .undefined)
  | ".inf" | ".Inf" | ".INF" | "+.inf" | "+.Inf" | "+.INF" => some (.number (.infinite false))
  | "-.inf" | "-.Inf" | "-.INF" => some (.number (.infinite true))
  | _ => none

/-- What a scalar looks like. Dates are recognised only where that is asked for. -/
def appearance (dates : Bool) (s : String) : Value :=
  let cs := s.toList
  match word? s, cs with
  | some v, _ => v
  | none, [] => .nothing
  | none, c :: _ =>
    if c == '.' then
      match pointed? cs with
      | some n => .number n
      | none => .text s
    else if Json.isDigit c || c == '+' || c == '-' then
      if dates && isDate cs then .date
      else
        let digits := cs.filter (· != '_')
        match whole? digits, fraction? digits with
        | some n, _ => .number (.whole n)
        | none, some n => .number n
        | none, none => .text s
    else .text s

/-! ### Tags -/

/-- The tag of what a scalar looks like. -/
def tagOf : Value → String
  | .nothing => "!!null"
  | .bool _ => "!!bool"
  | .number (.whole _) => "!!int"
  | .number _ => "!!float"
  | .date => "!!timestamp"
  | .text _ => "!!str"
  | .list _ => "!!seq"
  | .mapping _ _ => "!!map"

/-- A whole number of 64 bits with a sign as a binary fraction. -/
def toFraction? (n : Int) : Option Number :=
  if -(half64 : Int) ≤ n && n < half64 then
    some (.binary (n < 0) (Binary.ofRatio n.natAbs 1))
  else none

/-- A scalar that is tagged as what it has to look like; whole numbers also look like fractions. -/
def claimed? (tag text : String) : Option Value :=
  let v := appearance (tag == "!!timestamp") text
  if tagOf v == tag then some v
  else
    match tag, v with
    | "!!float", .number (.whole n) => (toFraction? n).map .number
    | _, _ => none

/-- The value of a digit of base 64. -/
def digit64? (c : Char) : Option Nat :=
  if c.isUpper then some (c.toNat - 65)
  else if c.isLower then some (c.toNat - 71)
  else if c.isDigit then some (c.toNat + 4)
  else if c == '+' then some 62
  else if c == '/' then some 63
  else none

/-- The value of some digits of base 64. -/
def value64? (cs : List Char) : Option Nat :=
  cs.foldlM (fun n c => (digit64? c).map (n * 64 + ·)) 0

/-- The bytes that are written in groups of four digits of base 64; the last group is filled up
with equals signs. -/
def bytes64? : List Char → Option (List UInt8)
  | [] => some []
  | [a, b, '=', '='] => (value64? [a, b]).map (fun n => [UInt8.ofNat (n / 16)])
  | [a, b, c, '='] =>
    (value64? [a, b, c]).map (fun n => [UInt8.ofNat (n / 1024), UInt8.ofNat (n / 4)])
  | a :: b :: c :: d :: rest =>
    match value64? [a, b, c, d], bytes64? rest with
    | some n, some bs =>
      some (UInt8.ofNat (n / 65536) :: UInt8.ofNat (n / 256) :: UInt8.ofNat n :: bs)
    | _, _ => none
  | _ => none

/-- The text of some bytes in base 64; line breaks do not count. -/
def binaryText? (s : String) : Option String :=
  (bytes64? (s.toList.filter (fun c => c != '\n' && c != '\r'))).map bytesText

/-- What a scalar means, if its tag allows that. A tag that is not known says nothing. -/
def meaning? (tag text : String) : Option Value :=
  if tag == "" then some (appearance true text)
  else if ["!!bool", "!!int", "!!float", "!!null", "!!timestamp"].contains tag then
    claimed? tag text
  else if tag == "!!binary" then (binaryText? text).map .text
  else some (.text text)

end TapeMachine.Config.Yaml
