import TapeMachine.Text.Binary
import TapeMachine.Text.Integer

/-!
# Durations

A duration is a number of nanoseconds. As text it is a row of numbers with units, such as `1h30m` or
`1.5s`. A fraction is worked out in binary fractions, so that its last nanosecond is the one that
such arithmetic gives.
-/

namespace TapeMachine.Text.Duration

/-- Why a text is not a duration. -/
inductive Error where
  | invalid
  | missingUnit
  | unknownUnit (unit : List Char)

/-- How a byte is shown in a message. -/
def showByte (b : UInt8) : List Char := '\\' :: 'x' :: hex 2 b.toNat

/-- A text between quotes, where whatever is not plain is shown byte by byte. -/
def quoteBytes (s : List Char) : List Char :=
  '"' :: s.flatMap (fun c =>
    if c.toNat < 0x20 || 0x80 ≤ c.toNat then
      (String.ofList [c]).toUTF8.toList.flatMap showByte
    else if c == '"' || c == '\\' then ['\\', c]
    else [c]) ++ ['"']

/-- The wording of an error in a text. -/
def Error.message (given : String) : Error → String
  | .invalid => "time: invalid duration " ++ String.ofList (quoteBytes given.toList)
  | .missingUnit => "time: missing unit in duration " ++ String.ofList (quoteBytes given.toList)
  | .unknownUnit unit =>
    "time: unknown unit " ++ String.ofList (quoteBytes unit) ++ " in duration " ++
      String.ofList (quoteBytes given.toList)

/-- The nanoseconds of a unit. -/
def unit? (u : List Char) : Option Nat :=
  match String.ofList u with
  | "ns" => some 1
  | "us" => some 1000
  | "\u00b5s" => some 1000
  | "\u03bcs" => some 1000
  | "ms" => some 1000000
  | "s" => some 1000000000
  | "m" => some 60000000000
  | "h" => some 3600000000000
  | _ => none

/-- A binary fraction times ten, rounded. -/
def tenfold (b : Binary) : Binary :=
  let (num, den) := b.ratio
  Binary.ofRatio (num * 10) den

/-- The digits of a fraction that are counted, as a value and the power of ten it is to be divided
by, which is worked out step by step; digits from where the value would be too large on are passed
over. -/
def fraction (ds : List Char) : Nat × Binary :=
  let step (s : Nat × Binary × Bool) (c : Char) : Nat × Binary × Bool :=
    let (x, scale, full) := s
    let y := x * 10 + (c.toNat - 48)
    if full || (half64 - 1) / 10 < x || half64 < y then (x, scale, true)
    else (y, tenfold scale, false)
  let (x, scale, _) := ds.foldl step (0, Binary.ofRatio 1 1, false)
  (x, scale)

/-- The nanoseconds of a fraction of a unit. -/
def fractionOf (x : Nat) (scale : Binary) (unit : Nat) : Nat :=
  let (num, den) := scale.ratio
  let (a, b) := (Binary.ofRatio x 1).ratio
  let (c, d) := (Binary.ofRatio (unit * den) num).ratio
  (Binary.ofRatio (a * c) (b * d)).floor

/-- A character that belongs to a number. -/
def inNumber (c : Char) : Bool := c == '.' || Json.isDigit c

/-- Reads numbers with units and adds them up. The sum has 64 bits and wraps around. The bound is on
the number of calls. -/
def sum : Nat → Nat → List Char → Except Error Nat
  | _, total, [] => .ok total
  | 0, _, _ => .error .invalid
  | fuel + 1, total, cs =>
    let whole := cs.takeWhile Json.isDigit
    let rest := cs.dropWhile Json.isDigit
    let (frac, rest) := match rest with
      | '.' :: r => (r.takeWhile Json.isDigit, r.dropWhile Json.isDigit)
      | r => ([], r)
    let value := Binary.digitsValue whole
    if (whole.isEmpty && frac.isEmpty) || half64 < value then .error .invalid
    else
      let name := rest.takeWhile (fun c => !inNumber c)
      if name.isEmpty then .error .missingUnit
      else
        match unit? name with
        | none => .error (.unknownUnit name)
        | some u =>
          let (x, scale) := fraction frac
          let v := value * u + fractionOf x scale u
          let total := (total + v) % range64
          if half64 / u < value || half64 < v || half64 < total then .error .invalid
          else sum fuel total (rest.dropWhile (fun c => !inNumber c))

/-- The nanoseconds of a text. -/
def parse (s : String) : Except Error Int :=
  let (negative, cs) := match s.toList with
    | '-' :: r => (true, r)
    | '+' :: r => (false, r)
    | r => (false, r)
  if cs == ['0'] then .ok 0
  else if cs.isEmpty then .error .invalid
  else
    match sum cs.length 0 cs with
    | .error e => .error e
    | .ok n =>
      if negative then .ok (-(n : Int))
      else if half64 ≤ n then .error .invalid
      else .ok n

/-- A number of units with the parts of a unit after a point. -/
def withFraction (n unit : Nat) : String :=
  (Binary.Decimal.text ⟨n, -((Nat.toDigits 10 unit).length - 1 : Nat)⟩)

/-- A duration as text. -/
def render (d : Int) : String :=
  let n := d.natAbs
  let body :=
    if n = 0 then "0s"
    else if n < 1000 then toString n ++ "ns"
    else if n < 1000000 then withFraction n 1000 ++ "\u00b5s"
    else if n < 1000000000 then withFraction n 1000000 ++ "ms"
    else
      let seconds := withFraction (n % 60000000000) 1000000000 ++ "s"
      let minutes := n / 60000000000
      if minutes = 0 then seconds
      else if minutes < 60 then toString minutes ++ "m" ++ seconds
      else toString (minutes / 60) ++ "h" ++ toString (minutes % 60) ++ "m" ++ seconds
  (if d < 0 then "-" else "") ++ body

end TapeMachine.Text.Duration
