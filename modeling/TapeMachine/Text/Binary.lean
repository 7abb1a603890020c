import TapeMachine.Text.Json

/-!
# Binary fractions

Numbers with 53 significant binary digits, as a mantissa and a power of two, and their decimal
texts. A ratio is rounded to the nearest such number, and of two equally near ones to the one with
the even mantissa. A number is written with the fewest decimal digits that read back as the same
number, and of those texts the nearest one.
-/

namespace TapeMachine.Text

/-- The number `mantissa * 2 ^ power`. -/
structure Binary where
  mantissa : Nat
  power : Int
deriving DecidableEq

namespace Binary

/-- The least power of two. -/
def leastPower : Int := -1074

/-- The number of binary digits of a mantissa. -/
def precision : Nat := 53

/-- The quotient of two numbers rounded to the nearest whole number, ties to even. -/
def roundDiv (a b : Nat) : Nat :=
  let d := a / b
  let r := a % b
  if 2 * r < b then d
  else if b < 2 * r then d + 1
  else if d % 2 = 0 then d
  else d + 1

/-- A ratio divided by a power of two. -/
def scale (num den : Nat) (power : Int) : Nat × Nat :=
  if power < 0 then (num * Nat.pow 2 (-power).toNat, den) else (num, den * Nat.pow 2 power.toNat)

/-- The exponent of the greatest power of two that is at most the ratio. -/
def log2Ratio (num den : Nat) : Int :=
  let k : Int := (num.log2 : Int) - den.log2
  let (a, b) := scale num den k
  if a < b then k - 1 else k

/-- The number nearest to a ratio. -/
def ofRatio (num den : Nat) : Binary :=
  if num = 0 then ⟨0, leastPower⟩
  else
    let power := max (log2Ratio num den - (precision - 1)) leastPower
    let (a, b) := scale num den power
    let m := roundDiv a b
    if m = Nat.pow 2 precision then ⟨Nat.pow 2 (precision - 1), power + 1⟩ else ⟨m, power⟩

/-- Whether a number has too great a power of two to be kept. -/
def isHuge (b : Binary) : Bool := b.mantissa != 0 && 971 < b.power

/-- A number as an exact ratio. -/
def ratio (b : Binary) : Nat × Nat :=
  if b.power < 0 then (b.mantissa, Nat.pow 2 (-b.power).toNat)
  else (b.mantissa * Nat.pow 2 b.power.toNat, 1)

/-- The whole part of a number. -/
def floor (b : Binary) : Nat :=
  let (num, den) := b.ratio
  num / den

/-! ### Decimal texts -/

/-- A decimal number `digits * 10 ^ exponent`. -/
structure Decimal where
  digits : Nat
  exponent : Int

/-- The number of decimal digits of a number. -/
def digitCount (n : Nat) : Nat := (Nat.toDigits 10 n).length

/-- The number nearest to a decimal number; nothing if it is too great. -/
def ofDecimal? (d : Decimal) : Option Binary :=
  let magnitude := d.exponent + digitCount d.digits
  if d.digits = 0 || magnitude < -400 then some ⟨0, leastPower⟩
  else if 400 < magnitude then none
  else
    let b :=
      if d.exponent < 0 then ofRatio d.digits (Nat.pow 10 (-d.exponent).toNat)
      else ofRatio (d.digits * Nat.pow 10 d.exponent.toNat) 1
    if b.isHuge then none else some b

/-- The value of some digits. -/
def digitsValue (ds : List Char) : Nat :=
  ds.foldl (fun n c => n * 10 + (c.toNat - 48)) 0

/-- The exponent of a decimal text, with its mark. -/
def exponent? : List Char → Option Int
  | [] => some 0
  | e :: rest =>
    if e != 'e' && e != 'E' then none
    else
      let (negative, ds) := match rest with
        | '-' :: ds => (true, ds)
        | '+' :: ds => (false, ds)
        | ds => (false, ds)
      if ds.isEmpty || !ds.all Json.isDigit then none
      else some (if negative then -(digitsValue ds : Int) else digitsValue ds)

/-- Reads a decimal text without a sign: digits, of which some may stand after a point, and an
exponent. -/
def decimal? (cs : List Char) : Option Decimal :=
  let whole := cs.takeWhile Json.isDigit
  let rest := cs.dropWhile Json.isDigit
  let (fraction, rest) := match rest with
    | '.' :: r => (r.takeWhile Json.isDigit, r.dropWhile Json.isDigit)
    | r => ([], r)
  if whole.isEmpty && fraction.isEmpty then none
  else
    (exponent? rest).map (fun e => ⟨digitsValue (whole ++ fraction), e - fraction.length⟩)

/-- The exponent of the greatest power of ten that is at most a number. -/
def log10 (b : Binary) : Int :=
  let (num, den) := b.ratio
  if den ≤ num then (digitCount (num / den) : Int) - 1
  else
    match (List.range 330).find? (fun j => den ≤ num * Nat.pow 10 j) with
    | some j => -(j : Int)
    | none => 0

/-- The decimal with so many digits that reads back as the number, if there is one. -/
def withDigits? (b : Binary) (count : Nat) : Option Decimal :=
  let e := b.log10 - count + 1
  let (num, den) := b.ratio
  let (a, c) :=
    if e < 0 then (num * Nat.pow 10 (-e).toNat, den) else (num, den * Nat.pow 10 e.toNat)
  let below := a / c
  let reads (n : Nat) := ofDecimal? ⟨n, e⟩ == some b
  match reads below, reads (below + 1) with
  | true, true => some ⟨if 2 * (a % c) ≤ c then below else below + 1, e⟩
  | true, false => some ⟨below, e⟩
  | false, true => some ⟨below + 1, e⟩
  | false, false => none

/-- The shortest decimal that reads back as the number. -/
def shortest (b : Binary) : Decimal :=
  if b.mantissa = 0 then ⟨0, 0⟩
  else ((List.range 17).findSome? (fun n => b.withDigits? (n + 1))).getD ⟨0, 0⟩

/-- A decimal written out without an exponent. -/
def Decimal.text (d : Decimal) : String :=
  let ds := Nat.toDigits 10 d.digits
  if 0 ≤ d.exponent then
    String.ofList (if d.digits = 0 then ['0'] else ds ++ List.replicate d.exponent.toNat '0')
  else
    let places := (-d.exponent).toNat
    let padded := List.replicate (places + 1 - ds.length) '0' ++ ds
    let whole := padded.take (padded.length - places)
    let fraction := ((padded.drop (padded.length - places)).reverse.dropWhile (· == '0')).reverse
    String.ofList (if fraction.isEmpty then whole else whole ++ '.' :: fraction)

/-- A decimal written out, but with an exponent if it has more than 21 digits before its point or
more than five zeros behind it. -/
def Decimal.number (d : Decimal) : String :=
  let ds := Nat.toDigits 10 d.digits
  let e := d.exponent + ds.length - 1
  if d.digits = 0 || (-6 ≤ e && e < 21) then d.text
  else
    let fraction := ((ds.drop 1).reverse.dropWhile (· == '0')).reverse
    String.ofList (ds.take 1 ++ if fraction.isEmpty then [] else '.' :: fraction) ++
      (if e < 0 then "e-" else "e+") ++ toString e.natAbs

end Binary

end TapeMachine.Text
