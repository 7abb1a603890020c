import TapeMachine.Text.Quoted

/-!
# Integers as text

Readers for integers that fit 64 bits, with an optional sign (`signed`). A magnitude is either some
decimal digits (`unsignedDecimal`) or a literal (`unsignedLiteral`), which may have the prefixes of
the bases 2, 8 and 16, a leading zero for base 8, and underscores between digits. Both tell a text
that is no integer from an integer that is too large, and of two faults report the one further left.
-/

namespace TapeMachine.Text

/-- Why a text is not an integer of 64 bits. -/
inductive IntegerError where
  | malformed
  | outOfRange
deriving DecidableEq

/-- The wording of each error. -/
def IntegerError.message : IntegerError → String
  | .malformed => "invalid syntax"
  | .outOfRange => "value out of range"

/-- The number of values that 64 bits can have. -/
def range64 : Nat := 18446744073709551616

/-- The number of values of 64 bits that are not negative, where half of all values are. -/
def half64 : Nat := 9223372036854775808

/-- The value of a digit or a letter used as a digit. -/
def digitValue? (c : Char) : Option Nat :=
  let n := c.toNat
  if 48 ≤ n && n ≤ 57 then some (n - 48)
  else if 97 ≤ n && n ≤ 122 then some (n - 87)
  else if 65 ≤ n && n ≤ 90 then some (n - 55)
  else none

/-- Goes on reading digits behind the value `n`, passing over underscores if they are allowed. -/
def digitsValue (base : Nat) (underscores : Bool) : Nat → List Char → Except IntegerError Nat
  | n, [] => .ok n
  | n, c :: cs =>
    if underscores && c == '_' then digitsValue base underscores n cs
    else
      match digitValue? c with
      | none => .error .malformed
      | some d =>
        if base ≤ d then .error .malformed
        else if range64 ≤ n * base + d then .error .outOfRange
        else digitsValue base underscores (n * base + d) cs

/-- Whether a text starts with a letter, in either case. -/
def startsWithLetter (l : Char) : List Char → Bool
  | c :: _ => c.toLower == l
  | [] => false

/-- The base of an unsigned literal, and its digits. -/
def literalBase : List Char → Nat × List Char
  | '0' :: rest =>
    if 2 ≤ rest.length && startsWithLetter 'b' rest then (2, rest.drop 1)
    else if 2 ≤ rest.length && startsWithLetter 'o' rest then (8, rest.drop 1)
    else if 2 ≤ rest.length && startsWithLetter 'x' rest then (16, rest.drop 1)
    else (8, rest)
  | cs => (10, cs)

/-- Whether each underscore stands between two digits, where `afterDigit` says whether a digit, or
a prefix, stands before the text. -/
def separatesDigits (isDigit : Char → Bool) : Bool → List Char → Bool
  | _, [] => true
  | afterDigit, c :: cs =>
    if isDigit c then separatesDigits isDigit true cs
    else if c == '_' then
      afterDigit && (match cs with
        | d :: _ => isDigit d
        | [] => false) && separatesDigits isDigit false cs
    else separatesDigits isDigit false cs

/-- Whether the underscores of an unsigned literal stand where they may. -/
def underscoresOk (cs : List Char) : Bool :=
  let decimalDigit (c : Char) := '0' ≤ c && c ≤ '9'
  match cs with
  | '0' :: c :: rest =>
    if c.toLower == 'x' then
      separatesDigits (fun d => decimalDigit d || ('a' ≤ d.toLower && d.toLower ≤ 'f')) true rest
    else if c.toLower == 'b' || c.toLower == 'o' then separatesDigits decimalDigit true rest
    else separatesDigits decimalDigit false cs
  | _ => separatesDigits decimalDigit false cs

/-- The value of an unsigned literal. -/
def unsignedLiteral (cs : List Char) : Except IntegerError Nat :=
  if cs.isEmpty then .error .malformed
  else
    let (base, digits) := literalBase cs
    match digitsValue base true 0 digits with
    | .error e => .error e
    | .ok n => if cs.contains '_' && !underscoresOk cs then .error .malformed else .ok n

/-- The value of unsigned decimal digits. -/
def unsignedDecimal (cs : List Char) : Except IntegerError Nat :=
  if cs.isEmpty then .error .malformed else digitsValue 10 false 0 cs

/-- Reads a sign, then a magnitude, and looks whether the value fits. -/
def signed (magnitude : List Char → Except IntegerError Nat) (cs : List Char) :
    Except IntegerError Int :=
  match cs with
  | '-' :: rest =>
    match magnitude rest with
    | .error e => .error e
    | .ok n => if half64 < n then .error .outOfRange else .ok (-(n : Int))
  | '+' :: rest => positive rest
  | _ => positive cs
where
  /-- A magnitude that is not negated. -/
  positive (cs : List Char) : Except IntegerError Int :=
    match magnitude cs with
    | .error e => .error e
    | .ok n => if half64 ≤ n then .error .outOfRange else .ok n

/-- The value of an integer literal. -/
def literal (s : String) : Except IntegerError Int :=
  signed unsignedLiteral s.toList

end TapeMachine.Text
