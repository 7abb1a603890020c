import TapeMachine.Text.Printable

/-!
# Quoted text

Messages show a piece of text between quotes. Inside, the quote and the backslash are escaped by
a backslash, the seven classic control characters have a letter, any other character that is not
printable is written by its code point in lower-case hexadecimal, and the rest stands for itself.
-/

namespace TapeMachine.Text

/-- The hexadecimal digits of `n`, lower case, filled with zeros to at least `width` places. -/
def hex (width n : Nat) : List Char :=
  let digits := Nat.toDigits 16 n
  List.replicate (width - digits.length) '0' ++ digits

/-- The letter that stands for a control character after a backslash. -/
def escapeLetter? (c : Char) : Option Char :=
  match c.toNat with
  | 7 => some 'a'
  | 8 => some 'b'
  | 9 => some 't'
  | 10 => some 'n'
  | 11 => some 'v'
  | 12 => some 'f'
  | 13 => some 'r'
  | _ => none

/-- How one character is written between the quotes `q`. -/
def escape (q c : Char) : List Char :=
  if c == q || c == '\\' then ['\\', c]
  else if isPrintable c then [c]
  else
    match escapeLetter? c with
    | some l => ['\\', l]
    | none =>
      let n := c.toNat
      if n < 0x20 || n == 0x7F then '\\' :: 'x' :: hex 2 n
      else if n < 0x10000 then '\\' :: 'u' :: hex 4 n
      else '\\' :: 'U' :: hex 8 n

/-- A text between double quotes. -/
def quote (text : List Char) : List Char :=
  '"' :: text.flatMap (escape '"') ++ ['"']

/-- A single character between single quotes. -/
def quoteChar (c : Char) : List Char :=
  '\'' :: escape '\'' c ++ ['\'']

/-- A string between double quotes. -/
def quoted (s : String) : String :=
  String.ofList (quote s.toList)

end TapeMachine.Text
