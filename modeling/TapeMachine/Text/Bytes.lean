import TapeMachine.Text.Quoted

/-!
# Bytes

Names and addresses come as bytes. The bytes of a text are those of its characters in UTF-8, but not
all bytes are the bytes of a text: among them there may be some that belong to no character. Where
such bytes have to be shown as text, each of them shows as the replacement character.
-/

namespace TapeMachine

/-- Some bytes, which need not be those of a text. -/
abbrev Bytes := List UInt8

namespace Text

/-- The bytes of a text. -/
def bytes (s : String) : Bytes := s.toList.flatMap String.utf8EncodeChar

instance : Coe String Bytes := ⟨bytes⟩

/-- What bytes are made of: characters, and bytes that belong to none. -/
inductive Rune where
  | char (c : Char)
  | stray (b : UInt8)
deriving DecidableEq

/-- The character that stands for all bytes that belong to none. -/
def replacement : Char := Char.ofNat 0xFFFD

/-- The character as which a rune shows. -/
def Rune.shown : Rune → Char
  | .char c => c
  | .stray _ => replacement

/-- Whether a rune is a character. -/
def Rune.isChar : Rune → Bool
  | .char _ => true
  | .stray _ => false

/-- The character that stands in front. -/
def frontChar? (bs : Bytes) : Option Char :=
  (bs.take 4).toByteArray.utf8DecodeChar? 0

/-- The runes of some bytes, of which so many belong to a character that has been read already. -/
def runesAfter : Nat → Bytes → List Rune
  | _, [] => []
  | n + 1, _ :: bs => runesAfter n bs
  | 0, b :: bs =>
    match frontChar? (b :: bs) with
    | some c => .char c :: runesAfter (c.utf8Size - 1) bs
    | none => .stray b :: runesAfter 0 bs

/-- The runes of some bytes. -/
def runes (bs : Bytes) : List Rune := runesAfter 0 bs

/-- The characters as which some bytes show. -/
def chars (bs : Bytes) : List Char := (runes bs).map Rune.shown

/-- The text as which some bytes show. -/
def shown (bs : Bytes) : String := String.ofList (chars bs)

/-- The text whose bytes they are, if they are those of a text. -/
def text? (bs : Bytes) : Option String :=
  if (runes bs).all Rune.isChar then some (shown bs) else none

end Text

end TapeMachine
