import TapeMachine.Text.Blank
import TapeMachine.Text.Json

/-!
# Percent encoding

In an address, a byte can be written as a percent sign and two hexadecimal digits. In the query part
a plus sign stands for a space. What an address stands for are bytes, which need not be those of a
text.
-/

namespace TapeMachine.Text.Percent

/-- The value of a byte that is a hexadecimal digit. -/
def hexDigit? (b : UInt8) : Option Nat := Json.hexDigit? (Char.ofNat b.toNat)

/-- Some bytes with their escapes resolved, if these are all complete. -/
def decode? : Bytes → Option Bytes
  | [] => some []
  | b :: bs =>
    if b == 0x25 then
      match bs with
      | h :: l :: rest =>
        match hexDigit? h, hexDigit? l with
        | some h, some l => (decode? rest).map (UInt8.ofNat (h * 16 + l) :: ·)
        | _, _ => none
      | _ => none
    else (decode? bs).map (b :: ·)

/-- Whether a byte stands for itself in a path. -/
def isPlain (b : UInt8) : Bool :=
  let c := Char.ofNat b.toNat
  c.isAlphanum || "-_.~$&+,/:;=@".toList.contains c

/-- How a byte is usually written in a path. -/
def encodeByte (b : UInt8) : Bytes :=
  if isPlain b then [b] else bytes (String.ofList ('%' :: (hex 2 b.toNat).map Char.toUpper))

/-- The usual way of writing a path. -/
def encodePath (bs : Bytes) : Bytes := bs.flatMap encodeByte

/-- Whether a byte cannot stand in the target of a request: control characters and the space. -/
def isBroken (b : UInt8) : Bool := b ≤ 0x20 || b == 0x7F

/-- The path that a written path stands for, if its escapes are complete. One that is not written in
the usual way is taken as it is. -/
def path? (written : Bytes) : Option Bytes :=
  (decode? written).map (fun bs => if encodePath bs == written then bs else written)

/-- One side of a pair of a query. -/
def decodeQuery? (bs : Bytes) : Option Bytes :=
  decode? (bs.map (fun b => if b == 0x2B then 0x20 else b))

/-- A pair of a query; a pair with a semicolon or a broken escape is none. -/
def pair? (bs : Bytes) : Option (Bytes × Bytes) :=
  if bs.isEmpty || bs.contains 0x3B then none
  else do
    let key ← decodeQuery? (bs.takeWhile (· != 0x3D))
    let value ← decodeQuery? ((bs.dropWhile (· != 0x3D)).drop 1)
    return (key, value)

/-- The pairs of a query. -/
def pairs (query : Bytes) : List (Bytes × Bytes) :=
  (pieces (· == 0x26) query).filterMap pair?

end TapeMachine.Text.Percent
