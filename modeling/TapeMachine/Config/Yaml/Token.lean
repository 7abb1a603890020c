import TapeMachine.Config.Yaml.Scalar

/-!
# Tokens of a YAML text

The marks that structure a text, the scalars between them, and the properties that can stand in
front of a value: an anchor, which names it, and a tag, which says what it is. A tag is a handle and
a suffix; a directive at the top of a document says what a handle stands for.
-/

namespace TapeMachine.Config.Yaml

open Text

/-- A token. -/
inductive Token where
  | streamEnd
  | version (major minor : Nat)
  | handle (name standsFor : String)
  | documentStart
  | documentEnd
  | blockList
  | blockMapping
  | blockEnd
  | flowList
  | flowListEnd
  | flowMapping
  | flowMappingEnd
  | item
  | comma
  | key
  | value
  | alias (name : String)
  | anchor (name : String)
  | tag (handle suffix : String)
  | scalar (text : String) (plain : Bool)
deriving DecidableEq

/-! ### Names and tags -/

/-- A character of the name of an anchor, a handle or a directive. -/
def isNameChar (c : Char) : Bool := c.isAlphanum || c == '_' || c == '-'

/-- A character that can stand in a tag as it is. -/
def isTagChar (c : Char) : Bool := isNameChar c || ";/?:@&=+$,.!~*'()[]".toList.contains c

/-- A name behind its mark, which has to be followed by white space or a character that cannot be
part of it. -/
def scanName (c : Cursor) : Option (String × Cursor) :=
  let name := c.span isNameChar
  let c := c.skip name.length
  if name.isEmpty || !(c.blankAfter 0 || c.sees (fun x => "?:,]\x7d%@\x60".toList.contains x)) then
    none
  else some (String.ofList name, c)

/-- The byte of a percent sign and two hexadecimal digits. -/
def escapedByte? : List Char → Option (UInt8 × List Char)
  | '%' :: a :: b :: rest =>
    match Json.hexDigit? a, Json.hexDigit? b with
    | some a, some b => some (UInt8.ofNat (a * 16 + b), rest)
    | _, _ => none
  | _ => none

/-- The number of bytes of a character, as its first byte tells. -/
def byteCount (b : UInt8) : Nat :=
  if b < 0x80 then 1
  else if b &&& 0xE0 == 0xC0 then 2
  else if b &&& 0xF0 == 0xE0 then 3
  else if b &&& 0xF8 == 0xF0 then 4
  else 0

/-- The bytes of one escaped character behind its first byte. -/
def laterBytes? : Nat → List Char → Option (List UInt8 × List Char)
  | 0, cs => some ([], cs)
  | n + 1, cs =>
    match escapedByte? cs with
    | some (b, rest) =>
      if b &&& 0xC0 != 0x80 then none
      else (laterBytes? n rest).map (fun r => (b :: r.1, r.2))
    | none => none

/-- The bytes of a tag at the front of a text, with escapes resolved, and what follows. -/
def tagBytes? : Nat → List Char → Option (List UInt8 × List Char)
  | 0, _ => none
  | _, [] => some ([], [])
  | fuel + 1, x :: xs =>
    if isTagChar x then
      (tagBytes? fuel xs).map (fun r => (UInt8.ofNat x.toNat :: r.1, r.2))
    else if x == '%' then
      match escapedByte? (x :: xs) with
      | none => none
      | some (b, rest) =>
        if byteCount b = 0 then none
        else
          match laterBytes? (byteCount b - 1) rest with
          | none => none
          | some (bs, rest) => (tagBytes? fuel rest).map (fun r => (b :: bs ++ r.1, r.2))
    else some ([], x :: xs)

/-- The characters of some bytes, of which at most so many are read; a byte that is no part of a
character stands for the replacement character. -/
def decodeBytes : Nat → List UInt8 → List Char
  | 0, _ => []
  | _, [] => []
  | fuel + 1, b :: bs =>
    match String.fromUTF8? ⟨((b :: bs).take (byteCount b)).toArray⟩ with
    | some s =>
      if s.length = 1 then s.toList ++ decodeBytes fuel ((b :: bs).drop (byteCount b))
      else Char.ofNat 0xFFFD :: decodeBytes fuel bs
    | none => Char.ofNat 0xFFFD :: decodeBytes fuel bs

/-- The text of some bytes. -/
def bytesText (bs : List UInt8) : String := String.ofList (decodeBytes bs.length bs)

/-- A tag without its handle, behind a part of it that has been read. There has to be something. -/
def scanTagText (begun : Option (List Char)) (c : Cursor) : Option (String × Cursor) :=
  match tagBytes? (c.rest.length + 1) c.rest with
  | none => none
  | some (bs, rest) =>
    if bs.isEmpty && begun.isNone then none
    else some (String.ofList (begun.getD []) ++ bytesText bs, c.skip (c.rest.length - rest.length))

/-- A handle, or what might have been one: an exclamation mark, a name, and perhaps another
exclamation mark. -/
def scanHandle (c : Cursor) : Option (List Char × Cursor) :=
  match c.rest with
  | '!' :: rest =>
    let name := rest.takeWhile isNameChar
    let handle := '!' :: name ++ (if (rest.drop name.length).head? == some '!' then ['!'] else [])
    some (handle, c.skip handle.length)
  | _ => none

/-- Whether a handle has a mark at both ends. -/
def isHandle (cs : List Char) : Bool := 1 < cs.length && cs.getLast? == some '!'

/-- A tag. -/
def scanTag (c : Cursor) : Option (Token × Cursor) := do
  let (t, c) ←
    if "!<".toList.isPrefixOf c.rest then do
      let (suffix, c) ← scanTagText none (c.skip 2)
      if c.sees (· == '>') then some (Token.tag "" suffix, c.skip 1) else none
    else do
      let (handle, c) ← scanHandle c
      if isHandle handle then do
        let (suffix, c) ← scanTagText none c
        some (Token.tag (String.ofList handle) suffix, c)
      else do
        let (suffix, c) ← scanTagText (some (handle.drop 1)) c
        some (if suffix == "" then Token.tag "" "!" else Token.tag "!" suffix, c)
  if c.blankAfter 0 then some (t, c) else none

/-! ### Directives -/

/-- A part of a version: one or two digits. -/
def scanVersionNumber (c : Cursor) : Option (Nat × Cursor) :=
  let ds := c.span Json.isDigit
  if ds.isEmpty || 2 < ds.length then none
  else some (ds.foldl (fun n d => n * 10 + (d.toNat - 48)) 0, c.skip ds.length)

/-- The version of a document. -/
def scanVersion (c : Cursor) : Option (Token × Cursor) := do
  let (major, c) ← scanVersionNumber (c.skipWhile isGap)
  if !c.sees (· == '.') then none
  let (minor, c) ← scanVersionNumber (c.skip 1)
  some (.version major minor, c)

/-- A handle and what it stands for. -/
def scanHandleDirective (c : Cursor) : Option (Token × Cursor) := do
  let (handle, c) ← scanHandle (c.skipWhile isGap)
  if handle != ['!'] && !isHandle handle then none
  if !c.sees isGap then none
  let (standsFor, c) ← scanTagText none (c.skipWhile isGap)
  if !c.blankAfter 0 then none
  some (.handle (String.ofList handle) standsFor, c)

/-- A directive behind its percent sign, up to the end of its line. -/
def scanDirective (c : Cursor) : Option (Token × Cursor) := do
  let name := c.span isNameChar
  let c := c.skip name.length
  if name.isEmpty || !c.blankAfter 0 then none
  let (t, c) ←
    match String.ofList name with
    | "YAML" => scanVersion c
    | "TAG" => scanHandleDirective c
    | _ => none
  let c := c.skipWhile isGap
  let c := if c.sees (· == '#') then c.skipLine else c
  if c.blankAfter 0 then some (t, c.lineBreak.2) else none

end TapeMachine.Config.Yaml
