import TapeMachine.Text.Bytes

/-!
# JSON text

Values, the writer and the reader. The writer puts nothing between tokens; it escapes, beside what
the format requires, the line and paragraph separators and, when the text may end up in a page,
the characters `<`, `>` and `&`. The reader takes one value from the front of a text; numbers keep
their digits as they were written.
-/

namespace TapeMachine.Text

/-- A JSON value. The members of an object keep their order and their repetitions. A string may also
be given by bytes. -/
inductive Json where
  | null
  | bool (b : Bool)
  | number (digits : List Char)
  | string (s : String)
  | bytes (bs : Bytes)
  | array (items : List Json)
  | object (members : List (String × Json))

namespace Json

/-- An integer as a number. -/
def int (n : Int) : Json := .number (toString n).toList

/-- A natural number as a number. -/
def nat (n : Nat) : Json := .number (toString n).toList

/-- A list of strings as an array. -/
def strings (ss : List String) : Json := .array (ss.map .string)

/-! ### Writing -/

/-- How one character stands inside a written string. With `page`, the three characters that
start mark-up are escaped too. -/
def escapeChar (page : Bool) (c : Char) : List Char :=
  if c == '"' || c == '\\' then ['\\', c]
  else if c == '\n' then ['\\', 'n']
  else if c == '\r' then ['\\', 'r']
  else if c == '\t' then ['\\', 't']
  else if c.toNat == 8 then ['\\', 'b']
  else if c.toNat == 12 then ['\\', 'f']
  else if c.toNat < 0x20 || c.toNat == 0x2028 || c.toNat == 0x2029 ||
      (page && (c == '<' || c == '>' || c == '&')) then '\\' :: 'u' :: hex 4 c.toNat
  else [c]

/-- A string with its quotes. -/
def writeString (page : Bool) (s : List Char) : List Char :=
  '"' :: s.flatMap (escapeChar page) ++ ['"']

/-- How one rune stands inside a written string. A byte that belongs to no character is written as
the escaped replacement character. -/
def escapeRune (page : Bool) : Rune → List Char
  | .char c => escapeChar page c
  | .stray _ => '\\' :: 'u' :: hex 4 replacement.toNat

/-- Bytes as a string with its quotes. -/
def writeBytes (page : Bool) (bs : Bytes) : List Char :=
  '"' :: (runes bs).flatMap (escapeRune page) ++ ['"']

mutual

/-- A value as text, with nothing between the tokens. -/
def write (page : Bool) : Json → List Char
  | .null => "null".toList
  | .bool true => "true".toList
  | .bool false => "false".toList
  | .number digits => digits
  | .string s => writeString page s.toList
  | .bytes bs => writeBytes page bs
  | .array items => '[' :: writeItems page items ++ [']']
  | .object members => '{' :: writeMembers page members ++ ['}']

/-- The items of an array, with commas between them. -/
def writeItems (page : Bool) : List Json → List Char
  | [] => []
  | [v] => write page v
  | v :: w :: vs => write page v ++ ',' :: writeItems page (w :: vs)

/-- The members of an object, with commas between them. -/
def writeMembers (page : Bool) : List (String × Json) → List Char
  | [] => []
  | [(k, v)] => writeString page k.toList ++ ':' :: write page v
  | (k, v) :: m :: ms =>
    writeString page k.toList ++ ':' :: write page v ++ ',' :: writeMembers page (m :: ms)

end

/-- A value as text that may stand in a page. -/
def render (v : Json) : String :=
  String.ofList (v.write true)

/-! ### Reading strings -/

/-- One element of a string's text: a character, or a 16-bit unit written as an escape. -/
inductive Unit16 where
  | char (c : Char)
  | unit (n : Nat)

/-- The value of a hexadecimal digit. -/
def hexDigit? (c : Char) : Option Nat :=
  let n := c.toNat
  if 48 ≤ n && n ≤ 57 then some (n - 48)
  else if 97 ≤ n && n ≤ 102 then some (n - 87)
  else if 65 ≤ n && n ≤ 70 then some (n - 55)
  else none

/-- The value of four hexadecimal digits. -/
def hex4? (a b c d : Char) : Option Nat := do
  let a ← hexDigit? a
  let b ← hexDigit? b
  let c ← hexDigit? c
  let d ← hexDigit? d
  return ((a * 16 + b) * 16 + c) * 16 + d

/-- The character that a letter after a backslash stands for. -/
def unescapeLetter? (c : Char) : Option Char :=
  if c == '"' || c == '\\' || c == '/' then some c
  else if c == 'b' then some (Char.ofNat 8)
  else if c == 'f' then some (Char.ofNat 12)
  else if c == 'n' then some '\n'
  else if c == 'r' then some '\r'
  else if c == 't' then some '\t'
  else none

/-- The elements of a string up to its closing quote, and the text after that quote. -/
def readUnits : List Char → Option (List Unit16 × List Char)
  | [] => none
  | c :: cs =>
    if c == '"' then some ([], cs)
    else if c.toNat < 0x20 then none
    else if c == '\\' then
      match cs with
      | e :: rest =>
        if e == 'u' then
          match rest with
          | h₁ :: h₂ :: h₃ :: h₄ :: rest' =>
            match hex4? h₁ h₂ h₃ h₄, readUnits rest' with
            | some n, some (us, t) => some (.unit n :: us, t)
            | _, _ => none
          | _ => none
        else
          match unescapeLetter? e, readUnits rest with
          | some l, some (us, t) => some (.char l :: us, t)
          | _, _ => none
      | [] => none
    else
      match readUnits cs with
      | some (us, t) => some (.char c :: us, t)
      | none => none

/-- The first unit of a surrogate pair. -/
def isHigh (n : Nat) : Bool := 0xD800 ≤ n && n < 0xDC00

/-- The second unit of a surrogate pair. -/
def isLow (n : Nat) : Bool := 0xDC00 ≤ n && n < 0xE000

/-- The characters of a sequence of elements: two units that make a pair stand for one character,
and half a pair alone for the replacement character. -/
def joinUnits : List Unit16 → List Char
  | [] => []
  | .char c :: us => c :: joinUnits us
  | [.unit n] => [if isHigh n || isLow n then Char.ofNat 0xFFFD else Char.ofNat n]
  | .unit n :: .char c :: us =>
    (if isHigh n || isLow n then Char.ofNat 0xFFFD else Char.ofNat n) :: c :: joinUnits us
  | .unit n :: .unit m :: us =>
    if isHigh n && isLow m then
      Char.ofNat (0x10000 + (n - 0xD800) * 0x400 + (m - 0xDC00)) :: joinUnits us
    else
      (if isHigh n || isLow n then Char.ofNat 0xFFFD else Char.ofNat n) ::
        joinUnits (.unit m :: us)

/-- The string whose opening quote has just been passed, and the text after it. -/
def readString (cs : List Char) : Option (List Char × List Char) :=
  match readUnits cs with
  | some (us, rest) => some (joinUnits us, rest)
  | none => none

/-! ### Reading numbers -/

/-- A decimal digit. -/
def isDigit (c : Char) : Bool := '0' ≤ c && c ≤ '9'

/-- The digits at the front of a text, at least one, and the text after them. -/
def readDigits (cs : List Char) : Option (List Char × List Char) :=
  match cs.takeWhile isDigit with
  | [] => none
  | ds => some (ds, cs.dropWhile isDigit)

/-- The whole part: zero, or digits that do not start with zero. -/
def readWhole : List Char → Option (List Char × List Char)
  | '0' :: rest => some (['0'], rest)
  | cs => readDigits cs

/-- The part after the point, empty if there is no point. -/
def readFraction : List Char → Option (List Char × List Char)
  | '.' :: rest =>
    match readDigits rest with
    | some (ds, t) => some ('.' :: ds, t)
    | none => none
  | cs => some ([], cs)

/-- The exponent, empty if there is none. -/
def readExponent : List Char → Option (List Char × List Char)
  | c :: rest =>
    if c == 'e' || c == 'E' then
      match rest with
      | s :: more =>
        if s == '+' || s == '-' then
          match readDigits more with
          | some (ds, t) => some (c :: s :: ds, t)
          | none => none
        else
          match readDigits rest with
          | some (ds, t) => some (c :: ds, t)
          | none => none
      | [] => none
    else some ([], c :: rest)
  | [] => some ([], [])

/-- A number without its sign. -/
def readUnsigned (cs : List Char) : Option (List Char × List Char) := do
  let (whole, cs) ← readWhole cs
  let (fraction, cs) ← readFraction cs
  let (exponent, cs) ← readExponent cs
  return (whole ++ fraction ++ exponent, cs)

/-- A number, as its digits. -/
def readNumber : List Char → Option (List Char × List Char)
  | '-' :: rest => (readUnsigned rest).map (fun r => ('-' :: r.1, r.2))
  | cs => readUnsigned cs

/-! ### Reading values -/

/-- The white space that may stand between tokens. -/
def isGap (c : Char) : Bool :=
  c == ' ' || c == '\n' || c == '\r' || c == '\t'

/-- A text without the white space at its front. -/
def skipGap (cs : List Char) : List Char := cs.dropWhile isGap

/-- The text after a given word, if it starts with it. -/
def afterWord? (word cs : List Char) : Option (List Char) :=
  if word.isPrefixOf cs then some (cs.drop word.length) else none

/-- How deeply arrays and objects may be nested. -/
def maxDepth : Nat := 10000

mutual

/-- One value from the front of a text, and the text after it. The two numbers bound the calls
and the nesting. -/
def readValue : Nat → Nat → List Char → Option (Json × List Char)
  | 0, _, _ => none
  | fuel + 1, depth, cs =>
    match skipGap cs with
    | [] => none
    | c :: rest =>
      if c == '"' then
        (readString rest).map (fun r => (.string (String.ofList r.1), r.2))
      else if c == '[' then
        if depth = 0 then none
        else
          match skipGap rest with
          | ']' :: t => some (.array [], t)
          | _ =>
            match readItems fuel (depth - 1) rest with
            | some (vs, t) => some (.array vs, t)
            | none => none
      else if c == '{' then
        if depth = 0 then none
        else
          match skipGap rest with
          | '}' :: t => some (.object [], t)
          | _ =>
            match readMembers fuel (depth - 1) rest with
            | some (ms, t) => some (.object ms, t)
            | none => none
      else if c == 't' then (afterWord? "rue".toList rest).map (fun t => (.bool true, t))
      else if c == 'f' then (afterWord? "alse".toList rest).map (fun t => (.bool false, t))
      else if c == 'n' then (afterWord? "ull".toList rest).map (fun t => (.null, t))
      else (readNumber (c :: rest)).map (fun r => (.number r.1, r.2))

/-- The items of an array up to its closing bracket. -/
def readItems : Nat → Nat → List Char → Option (List Json × List Char)
  | 0, _, _ => none
  | fuel + 1, depth, cs =>
    match readValue fuel depth cs with
    | none => none
    | some (v, t) =>
      match skipGap t with
      | ',' :: t' =>
        match readItems fuel depth t' with
        | some (vs, u) => some (v :: vs, u)
        | none => none
      | ']' :: t' => some ([v], t')
      | _ => none

/-- The members of an object up to its closing brace. -/
def readMembers : Nat → Nat → List Char → Option (List (String × Json) × List Char)
  | 0, _, _ => none
  | fuel + 1, depth, cs =>
    match skipGap cs with
    | '"' :: t =>
      match readString t with
      | none => none
      | some (k, t) =>
        match skipGap t with
        | ':' :: t =>
          match readValue fuel depth t with
          | none => none
          | some (v, t) =>
            match skipGap t with
            | ',' :: t' =>
              match readMembers fuel depth t' with
              | some (ms, u) => some ((String.ofList k, v) :: ms, u)
              | none => none
            | '}' :: t' => some ([(String.ofList k, v)], t')
            | _ => none
        | _ => none
    | _ => none

end

/-- The first value of a text, and what follows it. -/
def readFirst (cs : List Char) : Option (Json × List Char) :=
  readValue (2 * cs.length + 2) maxDepth cs

/-- The value of a text that holds exactly one. -/
def parse? (s : String) : Option Json :=
  match readFirst s.toList with
  | some (v, rest) => if (skipGap rest).isEmpty then some v else none
  | none => none

/-- The first value of a text, whatever follows it. -/
def parseFirst? (s : String) : Option Json :=
  (readFirst s.toList).map (·.1)

/-! ### Records

Reading a record fills in the fields of a value that is already there: a member whose name differs
only in case still names the field, unknown members are passed over, `null` changes nothing, and a
repeated member is read again over what the earlier one left. -/

/-- A character with its case removed, as far as that can lead to an ASCII letter. -/
def foldChar (c : Char) : Char :=
  if c.toNat == 0x17F then 's'
  else if c.toNat == 0x212A then 'k'
  else c.toLower

/-- Whether a member's name stands for the field. -/
def namesField (field name : String) : Bool :=
  field == name || field.toList == name.toList.map foldChar

/-- Reads a string over an earlier one. -/
def stringOver (old : String) : Json → Option String
  | .null => some old
  | .string s => some s
  | _ => none

/-- The items of a list that is being read, and behind them what earlier, longer readings left. -/
structure Slots (α : Type) where
  items : List α := []
  spare : List α := []

/-- Reads the items of an array one after the other, each over the item that was in its place. -/
def itemsOver {α : Type} (fresh : α) (item : α → Json → Option α) :
    List α → List Json → Option (List α)
  | _, [] => some []
  | [], v :: vs => do
    let a ← item fresh v
    let as ← itemsOver fresh item [] vs
    return a :: as
  | old :: olds, v :: vs => do
    let a ← item old v
    let as ← itemsOver fresh item olds vs
    return a :: as

/-- Reads an array over an earlier list. -/
def slotsOver {α : Type} (fresh : α) (item : α → Json → Option α) (old : Slots α) :
    Json → Option (Slots α)
  | .null => some {}
  | .array [] => some {}
  | .array vs => do
    let memory := old.items ++ old.spare
    let items ← itemsOver fresh item memory vs
    return { items, spare := memory.drop items.length }
  | _ => none

/-- Reads the members of an object, or nothing from `null`, into a record. -/
def recordOver {α : Type} (member : String → Json → α → Option α) (old : α) : Json → Option α
  | .null => some old
  | .object ms => ms.foldlM (fun r m => member m.1 m.2 r) old
  | _ => none

end Json

end TapeMachine.Text
