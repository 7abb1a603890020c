/-!
# Places in a YAML text

A cursor is a place in a text: what is left of the text, and how many characters, lines and
characters of the line lie before it. Lines are ended by a line feed, a carriage return, both
together, or one of the three further line breaks of Unicode.
-/

namespace TapeMachine.Config.Yaml

/-- A blank inside a line. -/
def isGap (c : Char) : Bool := c == ' ' || c == '\t'

/-- The line and paragraph separators, which keep their identity when they stand in a scalar. -/
def isSeparator (c : Char) : Bool := c.toNat == 0x2028 || c.toNat == 0x2029

/-- A character that ends a line. -/
def isBreak (c : Char) : Bool :=
  c == '\n' || c == '\r' || c.toNat == 0x85 || isSeparator c

/-- Whether a text is at its end or starts with white space. -/
def startsBlank : List Char → Bool
  | [] => true
  | c :: _ => isGap c || isBreak c

/-- A place in a text. -/
structure Cursor where
  rest : List Char
  index : Nat := 0
  line : Nat := 0
  column : Nat := 0

namespace Cursor

/-- Whether the next character satisfies a test. -/
def sees (c : Cursor) (p : Char → Bool) : Bool :=
  match c.rest with
  | x :: _ => p x
  | [] => false

/-- Whether white space or the end stands so many characters ahead. -/
def blankAfter (c : Cursor) (n : Nat) : Bool := startsBlank (c.rest.drop n)

/-- Passes over so many characters of a line. -/
def skip (c : Cursor) (n : Nat) : Cursor :=
  { c with rest := c.rest.drop n, index := c.index + n, column := c.column + n }

/-- The characters ahead that satisfy a test. -/
def span (c : Cursor) (p : Char → Bool) : List Char := c.rest.takeWhile p

/-- Passes over characters of a line that satisfy a test. -/
def skipWhile (c : Cursor) (p : Char → Bool) : Cursor := c.skip (c.span p).length

/-- Passes over the rest of the line. -/
def skipLine (c : Cursor) : Cursor := c.skipWhile (fun x => !isBreak x)

/-- Passes over a line break, if there is one, and tells what it stands for in a scalar. -/
def lineBreak (c : Cursor) : List Char × Cursor :=
  match c.rest with
  | '\r' :: '\n' :: r =>
    (['\n'], { rest := r, index := c.index + 2, line := c.line + 1, column := 0 })
  | x :: r =>
    if isBreak x then
      ([if isSeparator x then x else '\n'],
        { rest := r, index := c.index + 1, line := c.line + 1, column := 0 })
    else ([], c)
  | [] => ([], c)

/-- Whether a line starts here with a mark of three characters that stands alone. -/
def atMark (c : Cursor) (mark : List Char) : Bool :=
  c.column == 0 && mark.isPrefixOf c.rest && c.blankAfter mark.length

/-- The mark that starts a document. -/
def startMark : List Char := "---".toList

/-- The mark that ends a document. -/
def endMark : List Char := "...".toList

/-- Whether a document starts or ends here. -/
def atDocumentMark (c : Cursor) : Bool := c.atMark startMark || c.atMark endMark

/-- Passes over blanks and plain line breaks. The bound is on the number of steps. -/
def skipLines : Nat → Cursor → Cursor
  | 0, c => c
  | fuel + 1, c =>
    if c.sees isGap then skipLines fuel (c.skip 1)
    else if c.sees (fun x => x == '\n' || x == '\r') then skipLines fuel c.lineBreak.2
    else c

/-- Passes over a comment and over the comments on the lines after it, up to the end of the last
line. -/
def skipComments : Nat → Cursor → Cursor
  | 0, c => c
  | fuel + 1, c =>
    let here := c.skipLine
    let next := skipLines here.rest.length here
    if next.sees (· == '#') then skipComments fuel next else here

end Cursor

end TapeMachine.Config.Yaml
