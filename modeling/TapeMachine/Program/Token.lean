import TapeMachine.Program.Error
import TapeMachine.Text.Blank
import TapeMachine.Text.Bytes

/-!
# Tokens

A text without comments and calls is cut into tokens: the indentation of a line, runs of two or
more blanks between tokens, ends of lines, arrows, colons, single symbols in parentheses, and
words. A word may hold hyphens between its other characters but never starts or ends with one; a
hyphen that joins nothing is a word by itself.

`Cursor.step` takes one step through the text. A control character that is no white space belongs
to no token: there a step finds an empty word and stays where it is, so the work never comes to an
end. Every other step goes forward, and a text without such characters is read in finitely many
steps.
-/

namespace TapeMachine.Program

open Text

/-- What a token is. -/
inductive Kind where
  | indent
  | space
  | newline
  | arrow
  | colon
  | bracketed
  | word
deriving DecidableEq

/-- The name of a kind of token. -/
def Kind.name : Kind → String
  | .indent => "indent"
  | .space => "space"
  | .newline => "newline"
  | .arrow => "arrow"
  | .colon => "colon"
  | .bracketed => "bracketed"
  | .word => "word"

/-- One token. The width is that of indentation and spacing. -/
structure Token where
  kind : Kind
  text : List Char
  line : Nat
  width : Nat := 0
deriving DecidableEq

/-- The text a token stands for as a header or an operand: a bracketed symbol stands for the
symbol alone. -/
def Token.value (t : Token) : List Char :=
  if t.kind == .bracketed then t.text.tail.dropLast else t.text

/-- A token for display: its kind and its quoted text. -/
def Token.display (t : Token) : String :=
  t.kind.name ++ "(" ++ String.ofList (quote t.text) ++ ")"

/-! ### Character classes -/

/-- Whether the character can stand in a word; hyphens are treated apart. -/
def isWordChar (c : Char) : Bool :=
  !(isBlank c || isControl c || c == ':' || c == '(' || c == ')' || c == '{' || c == '}' ||
    c == '-')

/-- The blanks that make indentation and spacing. -/
def isSpacing (c : Char) : Bool :=
  c == ' ' || c == '\t'

/-- The width of a run of blanks: a tab counts for four. -/
def spacingWidth (cs : List Char) : Nat :=
  cs.foldl (fun n c => n + if c == '\t' then 4 else 1) 0

/-- Whether a hyphen joins the word before it to the text after it. -/
def hyphenJoins : List Char → Bool
  | c :: _ => c != '>' && isWordChar c
  | [] => false

/-- The longest word at the front of a text, and the text after it. -/
def takeWord : List Char → List Char × List Char
  | [] => ([], [])
  | c :: cs =>
    if isWordChar c || (c == '-' && hyphenJoins cs) then
      let r := takeWord cs
      (c :: r.1, r.2)
    else ([], c :: cs)

/-! ### Steps -/

/-- A place in a text: what remains, the line reached, and whether only white space has been read
on it. -/
structure Cursor where
  rest : List Char
  line : Nat
  lineStart : Bool

/-- What one step finds, and where it leads. -/
structure Step where
  token : Option Token
  next : Cursor

namespace Cursor

/-- Finds a token that is neither white space nor the end of a line. -/
def found (p : Cursor) (kind : Kind) (text rest : List Char) : Except Error Step :=
  .ok ⟨some ⟨kind, text, p.line, 0⟩, ⟨rest, p.line, false⟩⟩

/-- Goes on without finding anything. -/
def skip (p : Cursor) (rest : List Char) : Except Error Step :=
  .ok ⟨none, { p with rest }⟩

/-- Reads a run of blanks: indentation at the start of a line, and spacing between two tokens of a
line if it is at least two wide. -/
def blanks (p : Cursor) (c : Char) (cs : List Char) : Step :=
  let run := c :: cs.takeWhile isSpacing
  let rest := cs.dropWhile isSpacing
  let width := spacingWidth run
  if p.lineStart then
    ⟨some ⟨.indent, run, p.line, width⟩, ⟨rest, p.line, false⟩⟩
  else if 2 ≤ width && !(rest.isEmpty || rest.head? == some '\n' || rest.head? == some '\r') then
    ⟨some ⟨.space, run, p.line, width⟩, ⟨rest, p.line, false⟩⟩
  else ⟨none, { p with rest }⟩

/-- Reads a symbol in parentheses, whose opening one has just been passed. -/
def bracket (p : Cursor) : List Char → Except Error Step
  | s :: ')' :: rest =>
    if s == ')' || isBlank s || s.toNat == 0 then .error (.at p.line (.malformed .strayOpening))
    else p.found .bracketed ['(', s, ')'] rest
  | _ => .error (.at p.line (.malformed .strayOpening))

/-- Reads what stands at the front of the text `c :: cs`. -/
def step (p : Cursor) (c : Char) (cs : List Char) : Except Error Step :=
  if c == '\r' then p.skip cs
  else if c == '\n' then
    .ok ⟨some ⟨.newline, ['\n'], p.line, 0⟩, ⟨cs, p.line + 1, true⟩⟩
  else if isSpacing c then .ok (p.blanks c cs)
  else if c == '-' then
    match cs with
    | '>' :: rest => p.found .arrow ['-', '>'] rest
    | _ => p.found .word ['-'] cs
  else if c == ':' then p.found .colon [':'] cs
  else if c == '(' then p.bracket cs
  else if c == '{' then
    .error (.at p.line (.malformed
      (.unexpandedCall (c :: cs.takeWhile (fun d => d != '}' && d != '\n')))))
  else if c == ')' || c == '}' then .error (.at p.line (.malformed (.strayClosing c)))
  else if isBlank c then p.skip cs
  else p.found .word (takeWord (c :: cs)).1 (takeWord (c :: cs)).2

/-- The tokens from a place in the text on. A step that does not go forward is taken again and
again: there is no end to the work. -/
def tokens (p : Cursor) : Except Error (List Token) :=
  match _hr : p.rest with
  | [] => .ok []
  | c :: cs =>
    match p.step c cs with
    | .error e => .error e
    | .ok s =>
      if s.next.rest.length < p.rest.length then
        match s.next.tokens with
        | .error e => .error e
        | .ok ts => .ok (s.token.toList ++ ts)
      else .error .endless
termination_by p.rest.length

end Cursor

/-- The tokens of a text. -/
def tokenize (text : List Char) : Except Error (List Token) :=
  (Cursor.mk text 1 true).tokens

/-- The tokens of some bytes. Those that belong to no character are read as replacement characters.
-/
def tokenizeBytes (text : Bytes) : Except Error (List Token) :=
  tokenize (chars text)

/-! ### Normal forms of keywords -/

/-- The tokens that a token stands for: `else` stands for `read *`, and the long directions for
their letters. -/
def Token.normal (t : Token) : List Token :=
  if t.kind == .word then
    if t.text == "else".toList then
      [{ t with text := "read".toList }, { t with text := ['*'] }]
    else if t.text == "right".toList then [{ t with text := ['r'] }]
    else if t.text == "left".toList then [{ t with text := ['l'] }]
    else [t]
  else [t]

/-- Replaces every keyword that stands for something else. -/
def normalize (ts : List Token) : List Token :=
  ts.flatMap Token.normal

end TapeMachine.Program
