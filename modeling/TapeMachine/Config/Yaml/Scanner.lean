import TapeMachine.Config.Yaml.Token

/-!
# Scanning a YAML text

Tokens are found one after the other, and only as many of them as are asked for, since what follows
the first document is not looked at. Outside of flow values the indentation of lines is turned into
tokens: a line that stands further right opens a block, and one that stands further left closes the
blocks it leaves.

That a value is a key is known only from the colon behind it. So the scanner remembers where a key
may have started, and puts the tokens that announce a key in front of it when the colon is found.
Such a key has to end on its line, and not too far from its start.
-/

namespace TapeMachine.Config.Yaml

/-- A place where a key may have started. -/
structure SimpleKey where
  isPossible : Bool := false
  /-- Whether what starts there can be nothing but a key. -/
  isRequired : Bool := false
  /-- The number of its first token. -/
  number : Nat := 0
  start : Cursor := ⟨[], 0, 0, 0⟩

/-- The greatest distance of a colon from the start of its key. -/
def longestKey : Nat := 1024

/-- What is left of a key at a later place: behind its line, or too far away, it is none. -/
def SimpleKey.settle? (k : SimpleKey) (c : Cursor) : Option SimpleKey :=
  if k.isPossible && (k.start.line < c.line || k.start.index + longestKey < c.index) then
    if k.isRequired then none else some { k with isPossible := false }
  else some k

/-- A text that is being scanned. -/
structure Scanner where
  cursor : Cursor
  /-- Whether the first character of each line is passed over. -/
  marked : Bool := false
  /-- The columns of the open blocks, innermost first; the text itself stands before all columns. -/
  indents : List Int := [-1]
  /-- Whether a key may start here. -/
  keyAllowed : Bool := true
  /-- For each open flow value, innermost first, and for the text, where a key may have started. -/
  keys : List SimpleKey := [{}]
  /-- The tokens that have been found and not been taken. -/
  tokens : List Token := []
  /-- The number of tokens that have been taken. -/
  taken : Nat := 0

namespace Scanner

/-- Whether a flow value is open. -/
def inFlow (s : Scanner) : Bool := 1 < s.keys.length

/-- The column of the innermost block. -/
def indent (s : Scanner) : Int := s.indents.headD (-1)

/-- How deeply blocks, and flow values, may be nested. -/
def deepest : Nat := 10000

/-! ### Finding tokens -/

/-- Adds a token behind the others. -/
def push (s : Scanner) (t : Token) : Scanner := { s with tokens := s.tokens ++ [t] }

/-- Adds a token in front of the one with a number; if that one has been taken, behind all. -/
def insert (s : Scanner) (number : Nat) (t : Token) : Scanner :=
  if number < s.taken then s.push t
  else
    let n := number - s.taken
    { s with tokens := s.tokens.take n ++ t :: s.tokens.drop n }

/-- Gives up the key that may have started in the innermost value. -/
def dropKey (s : Scanner) : Option Scanner :=
  match s.keys with
  | k :: ks =>
    if k.isPossible && k.isRequired then none
    else some { s with keys := { k with isPossible := false } :: ks }
  | [] => some s

/-- Notes that a key may start here. -/
def noteKey (s : Scanner) : Option Scanner :=
  if s.keyAllowed then
    s.dropKey.map (fun s =>
      let k : SimpleKey :=
        { isPossible := true, isRequired := !s.inFlow && s.indent == s.cursor.column
          number := s.taken + s.tokens.length, start := s.cursor }
      { s with keys := k :: s.keys.drop 1 })
  else some s

/-- Opens a block at a column, if that is further right than the innermost one. Its token stands in
front of the token with a number, or behind all tokens. -/
def openBlock (s : Scanner) (column : Nat) (number : Option Nat) (t : Token) : Option Scanner :=
  if s.inFlow || (column : Int) ≤ s.indent then some s
  else if deepest < s.indents.length then none
  else
    let s := { s with indents := column :: s.indents }
    some (match number with
      | some n => s.insert n t
      | none => s.push t)

/-- Closes the blocks that stand further right than a column. -/
def closeBlocks (s : Scanner) (column : Int) : Scanner :=
  if s.inFlow then s
  else
    let closed := (s.indents.takeWhile (column < ·)).length
    { s with
      indents := s.indents.drop closed
      tokens := s.tokens ++ List.replicate closed .blockEnd }

/-- Goes to the next token, over blanks, comments and line breaks. Where a key may start, tabs are
not passed over. -/
def toToken : Nat → Scanner → Scanner
  | 0, s => s
  | fuel + 1, s =>
    let tabs := s.inFlow || !s.keyAllowed
    let c := if s.marked && s.cursor.column = 0 then s.cursor.skip 1 else s.cursor
    let c := c.skipWhile (fun x => x == ' ' || (tabs && x == '\t'))
    let c := if c.sees (· == '#') then c.skipComments c.rest.length else c
    if c.sees isBreak then
      toToken fuel { s with cursor := c.lineBreak.2, keyAllowed := s.keyAllowed || !s.inFlow }
    else { s with cursor := c }

/-- Passes over a comment that follows a token on its line. -/
def skipComment (s : Scanner) : Scanner :=
  let c := s.cursor.skipWhile isGap
  if s.tokens.getLast? != some .item && c.sees (· == '#') then { s with cursor := c.skipLine }
  else s

/-- Adds a token of so many characters. -/
def mark (s : Scanner) (length : Nat) (t : Token) : Scanner :=
  { s with cursor := s.cursor.skip length }.push t

/-- The end of the text. -/
def fetchEnd (s : Scanner) : Option Scanner :=
  let c := s.cursor
  let c := if c.column = 0 then c else { c with line := c.line + 1, column := 0 }
  let s := { s with cursor := c }
  (s.closeBlocks (-1)).dropKey.map (fun s => { s with keyAllowed := false }.push .streamEnd)

/-- A directive. -/
def fetchDirective (s : Scanner) : Option Scanner :=
  match (s.closeBlocks (-1)).dropKey, scanDirective (s.cursor.skip 1) with
  | some s, some (t, c) => some ({ s with cursor := c, keyAllowed := false }.push t)
  | _, _ => none

/-- The start or the end of a document. -/
def fetchDocumentMark (s : Scanner) (t : Token) : Option Scanner :=
  (s.closeBlocks (-1)).dropKey.map (fun s => { s with keyAllowed := false }.mark 3 t)

/-- The start of a flow value. -/
def fetchFlowStart (s : Scanner) (t : Token) : Option Scanner :=
  match s.noteKey with
  | none => none
  | some s =>
    if deepest < s.keys.length then none
    else some ({ s with keys := {} :: s.keys, keyAllowed := true }.mark 1 t)

/-- The end of a flow value. -/
def fetchFlowEnd (s : Scanner) (t : Token) : Option Scanner :=
  s.dropKey.map (fun s =>
    { s with keys := if s.inFlow then s.keys.drop 1 else s.keys, keyAllowed := false }.mark 1 t)

/-- A comma. -/
def fetchComma (s : Scanner) : Option Scanner :=
  s.dropKey.map (fun s => { s with keyAllowed := true }.mark 1 .comma)

/-- Opens a block for an item or a key where one may start. -/
def openHere (s : Scanner) (t : Token) : Option Scanner :=
  if s.inFlow then some s
  else if s.keyAllowed then s.openBlock s.cursor.column none t
  else none

/-- The mark of an item. -/
def fetchItem (s : Scanner) : Option Scanner :=
  ((s.openHere .blockList).bind dropKey).map (fun s => { s with keyAllowed := true }.mark 1 .item)

/-- The mark of a key. -/
def fetchKey (s : Scanner) : Option Scanner :=
  ((s.openHere .blockMapping).bind dropKey).map (fun s =>
    { s with keyAllowed := !s.inFlow }.mark 1 .key)

/-- The mark of a value. If a key may have started, it is now known to be one. -/
def fetchValue (s : Scanner) : Option Scanner :=
  match s.keys with
  | [] => none
  | k :: ks =>
    match k.settle? s.cursor with
    | none => none
    | some k =>
      if k.isPossible then
        let s := { s with keys := { k with isPossible := false } :: ks, keyAllowed := false }
        ((s.insert k.number .key).openBlock k.start.column (some k.number) .blockMapping).map
          (·.mark 1 .value)
      else
        (s.openHere .blockMapping).map (fun s => { s with keyAllowed := !s.inFlow }.mark 1 .value)

/-- A token that has been scanned to its end, and where no key can start behind it. -/
def fetchScanned (s : Scanner) (scan : Cursor → Option (Token × Cursor)) : Option Scanner :=
  match s.noteKey, scan s.cursor with
  | some s, some (t, c) => some ({ s with cursor := c, keyAllowed := false }.push t)
  | _, _ => none

/-- A plain scalar. If it ends behind its line, a key may start there. -/
def fetchPlain (s : Scanner) : Option Scanner :=
  let c := s.cursor
  match s.noteKey, scanPlain s.inFlow (s.indent + 1) (c.rest.length + 1) [] (.blanks []) c with
  | some s, some (text, afterLine, c) =>
    let s := { s with cursor := c, keyAllowed := afterLine }
    let s := s.push (.scalar (String.ofList text) true)
    some (if afterLine then s else s.skipComment)
  | _, _ => none

/-- A quoted scalar. -/
def fetchQuoted (s : Scanner) (single : Bool) : Option Scanner :=
  s.fetchScanned (fun c =>
    (scanQuoted single (c.rest.length + 1) [] (c.skip 1)).map (fun r =>
      (.scalar (String.ofList r.1) false, r.2)))

/-- A block of lines. -/
def fetchBlock (s : Scanner) (folded : Bool) : Option Scanner :=
  match s.dropKey, scanBlock folded s.indent (s.cursor.skip 1) with
  | some s, some (text, c) =>
    some ({ s with cursor := c, keyAllowed := true }.push (.scalar (String.ofList text) false))
  | _, _ => none

/-- Characters that do not start a plain scalar, except for the first three, which do where
something that is not white space follows. -/
def reserved : List Char := "-?:,[]{}#&*!|>'\"%@\x60".toList

/-- A token that is part of a document, but neither a plain scalar nor a block of lines. -/
def fetchMark (s : Scanner) (x : Char) : Option Scanner :=
  let stands := s.inFlow || s.cursor.blankAfter 1
  if x == '[' then s.fetchFlowStart .flowList
  else if x == '{' then s.fetchFlowStart .flowMapping
  else if x == ']' then s.fetchFlowEnd .flowListEnd
  else if x == '}' then s.fetchFlowEnd .flowMappingEnd
  else if x == ',' then s.fetchComma
  else if x == '-' && s.cursor.blankAfter 1 then s.fetchItem
  else if x == '?' && stands then s.fetchKey
  else if x == ':' && stands then s.fetchValue
  else if x == '*' then
    s.fetchScanned (fun c => (scanName (c.skip 1)).map (fun r => (.alias r.1, r.2)))
  else if x == '&' then
    s.fetchScanned (fun c => (scanName (c.skip 1)).map (fun r => (.anchor r.1, r.2)))
  else if x == '!' then s.fetchScanned scanTag
  else if x == '\'' || x == '"' then s.fetchQuoted (x == '\'')
  else none

/-- Whether a plain scalar starts here with a character. -/
def startsPlain (s : Scanner) (x : Char) : Bool :=
  if x == '-' then !s.cursor.blankAfter 1
  else if x == '?' || x == ':' then !s.inFlow && !s.cursor.blankAfter 1
  else !isGap x && !reserved.contains x

/-- A token that is part of a document. A comment may follow it on its line. -/
def fetchToken (s : Scanner) (x : Char) : Option Scanner :=
  if s.startsPlain x then s.fetchPlain
  else if (x == '|' || x == '>') && !s.inFlow then s.fetchBlock (x == '>')
  else (s.fetchMark x).map skipComment

/-- Finds at least one more token. -/
def fetch (s : Scanner) : Option Scanner :=
  let s := s.toToken (s.cursor.rest.length + 1)
  let s := s.closeBlocks s.cursor.column
  let c := s.cursor
  match c.rest with
  | [] => s.fetchEnd
  | x :: _ =>
    if c.column = 0 && x == '%' then s.fetchDirective
    else if c.atMark Cursor.startMark then s.fetchDocumentMark .documentStart
    else if c.atMark Cursor.endMark then s.fetchDocumentMark .documentEnd
    else s.fetchToken x

/-! ### Asking for tokens -/

/-- How many tokens are found before one is handed out. -/
def lookahead : Nat := 3

/-- Whether the next token can be handed out: enough tokens have been found, and it cannot turn out
to be a key. -/
def isReady? (s : Scanner) : Option Bool :=
  if s.tokens.length < lookahead then some false
  else
    match s.keys.find? (fun k => k.isPossible && k.number == s.taken) with
    | none => some true
    | some k => (k.settle? s.cursor).map (fun k => !k.isPossible)

/-- Finds tokens until the next one can be handed out. -/
def fill : Nat → Scanner → Option Scanner
  | 0, s => some s
  | fuel + 1, s =>
    match s.isReady? with
    | none => none
    | some true => some s
    | some false =>
      match s.fetch with
      | none => none
      | some s => fill fuel s

/-- The next token. -/
def next? (s : Scanner) : Option (Token × Scanner) :=
  match s.fill (s.cursor.rest.length + lookahead + 1) with
  | none => none
  | some s => s.tokens.head?.map (·, s)

/-- Takes the next token. -/
def take (s : Scanner) : Scanner := { s with tokens := s.tokens.drop 1, taken := s.taken + 1 }

end Scanner

end TapeMachine.Config.Yaml
