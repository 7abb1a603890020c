import TapeMachine.Config.Yaml.Cursor
import TapeMachine.Text.Json

/-!
# Scalars as they are written

A scalar is written plain, between quotes, or as a block of lines. Plain and quoted scalars are rows
of words. What stands between two words is kept if it is only blanks; a line break between them
becomes a space, and of several line breaks the first one is dropped. A block keeps its line breaks,
or folds them in the same way.
-/

namespace TapeMachine.Config.Yaml

open Text

/-! ### Between words -/

/-- What stands between two words: blanks, or line breaks, of which the first counts apart. -/
inductive Gap where
  | blanks (cs : List Char)
  | lines (first more : List Char)

/-- What a gap stands for. -/
def Gap.text : Gap → List Char
  | .blanks cs => cs
  | .lines first more =>
    if first.head? == some '\n' then (if more.isEmpty then [' '] else more) else first ++ more

/-- Whether a gap goes over the end of a line. -/
def Gap.isLines : Gap → Bool
  | .blanks _ => false
  | .lines _ _ => true

/-- Goes on over a gap. At the front of a line, tabs may stand only from a column on. -/
def scanGap (tabsFrom : Int) : Nat → Gap → Cursor → Option (Gap × Cursor)
  | 0, g, c => some (g, c)
  | fuel + 1, g, c =>
    match c.rest with
    | [] => some (g, c)
    | x :: _ =>
      if isGap x then
        match g with
        | .blanks cs => scanGap tabsFrom fuel (.blanks (cs ++ [x])) (c.skip 1)
        | .lines _ _ =>
          if x == '\t' && (c.column : Int) < tabsFrom then none
          else scanGap tabsFrom fuel g (c.skip 1)
      else if isBreak x then
        let (b, c) := c.lineBreak
        match g with
        | .blanks _ => scanGap tabsFrom fuel (.lines b []) c
        | .lines first more => scanGap tabsFrom fuel (.lines first (more ++ b)) c
      else some (g, c)

/-! ### Plain scalars -/

/-- A character that has a meaning of its own inside a flow value. -/
def isFlowMark (c : Char) : Bool := ",?[]{}".toList.contains c

/-- A word of a plain scalar: it ends before white space, before a colon with white space after it
and, inside a flow value, before the characters that have a meaning there. -/
def plainWord (flow : Bool) : List Char → List Char
  | [] => []
  | x :: xs =>
    if isGap x || isBreak x || (x == ':' && startsBlank xs) || (flow && isFlowMark x) then []
    else x :: plainWord flow xs

/-- Goes on with a plain scalar behind some words and a gap. Outside of flow values, its lines have
to stand at least at the given column. Also tells whether the end of a line was passed at last. -/
def scanPlain (flow : Bool) (least : Int) :
    Nat → List Char → Gap → Cursor → Option (List Char × Bool × Cursor)
  | 0, text, gap, c => some (text, gap.isLines, c)
  | fuel + 1, text, gap, c =>
    let word := if c.atDocumentMark || c.sees (· == '#') then [] else plainWord flow c.rest
    if word.isEmpty then some (text, gap.isLines, c)
    else
      let text := text ++ gap.text ++ word
      match scanGap least (c.rest.length + 1) (.blanks []) (c.skip word.length) with
      | none => none
      | some (gap, c) =>
        if !flow && (c.column : Int) < least then some (text, gap.isLines, c)
        else scanPlain flow least fuel text gap c

/-! ### Quoted scalars -/

/-- A word between single quotes, and what follows it. Two quotes stand for one. -/
def singleWord : List Char → List Char × List Char
  | '\'' :: '\'' :: r =>
    let (word, rest) := singleWord r
    ('\'' :: word, rest)
  | '\'' :: r => ([], '\'' :: r)
  | x :: r =>
    if isGap x || isBreak x then ([], x :: r)
    else
      let (word, rest) := singleWord r
      (x :: word, rest)
  | [] => ([], [])

/-- The character that a letter after a backslash stands for. -/
def escape? (c : Char) : Option Char :=
  match c with
  | '0' => some (Char.ofNat 0)
  | 'a' => some (Char.ofNat 7)
  | 'b' => some (Char.ofNat 8)
  | 't' => some '\t'
  | '\t' => some '\t'
  | 'n' => some '\n'
  | 'v' => some (Char.ofNat 11)
  | 'f' => some (Char.ofNat 12)
  | 'r' => some '\r'
  | 'e' => some (Char.ofNat 27)
  | ' ' => some ' '
  | '"' => some '"'
  | '\'' => some '\''
  | '\\' => some '\\'
  | 'N' => some (Char.ofNat 0x85)
  | '_' => some (Char.ofNat 0xA0)
  | 'L' => some (Char.ofNat 0x2028)
  | 'P' => some (Char.ofNat 0x2029)
  | _ => none

/-- The number of hexadecimal digits after a letter that announces a code point. -/
def codeLength? (c : Char) : Option Nat :=
  if c == 'x' then some 2 else if c == 'u' then some 4 else if c == 'U' then some 8 else none

/-- The character of some hexadecimal digits. -/
def codePoint? (ds : List Char) : Option Char := do
  let n ← ds.foldlM (fun n d => (Json.hexDigit? d).map (n * 16 + ·)) 0
  if n.isValidChar then some (Char.ofNat n) else none

/-- A word between double quotes, and what follows it. A backslash before the end of a line is not
part of the word. -/
def doubleWord : Nat → List Char → Option (List Char × List Char)
  | 0, _ => none
  | _, [] => some ([], [])
  | fuel + 1, x :: xs =>
    if x == '"' || isGap x || isBreak x then some ([], x :: xs)
    else if x != '\\' then (doubleWord fuel xs).map (fun r => (x :: r.1, r.2))
    else
      match xs with
      | [] => none
      | e :: ys =>
        if isBreak e then some ([], x :: xs)
        else
          match codeLength? e with
          | some n =>
            if ys.length < n then none
            else
              match codePoint? (ys.take n), doubleWord fuel (ys.drop n) with
              | some d, some (word, rest) => some (d :: word, rest)
              | _, _ => none
          | none =>
            match escape? e, doubleWord fuel ys with
            | some d, some (word, rest) => some (d :: word, rest)
            | _, _ => none

/-- Goes on with a quoted scalar behind some text, up to its closing quote. -/
def scanQuoted (single : Bool) : Nat → List Char → Cursor → Option (List Char × Cursor)
  | 0, _, _ => none
  | fuel + 1, text, c =>
    if c.atDocumentMark || c.rest.isEmpty then none
    else
      match if single then some (singleWord c.rest) else doubleWord (c.rest.length + 1) c.rest with
      | none => none
      | some (word, rest) =>
        let text := text ++ word
        let c := c.skip (c.rest.length - rest.length)
        let (gap, c) :=
          if c.sees (· == '\\') && !single then (Gap.lines [] [], (c.skip 1).lineBreak.2)
          else (.blanks [], c)
        if c.sees (· == if single then '\'' else '"') then some (text, c.skip 1)
        else
          match scanGap 0 (c.rest.length + 1) gap c with
          | none => none
          | some (gap, c) => scanQuoted single fuel (text ++ gap.text) c

/-! ### Blocks of lines -/

/-- What becomes of the line breaks at the end of a block. -/
inductive Ending where
  | strip
  | clip
  | keep
deriving DecidableEq

/-- The sign that tells what becomes of the last line breaks. -/
def ending? : Option Char → Option Ending
  | some '+' => some .keep
  | some '-' => some .strip
  | _ => none

/-- A digit that tells how far a block is indented. -/
def increment? : Option Char → Option Nat
  | some x => if Json.isDigit x then some (x.toNat - 48) else none
  | none => none

/-- The ending and the indentation that the head of a block tells, zero if it does not, and what
follows. An indentation of zero cannot be told. -/
def blockHead (cs : List Char) : Option (Ending × Nat × List Char) :=
  let (ending, cs) := match ending? cs.head? with
    | some e => (some e, cs.drop 1)
    | none => (none, cs)
  let (increment, cs) := match increment? cs.head? with
    | some n => (some n, cs.drop 1)
    | none => (none, cs)
  let (ending, cs) := match ending, increment, ending? cs.head? with
    | none, some _, some e => (some e, cs.drop 1)
    | e, _, _ => (e, cs)
  if increment == some 0 then none else some (ending.getD .clip, increment.getD 0, cs)

/-- Passes over the indentation of lines and over empty lines: the breaks that were passed, the
greatest column that was reached, and the place behind. An indentation of zero is not known yet. -/
def scanEmptyLines (indent : Nat) :
    Nat → List Char → Nat → Cursor → Option (List Char × Nat × Cursor)
  | 0, breaks, deepest, c => some (breaks, deepest, c)
  | fuel + 1, breaks, deepest, c =>
    let spaces := (c.span (· == ' ')).length
    let c := c.skip (if indent = 0 then spaces else min spaces (indent - c.column))
    let deepest := max deepest c.column
    if (indent = 0 || c.column < indent) && c.sees (· == '\t') then none
    else if c.sees isBreak then
      let (b, c) := c.lineBreak
      scanEmptyLines indent fuel (breaks ++ b) deepest c
    else some (breaks, deepest, c)

/-- A block so far: its text, the break at the end of its last line, the breaks after that, and
whether that line starts with a blank. -/
structure BlockText where
  text : List Char := []
  lastBreak : List Char := []
  more : List Char := []
  afterBlank : Bool := false

/-- Goes on with the lines of a block. -/
def scanLines (folded : Bool) (indent : Nat) :
    Nat → BlockText → Cursor → Option (BlockText × Cursor)
  | 0, b, c => some (b, c)
  | fuel + 1, b, c =>
    if c.column != indent || c.rest.isEmpty then some (b, c)
    else
      let blank := c.sees isGap
      let joined := folded && !b.afterBlank && !blank && b.lastBreak.head? == some '\n'
      let between := if joined then (if b.more.isEmpty then [' '] else []) else b.lastBreak
      let line := c.span (fun x => !isBreak x)
      let (lastBreak, c) := c.skipLine.lineBreak
      match scanEmptyLines indent (c.rest.length + 1) [] 0 c with
      | none => none
      | some (more, _, c) =>
        scanLines folded indent fuel
          { text := b.text ++ between ++ b.more ++ line, lastBreak, more, afterBlank := blank } c

/-- A block whose mark has been passed, inside a block that is indented by `outer`. -/
def scanBlock (folded : Bool) (outer : Int) (c : Cursor) : Option (List Char × Cursor) :=
  match blockHead c.rest with
  | none => none
  | some (ending, increment, rest) =>
    let c := (c.skip (c.rest.length - rest.length)).skipWhile isGap
    let c := if c.sees (· == '#') then c.skipLine else c
    if !c.blankAfter 0 then none
    else
      let c := c.lineBreak.2
      let told := if increment = 0 then 0 else (max outer 0).toNat + increment
      match scanEmptyLines told (c.rest.length + 1) [] 0 c with
      | none => none
      | some (more, deepest, c) =>
        let indent := if told = 0 then max (max deepest (outer + 1).toNat) 1 else told
        match scanLines folded indent (c.rest.length + 1) { more } c with
        | none => none
        | some (b, c) =>
          some (b.text ++ (if ending == .strip then [] else b.lastBreak) ++
            (if ending == .keep then b.more else []), c)

end TapeMachine.Config.Yaml
