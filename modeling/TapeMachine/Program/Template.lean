import TapeMachine.Program.Error
import TapeMachine.Text.Blank

/-!
# Templates

A template is a named block of lines with parameters, written between a line that holds `#define`
and a line that holds `#enifed`. A call `{NAME ARG …}` stands for the template's lines with every
`{parameter}` replaced by its argument. Calls are replaced once, from left to right: what a
template puts in is not looked at again.
-/

namespace TapeMachine.Program

open Text

/-- A named block of lines with parameters. -/
structure Template where
  name : List Char
  params : List (List Char)
  body : List (List Char)
deriving DecidableEq

namespace Template

/-! ### Filling in a template -/

/-- A parameter as it stands in a template's lines. -/
def placeholder (param : List Char) : List Char :=
  '{' :: param ++ ['}']

/-- Each placeholder with the argument at its place, empty where an argument is missing. -/
def bindings : List (List Char) → List (List Char) → List (List Char × List Char)
  | [], _ => []
  | p :: ps, [] => (placeholder p, []) :: bindings ps []
  | p :: ps, a :: as => (placeholder p, a) :: bindings ps as

/-- The first binding whose placeholder starts the text. -/
def bindingAt? (bs : List (List Char × List Char)) (text : List Char) :
    Option (List Char × List Char) :=
  bs.find? (fun b => b.1.isPrefixOf text)

/-- Replaces placeholders from left to right; what was put in is not looked at again. The first
`skip` characters belong to a placeholder that has already been replaced. -/
def substitute (bs : List (List Char × List Char)) : Nat → List Char → List Char
  | _, [] => []
  | skip + 1, _ :: cs => substitute bs skip cs
  | 0, c :: cs =>
    match bindingAt? bs (c :: cs) with
    | some (p, a) => a ++ substitute bs (p.length - 1) cs
    | none => c :: substitute bs 0 cs

/-- The lines a call with these arguments stands for. -/
def expand (t : Template) (args : List (List Char)) : List Char :=
  unlines (t.body.map (substitute (bindings t.params args) 0))

end Template

/-! ### Finding definitions -/

/-- The mark that opens a definition. -/
def defineMark : List Char := "#define".toList

/-- The mark that closes a definition. -/
def endMark : List Char := "#enifed".toList

/-- The text after the first occurrence of `mark`, if there is one. -/
def after? (mark : List Char) : List Char → Option (List Char)
  | [] => if mark.isEmpty then some [] else none
  | c :: cs =>
    if mark.isPrefixOf (c :: cs) then some ((c :: cs).drop mark.length) else after? mark cs

/-- The template with a given name. -/
def findTemplate? (ts : List Template) (name : List Char) : Option Template :=
  ts.find? (fun t => t.name == name)

/-- Enters a template; a later definition of a name replaces the earlier one. -/
def defineTemplate (ts : List Template) (t : Template) : List Template :=
  t :: ts.filter (fun u => u.name != t.name)

/-- A definition that has been opened, the line that opened it, and its lines so far in reverse. -/
structure Definition where
  name : List Char
  params : List (List Char)
  start : Nat
  taken : List (List Char) := []

/-- What the lines of a text come to when definitions are taken out of it. -/
structure Extracted where
  lines : List (List Char)
  templates : List Template

/-- Takes the definitions out of the remaining lines. Lines are left empty where they belonged to
a definition. -/
def extractLines (ts : List Template) (number : Nat) (opened : Option Definition) :
    List (List Char) → Except Error Extracted
  | [] =>
    match opened with
    | some d => .error (.at d.start (.malformed (.openDefinition d.name)))
    | none => .ok ⟨[], ts⟩
  | l :: ls =>
    let leave (e : Except Error Extracted) (kept : List Char) : Except Error Extracted :=
      e.map (fun x => { x with lines := kept :: x.lines })
    match after? defineMark l, opened with
    | some _, some d => .error (.at number (.malformed (.nestedDefinition l d.name)))
    | some rest, none =>
      match words rest with
      | [] => .error (.at number (.malformed .namelessDefinition))
      | name :: params =>
        leave (extractLines ts (number + 1) (some { name, params, start := number }) ls) []
    | none, some d =>
      if (after? endMark l).isSome then
        leave (extractLines (defineTemplate ts ⟨d.name, d.params, d.taken.reverse⟩) (number + 1)
          none ls) []
      else
        leave (extractLines ts (number + 1) (some { d with taken := l :: d.taken }) ls) []
    | none, none => leave (extractLines ts (number + 1) none ls) l

/-- A text without its definitions, and the templates they define. -/
def extractTemplates (text : List Char) : Except Error (List Char × List Template) :=
  (extractLines [] 1 none (lines text)).map (fun x => (unlines x.lines, x.templates))

/-! ### Replacing calls -/

/-- The white space that ends the name in a call: the ASCII blanks without the vertical tab. -/
def endsName (c : Char) : Bool :=
  c == ' ' || c == '\t' || c == '\n' || c == '\r' || c.toNat == 12

/-- A brace. -/
def isBrace (c : Char) : Bool :=
  c == '{' || c == '}'

/-- The text between the braces of a call whose opening brace has just been passed: a name, and
possibly more after white space, with no brace in it. -/
def callBody? (cs : List Char) : Option (List Char) :=
  let name := cs.takeWhile (fun c => !(endsName c || isBrace c))
  let inner := cs.takeWhile (fun c => !isBrace c)
  match cs.drop inner.length with
  | '}' :: _ => if name.isEmpty then none else some inner
  | _ => none

/-- Replaces the calls of a text. `line` is the line reached, and the first `skip` characters
belong to a call that has already been replaced. -/
def expandFrom (ts : List Template) : Nat → Nat → List Char → Except Error (List Char)
  | _, _, [] => .ok []
  | line, skip + 1, c :: cs => expandFrom ts (if c == '\n' then line + 1 else line) skip cs
  | line, 0, c :: cs =>
    let plain := (expandFrom ts (if c == '\n' then line + 1 else line) 0 cs).map (c :: ·)
    if c == '{' then
      match callBody? cs with
      | none => plain
      | some inner =>
        match words inner with
        | [] => .error .namelessCall
        | name :: args =>
          match findTemplate? ts name with
          | none => .error (.at line (.undefinedTemplate name))
          | some t => (expandFrom ts line (inner.length + 1) cs).map (t.expand args ++ ·)
    else plain

/-- Replaces the calls of a text by what they stand for. -/
def expandTemplates (ts : List Template) (text : List Char) : Except Error (List Char) :=
  expandFrom ts 1 0 text

end TapeMachine.Program
