import TapeMachine.Text.Blank
import TapeMachine.Text.Bytes

/-!
# Comments

A comment opens at a `(` that stands at the start of its line, after white space or right after a
colon, and closes at the next `)` of the line; without one it runs to the end of the line. Removing
comments keeps the lines of a text apart, so later stages still point at the right line.
-/

namespace TapeMachine.Program

open Text

/-- Whether a comment may open right after the character. -/
def opensAfter (c : Char) : Bool :=
  isBlank c || c == ':'

/-- The rest of a line without its comments. `inside` says whether a comment is open, and `opens`
whether one may open here. -/
def stripFrom (inside opens : Bool) : List Char → List Char
  | [] => []
  | c :: cs =>
    if inside then stripFrom (c != ')') (opensAfter c) cs
    else if c == '(' && opens then stripFrom true (opensAfter c) cs
    else c :: stripFrom false (opensAfter c) cs

/-- A line without its comments. A line without an opening parenthesis is left as it is. -/
def stripLine (line : List Char) : List Char :=
  if '(' ∈ line then stripFrom false true line else line

/-- A line of bytes without its comments. In a line that is looked through, bytes that belong to no
character become replacement characters. -/
def stripBytes (line : Bytes) : Bytes :=
  if '(' ∈ chars line then bytes (.ofList (stripFrom false true (chars line))) else line

/-- Without an opening parenthesis there is no comment. -/
theorem stripFrom_of_notMem {cs : List Char} (h : '(' ∉ cs) (opens : Bool) :
    stripFrom false opens cs = cs := by
  induction cs generalizing opens with
  | nil => rfl
  | cons c cs ih =>
    have hc : c ≠ '(' := fun hc => h (hc ▸ List.mem_cons_self)
    have hcs := ih (fun hmem => h (List.mem_cons_of_mem _ hmem)) (opensAfter c)
    simp [stripFrom, hc, hcs]

/-- What is left of a line is the same whether or not it is looked through first. -/
theorem stripLine_eq_stripFrom (line : List Char) : stripLine line = stripFrom false true line := by
  rw [stripLine]
  split
  · rfl
  · rw [stripFrom_of_notMem ‹_›]

/-- Removing comments only leaves characters out. -/
theorem stripFrom_sublist (inside opens : Bool) (l : List Char) :
    List.Sublist (stripFrom inside opens l) l := by
  induction l generalizing inside opens with
  | nil => exact .slnil
  | cons c l ih =>
    rw [stripFrom]
    split
    · exact (ih _ _).cons c
    · split
      · exact (ih _ _).cons c
      · exact (ih _ _).cons_cons c

/-- Stripping a line only leaves characters out. -/
theorem stripLine_sublist (line : List Char) : (stripLine line).Sublist line := by
  rw [stripLine_eq_stripFrom]
  exact stripFrom_sublist _ _ _

/-- A text without its comments. -/
def stripComments (text : List Char) : List Char :=
  unlines ((lines text).map stripLine)

end TapeMachine.Program
