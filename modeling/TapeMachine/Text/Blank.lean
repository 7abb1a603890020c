/-!
# White space

Which characters count as white space, and the two operations that every reader of this library
builds on: cutting a text wherever a character satisfies a test, and taking the words of a text.
The lines of a text are its pieces between newlines, and its words are the non-empty pieces
between white space.
-/

namespace TapeMachine.Text

/-! ### Character classes -/

/-- White space: tab to carriage return, the space, and the spaces of Unicode. -/
def isBlank (c : Char) : Bool :=
  let n := c.toNat
  (9 ≤ n && n ≤ 13) || n == 0x20 || n == 0x85 || n == 0xA0 || n == 0x1680 ||
    (0x2000 ≤ n && n ≤ 0x200A) || n == 0x2028 || n == 0x2029 || n == 0x202F ||
    n == 0x205F || n == 0x3000

/-- Control characters: those below the space, and from delete up to the no-break space. -/
def isControl (c : Char) : Bool :=
  let n := c.toNat
  n < 0x20 || (0x7F ≤ n && n < 0xA0)

/-! ### Cutting a text -/

/-- The pieces of a list between the elements that satisfy `p`; there is always one more piece
than there are such elements. -/
def pieces {α : Type} (p : α → Bool) : List α → List (List α)
  | [] => [[]]
  | a :: as =>
    if p a then [] :: pieces p as
    else
      match pieces p as with
      | [] => [[a]]
      | q :: qs => (a :: q) :: qs

/-- The lines of a text, without their newlines. -/
def lines (text : List Char) : List (List Char) :=
  pieces (· == '\n') text

/-- Puts lines back together, with a newline between each two. -/
def unlines : List (List Char) → List Char
  | [] => []
  | [l] => l
  | l :: m :: ls => l ++ '\n' :: unlines (m :: ls)

/-- The words of a text: its maximal runs of characters that are not white space. -/
def words (text : List Char) : List (List Char) :=
  (pieces isBlank text).filter (fun w => !w.isEmpty)

/-- A text without the white space at its two ends. -/
def trim (text : List Char) : List Char :=
  ((text.dropWhile isBlank).reverse.dropWhile isBlank).reverse

/-! ### Small laws -/

/-- Cutting gives at least one piece. -/
theorem pieces_ne_nil {α : Type} (p : α → Bool) (as : List α) : pieces p as ≠ [] := by
  cases as with
  | nil => simp [pieces]
  | cons a as =>
    rw [pieces]
    split
    · simp
    · split <;> simp

/-- There is one piece more than there are places to cut. -/
@[simp] theorem length_pieces {α : Type} (p : α → Bool) (as : List α) :
    (pieces p as).length = as.countP p + 1 := by
  induction as with
  | nil => simp [pieces]
  | cons a as ih =>
    rw [pieces]
    by_cases h : p a
    · simp [h, ih]
    · simp only [h, Bool.false_eq_true, if_false]
      split
      · rename_i heq
        exact absurd heq (pieces_ne_nil p as)
      · rename_i q qs heq
        rw [heq] at ih
        simpa [h] using ih

/-- Cutting a text into lines and joining them again gives the text. -/
@[simp] theorem unlines_lines (text : List Char) : unlines (lines text) = text := by
  induction text with
  | nil => simp [lines, pieces, unlines]
  | cons c cs ih =>
    rw [lines, pieces]
    rw [lines] at ih
    have hne := pieces_ne_nil (· == '\n') cs
    by_cases h : c = '\n'
    · subst h
      cases hp : pieces (· == '\n') cs with
      | nil => exact absurd hp hne
      | cons q qs =>
        rw [hp] at ih
        simp only [beq_self_eq_true, if_true, unlines, List.nil_append, ih]
    · have h' : (c == '\n') = false := by simp [h]
      simp only [h', Bool.false_eq_true, if_false]
      cases hp : pieces (· == '\n') cs with
      | nil => exact absurd hp hne
      | cons q qs =>
        rw [hp] at ih
        cases qs with
        | nil => simp [unlines] at ih ⊢; exact ih
        | cons r rs => simp [unlines] at ih ⊢; exact ih

end TapeMachine.Text
