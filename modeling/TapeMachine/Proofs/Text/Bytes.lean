import Mathlib.Data.Nat.Notation
import Mathlib.Logic.Function.Basic
import TapeMachine.Text.Bytes

/-!
# Bytes and the texts they show

A character can be read back from its bytes, whatever follows them (`frontChar?_append`), so a text
is what its bytes show (`shown_bytes`), and different texts have different bytes.
-/

namespace TapeMachine.Text

/-- A character can be read from its bytes, whatever follows them. -/
lemma frontChar?_append (c : Char) (bs : Bytes) :
    frontChar? (String.utf8EncodeChar c ++ bs) = some c := by
  have hlength : (String.utf8EncodeChar c).length ≤ 4 := by
    rw [String.length_utf8EncodeChar]
    exact c.utf8Size_le_four
  rw [frontChar?, List.take_append, List.take_of_length_le hlength, List.toByteArray_append]
  exact ByteArray.utf8DecodeChar?_utf8EncodeChar_append

/-- Bytes that belong to a character that has been read already are passed over. -/
lemma runesAfter_append {n : ℕ} {as : Bytes} (h : as.length = n) (bs : Bytes) :
    runesAfter n (as ++ bs) = runesAfter 0 bs := by
  induction n generalizing as with
  | zero =>
    rw [List.length_eq_zero_iff.mp h, List.nil_append]
  | succ n ih =>
    cases as with
    | nil => cases h
    | cons a as =>
      rw [List.cons_append, runesAfter]
      exact ih (Nat.succ.inj h)

/-- The first rune of bytes that start with a character is the character. -/
lemma runes_append (c : Char) (bs : Bytes) :
    runes (String.utf8EncodeChar c ++ bs) = .char c :: runes bs := by
  have hlength : (String.utf8EncodeChar c).length = c.utf8Size := String.length_utf8EncodeChar c
  have hfront := frontChar?_append c bs
  cases h : String.utf8EncodeChar c with
  | nil =>
    rw [h] at hlength
    exact absurd hlength.symm (Nat.ne_of_gt c.utf8Size_pos)
  | cons b as =>
    rw [h] at hlength hfront
    have hrest : as.length = c.utf8Size - 1 := by
      rw [← hlength, List.length_cons, Nat.add_sub_cancel]
    rw [runes, List.cons_append, runesAfter, ← List.cons_append, hfront, runes]
    exact congrArg (Rune.char c :: ·) (runesAfter_append hrest bs)

/-- The runes of a text are its characters. -/
theorem runes_bytes (s : String) : runes (bytes s) = s.toList.map .char := by
  rw [bytes]
  induction s.toList with
  | nil => rfl
  | cons c cs ih => rw [List.flatMap_cons, runes_append, ih, List.map_cons]

/-- The bytes of a text are read as its characters. -/
@[simp] lemma chars_bytes (s : String) : chars (bytes s) = s.toList := by
  rw [chars, runes_bytes, List.map_map]
  exact List.map_id _

/-- A text is what its bytes show. -/
@[simp] theorem shown_bytes (s : String) : shown (bytes s) = s := by
  rw [shown, chars_bytes, String.ofList_toList]

/-- The bytes of a text are a text. -/
@[simp] lemma text?_bytes (s : String) : text? (bytes s) = some s := by
  rw [text?, runes_bytes, if_pos (by simp [Rune.isChar]), shown_bytes]

/-- Different texts have different bytes. -/
theorem bytes_injective : Function.Injective bytes :=
  Function.LeftInverse.injective shown_bytes

end TapeMachine.Text
