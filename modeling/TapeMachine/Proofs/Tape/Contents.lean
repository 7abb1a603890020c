import Mathlib.Tactic.Common
import TapeMachine.Tape

/-!
# What the cells of a tape hold

A tape keeps only cells that hold something, each with its age. Seen from outside it is a total
function from positions to symbols, `Tape.symbolAt`. The lemmas below say what every operation does
to that function and to the head, so that later proofs need not open the store of cells.
-/

namespace TapeMachine

namespace Tape

/-! ## The head -/

/-- Storing a symbol leaves the head where it is. -/
@[simp] lemma head_put (t : Tape) (pos : Int) (symbol : String) :
    (t.put pos symbol).head = t.head := by
  unfold put
  split <;> rfl

/-- Storing the input leaves the head where it is. -/
@[simp] lemma head_seed (t : Tape) (pos : Int) (cs : List Char) :
    (t.seed pos cs).head = t.head := by
  induction cs generalizing t pos with
  | nil => rfl
  | cons c cs ih => rw [seed, ih, head_put]

/-- The head of a fresh tape is on position 0. -/
@[simp] lemma head_ofInput (input : String) : (ofInput input).head = 0 := by
  rw [ofInput, head_seed]

/-- Writing leaves the head where it is. -/
@[simp] lemma head_write (t : Tape) (symbol : String) : (t.write symbol).head = t.head := by
  unfold write
  split
  · rfl
  · split
    · rfl
    · exact head_put t t.head symbol

/-- A move shifts the head. -/
@[simp] lemma head_move (t : Tape) (d : Direction) : (t.move d).head = d.shift t.head := rfl

/-! ## The cells -/

/-- What the cells hold after a symbol was put into one of them. -/
lemma symbolAt_put (t : Tape) (pos : Int) (symbol : String) (p : Int) :
    (t.put pos symbol).symbolAt p = if p = pos then symbol else t.symbolAt p := by
  have hcmp : compare pos p = .eq ↔ p = pos := by
    rw [Std.compare_eq_iff_eq]
    exact eq_comm
  unfold put
  split <;> by_cases h : p = pos <;> simp [symbolAt, Std.TreeMap.getElem?_insert, hcmp, h]

/-- What the cells hold after an input was written from `pos` on. -/
lemma symbolAt_seed (t : Tape) (pos : Int) (cs : List Char) (p : Int) :
    (t.seed pos cs).symbolAt p =
      if pos ≤ p then ((cs[(p - pos).toNat]?).map String.singleton).getD (t.symbolAt p)
      else t.symbolAt p := by
  induction cs generalizing t pos with
  | nil => simp [seed]
  | cons c cs ih =>
    rw [seed, ih, symbolAt_put]
    rcases Int.lt_trichotomy p pos with h | h | h
    · have h1 : ¬ pos + 1 ≤ p := by omega
      have h2 : ¬ pos ≤ p := by omega
      have h3 : ¬ p = pos := by omega
      simp only [h1, h2, h3, if_false]
    · subst h
      have h1 : ¬ p + 1 ≤ p := by omega
      simp only [h1, if_false, if_true, Int.le_refl, Int.sub_self, Int.toNat_zero,
        List.getElem?_cons_zero, Option.map_some, Option.getD_some]
      rfl
    · have h1 : pos + 1 ≤ p := by omega
      have h2 : pos ≤ p := by omega
      have h3 : ¬ p = pos := by omega
      have h4 : (p - pos).toNat = (p - (pos + 1)).toNat + 1 := by omega
      simp only [h1, h2, h3, h4, if_true, if_false, List.getElem?_cons_succ]

/-- A fresh tape holds the characters of the input from position 0 on, and blanks elsewhere. -/
theorem symbolAt_ofInput (input : String) (p : Int) :
    (ofInput input).symbolAt p =
      if 0 ≤ p then ((input.toList[p.toNat]?).map String.singleton).getD blank else blank := by
  have hempty : ({} : Tape).symbolAt p = blank := by
    simp [symbolAt]
  rw [ofInput, symbolAt_seed, hempty, Int.sub_zero]

/-- What the cells hold after writing under the head: the wildcard keeps the cell, and every other
symbol is what the cell holds afterwards, the blank too. -/
theorem symbolAt_write (t : Tape) (symbol : String) (p : Int) :
    (t.write symbol).symbolAt p =
      if symbol ≠ wildcard ∧ p = t.head then symbol else t.symbolAt p := by
  have hcmp : compare t.head p = .eq ↔ p = t.head := by
    rw [Std.compare_eq_iff_eq]
    exact eq_comm
  unfold write
  by_cases hw : symbol = wildcard
  · simp [hw]
  · by_cases hb : symbol = blank
    · subst hb
      by_cases hp : p = t.head
      · simp [hw, hp, symbolAt]
      · simp [hw, hp, hcmp, symbolAt, Std.TreeMap.getElem?_erase]
    · simp [hw, hb, symbolAt_put]

/-- Moving the head leaves the cells as they are. -/
@[simp] lemma symbolAt_move (t : Tape) (d : Direction) (p : Int) :
    (t.move d).symbolAt p = t.symbolAt p := rfl

/-! ## The text of a tape -/

/-- Read from left to right, a tape is the text of its symbols at positions in increasing order, and
no position that holds something else than a blank is left out. -/
theorem render_leftToRight (t : Tape) :
    ∃ ps : List Int, ps.Pairwise (· < ·) ∧ (∀ p, t.symbolAt p ≠ blank → p ∈ ps) ∧
      t.render true = String.join (ps.map t.symbolAt) := by
  refine ⟨t.cells.keys, ?_, ?_, ?_⟩
  · have hordered := t.cells.ordered_keys
    exact hordered.imp fun h => Int.compare_eq_lt.mp h
  · intro p hp
    rw [Std.TreeMap.mem_keys, ← Std.TreeMap.isSome_getElem?_iff_mem]
    cases hc : t.cells[p]? with
    | some c => rfl
    | none => exact absurd (by simp [symbolAt, hc]) hp
  · have hsymbols : t.leftToRight.map (·.symbol) = t.cells.keys.map t.symbolAt := by
      rw [leftToRight, ← Std.TreeMap.map_fst_toList_eq_keys, List.map_map, List.map_map]
      refine List.map_congr_left fun kc hkc => ?_
      have hc : t.cells[kc.1]? = some kc.2 :=
        Std.TreeMap.mem_toList_iff_getElem?_eq_some.mp hkc
      simp [symbolAt, hc]
    change String.join (t.leftToRight.map (·.symbol)) = _
    rw [hsymbols]

end Tape

end TapeMachine
