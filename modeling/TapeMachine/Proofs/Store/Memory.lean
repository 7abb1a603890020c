import TapeMachine.Proofs.Keyed
import TapeMachine.Store

/-!
# Stores and locks in memory

A shelf is a map from names to what is kept: saving and deleting change what is under one name and
nothing else (`Shelf.load_save`, `Shelf.load_delete`). The locks in one process are a set of grants:
a lock is granted exactly when no grant for its key is held, and giving a grant back takes away that
grant only. A backend in memory puts the two side by side and neither gets in the way of the other.
-/

namespace TapeMachine

/-! ## Shelves -/

namespace Shelf

variable {α : Type}

/-- After deleting a name there is nothing under it, and the same as before under every other. -/
theorem load_delete (s : Shelf α) (name other : Bytes) :
    (s.delete name).load other = if other = name then none else s.load other :=
  lookup_filter_ne s.items name other

/-- After saving something under a name it is there, and the same as before under every other name.
-/
theorem load_save (s : Shelf α) (name : Bytes) (x : α) (other : Bytes) :
    (s.save name x).load other = if other = name then some x else s.load other :=
  lookup_filter_ne_append s.items name other x

end Shelf

/-! ## Locks -/

namespace Locks

variable {l : Locks} {key : Bytes}

/-- The lock on a key is free when no grant for it is held. -/
lemma isHeld_eq_false_iff : l.isHeld key = false ↔ ∀ g ∈ l.held, g.key ≠ key := by
  simp [isHeld]

/-- A lock is granted exactly when it is free, and then the new grant is held too. -/
theorem lock_eq_ok_iff {caller : Caller} {l' : Locks} {g : Grant} :
    l.lock caller key = some (.ok (l', g)) ↔
      l.isHeld key = false ∧ g = ⟨key, l.next⟩ ∧
        l' = { held := g :: l.held, next := l.next + 1 } := by
  unfold lock
  by_cases h : l.isHeld key = true
  · simp [h]
  · have hfree : l.isHeld key = false := Bool.eq_false_iff.mpr h
    rw [if_neg h]
    constructor
    · intro heq
      cases heq
      exact ⟨hfree, rfl, rfl⟩
    · rintro ⟨-, rfl, rfl⟩
      rfl

/-- What is held after a grant has been given back. -/
lemma mem_held_unlock {g g' : Grant} : g ∈ (l.unlock g').held ↔ g ∈ l.held ∧ g ≠ g' := by
  simp [unlock]

end Locks

/-! ## Backends in memory -/

namespace Backend

variable {σ : Type} [Redis.KeyServer σ] {b : Backend σ} {shelf : Shelf}

/-- The locks of a backend in memory are those of the process. -/
lemma lock_eq_ok_iff (hb : b.store = .memory shelf) {caller : Caller} {key : Bytes} {life : ℕ}
    {b' : Backend σ} {g : Grant} :
    b.lock caller key life = some (.ok (b', g)) ↔
      ∃ locks, b.locks.lock caller key = some (.ok (locks, g)) ∧ b' = { b with locks } := by
  unfold lock
  rw [hb]
  simp only
  constructor
  · intro h
    obtain ⟨r, hr, hmap⟩ := Option.map_eq_some_iff.mp h
    cases r with
    | error e => cases hmap
    | ok x =>
      cases hmap
      exact ⟨x.1, hr, rfl⟩
  · rintro ⟨locks, h, rfl⟩
    rw [h]
    rfl

/-- Giving a grant back changes nothing but the locks. -/
lemma unlock_of_memory (hb : b.store = .memory shelf) (caller : Caller) (g : Grant) :
    b.unlock caller g = ({ b with locks := b.locks.unlock g }, none) := by
  unfold unlock
  rw [hb]

end Backend

end TapeMachine
