import Mathlib.Data.List.Induction
import Mathlib.Data.List.Nodup
import Mathlib.Tactic.Common

/-!
# Lists under keys

Shelves, key servers and trees of files are lists of things under keys. They change in two ways: a
key is taken out, or it is taken out and put in again at the end with something else. Either way one
key changes, and every other key has what it had (`lookup_filter_ne`, `lookup_filter_ne_append`);
and where every key was in the list once, it still is. A list in which keys occur more than once is
left with the first occurrence of each, and then has every key once (`nodup_eraseDups`).
-/

namespace TapeMachine

variable {α β : Type}

/-! ## What is under a key -/

section Lookup

variable [BEq α] [LawfulBEq α] [DecidableEq α]

/-- What is left when a key is taken out of a list. -/
lemma lookup_filter_ne (items : List (α × β)) (key other : α) :
    (items.filter fun x => x.1 != key).lookup other =
      if other = key then none else items.lookup other := by
  induction items with
  | nil => simp
  | cons x items ih =>
    obtain ⟨k, b⟩ := x
    by_cases hk : k = key
    · subst hk
      rw [List.filter_cons_of_neg (by simp), ih]
      split
      · rfl
      · rename_i hne
        rw [List.lookup_cons, beq_eq_false_iff_ne.mpr hne]
    · rw [List.filter_cons_of_pos (by simpa using hk), List.lookup_cons, List.lookup_cons, ih]
      by_cases hother : other = k
      · subst hother
        simp [hk]
      · rw [beq_eq_false_iff_ne.mpr hother]

/-- What is there when a key has been taken out and is put in again with something else. -/
lemma lookup_filter_ne_append (items : List (α × β)) (key other : α) (b : β) :
    ((items.filter fun x => x.1 != key) ++ [(key, b)]).lookup other =
      if other = key then some b else items.lookup other := by
  rw [List.lookup_append, lookup_filter_ne, List.lookup_cons]
  by_cases hother : other = key
  · subst hother
    simp
  · rw [if_neg hother, if_neg hother, beq_eq_false_iff_ne.mpr hother]
    exact Option.or_none

end Lookup

/-! ## Which keys there are -/

/-- Keys that are in a list once are so in any part of it. -/
lemma nodup_keys_filter {items : List (α × β)} (h : (items.map (·.1)).Nodup) (p : α × β → Bool) :
    ((items.filter p).map (·.1)).Nodup :=
  h.sublist (List.filter_sublist.map _)

variable [BEq α] [LawfulBEq α]

/-- What is found under a key is there. -/
lemma mem_of_lookup_eq_some {items : List (α × β)} {key : α} {b : β}
    (h : items.lookup key = some b) : (key, b) ∈ items := by
  obtain ⟨before, after, heq, -⟩ := List.lookup_eq_some_iff.mp h
  simp [heq]

/-- A key is looked up in vain exactly when it is not there. -/
lemma lookup_eq_none_iff {items : List (α × β)} {key : α} :
    items.lookup key = none ↔ key ∉ items.map (·.1) := by
  rw [List.lookup_eq_none_iff]
  constructor
  · intro h hkey
    obtain ⟨x, hx, rfl⟩ := List.mem_map.mp hkey
    simpa using h x hx
  · intro h x hx
    exact bne_iff_ne.mpr fun hkey => h (List.mem_map.mpr ⟨x, hx, hkey.symm⟩)

/-- With keys that are there once, looking up a key gives what is under it. -/
lemma lookup_eq_some_of_mem {items : List (α × β)} (hnd : (items.map (·.1)).Nodup) {key : α} {b : β}
    (h : (key, b) ∈ items) : items.lookup key = some b := by
  induction items with
  | nil => cases h
  | cons x items ih =>
    obtain ⟨k, c⟩ := x
    rw [List.map_cons, List.nodup_cons] at hnd
    rcases List.mem_cons.mp h with heq | hmem
    · cases heq
      simp
    · have hne : (key == k) = false :=
        beq_eq_false_iff_ne.mpr fun hkey => hnd.1 (List.mem_map.mpr ⟨(key, b), hmem, hkey⟩)
      rw [List.lookup_cons, hne]
      exact ih hnd.2 hmem

/-- The keys that are left when a key is taken out of a list. -/
lemma mem_keys_filter_ne {items : List (α × β)} {key other : α} :
    other ∈ (items.filter fun x => x.1 != key).map (·.1) ↔
      other ∈ items.map (·.1) ∧ other ≠ key := by
  simp only [List.mem_map, List.mem_filter, bne_iff_ne]
  constructor
  · rintro ⟨x, ⟨hx, hne⟩, rfl⟩
    exact ⟨⟨x, hx, rfl⟩, hne⟩
  · rintro ⟨⟨x, hx, rfl⟩, hne⟩
    exact ⟨x, ⟨hx, hne⟩, rfl⟩

/-- Keys that are in a list once are so when one of them is put in anew. -/
lemma nodup_keys_filter_append {items : List (α × β)} (h : (items.map (·.1)).Nodup) (key : α)
    (b : β) : (((items.filter fun x => x.1 != key) ++ [(key, b)]).map (·.1)).Nodup := by
  rw [List.map_append]
  refine List.nodup_append.mpr ⟨nodup_keys_filter h _, List.pairwise_singleton _ key, ?_⟩
  intro k hk k' hk' heq
  rw [List.map_singleton, List.mem_singleton] at hk'
  exact (mem_keys_filter_ne.mp hk).2 (heq.trans hk')

/-! ## The first occurrences -/

section EraseDups

variable {α : Type} [BEq α] [LawfulBEq α]

/-- A list without repetitions stays one when an element is added that it may have already. -/
lemma nodup_ite_append {l : List α} (h : l.Nodup) (a : α) :
    (if a ∈ l then l else l ++ [a]).Nodup := by
  split
  · exact h
  · rename_i ha
    exact List.nodup_append.mpr ⟨h, List.nodup_singleton a,
      fun b hb c hc hbc => ha (List.mem_singleton.mp hc ▸ hbc ▸ hb)⟩

/-- A list without repetitions takes one more element if it does not have it. -/
lemma eraseDups_concat (l : List α) (a : α) :
    (l ++ [a]).eraseDups = if a ∈ l then l.eraseDups else l.eraseDups ++ [a] := by
  rw [List.eraseDups_append, List.removeAll]
  by_cases ha : a ∈ l
  · simp [ha]
  · simp [ha, List.eraseDups_cons]

/-- Without its repetitions a list has no repetition. -/
lemma nodup_eraseDups (l : List α) : l.eraseDups.Nodup := by
  induction l using List.reverseRecOn with
  | nil => simp
  | append_singleton l a ih =>
    rw [eraseDups_concat]
    have hone := nodup_ite_append ih a
    simpa only [List.mem_eraseDups] using hone

end EraseDups

end TapeMachine
