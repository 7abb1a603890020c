import Mathlib.Logic.Function.Basic
import TapeMachine.Proofs.Table.Reachable
import TapeMachine.Table.Diff

/-!
# Following a table by its differences

Whoever follows a table by the differences that are announced keeps a replica: a map from pairs of
state and symbol to transitions, and a start state. `Replica.patch` takes a difference in: the pairs
of removed transitions are dropped, added and changed transitions are set, and the start is replaced
if there is a new one.

The law of differences is `replica_patch_between`: patching the replica of the old table, or the
empty replica if there was none, gives the replica of the new one. A difference that is empty
patches nothing (`patch_of_isEmpty`), and so tables between which nothing differs have the same
replica, that is, the same start and the same transitions.
-/

namespace TapeMachine

/-- A table as those keep it who follow its differences. -/
@[ext]
structure Replica where
  rules : String × String → Option Transition
  initial : String

namespace Replica

/-- The replica of a table that is not there. -/
def empty : Replica := ⟨fun _ => none, ""⟩

/-- Puts transitions under their pairs of state and symbol, one after the other. -/
def set (rs : List Transition) (m : String × String → Option Transition) :
    String × String → Option Transition :=
  rs.foldl (fun m r => Function.update m r.key (some r)) m

/-- Drops the pairs of transitions. -/
def drop (rs : List Transition) (m : String × String → Option Transition) :
    String × String → Option Transition :=
  fun k => if k ∈ rs.map Transition.key then none else m k

/-- Takes a difference in. -/
def patch (m : Replica) (d : TableDiff) : Replica where
  rules := set d.changed (set d.added (drop d.removed m.rules))
  initial := d.initial.getD m.initial

/-- Patching drops what is removed, and then sets what is added and what is changed. -/
lemma rules_patch (m : Replica) (d : TableDiff) :
    (m.patch d).rules = set d.changed (set d.added (drop d.removed m.rules)) := rfl

/-! ## Setting and dropping -/

section Rules

variable {rs : List Transition} {m : String × String → Option Transition} {k : String × String}

/-- Setting other pairs does not change what stands under a pair. -/
lemma set_of_forall_ne (h : ∀ r ∈ rs, r.key ≠ k) : set rs m k = m k := by
  induction rs generalizing m with
  | nil => rfl
  | cons q rs ih =>
    rw [set, List.foldl_cons, ← set, ih fun r hr => h r (List.mem_cons_of_mem _ hr)]
    exact Function.update_of_ne (h q List.mem_cons_self).symm _ _

/-- A transition that is set stands under its pair if no other one has the same pair. -/
lemma set_of_mem {r : Transition} (hr : r ∈ rs) (h : ∀ q ∈ rs, q.key = r.key → q = r) :
    set rs m r.key = some r := by
  induction rs generalizing m with
  | nil => cases hr
  | cons q rs ih =>
    have htail : ∀ p ∈ rs, p.key = r.key → p = r := fun p hp => h p (List.mem_cons_of_mem _ hp)
    rw [set, List.foldl_cons, ← set]
    by_cases hmem : r ∈ rs
    · exact ih hmem htail
    · -- Nothing that is set later has this pair, so the transition is the one that is set here.
      obtain rfl : r = q := (List.mem_cons.mp hr).resolve_right hmem
      have hlater : ∀ p ∈ rs, p.key ≠ r.key := fun p hp hk => hmem (htail p hp hk ▸ hp)
      rw [set_of_forall_ne hlater, Function.update_self]

/-- What is dropped is not there any more. -/
lemma drop_of_mem {r : Transition} (hr : r ∈ rs) : drop rs m r.key = none :=
  if_pos (List.mem_map_of_mem hr)

/-- Dropping leaves what has another key. -/
lemma drop_of_forall_ne (h : ∀ r ∈ rs, r.key ≠ k) : drop rs m k = m k := by
  refine if_neg fun hmem => ?_
  obtain ⟨r, hr, hk⟩ := List.mem_map.mp hmem
  exact h r hr hk

end Rules

/-- An empty difference changes nothing. -/
theorem patch_of_isEmpty (m : Replica) {d : TableDiff} (h : d.isEmpty = true) : m.patch d = m := by
  simp only [TableDiff.isEmpty, Bool.and_eq_true, List.isEmpty_iff, Option.isNone_iff_eq_none] at h
  obtain ⟨⟨⟨hadded, hremoved⟩, hchanged⟩, hinitial⟩ := h
  rw [patch, hadded, hremoved, hchanged, hinitial]
  rfl

end Replica

/-! ## The replica of a table -/

/-- The map and the start of a table. -/
def Table.replica (t : Table) : Replica where
  rules := TableDiff.find? t.transitions
  initial := t.initial

/-- The replica of a table that may not be there. -/
def Replica.ofTable? (t : Option Table) : Replica :=
  (t.map Table.replica).getD .empty

namespace Table.WellFormed

/-- A pair has the transition in the map that it has in the table. -/
lemma find?_eq_some_iff {t : Table} (h : t.WellFormed) {k : String × String} {r : Transition} :
    TableDiff.find? t.transitions k = some r ↔ r ∈ t.transitions ∧ r.key = k := by
  constructor
  · intro hf
    exact ⟨List.mem_of_find?_eq_some hf, by simpa using List.find?_some hf⟩
  · rintro ⟨hr, rfl⟩
    cases hf : TableDiff.find? t.transitions r.key with
    | none => simpa using List.find?_eq_none.mp hf r hr
    | some q =>
      have hk : q.key = r.key := by simpa using List.find?_some hf
      rw [h.eq_of_key_eq (List.mem_of_find?_eq_some hf) hr hk]

/-- Tables with the same replica have the same transitions, in whatever order. -/
lemma mem_transitions_iff_of_replica_eq {a b : Table} (ha : a.WellFormed) (hb : b.WellFormed)
    (h : a.replica = b.replica) {r : Transition} : r ∈ a.transitions ↔ r ∈ b.transitions := by
  have hrules : TableDiff.find? a.transitions r.key = TableDiff.find? b.transitions r.key :=
    congrFun (congrArg Replica.rules h) r.key
  constructor
  · intro hr
    exact (hb.find?_eq_some_iff.mp (hrules ▸ ha.find?_eq_some_iff.mpr ⟨hr, rfl⟩)).1
  · intro hr
    exact (ha.find?_eq_some_iff.mp (hrules ▸ hb.find?_eq_some_iff.mpr ⟨hr, rfl⟩)).1

end Table.WellFormed

/-! ## The law of differences -/

/-- Looking in vain for a pair means that no transition has it. -/
lemma TableDiff.find?_eq_none_iff {ts : List Transition} {k : String × String} :
    find? ts k = none ↔ ∀ r ∈ ts, r.key ≠ k := by
  simp [find?]

/-- Looking for the pair of a transition that is there finds one. -/
lemma TableDiff.find?_key_ne_none {ts : List Transition} {r : Transition} (hr : r ∈ ts) :
    find? ts r.key ≠ none :=
  fun h => find?_eq_none_iff.mp h r hr rfl

/-- Added and changed transitions are transitions of the new table. -/
lemma TableDiff.mem_of_mem_added {old : Option Table} {new : Table} {r : Transition}
    (hr : r ∈ (between old new).added) : r ∈ new.transitions :=
  (List.mem_filter.mp hr).1

/-- What has changed is listed as it is in the new table. -/
lemma TableDiff.mem_of_mem_changed {old : Option Table} {new : Table} {r : Transition}
    (hr : r ∈ (between old new).changed) : r ∈ new.transitions :=
  (List.mem_filter.mp hr).1

namespace Replica

section Between

variable {old : Option Table} {new : Table} {k : String × String}

/-- The map of a table that may not be there is that of its transitions. -/
lemma rules_ofTable? (old : Option Table) :
    (ofTable? old).rules = TableDiff.find? ((old.map Table.transitions).getD []) := by
  cases old <;> rfl

/-- The start after a difference is that of the new table. -/
lemma initial_patch_between (old : Option Table) (new : Table) :
    ((ofTable? old).patch (.between old new)).initial = new.initial := by
  cases old with
  | none => rfl
  | some o =>
    change (if o.initial == new.initial then none else some new.initial).getD o.initial = _
    by_cases h : o.initial = new.initial
    · simp [h]
    · simp [h]

/-- A pair that the new table does not have is dropped, or was not there. -/
lemma rules_patch_between_of_none (hk : TableDiff.find? new.transitions k = none) :
    ((ofTable? old).patch (.between old new)).rules k = none := by
  have hnew := TableDiff.find?_eq_none_iff.mp hk
  have hset : ((ofTable? old).patch (.between old new)).rules k =
      drop (TableDiff.between old new).removed (ofTable? old).rules k := by
    rw [rules_patch, set_of_forall_ne fun r hr => hnew r (TableDiff.mem_of_mem_changed hr),
      set_of_forall_ne fun r hr => hnew r (TableDiff.mem_of_mem_added hr)]
  rw [hset, rules_ofTable?]
  cases hold : TableDiff.find? ((old.map Table.transitions).getD []) k with
  | none =>
    rw [drop, hold]
    exact ite_self none
  | some p =>
    obtain rfl : p.key = k := by simpa using List.find?_some hold
    have hremoved : p ∈ (TableDiff.between old new).removed :=
      List.mem_filter.mpr ⟨List.mem_of_find?_eq_some hold, by rw [hk]; rfl⟩
    exact drop_of_mem hremoved

/-- A transition of the new table is set, or was there before. -/
lemma rules_patch_between_of_mem (hnew : new.WellFormed) {r : Transition}
    (hr : r ∈ new.transitions) :
    ((ofTable? old).patch (.between old new)).rules r.key = some r := by
  -- What is set under the pair of the transition is the transition itself.
  have hsame : ∀ q ∈ new.transitions, q.key = r.key → q = r :=
    fun q hq hk => hnew.eq_of_key_eq hq hr hk
  rw [rules_patch]
  by_cases hchanged : r ∈ (TableDiff.between old new).changed
  · exact set_of_mem hchanged fun q hq => hsame q (TableDiff.mem_of_mem_changed hq)
  have hrest : ∀ q ∈ (TableDiff.between old new).changed, q.key ≠ r.key :=
    fun q hq hk => hchanged (hsame q (TableDiff.mem_of_mem_changed hq) hk ▸ hq)
  rw [set_of_forall_ne hrest]
  by_cases hadded : r ∈ (TableDiff.between old new).added
  · exact set_of_mem hadded fun q hq => hsame q (TableDiff.mem_of_mem_added hq)
  have hrest : ∀ q ∈ (TableDiff.between old new).added, q.key ≠ r.key :=
    fun q hq hk => hadded (hsame q (TableDiff.mem_of_mem_added hq) hk ▸ hq)
  have hkept : ∀ q ∈ (TableDiff.between old new).removed, q.key ≠ r.key := by
    intro q hq hk
    have hgone := (List.mem_filter.mp hq).2
    rw [hk, Option.isNone_iff_eq_none] at hgone
    exact TableDiff.find?_key_ne_none hr hgone
  rw [set_of_forall_ne hrest, drop_of_forall_ne hkept, rules_ofTable?]
  -- The pair was there, or the transition were added, and not differently, or it were changed.
  cases hold : TableDiff.find? ((old.map Table.transitions).getD []) r.key with
  | none => exact absurd (List.mem_filter.mpr ⟨hr, by rw [hold]; rfl⟩) hadded
  | some p =>
    refine congrArg some (by_contra fun hp => hchanged ?_)
    exact List.mem_filter.mpr ⟨hr, by rw [hold]; exact bne_iff_ne.mpr hp⟩

end Between

/-- Patching the replica of the old table by its difference to the new one gives the replica of the
new table. -/
theorem replica_patch_between (old : Option Table) {new : Table} (hnew : new.WellFormed) :
    (ofTable? old).patch (.between old new) = new.replica := by
  refine Replica.ext (funext fun k => ?_) (initial_patch_between old new)
  change _ = TableDiff.find? new.transitions k
  cases hk : TableDiff.find? new.transitions k with
  | none => exact rules_patch_between_of_none hk
  | some r =>
    obtain ⟨hr, rfl⟩ := hnew.find?_eq_some_iff.mp hk
    exact rules_patch_between_of_mem hnew hr

/-- Tables between which nothing differs have the same replica. -/
theorem replica_eq_of_isEmpty {a b : Table} (hb : b.WellFormed)
    (h : (TableDiff.between (some a) b).isEmpty = true) : a.replica = b.replica := by
  rw [← replica_patch_between (some a) hb, patch_of_isEmpty _ h]
  rfl

end Replica

end TapeMachine
