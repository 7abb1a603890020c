import Mathlib.Algebra.Ring.Nat
import Mathlib.Tactic.Common
import TapeMachine.Proofs.Table.Reachable

/-!
# How a table represents its transitions

A table can be read in two ways: as the list of its states, in order, and as a map that gives the
rules of a state. On a well-formed table the two agree: the map has rules for exactly the states of
the list, and reading it state by state gives all transitions, each once
(`WellFormed.flatMap_rules`).

Operations that are refused leave the table alone, and every operation on a frozen table is refused
or changes nothing (`perform_of_frozen`); so a frozen table stays as it is whatever is done with it
(`foldl_perform_of_frozen`). All of this together is `reachable_tables_are_consistent`.
-/

namespace TapeMachine.Table

/-! ## The list of states and the map of rules -/

/-- The states of the list are those for which the map has rules. -/
lemma mem_states_iff_hasState {t : Table} {s : String} : s ∈ t.states ↔ t.hasState s = true := by
  rw [hasState, states, ← not_iff_not, ← lookup_eq_none_iff, Option.not_isSome_iff_eq_none]

/-- The map gives the rules of a group for the state of the group. -/
lemma WellFormed.rules_eq {t : Table} (h : t.WellFormed) {g : String × List Transition}
    (hg : g ∈ t.groups) : t.rules g.1 = g.2 := by
  rw [rules, lookup_eq_some_of_mem h.states_nodup hg]
  rfl

/-- A state that the map knows has rules, and they are rules of that state. -/
lemma WellFormed.rules_of_hasState {t : Table} (h : t.WellFormed) {s : String}
    (hs : t.hasState s = true) : t.rules s ≠ [] ∧ ∀ r ∈ t.rules s, r.state = s := by
  obtain ⟨g, hg, rfl⟩ := List.mem_map.mp (mem_states_iff_hasState.mpr hs)
  rw [h.rules_eq hg]
  exact ⟨h.group_ne_nil g hg, h.group_state g hg⟩

/-- Reading the map for every state of the list gives all transitions in table order. -/
theorem WellFormed.flatMap_rules {t : Table} (h : t.WellFormed) :
    t.states.flatMap t.rules = t.transitions := by
  rw [states, List.flatMap_map, transitions]
  exact List.flatMap_congr fun g hg => h.rules_eq hg

/-- Counting the rules state by state counts the transitions. -/
lemma WellFormed.sum_length_rules {t : Table} (h : t.WellFormed) :
    (t.states.map fun s => (t.rules s).length).sum = t.size := by
  rw [size, ← h.flatMap_rules, List.length_flatMap]

/-! ## Refusals -/

/-- Additions stop at a rule that is refused, and the table is still what it was then. -/
lemma addAll_of_add_eq_error {t : Table} {r : Transition} {e : TableError}
    (h : t.add r = .error e) (rs : List Transition) : t.addAll (r :: rs) = (t, some e) := by
  rw [addAll, h]

/-- A refused addition leaves the table as it was. -/
lemma perform_add_of_error {t : Table} {r : Transition} {e : TableError} (h : t.add r = .error e) :
    t.perform (.add r) = t := by
  rw [perform, h]

/-- A refused choice of the start leaves the table as it was. -/
lemma perform_setInitial_of_error {t : Table} {s : String} {e : TableError}
    (h : t.setInitial s = .error e) : t.perform (.setInitial s) = t := by
  rw [perform, h]

/-! ## Frozen tables -/

/-- A frozen table refuses every transition. -/
lemma add_of_frozen {t : Table} (h : t.frozen = true) (r : Transition) :
    t.add r = .error .frozen := by
  rw [add, if_pos h]

/-- A frozen table refuses every start. -/
lemma setInitial_of_frozen {t : Table} (h : t.frozen = true) (s : String) :
    t.setInitial s = .error .frozen := by
  rw [setInitial, if_pos h]

/-- A frozen table stays as it is when transitions are added. -/
lemma addAll_of_frozen {t : Table} (h : t.frozen = true) (rs : List Transition) :
    (t.addAll rs).1 = t := by
  cases rs with
  | nil => rfl
  | cons r rs => rw [addAll_of_add_eq_error (add_of_frozen h r)]

/-- No text changes a frozen table, whether it is the text of a table or not. -/
lemma readJson_of_frozen {t : Table} (h : t.frozen = true) (text : String) :
    (t.readJson text).1 = t := by
  rw [readJson]
  split
  · rfl
  · rw [if_pos h]

/-- An operation leaves a frozen table as it is, unless it goes on with a copy. -/
theorem perform_of_frozen {t : Table} (h : t.frozen = true) {o : Operation} (ho : o ≠ .copy) :
    t.perform o = t := by
  cases o with
  | add r => exact perform_add_of_error (add_of_frozen h r)
  | addAll rs => exact addAll_of_frozen h rs
  | setInitial s => exact perform_setInitial_of_error (setInitial_of_frozen h s)
  | freeze =>
    change { t with frozen := true } = t
    rw [← h]
  | copy => exact absurd rfl ho
  | readJson text => exact readJson_of_frozen h text

/-- A frozen table stays as it is whatever is done with it. -/
theorem foldl_perform_of_frozen {t : Table} (h : t.frozen = true) {os : List Operation}
    (hos : ∀ o ∈ os, o ≠ .copy) : os.foldl perform t = t := by
  induction os with
  | nil => rfl
  | cons o os ih =>
    rw [List.foldl_cons, perform_of_frozen h (hos o List.mem_cons_self)]
    exact ih fun o ho => hos o (List.mem_cons_of_mem _ ho)

/-- An operation on a frozen table gives a table with the same start, states and transitions, a copy
included. -/
lemma perform_same_of_frozen {t : Table} (h : t.frozen = true) (o : Operation) :
    (t.perform o).initial = t.initial ∧ (t.perform o).states = t.states ∧
      (t.perform o).transitions = t.transitions := by
  by_cases ho : o = .copy
  · subst ho
    exact ⟨rfl, rfl, rfl⟩
  · rw [perform_of_frozen h ho]
    exact ⟨rfl, rfl, rfl⟩

/-! ## Consistency -/

/-- In every table that operations lead to, whether they were refused or not, the list of states has
no repetition and holds exactly the states of the map; the map has at least one rule for each of
them and no rule of another state; state by state, it holds all transitions; no pair of state and
symbol occurs twice, the wildcard being a symbol like any other; and every transition is valid. A
refused addition or choice of the start changes nothing. Once the table is frozen, no operation
gives another start, other states or other transitions, and all operations on the table itself leave
it as it is. -/
theorem reachable_tables_are_consistent {t : Table} (h : t.Reachable) :
    t.states.Nodup ∧ (∀ s, s ∈ t.states ↔ t.hasState s = true) ∧
    (∀ s, t.hasState s = true → t.rules s ≠ [] ∧ ∀ r ∈ t.rules s, r.state = s) ∧
    t.transitions = t.states.flatMap t.rules ∧
    (t.transitions.map fun r => (r.state, r.read)).Nodup ∧ (∀ r ∈ t.transitions, r.Valid) ∧
    t.size = t.transitions.length ∧ t.size = (t.states.map fun s => (t.rules s).length).sum ∧
    (∀ r e, t.add r = .error e →
      t.perform (.add r) = t ∧ ∀ rs, t.addAll (r :: rs) = (t, some e)) ∧
    (∀ s e, t.setInitial s = .error e → t.perform (.setInitial s) = t) ∧
    (t.frozen = true →
      (∀ o, (t.perform o).initial = t.initial ∧ (t.perform o).states = t.states ∧
        (t.perform o).transitions = t.transitions) ∧
      ∀ os : List Operation, (∀ o ∈ os, o ≠ .copy) → os.foldl perform t = t) := by
  have hwf := h.wellFormed
  refine ⟨hwf.states_nodup, fun _ => mem_states_iff_hasState, fun _ => hwf.rules_of_hasState,
    hwf.flatMap_rules.symm, hwf.keys_nodup, hwf.valid, rfl, hwf.sum_length_rules.symm, ?_, ?_, ?_⟩
  · intro r e he
    exact ⟨perform_add_of_error he, addAll_of_add_eq_error he⟩
  · intro s e he
    exact perform_setInitial_of_error he
  · intro hf
    exact ⟨perform_same_of_frozen hf, fun _ hos => foldl_perform_of_frozen hf hos⟩

/-- The text of two transitions, of which the second says nothing and is refused. -/
def halfText : String :=
  "\x7b\"transitions\":[\x7b\"current_state\":\"a\",\"current_cell\":\"1\"," ++
    "\"new_cell\":\"_\",\"direction\":\"r\"\x7d,\x7b\x7d]\x7d"

/-- The table that is left when this text has been read, frozen. -/
def halfRead : Table :=
  (Table.empty.perform (.readJson halfText)).perform .freeze

/-- What was read before the refusal is consistent, and nothing changes it any more. -/
theorem reachable_tables_are_consistent_halfRead :
    halfRead.Reachable ∧ halfRead.transitions = [⟨"a", "1", "_", "r", ""⟩] ∧
      halfRead.frozen = true ∧ halfRead.transitions = halfRead.states.flatMap halfRead.rules ∧
      [.add ⟨"b", "*", "*", "l", "b"⟩, .readJson "null"].foldl perform halfRead = halfRead := by
  have hreachable : halfRead.Reachable := by
    unfold halfRead
    exact .step (.step .empty _) _
  have htransitions : halfRead.transitions = [⟨"a", "1", "_", "r", ""⟩] := by decide +kernel
  have hfrozen : halfRead.frozen = true := rfl
  have hchanges : ∀ o ∈ [Operation.add ⟨"b", "*", "*", "l", "b"⟩, .readJson "null"],
      o ≠ .copy := by
    simp
  obtain ⟨-, -, -, hall, -, -, -, -, -, -, hstays⟩ := reachable_tables_are_consistent hreachable
  exact ⟨hreachable, htransitions, hfrozen, hall, (hstays hfrozen).2 _ hchanges⟩

end TapeMachine.Table
