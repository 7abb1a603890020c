import Mathlib.Data.List.Nodup
import Mathlib.Data.List.Perm.Basic
import Mathlib.Tactic.Common
import TapeMachine.Proofs.Keyed
import TapeMachine.Table.Json

/-!
# Reachable tables

`Operation` lists everything that can be done to a table, and `Table.perform` is what the table
becomes; an operation that is refused leaves behind what it leaves behind. `Table.Reachable` is the
least set of tables that contains the empty table and is closed under the operations.

The invariant is `Table.WellFormed`. One inversion lemma says what a successful `add` is
(`add_eq_ok_iff`), `WellFormed.add` says that it keeps the invariant, and everything else a table
can go through is made of additions and of changes that do not touch its groups; so every reachable
table is well formed (`Reachable.wellFormed`).

The second half reads a well-formed table as a set of transitions: the rules of a state are the
transitions that start in it (`WellFormed.mem_rules_iff`), a pair of state and symbol has one
transition (`WellFormed.eq_of_key_eq`), and adding the transitions of a table in table order gives
its groups again (`WellFormed.empty_addAll_transitions`).
-/

namespace TapeMachine

/-- What validity says about the fields of a transition. -/
lemma Transition.valid_iff {r : Transition} :
    r.Valid ↔ (Direction.parse? r.move).isSome = true ∧ r.read.length = 1 ∧ r.write.length = 1 := by
  unfold Valid defect?
  cases Direction.parse? r.move with
  | none => simp
  | some d =>
    by_cases hr : r.read.length = 1
    · by_cases hw : r.write.length = 1 <;> simp [hr, hw]
    · simp [hr]

/-- The names and symbols of a transition. -/
def Transition.texts (r : Transition) : List String :=
  [r.state, r.read, r.write, r.next]

namespace Table

/-! ## Operations -/

/-- What can be done to a table. -/
inductive Operation where
  | add (r : Transition)
  | addAll (rs : List Transition)
  | setInitial (state : String)
  | freeze
  /-- Going on with a copy that can be changed again. -/
  | copy
  | readJson (text : String)

/-- The table after an operation, whether the operation is refused or not. -/
def perform (t : Table) : Operation → Table
  | .add r =>
    match t.add r with
    | .ok t' => t'
    | .error _ => t
  | .addAll rs => (t.addAll rs).1
  | .setInitial state =>
    match t.setInitial state with
    | .ok t' => t'
    | .error _ => t
  | .freeze => t.freeze
  | .copy => t.thaw
  | .readJson text => (t.readJson text).1

/-- The tables that operations lead to from the empty table. -/
inductive Reachable : Table → Prop
  | empty : Reachable .empty
  | step {t : Table} (h : Reachable t) (o : Operation) : Reachable (t.perform o)

/-! ## Inserting a rule into groups -/

/-- Inserting a rule adds it to the transitions, at some place. -/
lemma flatMap_insertRule_perm (r : Transition) (gs : List (String × List Transition)) :
    List.Perm ((insertRule r gs).flatMap (·.2)) (r :: gs.flatMap (·.2)) := by
  induction gs with
  | nil => simp [insertRule]
  | cons g gs ih =>
    obtain ⟨s, rs⟩ := g
    rw [insertRule]
    split
    · simp only [List.flatMap_cons, List.append_assoc]
      exact List.perm_middle
    · simp only [List.flatMap_cons]
      exact (ih.append_left rs).trans List.perm_middle

/-- A rule of a state that is not there yet opens a last group. -/
lemma insertRule_of_notMem {r : Transition} {gs : List (String × List Transition)}
    (h : r.state ∉ gs.map (·.1)) : insertRule r gs = gs ++ [(r.state, [r])] := by
  induction gs with
  | nil => rfl
  | cons g gs ih =>
    obtain ⟨s, rs⟩ := g
    simp only [List.map_cons, List.mem_cons, not_or] at h
    have hs : (s == r.state) = false := beq_eq_false_iff_ne.mpr (Ne.symm h.1)
    rw [insertRule, hs, ih h.2]
    rfl

/-- A rule of the state of the last group joins that group. -/
lemma insertRule_append_of_notMem {r : Transition} {gs : List (String × List Transition)}
    (h : r.state ∉ gs.map (·.1)) (rs : List Transition) :
    insertRule r (gs ++ [(r.state, rs)]) = gs ++ [(r.state, rs ++ [r])] := by
  induction gs with
  | nil => simp [insertRule]
  | cons g gs ih =>
    obtain ⟨s, qs⟩ := g
    simp only [List.map_cons, List.mem_cons, not_or] at h
    have hs : (s == r.state) = false := beq_eq_false_iff_ne.mpr (Ne.symm h.1)
    rw [List.cons_append, insertRule, hs, ih h.2]
    rfl

/-- Inserting a rule keeps the states, or adds the state of the rule as the last one. -/
lemma map_fst_insertRule (r : Transition) (gs : List (String × List Transition)) :
    (insertRule r gs).map (·.1) =
      if r.state ∈ gs.map (·.1) then gs.map (·.1) else gs.map (·.1) ++ [r.state] := by
  induction gs with
  | nil => simp [insertRule]
  | cons g gs ih =>
    obtain ⟨s, rs⟩ := g
    rw [insertRule]
    by_cases hs : s = r.state
    · simp [hs]
    · have hs' : ¬ r.state = s := fun h => hs h.symm
      simp only [beq_iff_eq, hs, if_false, List.map_cons, ih, List.mem_cons, hs', false_or]
      split <;> simp

/-- A group after an insertion is an old group, or the group of the rule with the rule at its
end. -/
lemma mem_insertRule {r : Transition} {gs : List (String × List Transition)}
    {g : String × List Transition} (hg : g ∈ insertRule r gs) :
    g ∈ gs ∨ ∃ rs, g = (r.state, rs ++ [r]) ∧ (rs = [] ∨ (r.state, rs) ∈ gs) := by
  induction gs with
  | nil =>
    simp only [insertRule, List.mem_singleton] at hg
    exact Or.inr ⟨[], hg, Or.inl rfl⟩
  | cons g' gs ih =>
    obtain ⟨s, rs⟩ := g'
    rw [insertRule] at hg
    split at hg
    · rename_i hs
      have hs : s = r.state := by simpa using hs
      rcases List.mem_cons.mp hg with h | h
      · refine Or.inr ⟨rs, ?_, Or.inr ?_⟩
        · rw [h, hs]
        · rw [hs]
          exact List.mem_cons_self
      · exact Or.inl (List.mem_cons_of_mem _ h)
    · rcases List.mem_cons.mp hg with h | h
      · exact Or.inl (h ▸ List.mem_cons_self)
      · rcases ih h with h | ⟨qs, hq, h⟩
        · exact Or.inl (List.mem_cons_of_mem _ h)
        · exact Or.inr ⟨qs, hq, h.imp id (List.mem_cons_of_mem _)⟩

/-! ## Reading the groups -/

/-- The rules of a state are the transitions that start in it. -/
lemma WellFormed.mem_rules_iff {t : Table} (h : t.WellFormed) {s : String} {r : Transition} :
    r ∈ t.rules s ↔ r ∈ t.transitions ∧ r.state = s := by
  rw [rules]
  constructor
  · intro hr
    cases hl : t.groups.lookup s with
    | none => simp [hl] at hr
    | some rs =>
      have hg := mem_of_lookup_eq_some hl
      have hr : r ∈ rs := by simpa [hl] using hr
      exact ⟨List.mem_flatMap.mpr ⟨(s, rs), hg, hr⟩, h.group_state _ hg r hr⟩
  · rintro ⟨hr, rfl⟩
    obtain ⟨⟨s, rs⟩, hg, hr⟩ := List.mem_flatMap.mp hr
    have hs : r.state = s := h.group_state _ hg r hr
    rw [hs, lookup_eq_some_of_mem h.states_nodup hg]
    exact hr

/-- The states of a table are those in which a transition starts. -/
lemma WellFormed.mem_states_iff {t : Table} (h : t.WellFormed) {s : String} :
    s ∈ t.states ↔ ∃ r ∈ t.transitions, r.state = s := by
  constructor
  · intro hs
    obtain ⟨⟨q, rs⟩, hg, rfl⟩ := List.mem_map.mp hs
    obtain ⟨r, hr⟩ := List.exists_mem_of_ne_nil rs (h.group_ne_nil _ hg)
    exact ⟨r, List.mem_flatMap.mpr ⟨(q, rs), hg, hr⟩, h.group_state _ hg r hr⟩
  · rintro ⟨r, hr, rfl⟩
    obtain ⟨g, hg, hr⟩ := List.mem_flatMap.mp hr
    rw [h.group_state _ hg r hr]
    exact List.mem_map_of_mem hg

/-- A pair of state and symbol has one transition. -/
lemma WellFormed.eq_of_key_eq {t : Table} (h : t.WellFormed) {r q : Transition}
    (hr : r ∈ t.transitions) (hq : q ∈ t.transitions) (hk : r.key = q.key) : r = q :=
  List.inj_on_of_nodup_map h.keys_nodup hr hq hk

/-- With distinct keys, looking for the rule with a symbol among the rules of a state finds exactly
that transition. -/
lemma WellFormed.find?_rules_eq_some_iff {t : Table} (h : t.WellFormed) {s symbol : String}
    {r : Transition} :
    (t.rules s).find? (fun q => q.read == symbol) = some r ↔
      r ∈ t.transitions ∧ r.state = s ∧ r.read = symbol := by
  constructor
  · intro hf
    obtain ⟨hr, hs⟩ := h.mem_rules_iff.mp (List.mem_of_find?_eq_some hf)
    have hread := List.find?_some hf
    exact ⟨hr, hs, by simpa using hread⟩
  · rintro ⟨hr, rfl, rfl⟩
    cases hf : (t.rules r.state).find? (fun q => q.read == r.read) with
    | none =>
      have hnone := List.find?_eq_none.mp hf r (h.mem_rules_iff.mpr ⟨hr, rfl⟩)
      simp at hnone
    | some q =>
      obtain ⟨hq, hs⟩ := h.mem_rules_iff.mp (List.mem_of_find?_eq_some hf)
      have hread : q.read = r.read := by simpa using List.find?_some hf
      rw [h.eq_of_key_eq hq hr (Prod.ext hs hread)]

/-- Looking in vain for a rule with a symbol means that the state has no such transition. -/
lemma WellFormed.find?_rules_eq_none_iff {t : Table} (h : t.WellFormed) {s symbol : String} :
    (t.rules s).find? (fun q => q.read == symbol) = none ↔
      ∀ q ∈ t.transitions, q.state = s → q.read ≠ symbol := by
  rw [List.find?_eq_none]
  constructor
  · intro hn q hq hs hread
    exact hn q (h.mem_rules_iff.mpr ⟨hq, hs⟩) (beq_iff_eq.mpr hread)
  · intro hn q hq hread
    obtain ⟨hq, hs⟩ := h.mem_rules_iff.mp hq
    exact hn q hq hs (beq_iff_eq.mp hread)

/-- A lookup gives the transition of the state for the symbol or, if there is none, the wildcard
transition of the state. -/
theorem WellFormed.lookup_eq_some_iff {t : Table} (h : t.WellFormed) {s symbol : String}
    {r : Transition} :
    t.lookup s symbol = some r ↔
      r ∈ t.transitions ∧ r.state = s ∧
        (r.read = symbol ∨
          r.read = wildcard ∧ ∀ q ∈ t.transitions, q.state = s → q.read ≠ symbol) := by
  rw [lookup, select]
  cases hf : (t.rules s).find? (fun q => q.read == symbol) with
  | some q =>
    obtain ⟨hq, hqs, hqr⟩ := h.find?_rules_eq_some_iff.mp hf
    constructor
    · intro hr
      cases hr
      exact ⟨hq, hqs, Or.inl hqr⟩
    · rintro ⟨hr, hrs, hread | ⟨-, hn⟩⟩
      · exact congrArg some
          (h.eq_of_key_eq hq hr (Prod.ext (hqs.trans hrs.symm) (hqr.trans hread.symm)))
      · exact absurd hqr (hn q hq hqs)
  | none =>
    have hn := h.find?_rules_eq_none_iff.mp hf
    change (t.rules s).find? (fun q => q.read == wildcard) = some r ↔ _
    rw [h.find?_rules_eq_some_iff]
    constructor
    · rintro ⟨hr, hs, hread⟩
      exact ⟨hr, hs, Or.inr ⟨hread, hn⟩⟩
    · rintro ⟨hr, hs, hread | ⟨hread, -⟩⟩
      · exact absurd hread (hn r hr hs)
      · exact ⟨hr, hs, hread⟩

/-! ## Additions -/

/-- What a successful addition is: the table can be changed, the rule is valid and its pair of state
and symbol is new, and the table grows by the rule. -/
theorem add_eq_ok_iff {t t' : Table} {r : Transition} :
    t.add r = .ok t' ↔
      t.frozen = false ∧ r.Valid ∧ (∀ q ∈ t.rules r.state, q.read ≠ r.read) ∧
        t' = { t with
          initial := if t.groups.isEmpty && t.initial == "" then r.state else t.initial
          groups := insertRule r t.groups } := by
  have hany : (t.rules r.state).any (fun q => q.read == r.read) = false ↔
      ∀ q ∈ t.rules r.state, q.read ≠ r.read := by
    simp
  unfold add
  cases hf : t.frozen with
  | true => simp
  | false =>
    cases hd : r.defect? with
    | some e => simp [Transition.Valid, hd]
    | none =>
      rw [← hany]
      cases (t.rules r.state).any (fun q => q.read == r.read) with
      | true => simp
      | false =>
        simp only [Bool.false_eq_true, if_false, Except.ok.injEq, Transition.Valid, hd, true_and]
        exact eq_comm

/-- A successful addition keeps a table well formed. -/
theorem WellFormed.add {t t' : Table} {r : Transition} (h : t.WellFormed)
    (ha : t.add r = .ok t') : t'.WellFormed := by
  obtain ⟨-, hv, hnew, rfl⟩ := add_eq_ok_iff.mp ha
  have hperm := flatMap_insertRule_perm r t.groups
  have hfresh : ∀ q ∈ t.transitions, q.key ≠ r.key := by
    intro q hq hk
    have hs : q.state = r.state := congrArg Prod.fst hk
    exact hnew q (h.mem_rules_iff.mpr ⟨hq, hs⟩) (congrArg Prod.snd hk)
  refine ⟨?_, ?_, ?_, ?_, ?_⟩
  · change ((insertRule r t.groups).map (·.1)).Nodup
    rw [map_fst_insertRule]
    split
    · exact h.states_nodup
    · rename_i hs
      rw [List.nodup_append]
      refine ⟨h.states_nodup, List.nodup_singleton _, ?_⟩
      intro a ha b hb hab
      exact hs (List.mem_singleton.mp hb ▸ hab ▸ ha)
  · intro g hg
    rcases mem_insertRule hg with hg | ⟨rs, rfl, -⟩
    · exact h.group_ne_nil g hg
    · simp
  · intro g hg q hq
    rcases mem_insertRule hg with hg | ⟨rs, rfl, hrs⟩
    · exact h.group_state g hg q hq
    · rcases List.mem_append.mp hq with hq | hq
      · rcases hrs with rfl | hrs
        · cases hq
        · exact h.group_state _ hrs q hq
      · rw [List.mem_singleton.mp hq]
  · refine (hperm.map Transition.key).nodup_iff.mpr ?_
    rw [List.map_cons, List.nodup_cons]
    refine ⟨?_, h.keys_nodup⟩
    intro hmem
    obtain ⟨q, hq, hk⟩ := List.mem_map.mp hmem
    exact hfresh q hq hk
  · intro q hq
    rcases List.mem_cons.mp (hperm.mem_iff.mp hq) with rfl | hq
    · exact hv
    · exact h.valid q hq

/-- The empty table is well formed. -/
lemma wellFormed_empty : Table.empty.WellFormed := by
  constructor <;> simp [Table.empty, states, transitions]

/-- Well-formedness is about the groups alone. -/
lemma WellFormed.of_groups_eq {t u : Table} (h : t.WellFormed) (hg : u.groups = t.groups) :
    u.WellFormed := by
  have hs : u.states = t.states := by rw [states, states, hg]
  have ht : u.transitions = t.transitions := by rw [transitions, transitions, hg]
  exact ⟨hs ▸ h.states_nodup, hg ▸ h.group_ne_nil, hg ▸ h.group_state, ht ▸ h.keys_nodup,
    ht ▸ h.valid⟩

/-- Adding transitions in order keeps a table well formed, however far it gets. -/
lemma WellFormed.addAll {t : Table} (h : t.WellFormed) (rs : List Transition) :
    (t.addAll rs).1.WellFormed := by
  induction rs generalizing t with
  | nil => exact h
  | cons r rs ih =>
    rw [Table.addAll]
    cases ha : t.add r with
    | ok t' => exact ih (h.add ha)
    | error e => exact h

/-- Every operation keeps a table well formed. -/
theorem WellFormed.perform {t : Table} (h : t.WellFormed) (o : Operation) :
    (t.perform o).WellFormed := by
  cases o with
  | add r =>
    rw [Table.perform]
    cases ha : t.add r with
    | ok t' => exact h.add ha
    | error e => exact h
  | addAll rs => exact h.addAll rs
  | setInitial state =>
    rw [Table.perform, setInitial]
    split
    · rename_i t' heq
      split at heq
      · cases heq
      · cases heq
        exact h.of_groups_eq rfl
    · exact h
  | freeze => exact h.of_groups_eq rfl
  | copy => exact h.of_groups_eq rfl
  | readJson text =>
    rw [Table.perform, readJson]
    split
    · exact h
    · rename_i d _
      have hall := wellFormed_empty.addAll d.transitions.items
      split
      · exact h
      · split
        · rename_i t' e heq
          rw [heq] at hall
          exact hall
        · rename_i t' heq
          rw [heq] at hall
          split
          · exact hall
          · exact hall.of_groups_eq rfl

/-- Every reachable table is well formed. -/
theorem Reachable.wellFormed {t : Table} (h : t.Reachable) : t.WellFormed := by
  induction h with
  | empty => exact wellFormed_empty
  | step _ o ih => exact ih.perform o

/-! ## Adding the transitions of a table again -/

/-- Inserting the rules of one state after groups of other states gives that state's group. -/
lemma foldl_insertRule_group {gs : List (String × List Transition)} {s : String}
    (hs : s ∉ gs.map (·.1)) (qs rs : List Transition) (hrs : ∀ r ∈ rs, r.state = s) :
    rs.foldl (fun gs r => insertRule r gs) (gs ++ [(s, qs)]) = gs ++ [(s, qs ++ rs)] := by
  induction rs generalizing qs with
  | nil => simp
  | cons r rs ih =>
    have hr : r.state = s := hrs r List.mem_cons_self
    subst hr
    rw [List.foldl_cons, insertRule_append_of_notMem hs]
    rw [ih (qs ++ [r]) fun q hq => hrs q (List.mem_cons_of_mem _ hq)]
    simp

/-- Inserting the rules of some groups one by one, after other groups, gives these groups. -/
lemma foldl_insertRule_groups (gs hs : List (String × List Transition))
    (hnd : ((gs ++ hs).map (·.1)).Nodup) (hne : ∀ g ∈ hs, g.2 ≠ [])
    (hst : ∀ g ∈ hs, ∀ r ∈ g.2, r.state = g.1) :
    (hs.flatMap (·.2)).foldl (fun gs r => insertRule r gs) gs = gs ++ hs := by
  induction hs generalizing gs with
  | nil => simp
  | cons g hs ih =>
    obtain ⟨s, rs⟩ := g
    have hs' : s ∉ gs.map (·.1) := by
      intro hmem
      rw [List.map_append, List.nodup_append] at hnd
      exact hnd.2.2 s hmem s (by simp) rfl
    have hrs : ∀ r ∈ rs, r.state = s := hst (s, rs) List.mem_cons_self
    -- The first rule of the group opens it, and the others join it.
    have hgroup : rs.foldl (fun gs r => insertRule r gs) gs = gs ++ [(s, rs)] := by
      cases rs with
      | nil => exact absurd rfl (hne (s, []) List.mem_cons_self)
      | cons r rs =>
        have hr : r.state = s := hrs r List.mem_cons_self
        subst hr
        rw [List.foldl_cons, insertRule_of_notMem hs']
        rw [foldl_insertRule_group hs' [r] rs fun q hq => hrs q (List.mem_cons_of_mem _ hq)]
        rfl
    rw [List.flatMap_cons, List.foldl_append, hgroup, ih (gs ++ [(s, rs)])]
    · simp
    · simpa using hnd
    · exact fun g hg => hne g (List.mem_cons_of_mem _ hg)
    · exact fun g hg => hst g (List.mem_cons_of_mem _ hg)

/-- Inserting the transitions of a table in table order gives its groups. -/
theorem WellFormed.foldl_insertRule_transitions {t : Table} (h : t.WellFormed) :
    t.transitions.foldl (fun gs r => insertRule r gs) [] = t.groups := by
  have hall := foldl_insertRule_groups [] t.groups h.states_nodup h.group_ne_nil h.group_state
  simpa [transitions] using hall

/-- An insertion leaves at least one group. -/
lemma isEmpty_insertRule (r : Transition) (gs : List (String × List Transition)) :
    (insertRule r gs).isEmpty = false := by
  cases gs with
  | nil => rfl
  | cons g gs =>
    rw [insertRule]
    split <;> rfl

/-- Valid transitions whose keys are all new are added one after the other. The first of them is
the start if the table had none. -/
theorem WellFormed.addAll_eq {t : Table} (h : t.WellFormed) (hf : t.frozen = false)
    {rs : List Transition} (hv : ∀ r ∈ rs, r.Valid)
    (hk : ((t.transitions ++ rs).map Transition.key).Nodup) :
    t.addAll rs =
      ({ t with
          initial := if t.groups.isEmpty && t.initial == "" then (rs.head?.map (·.state)).getD ""
            else t.initial
          groups := rs.foldl (fun gs r => insertRule r gs) t.groups }, none) := by
  induction rs generalizing t with
  | nil =>
    have hi : (if t.groups.isEmpty && t.initial == "" then "" else t.initial) = t.initial := by
      split
      · rename_i hi
        simp only [Bool.and_eq_true, beq_iff_eq] at hi
        exact hi.2.symm
      · rfl
    simp only [Table.addAll, List.head?_nil, Option.map_none, Option.getD_none, hi, List.foldl_nil]
  | cons r rs ih =>
    have hfresh : ∀ q ∈ t.rules r.state, q.read ≠ r.read := by
      intro q hq hread
      obtain ⟨hq, hs⟩ := h.mem_rules_iff.mp hq
      rw [List.map_append, List.nodup_append] at hk
      exact hk.2.2 q.key (List.mem_map_of_mem hq) r.key (by simp) (Prod.ext hs hread)
    have ha := add_eq_ok_iff.mpr ⟨hf, hv r List.mem_cons_self, hfresh, rfl⟩
    have hperm : List.Perm ((insertRule r t.groups).flatMap (·.2) ++ rs)
        (t.transitions ++ r :: rs) :=
      ((flatMap_insertRule_perm r t.groups).append_right rs).trans List.perm_middle.symm
    have hk' := ((hperm.map Transition.key).nodup_iff).mpr hk
    rw [Table.addAll, ha]
    simp only
    rw [ih (h.add ha) hf (fun q hq => hv q (List.mem_cons_of_mem _ hq)) hk']
    simp only [isEmpty_insertRule, Bool.false_and, Bool.false_eq_true, if_false, List.head?_cons,
      Option.map_some, Option.getD_some, List.foldl_cons]

/-- Adding the transitions of a table in table order to the empty table is not refused, and gives
the same groups. -/
theorem WellFormed.empty_addAll_transitions {t : Table} (h : t.WellFormed) :
    Table.empty.addAll t.transitions =
      ({ initial := (t.transitions.head?.map (·.state)).getD "", groups := t.groups }, none) := by
  rw [wellFormed_empty.addAll_eq rfl h.valid h.keys_nodup]
  have hg : t.transitions.foldl (fun gs r => insertRule r gs) Table.empty.groups = t.groups :=
    h.foldl_insertRule_transitions
  rw [hg]
  rfl

/-- Operations can make every well-formed table: all transitions are added, the initial state is
chosen, and the table is frozen if it is to be. -/
theorem WellFormed.reachable {t : Table} (h : t.WellFormed) : t.Reachable := by
  obtain ⟨initial, groups, frozen⟩ := t
  have hopen : (⟨initial, groups, false⟩ : Table).Reachable := by
    have hadded := Reachable.step (.step .empty (.addAll (transitions ⟨initial, groups, frozen⟩)))
      (.setInitial initial)
    simp only [Table.perform, h.empty_addAll_transitions] at hadded
    exact hadded
  cases frozen with
  | false => exact hopen
  | true => exact .step hopen .freeze

end Table

end TapeMachine
