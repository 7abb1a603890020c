import Mathlib.Data.Int.Notation
import Mathlib.Data.List.Nodup
import Mathlib.Tactic.Common
import TapeMachine.Program.Draft
import TapeMachine.Proofs.Table.Reachable

/-!
# What a draft holds

A draft is built by merging one instruction after the other, so what holds of the empty draft and is
kept by `Draft.merge` holds of every draft (`Draft.ofInstructions_induction`). Three facts follow:

* the lines of the instructions do not show in the transitions (`Draft.tableGroups_map_onLine`);
* every field of an entry was said by some instruction (`Draft.said_of_mem_entries`);
* a state has one group and, in it, a symbol has one entry (`Draft.ofInstructions_wellFormed`). So
  the table of a draft takes all of its transitions, as they stand, as soon as each is valid
  (`Draft.WellFormed.table_eq`).
-/

namespace TapeMachine.Program

/-- An instruction at another line. -/
def Instruction.onLine (line : ℤ) (i : Instruction) : Instruction :=
  { i with line }

/-- An instruction whose line has moved. -/
def Instruction.relined (move : ℤ → ℤ) (i : Instruction) : Instruction :=
  { i with line := move i.line }

/-- An entry whose line has moved. -/
def Entry.relined (move : ℤ → ℤ) (e : Entry) : Entry :=
  { e with line := move e.line }

/-- What some instruction said. -/
structure Entry.Said (is : List Instruction) (e : Entry) : Prop where
  mention : ∃ i ∈ is, i.state = e.state ∧ i.cell = e.cell
  write : ∀ s ∈ e.write, ∃ i ∈ is, i.directive = .write s
  move : ∀ m ∈ e.move, ∃ i ∈ is, i.directive = .move m
  goto : ∀ q ∈ e.goto, ∃ i ∈ is, i.directive = .goto q

namespace Draft

/-- What is kept by merging holds of every draft. -/
theorem ofInstructions_induction {is : List Instruction} {motive : Draft → Prop}
    (empty : motive {}) (merge : ∀ d, motive d → ∀ i ∈ is, motive (d.merge i)) :
    motive (ofInstructions is) :=
  List.foldlRecOn is Draft.merge empty merge

/-! ## Merging one instruction -/

/-- An entry after a merge is an old one, or the one that took the directive. -/
lemma mem_mergeEntry {i : Instruction} {es : List Entry} {e : Entry} (h : e ∈ mergeEntry i es) :
    e ∈ es ∨ ∃ o : Entry, e = o.apply i.directive ∧
      (o = { state := i.state, cell := i.cell, line := i.line } ∨ o ∈ es ∧ o.cell = i.cell) := by
  induction es with
  | nil =>
    rw [mergeEntry, List.mem_singleton] at h
    exact .inr ⟨_, h, .inl rfl⟩
  | cons o es ih =>
    rw [mergeEntry] at h
    split at h
    · rename_i hcell
      rcases List.mem_cons.mp h with rfl | h
      · exact .inr ⟨o, rfl, .inr ⟨List.mem_cons_self, beq_iff_eq.mp hcell⟩⟩
      · exact .inl (List.mem_cons_of_mem _ h)
    · rcases List.mem_cons.mp h with rfl | h
      · exact .inl List.mem_cons_self
      · rcases ih h with h | ⟨o', he, ho'⟩
        · exact .inl (List.mem_cons_of_mem _ h)
        · exact .inr ⟨o', he, ho'.imp_right fun ho' => ⟨List.mem_cons_of_mem _ ho'.1, ho'.2⟩⟩

/-- A group after a merge is an old one, or the one whose entries took the instruction. -/
lemma mem_mergeGroup {i : Instruction} {gs : List (String × List Entry)}
    {g : String × List Entry} (h : g ∈ mergeGroup i gs) :
    g ∈ gs ∨ ∃ es, g = (i.state, mergeEntry i es) ∧ (es = [] ∨ (i.state, es) ∈ gs) := by
  induction gs with
  | nil =>
    rw [mergeGroup, List.mem_singleton] at h
    exact .inr ⟨[], h, .inl rfl⟩
  | cons g' gs ih =>
    obtain ⟨s, es⟩ := g'
    rw [mergeGroup] at h
    split at h
    · rename_i hs
      obtain rfl := beq_iff_eq.mp hs
      rcases List.mem_cons.mp h with rfl | h
      · exact .inr ⟨es, rfl, .inr List.mem_cons_self⟩
      · exact .inl (List.mem_cons_of_mem _ h)
    · rcases List.mem_cons.mp h with rfl | h
      · exact .inl List.mem_cons_self
      · rcases ih h with h | ⟨es', he, hes'⟩
        · exact .inl (List.mem_cons_of_mem _ h)
        · exact .inr ⟨es', he, hes'.imp_right (List.mem_cons_of_mem _)⟩

/-- A directive leaves the symbol an entry is for. -/
@[simp] lemma cell_apply (e : Entry) (d : Directive) : (e.apply d).cell = e.cell := by
  cases d <;> rfl

/-- A directive leaves the state an entry is for. -/
@[simp] lemma state_apply (e : Entry) (d : Directive) : (e.apply d).state = e.state := by
  cases d <;> rfl

/-- Merging keeps the cells of a state, or adds the cell of the instruction as the last one. -/
lemma map_cell_mergeEntry (i : Instruction) (es : List Entry) :
    (mergeEntry i es).map Entry.cell =
      if i.cell ∈ es.map Entry.cell then es.map Entry.cell else es.map Entry.cell ++ [i.cell] := by
  induction es with
  | nil => simp [mergeEntry]
  | cons e es ih =>
    rw [mergeEntry]
    by_cases he : e.cell = i.cell
    · simp [he]
    · have he' : ¬ i.cell = e.cell := fun h => he h.symm
      simp only [beq_iff_eq, he, if_false, List.map_cons, ih, List.mem_cons, he', false_or]
      split <;> simp

/-- Merging keeps the states, or adds the state of the instruction as the last one. -/
lemma map_fst_mergeGroup (i : Instruction) (gs : List (String × List Entry)) :
    (mergeGroup i gs).map (·.1) =
      if i.state ∈ gs.map (·.1) then gs.map (·.1) else gs.map (·.1) ++ [i.state] := by
  induction gs with
  | nil => simp [mergeGroup]
  | cons g gs ih =>
    obtain ⟨s, es⟩ := g
    rw [mergeGroup]
    by_cases hs : s = i.state
    · simp [hs]
    · have hs' : ¬ i.state = s := fun h => hs h.symm
      simp only [beq_iff_eq, hs, if_false, List.map_cons, ih, List.mem_cons, hs', false_or]
      split <;> simp

/-! ## Lines do not matter -/

section Lines

variable (move : ℤ → ℤ)

/-- A draft with the lines of all entries moved. -/
def relined (d : Draft) : Draft :=
  ⟨d.groups.map fun g => (g.1, g.2.map (Entry.relined move))⟩

/-- Directives are applied alike when lines are numbered otherwise. -/
lemma apply_relined (e : Entry) (d : Directive) :
    (e.relined move).apply d = (e.apply d).relined move := by
  cases d <;> rfl

/-- Instructions are merged into entries alike when lines are numbered otherwise. -/
lemma mergeEntry_relined (i : Instruction) (es : List Entry) :
    mergeEntry (i.relined move) (es.map (Entry.relined move)) =
      (mergeEntry i es).map (Entry.relined move) := by
  induction es with
  | nil =>
    have hnew := apply_relined move ⟨i.state, i.cell, i.line, none, none, none⟩ i.directive
    exact congrArg (· :: []) hnew
  | cons e es ih =>
    rw [List.map_cons, mergeEntry, mergeEntry, ih]
    change (if e.cell == i.cell then (e.relined move).apply i.directive :: _ else _) = _
    rw [apply_relined]
    split <;> rfl

/-- Instructions are merged into groups alike when lines are numbered otherwise. -/
lemma mergeGroup_relined (i : Instruction) (gs : List (String × List Entry)) :
    mergeGroup (i.relined move) (gs.map fun g => (g.1, g.2.map (Entry.relined move))) =
      (mergeGroup i gs).map fun g => (g.1, g.2.map (Entry.relined move)) := by
  induction gs with
  | nil => exact congrArg (fun es => [(i.state, es)]) (mergeEntry_relined move i [])
  | cons g gs ih =>
    rw [List.map_cons, mergeGroup, mergeGroup, mergeEntry_relined, ih]
    change (if g.1 == i.state then _ else _) = _
    split <;> rfl

/-- Instructions at other lines give the same entries at other lines. -/
theorem ofInstructions_map_relined (is : List Instruction) :
    ofInstructions (is.map (Instruction.relined move)) = (ofInstructions is).relined move := by
  have hfold : ∀ d : Draft, (is.map (Instruction.relined move)).foldl merge (d.relined move) =
      (is.foldl merge d).relined move := by
    induction is with
    | nil => exact fun d => rfl
    | cons i is ih =>
      intro d
      have hmerge : (d.relined move).merge (i.relined move) = (d.merge i).relined move :=
        congrArg Draft.mk (mergeGroup_relined move i d.groups)
      rw [List.map_cons, List.foldl_cons, List.foldl_cons, hmerge, ih]
  exact hfold {}

end Lines

/-- The transitions of a draft, state by state: the groups of its table. -/
def tableGroups (d : Draft) : List (String × List Transition) :=
  d.groups.map fun g => (g.1, g.2.map Entry.transition)

/-- The groups of the table hold the transitions of the draft, in order. -/
lemma flatMap_tableGroups (d : Draft) : d.tableGroups.flatMap (·.2) = d.transitions := by
  rw [tableGroups, transitions, entries, List.flatMap_map, List.map_flatMap]

/-- The lines of the instructions do not show in the transitions. -/
theorem tableGroups_map_onLine (line : ℤ) (is : List Instruction) :
    (ofInstructions (is.map (Instruction.onLine line))).tableGroups =
      (ofInstructions is).tableGroups := by
  have hlines : ofInstructions (is.map (Instruction.onLine line)) =
      (ofInstructions is).relined fun _ => line := ofInstructions_map_relined (fun _ => line) is
  rw [hlines, tableGroups, tableGroups, relined, List.map_map]
  refine List.map_congr_left fun g _ => ?_
  change (g.1, (g.2.map (Entry.relined _)).map Entry.transition) = _
  rw [List.map_map]
  rfl

/-! ## Entries say what instructions said -/

/-- Taking in one of the instructions keeps to what they say. -/
lemma said_apply {is : List Instruction} {i : Instruction} (hi : i ∈ is) {o : Entry}
    (ho : o.Said is) : (o.apply i.directive).Said is := by
  obtain ⟨hmention, hwrite, hmove, hgoto⟩ := ho
  cases hd : i.directive with
  | write s =>
    refine ⟨hmention, ?_, hmove, hgoto⟩
    rintro s ⟨⟩
    exact ⟨i, hi, hd⟩
  | move m =>
    refine ⟨hmention, hwrite, ?_, hgoto⟩
    rintro m ⟨⟩
    exact ⟨i, hi, hd⟩
  | goto q =>
    refine ⟨hmention, hwrite, hmove, ?_⟩
    rintro q ⟨⟩
    exact ⟨i, hi, hd⟩

/-- What new entries have, and entries keep when they take in an instruction, all entries have. -/
theorem forall_mem_entries {is : List Instruction} {motive : Entry → Prop}
    (new : ∀ i ∈ is, motive
      (({ state := i.state, cell := i.cell, line := i.line } : Entry).apply i.directive))
    (apply : ∀ o, motive o → ∀ i ∈ is, motive (o.apply i.directive)) :
    ∀ e ∈ (ofInstructions is).entries, motive e := by
  refine ofInstructions_induction (motive := fun d => ∀ e ∈ d.entries, motive e) ?_ ?_
  · intro e he
    cases he
  · intro d hd i hi e he
    obtain ⟨g, hg, he⟩ := List.mem_flatMap.mp he
    rcases mem_mergeGroup hg with hg | ⟨es, rfl, hes⟩
    · exact hd e (List.mem_flatMap.mpr ⟨g, hg, he⟩)
    have hold : ∀ o ∈ es, motive o := by
      intro o ho
      rcases hes with rfl | hes
      · cases ho
      · exact hd o (List.mem_flatMap.mpr ⟨_, hes, ho⟩)
    rcases mem_mergeEntry he with he | ⟨o, rfl, rfl | ⟨ho, -⟩⟩
    · exact hold e he
    · exact new i hi
    · exact apply o (hold o ho) i hi

/-- Every field of an entry was said by some instruction. -/
theorem said_of_mem_entries {is : List Instruction} {e : Entry}
    (h : e ∈ (ofInstructions is).entries) : e.Said is := by
  refine forall_mem_entries (fun i hi => ?_) (fun o ho i hi => said_apply hi ho) e h
  exact said_apply hi ⟨⟨i, hi, rfl, rfl⟩, by simp, by simp, by simp⟩

/-- The line of an entry is that of some instruction. -/
theorem exists_line_of_mem_entries {is : List Instruction} {e : Entry}
    (h : e ∈ (ofInstructions is).entries) : ∃ i ∈ is, i.line = e.line := by
  have hline : ∀ (o : Entry) (d : Directive), (o.apply d).line = o.line := by
    intro o d
    cases d <;> rfl
  refine forall_mem_entries (motive := fun e => ∃ i ∈ is, i.line = e.line) ?_ ?_ e h
  · intro i hi
    exact ⟨i, hi, by rw [hline]⟩
  · rintro o ⟨i, hi, ho⟩ j -
    exact ⟨i, hi, ho.trans (hline o _).symm⟩

/-! ## The table of a draft -/

/-- What merging keeps: states are listed once, each group holds only entries of its own state and
at least one, and no symbol of a state has two entries. -/
structure WellFormed (d : Draft) : Prop where
  states_nodup : (d.groups.map (·.1)).Nodup
  group_ne_nil : ∀ g ∈ d.groups, g.2 ≠ []
  group_state : ∀ g ∈ d.groups, ∀ e ∈ g.2, e.state = g.1
  cells_nodup : ∀ g ∈ d.groups, (g.2.map Entry.cell).Nodup

/-- When an instruction has been merged there is an entry. -/
lemma mergeEntry_ne_nil (i : Instruction) (es : List Entry) : mergeEntry i es ≠ [] := by
  cases es with
  | nil => simp [mergeEntry]
  | cons e es =>
    rw [mergeEntry]
    split <;> simp

/-- Merging keeps well-formedness. -/
lemma WellFormed.merge {d : Draft} (h : d.WellFormed) (i : Instruction) :
    (d.merge i).WellFormed := by
  refine ⟨?_, ?_, ?_, ?_⟩
  · change ((mergeGroup i d.groups).map (·.1)).Nodup
    rw [map_fst_mergeGroup]
    exact nodup_ite_append h.states_nodup i.state
  · intro g hg
    rcases mem_mergeGroup hg with hg | ⟨es, rfl, -⟩
    · exact h.group_ne_nil g hg
    · exact mergeEntry_ne_nil i es
  · intro g hg e he
    rcases mem_mergeGroup hg with hg | ⟨es, rfl, hes⟩
    · exact h.group_state g hg e he
    have hold : ∀ o ∈ es, o.state = i.state := by
      intro o ho
      rcases hes with rfl | hes
      · cases ho
      · exact h.group_state _ hes o ho
    rcases mem_mergeEntry he with he | ⟨o, rfl, rfl | ⟨ho, -⟩⟩
    · exact hold e he
    · exact state_apply _ _
    · rw [state_apply]
      exact hold o ho
  · intro g hg
    rcases mem_mergeGroup hg with hg | ⟨es, rfl, hes⟩
    · exact h.cells_nodup g hg
    have hold : (es.map Entry.cell).Nodup := by
      rcases hes with rfl | hes
      · exact List.nodup_nil
      · exact h.cells_nodup _ hes
    rw [map_cell_mergeEntry]
    exact nodup_ite_append hold i.cell

/-- Every draft of instructions is well formed. -/
theorem ofInstructions_wellFormed (is : List Instruction) : (ofInstructions is).WellFormed :=
  ofInstructions_induction (by constructor <;> simp) fun _ hd i _ => hd.merge i

/-- The keys of the transitions are pairwise distinct. -/
lemma WellFormed.keys_nodup {d : Draft} (h : d.WellFormed) :
    (d.transitions.map Transition.key).Nodup := by
  have hkeys : d.transitions.map Transition.key =
      d.groups.flatMap fun g => g.2.map fun e => (e.state, e.cell) := by
    rw [transitions, entries, List.map_map, List.map_flatMap]
    rfl
  rw [hkeys, List.nodup_flatMap]
  constructor
  · intro g hg
    -- Within a group the cells tell the keys apart.
    have hcells : ((g.2.map fun e => (e.state, e.cell)).map Prod.snd).Nodup := by
      rw [List.map_map]
      exact h.cells_nodup g hg
    exact hcells.of_map Prod.snd
  · have hne : d.groups.Pairwise fun g g' => g.1 ≠ g'.1 := List.pairwise_map.mp h.states_nodup
    refine hne.imp_of_mem fun {g g'} hg hg' hstates => ?_
    rintro k hk hk'
    obtain ⟨e, he, rfl⟩ := List.mem_map.mp hk
    obtain ⟨e', he', hkey⟩ := List.mem_map.mp hk'
    have hstate : e'.state = e.state := congrArg Prod.fst hkey
    rw [h.group_state g hg e he, h.group_state g' hg' e' he'] at hstate
    exact hstates hstate.symm

/-- Entries that give a table give the table of their transitions. -/
lemma addEntries_eq_ok_iff {t u : Table} {es : List Entry} :
    addEntries t es = .ok u ↔ t.addAll (es.map Entry.transition) = (u, none) := by
  induction es generalizing t with
  | nil => simp [addEntries, Table.addAll]
  | cons e es ih =>
    rw [addEntries, List.map_cons, Table.addAll]
    cases t.add e.transition with
    | ok t' => exact ih
    | error r => simp

/-- The groups of a well-formed draft with valid transitions make a well-formed table. -/
lemma WellFormed.table_wellFormed {d : Draft} (h : d.WellFormed)
    (hv : ∀ r ∈ d.transitions, r.Valid) (initial : String) (frozen : Bool) :
    Table.WellFormed { initial, groups := d.tableGroups, frozen } := by
  have ht : Table.transitions { initial, groups := d.tableGroups, frozen } = d.transitions :=
    d.flatMap_tableGroups
  refine ⟨?_, ?_, ?_, ht ▸ h.keys_nodup, ht ▸ hv⟩
  · change (d.tableGroups.map (·.1)).Nodup
    rw [tableGroups, List.map_map]
    exact h.states_nodup
  · intro g hg
    obtain ⟨o, ho, rfl⟩ := List.mem_map.mp hg
    simpa using h.group_ne_nil o ho
  · intro g hg r hr
    obtain ⟨o, ho, rfl⟩ := List.mem_map.mp hg
    obtain ⟨e, he, rfl⟩ := List.mem_map.mp hr
    exact h.group_state o ho e he

/-- If all its transitions are valid, a draft has a table that holds them as they stand. -/
theorem WellFormed.table_eq {d : Draft} (h : d.WellFormed) (hv : ∀ r ∈ d.transitions, r.Valid) :
    d.table = .ok { initial := (d.transitions.head?.map (·.state)).getD ""
                    groups := d.tableGroups } := by
  have hall := (h.table_wellFormed hv "" false).empty_addAll_transitions
  have ht : Table.transitions { groups := d.tableGroups } = d.transitions := d.flatMap_tableGroups
  rw [ht] at hall
  exact addEntries_eq_ok_iff.mpr hall

end Draft

end TapeMachine.Program
