import TapeMachine.Proofs.Table.Reachable
import TapeMachine.Proofs.Text.Json

/-!
# Reading tables back from JSON

The JSON text of a table says what the table says: it is read as the object that was written
(`parse?_render_toJson`), the members of that object give the start and the transitions again, and
adding these in order gives the groups of the table (`readJson_render_eq`). Only the start can get
lost: an empty start is taken for none, and then the table starts in its first state
(`written_json_is_read_back`).
-/

namespace TapeMachine

open Text Text.Json

/-! ## The text -/

section Text

variable {page : Bool} {fuel depth : ℕ}

/-- More fuel does no harm. -/
lemma Text.Json.Readable.mono {v : Json} (h : Readable page fuel depth v) {n : ℕ} (hn : fuel ≤ n) :
    Readable page n depth v :=
  ⟨h.opens, fun k hk => h.reads k (Nat.le_trans hn hk)⟩

/-- A transition is read back. -/
lemma Transition.readable_toJson (page : Bool) (depth : ℕ) (r : Transition) :
    Readable page 7 (depth + 1) r.toJson := by
  rw [Transition.toJson]
  refine (Readable.object 1 (List.cons_ne_nil _ _) ?_).mono (by simp)
  intro m hm
  simp only [List.mem_cons, List.not_mem_nil, or_false] at hm
  rcases hm with rfl | rfl | rfl | rfl | rfl <;> exact readable_string page depth _

/-- A table is read back, with fuel for each of its transitions. -/
lemma Table.readable_toJson (page : Bool) (depth : ℕ) (t : Table) :
    Readable page (t.transitions.length + 11) (depth + 3) t.toJson := by
  have harray : Readable page (t.transitions.length + 8) (depth + 2)
      (.array (t.transitions.map Transition.toJson)) := by
    have hitems : ∀ v ∈ t.transitions.map Transition.toJson, Readable page 7 (depth + 1) v := by
      intro v hv
      obtain ⟨r, -, rfl⟩ := List.mem_map.mp hv
      exact r.readable_toJson page depth
    refine (Readable.array hitems).mono ?_
    rw [List.length_map]
    omega
  rw [Table.toJson]
  refine (Readable.object (t.transitions.length + 8) (List.cons_ne_nil _ _) ?_).mono (by simp)
  intro m hm
  simp only [List.mem_cons, List.not_mem_nil, or_false] at hm
  rcases hm with rfl | rfl
  · exact (readable_string page (depth + 2) t.initial).mono (by omega)
  · exact harray

/-- Every item of an array takes up at least one character. -/
lemma Text.Json.length_le_length_writeItems {vs : List Json}
    (h : ∀ v ∈ vs, v.write page ≠ []) : vs.length ≤ (writeItems page vs).length := by
  induction vs with
  | nil => exact Nat.zero_le _
  | cons v vs ih =>
    have hv : 0 < (v.write page).length := List.length_pos_of_ne_nil (h v List.mem_cons_self)
    have hvs := ih fun v hv => h v (List.mem_cons_of_mem _ hv)
    cases vs with
    | nil =>
      rw [writeItems]
      exact hv
    | cons w vs =>
      rw [writeItems, List.length_append, List.length_cons (a := ','), List.length_cons (a := v)]
      omega

/-- The text of a table is read as the object that was written. -/
theorem Table.parse?_render_toJson (t : Table) : parse? t.toJson.render = some t.toJson := by
  have hdepth : Readable true (t.transitions.length + 11) maxDepth t.toJson :=
    t.readable_toJson true 9997
  refine parse?_render hdepth ?_
  have hitems : t.transitions.length ≤
      (writeItems true (t.transitions.map Transition.toJson)).length := by
    rw [← List.length_map (f := Transition.toJson)]
    refine length_le_length_writeItems ?_
    intro v hv
    obtain ⟨r, -, rfl⟩ := List.mem_map.mp hv
    obtain ⟨c, cs, hwrite, -⟩ := (r.readable_toJson true 0).opens
    rw [hwrite]
    simp
  have hname : (writeString true "initial_state".toList).length = 15 := by decide
  rw [Table.toJson, write, writeMembers, writeMembers, write, write]
  simp only [List.length_append, List.length_cons, hname]
  omega

end Text

/-! ## The contents -/

/-- A name stands for its own field. -/
lemma Text.Json.namesField_self (name : String) : namesField name name = true := by
  simp [namesField]

/-- The members of a transition give the transition, whatever was read before. -/
lemma Transition.recordOver_toJson (old r : Transition) :
    recordOver Transition.member old r.toJson = some r := by
  have hother : ["current_state", "current_cell", "new_cell", "direction", "new_state"].Pairwise
      fun field name => namesField field name = false := by decide
  simp only [List.pairwise_cons, List.forall_mem_cons] at hother
  simp [Transition.toJson, recordOver, Transition.member, namesField_self, hother, stringOver]

section Items

variable {α : Type} {item : α → Json → Option α} {write : α → Json}

/-- Items that are read as they were written give the list of them. -/
lemma Text.Json.itemsOver_map (h : ∀ old a, item old (write a) = some a) (fresh : α)
    (as : List α) : itemsOver fresh item [] (as.map write) = some as := by
  induction as with
  | nil => rfl
  | cons a as ih =>
    rw [List.map_cons, itemsOver, h, ih]
    rfl

/-- An array of items that are read as they were written gives the list of them. -/
lemma Text.Json.items_of_slotsOver (h : ∀ old a, item old (write a) = some a) (fresh : α)
    (as : List α) :
    ∃ slots, slotsOver fresh item {} (.array (as.map write)) = some slots ∧ slots.items = as := by
  cases as with
  | nil => exact ⟨{}, rfl, rfl⟩
  | cons a as =>
    refine ⟨{ items := a :: as, spare := [] }, ?_, rfl⟩
    have hitems := itemsOver_map h fresh (a :: as)
    rw [List.map_cons] at hitems ⊢
    rw [slotsOver]
    · simp [hitems]
    · simp

end Items

/-- The members of a table give its start and its transitions. -/
lemma Table.ofJson?_toJson (t : Table) :
    ∃ d, Table.Draft.ofJson? t.toJson = some d ∧ d.initial = t.initial ∧
      d.transitions.items = t.transitions := by
  obtain ⟨slots, hslots, hitems⟩ :=
    items_of_slotsOver Transition.recordOver_toJson Table.Draft.freshRule t.transitions
  have hother : namesField "initial_state" "transitions" = false := by decide
  refine ⟨{ initial := t.initial, transitions := slots }, ?_, rfl, hitems⟩
  simp [Table.Draft.ofJson?, Table.toJson, recordOver, Table.Draft.member, namesField_self, hother,
    stringOver, hslots]

/-- The first transition of a table starts in its first state. -/
lemma Table.WellFormed.head?_map_state {t : Table} (h : t.WellFormed) :
    t.transitions.head?.map (·.state) = t.states.head? := by
  rw [Table.transitions, Table.states]
  cases hg : t.groups with
  | nil => rfl
  | cons g gs =>
    have hmem : g ∈ t.groups := hg ▸ List.mem_cons_self
    obtain ⟨r, rs, hrs⟩ := List.exists_cons_of_ne_nil (h.group_ne_nil g hmem)
    have hstate : r.state = g.1 := h.group_state g hmem r (hrs ▸ List.mem_cons_self)
    rw [List.flatMap_cons, hrs, List.cons_append, List.head?_cons, Option.map_some, hstate,
      List.map_cons, List.head?_cons]

/-- The text of a table is read as a table with the same groups that can be changed. It has the same
start, or its first state if that is empty. -/
theorem Table.readJson_render_eq {t : Table} (h : t.WellFormed) :
    Table.empty.readJson t.toJson.render =
      ({ initial := if t.initial = "" then t.states.head?.getD "" else t.initial
         groups := t.groups }, none) := by
  obtain ⟨d, hd, hdi, hdt⟩ := t.ofJson?_toJson
  rw [Table.readJson, t.parse?_render_toJson, Option.bind_some, hd]
  dsimp only
  rw [if_neg (by simp [Table.empty]), hdt, h.empty_addAll_transitions, hdi, h.head?_map_state]
  dsimp only
  by_cases hempty : t.initial = ""
  · rw [if_pos (beq_iff_eq.mpr hempty), if_pos hempty]
  · rw [if_neg (mt beq_iff_eq.mp hempty), if_neg hempty]

/-- The text of a table is read as a copy of the table that can be changed, unless the table has
transitions and no start. -/
theorem Table.readJson_render {t : Table} (h : t.WellFormed)
    (hinitial : t.initial ≠ "" ∨ t.transitions = []) :
    Table.empty.readJson t.toJson.render = (t.thaw, none) := by
  rw [Table.readJson_render_eq h]
  by_cases hempty : t.initial = ""
  · have hnone : t.transitions = [] := hinitial.resolve_left fun hne => hne hempty
    rw [if_pos hempty, ← h.head?_map_state, hnone, Table.thaw, hempty]
    rfl
  · rw [if_neg hempty]
    rfl

/-- The JSON text of a table, whatever its names and symbols are and whether it is frozen or not, is
read as a table that can be changed and that has the same states and transitions in the same order.
It also has the same start, unless the start is empty and the first state is not; then it starts in
the first state. -/
theorem Table.written_json_is_read_back {t : Table} (h : t.Reachable) :
    ∃ u, Table.empty.readJson t.toJson.render = (u, none) ∧ u.frozen = false ∧
      u.states = t.states ∧ u.transitions = t.transitions ∧
      (u.initial = t.initial ↔
        t.initial ≠ "" ∨ t.transitions = [] ∨ t.states.head? = some "") ∧
      (u.initial ≠ t.initial → t.states.head? = some u.initial) := by
  have hstates : t.transitions = [] ↔ t.states.head? = none := by
    rw [← h.wellFormed.head?_map_state, Option.map_eq_none_iff, List.head?_eq_none_iff]
  refine ⟨_, Table.readJson_render_eq h.wellFormed, rfl, rfl, rfl, ?_, ?_⟩
  · by_cases hempty : t.initial = ""
    · simp only [hempty, if_true, ne_eq, not_true_eq_false, false_or, hstates]
      cases t.states.head? <;> simp
    · simp [hempty]
  · intro hne
    by_cases hempty : t.initial = ""
    · simp only [hempty, if_true] at hne ⊢
      cases hhead : t.states.head? with
      | none => exact absurd (by rw [hhead]; rfl) hne
      | some s => rfl
    · exact absurd (if_neg hempty) hne

/-- A frozen table without a start, whose names and symbols are such that they need quoting. -/
def quoteMarks : Table :=
  ((Table.empty.perform (.addAll [⟨"\"<\\", "\u2028", "&", "l", "halt\n\x01"⟩,
    ⟨"\"<\\", "*", "\t", "stay", ""⟩])).perform (.setInitial "")).perform .freeze

/-- Its text is read as a table that starts in its first state. -/
theorem Table.written_json_is_read_back_quoteMarks :
    quoteMarks.Reachable ∧ quoteMarks.initial = "" ∧
      ∃ u, Table.empty.readJson quoteMarks.toJson.render = (u, none) ∧
        u.transitions = quoteMarks.transitions ∧ u.initial = "\"<\\" := by
  have hreachable : quoteMarks.Reachable := .step (.step (.step .empty _) _) _
  obtain ⟨u, hread, -, -, htransitions, hinitial, hfirst⟩ :=
    Table.written_json_is_read_back hreachable
  have hlost : u.initial ≠ quoteMarks.initial := fun heq => absurd (hinitial.mp heq) (by decide)
  have hhead : quoteMarks.states.head? = some "\"<\\" := by decide
  exact ⟨hreachable, by decide, u, hread, htransitions,
    Option.some_inj.mp ((hfirst hlost).symm.trans hhead)⟩

end TapeMachine
