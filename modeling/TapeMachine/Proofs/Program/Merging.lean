import Mathlib.Data.List.Induction
import TapeMachine.Proofs.Program.Refusals

/-!
# The last word counts

What a draft holds, told from the list of its instructions alone. States come in the order in which
they are first mentioned and the symbols of a state likewise (`statesOf`, `cellsOf`); of each pair
the last instruction about an aspect says what it is (`lastSaid`), and the first instruction for the
pair gives the line (`firstLine`).

One more instruction changes these in the same way as merging changes the groups of a draft, so the
groups of every draft are what the list says (`Draft.groups_ofInstructions`). Since the order of the
list matters only for instructions about one aspect of one pair, two others can be exchanged
(`Draft.transitions_swap_perm`).
-/

namespace TapeMachine.Program

/-! ## What is said about a pair of state and symbol -/

/-- The three things that can be said about a pair of state and symbol. -/
inductive Aspect where
  | write
  | move
  | goto
deriving DecidableEq

/-- What a directive is about. -/
def Directive.aspect : Directive → Aspect
  | .write _ => .write
  | .move _ => .move
  | .goto _ => .goto

/-- What a directive says about it. -/
def Directive.value : Directive → String
  | .write symbol => symbol
  | .move direction => direction
  | .goto state => state

/-- What the last instruction about an aspect of a state and symbol says. -/
def lastSaid (is : List Instruction) (state cell : String) (a : Aspect) : Option String :=
  (is.filter fun i =>
    i.state == state && i.cell == cell && i.directive.aspect == a).getLast?.map (·.directive.value)

/-- The line of the first instruction for a state and symbol. -/
def firstLine (is : List Instruction) (state cell : String) : Option ℤ :=
  (is.find? fun i => i.state == state && i.cell == cell).map (·.line)

/-- The states that instructions are for, each once, in the order of the first of them. -/
def statesOf (is : List Instruction) : List String :=
  (is.map (·.state)).eraseDups

/-- The symbols of a state that instructions are for, each once, in the order of the first of
them. -/
def cellsOf (is : List Instruction) (state : String) : List String :=
  ((is.filter fun i => i.state == state).map (·.cell)).eraseDups

/-- All that is said about a state and symbol. -/
def said (is : List Instruction) (state cell : String) : Entry where
  state
  cell
  line := (firstLine is state cell).getD 0
  write := lastSaid is state cell .write
  move := lastSaid is state cell .move
  goto := lastSaid is state cell .goto

/-! ## One more instruction -/

section Concat

variable (is : List Instruction) (i : Instruction) {state cell : String}

/-- The states are those some instruction is for. -/
lemma mem_statesOf_iff {is : List Instruction} :
    state ∈ statesOf is ↔ ∃ i ∈ is, i.state = state := by
  rw [statesOf, List.mem_eraseDups, List.mem_map]

/-- The symbols of a state are those some instruction in this state is for. -/
lemma mem_cellsOf_iff {is : List Instruction} :
    cell ∈ cellsOf is state ↔ ∃ i ∈ is, i.state = state ∧ i.cell = cell := by
  rw [cellsOf, List.mem_eraseDups, List.mem_map]
  simp [and_assoc]

/-- A further instruction adds its state at the end, unless it is there already. -/
lemma statesOf_concat : statesOf (is ++ [i]) =
    if i.state ∈ statesOf is then statesOf is else statesOf is ++ [i.state] := by
  unfold statesOf
  rw [List.map_append, List.map_singleton, eraseDups_concat]
  simp only [List.mem_eraseDups]

/-- A further instruction leaves the symbols of other states. -/
lemma cellsOf_concat_of_ne (h : i.state ≠ state) :
    cellsOf (is ++ [i]) state = cellsOf is state := by
  unfold cellsOf
  rw [List.filter_append, List.filter_cons_of_neg (by simpa using h), List.filter_nil,
    List.append_nil]

/-- A further instruction adds its symbol at the end, unless it is there already. -/
lemma cellsOf_concat_self : cellsOf (is ++ [i]) i.state =
    if i.cell ∈ cellsOf is i.state then cellsOf is i.state
    else cellsOf is i.state ++ [i.cell] := by
  unfold cellsOf
  rw [List.filter_append, List.filter_cons_of_pos (by simp), List.filter_nil, List.map_append,
    List.map_singleton, eraseDups_concat]
  simp only [List.mem_eraseDups]

/-- The last word is that of the new instruction, if it is about the pair and the aspect. -/
lemma lastSaid_concat (a : Aspect) : lastSaid (is ++ [i]) state cell a =
    if i.state = state ∧ i.cell = cell ∧ i.directive.aspect = a then some i.directive.value
    else lastSaid is state cell a := by
  unfold lastSaid
  rw [List.filter_append]
  by_cases h : i.state = state ∧ i.cell = cell ∧ i.directive.aspect = a
  · rw [List.filter_cons_of_pos (by simpa [and_assoc] using h), List.filter_nil, if_pos h]
    simp
  · rw [List.filter_cons_of_neg (by simpa [and_assoc] using h), List.filter_nil, if_neg h,
      List.append_nil]

/-- The first line is that of the new instruction, if it is the first for the pair. -/
lemma firstLine_concat : firstLine (is ++ [i]) state cell =
    (firstLine is state cell).or
      (if i.state = state ∧ i.cell = cell then some i.line else none) := by
  unfold firstLine
  rw [List.find?_append, Option.map_or]
  by_cases h : i.state = state ∧ i.cell = cell
  · rw [List.find?_cons_of_pos (by simpa using h), if_pos h]
    rfl
  · rw [List.find?_cons_of_neg (by simpa using h), if_neg h]
    rfl

/-- What is said about other pairs stays as it is. -/
lemma said_concat_of_ne (h : ¬ (i.state = state ∧ i.cell = cell)) :
    said (is ++ [i]) state cell = said is state cell := by
  have hlast : ∀ a, lastSaid (is ++ [i]) state cell a = lastSaid is state cell a := by
    intro a
    rw [lastSaid_concat, if_neg fun ha => h ⟨ha.1, ha.2.1⟩]
  have hline : firstLine (is ++ [i]) state cell = firstLine is state cell := by
    rw [firstLine_concat, if_neg h, Option.or_none]
  unfold said
  rw [hline, hlast, hlast, hlast]

/-- An entry takes in what is said about its pair. -/
lemma said_concat_of_mem (h : i.cell ∈ cellsOf is i.state) :
    said (is ++ [i]) i.state i.cell = (said is i.state i.cell).apply i.directive := by
  have hline : firstLine (is ++ [i]) i.state i.cell = firstLine is i.state i.cell := by
    obtain ⟨j, hj, hstate, hcell⟩ := mem_cellsOf_iff.mp h
    have hsome : (is.find? fun j => j.state == i.state && j.cell == i.cell).isSome := by
      rw [List.find?_isSome]
      exact ⟨j, hj, by simp [hstate, hcell]⟩
    rw [firstLine_concat, firstLine]
    exact Option.or_of_isSome (by simpa using hsome)
  unfold said
  rw [hline, lastSaid_concat, lastSaid_concat, lastSaid_concat]
  cases hd : i.directive <;> simp [Directive.aspect, Directive.value, Entry.apply]

/-- The first instruction for a pair makes its entry. -/
lemma said_concat_of_notMem (h : i.cell ∉ cellsOf is i.state) :
    said (is ++ [i]) i.state i.cell =
      ({ state := i.state, cell := i.cell, line := i.line } : Entry).apply i.directive := by
  have hnone : ∀ j ∈ is, ¬ (j.state = i.state ∧ j.cell = i.cell) := fun j hj heq =>
    h (mem_cellsOf_iff.mpr ⟨j, hj, heq⟩)
  have hlast : ∀ a, lastSaid is i.state i.cell a = none := by
    intro a
    have hnil : (is.filter fun j =>
        j.state == i.state && j.cell == i.cell && j.directive.aspect == a) = [] :=
      List.filter_eq_nil_iff.mpr fun j hj => by
        simp only [Bool.and_eq_true, beq_iff_eq]
        exact fun heq => hnone j hj heq.1
    rw [lastSaid, hnil]
    rfl
  have hline : firstLine is i.state i.cell = none := by
    rw [firstLine, Option.map_eq_none_iff, List.find?_eq_none]
    exact fun j hj => by simpa using hnone j hj
  unfold said
  rw [firstLine_concat, hline, lastSaid_concat, lastSaid_concat, lastSaid_concat, hlast, hlast,
    hlast]
  cases hd : i.directive <;> simp [Directive.aspect, Directive.value, Entry.apply]

end Concat

/-! ## Merging does the same -/

namespace Draft

/-- An instruction for a symbol that has no entry makes one, at the end. -/
lemma mergeEntry_of_notMem {i : Instruction} {es : List Entry} (h : i.cell ∉ es.map Entry.cell) :
    mergeEntry i es =
      es ++ [({ state := i.state, cell := i.cell, line := i.line } : Entry).apply i.directive] := by
  induction es with
  | nil => rfl
  | cons e es ih =>
    rw [List.map_cons, List.mem_cons, not_or] at h
    rw [mergeEntry, if_neg (by simpa using Ne.symm h.1), ih h.2]
    rfl

/-- An instruction for a symbol that has an entry is taken in there. -/
lemma mergeEntry_of_mem {i : Instruction} {es : List Entry} (h : i.cell ∈ es.map Entry.cell)
    (hnd : (es.map Entry.cell).Nodup) :
    mergeEntry i es = es.map fun e => if e.cell = i.cell then e.apply i.directive else e := by
  induction es with
  | nil => cases h
  | cons e es ih =>
    rw [List.map_cons, List.nodup_cons] at hnd
    by_cases he : e.cell = i.cell
    · -- No other entry has the symbol.
      have hrest : (es.map fun e => if e.cell = i.cell then e.apply i.directive else e) = es := by
        refine (List.map_congr_left fun o ho => if_neg fun hcell => hnd.1 ?_).trans (List.map_id es)
        exact List.mem_map.mpr ⟨o, ho, hcell.trans he.symm⟩
      rw [mergeEntry, if_pos (by simpa using he), List.map_cons, if_pos he, hrest]
    · rw [List.map_cons, List.mem_cons] at h
      rw [mergeEntry, if_neg (by simpa using he), List.map_cons, if_neg he,
        ih (h.resolve_left (Ne.symm he)) hnd.2]

/-- An instruction for a state that has no group opens one, at the end. -/
lemma mergeGroup_of_notMem {i : Instruction} {gs : List (String × List Entry)}
    (h : i.state ∉ gs.map (·.1)) : mergeGroup i gs = gs ++ [(i.state, mergeEntry i [])] := by
  induction gs with
  | nil => rfl
  | cons g gs ih =>
    rw [List.map_cons, List.mem_cons, not_or] at h
    rw [mergeGroup, if_neg (by simpa using Ne.symm h.1), ih h.2]
    rfl

/-- An instruction for a state that has a group is taken in there. -/
lemma mergeGroup_of_mem {i : Instruction} {gs : List (String × List Entry)}
    (h : i.state ∈ gs.map (·.1)) (hnd : (gs.map (·.1)).Nodup) :
    mergeGroup i gs = gs.map fun g => if g.1 = i.state then (g.1, mergeEntry i g.2) else g := by
  induction gs with
  | nil => cases h
  | cons g gs ih =>
    rw [List.map_cons, List.nodup_cons] at hnd
    by_cases hg : g.1 = i.state
    · have hrest : (gs.map fun g => if g.1 = i.state then (g.1, mergeEntry i g.2) else g) = gs := by
        refine (List.map_congr_left fun o ho => if_neg fun hstate => hnd.1 ?_).trans
          (List.map_id gs)
        exact List.mem_map.mpr ⟨o, ho, hstate.trans hg.symm⟩
      rw [mergeGroup, if_pos (by simpa using hg), List.map_cons, if_pos hg, hrest]
    · rw [List.map_cons, List.mem_cons] at h
      rw [mergeGroup, if_neg (by simpa using hg), List.map_cons, if_neg hg,
        ih (h.resolve_left (Ne.symm hg)) hnd.2]

/-- The entries of a state take in what is said about the state. -/
lemma mergeEntry_said (is : List Instruction) (i : Instruction) :
    mergeEntry i ((cellsOf is i.state).map (said is i.state)) =
      (cellsOf (is ++ [i]) i.state).map (said (is ++ [i]) i.state) := by
  have hcells :
      ((cellsOf is i.state).map (said is i.state)).map Entry.cell = cellsOf is i.state := by
    rw [List.map_map]
    exact List.map_id _
  rw [cellsOf_concat_self]
  by_cases h : i.cell ∈ cellsOf is i.state
  · rw [mergeEntry_of_mem (by rwa [hcells]) (by rw [hcells]; exact nodup_eraseDups _), if_pos h,
      List.map_map]
    refine List.map_congr_left fun c hc => ?_
    by_cases heq : c = i.cell
    · subst heq
      exact (if_pos rfl).trans (said_concat_of_mem is i h).symm
    · exact (if_neg heq).trans (said_concat_of_ne is i fun hne => heq hne.2.symm).symm
  · rw [mergeEntry_of_notMem (by rwa [hcells]), if_neg h, List.map_append, List.map_singleton,
      said_concat_of_notMem is i h]
    refine congrArg (· ++ _) (List.map_congr_left fun c hc => ?_)
    exact (said_concat_of_ne is i fun heq => h (heq.2 ▸ hc)).symm

/-- The groups of a draft, as its instructions tell them. -/
theorem groups_ofInstructions (is : List Instruction) :
    (ofInstructions is).groups =
      (statesOf is).map fun s => (s, (cellsOf is s).map (said is s)) := by
  induction is using List.reverseRecOn with
  | nil => simp [ofInstructions, statesOf]
  | append_singleton is i ih =>
    have hmerge :
        (ofInstructions (is ++ [i])).groups = mergeGroup i (ofInstructions is).groups := by
      rw [ofInstructions, List.foldl_append]
      rfl
    have hstates : ((statesOf is).map fun s => (s, (cellsOf is s).map (said is s))).map (·.1) =
        statesOf is := by
      rw [List.map_map]
      exact List.map_id _
    -- Groups of other states stay as they are.
    have hother : ∀ s, s ≠ i.state → (s, (cellsOf is s).map (said is s)) =
        (s, (cellsOf (is ++ [i]) s).map (said (is ++ [i]) s)) := by
      intro s hs
      rw [cellsOf_concat_of_ne is i (Ne.symm hs)]
      refine congrArg (s, ·) (List.map_congr_left fun c _ => ?_)
      exact (said_concat_of_ne is i fun heq => hs heq.1.symm).symm
    rw [hmerge, ih, statesOf_concat]
    by_cases h : i.state ∈ statesOf is
    · rw [mergeGroup_of_mem (by rwa [hstates]) (by rw [hstates]; exact nodup_eraseDups _), if_pos h,
        List.map_map]
      refine List.map_congr_left fun s _ => ?_
      by_cases heq : s = i.state
      · subst heq
        exact (if_pos rfl).trans (congrArg (i.state, ·) (mergeEntry_said is i))
      · exact (if_neg heq).trans (hother s heq)
    · have hnil : cellsOf is i.state = [] := by
        refine List.eq_nil_iff_forall_not_mem.mpr fun c hc => h ?_
        obtain ⟨j, hj, hstate, -⟩ := mem_cellsOf_iff.mp hc
        exact mem_statesOf_iff.mpr ⟨j, hj, hstate⟩
      have hnew := mergeEntry_said is i
      rw [hnil, List.map_nil] at hnew
      rw [mergeGroup_of_notMem (by rwa [hstates]), if_neg h, List.map_append, List.map_singleton,
        hnew]
      refine congrArg (· ++ _) (List.map_congr_left fun s hs => hother s ?_)
      exact fun heq => h (heq ▸ hs)

/-- The entries of a draft, as its instructions tell them. -/
lemma entries_ofInstructions (is : List Instruction) :
    (ofInstructions is).entries =
      (statesOf is).flatMap fun s => (cellsOf is s).map (said is s) := by
  rw [entries, groups_ofInstructions, List.flatMap_map]

/-- The transitions of a draft, as its instructions tell them. -/
theorem transitions_ofInstructions (is : List Instruction) :
    (ofInstructions is).transitions =
      (statesOf is).flatMap fun s => (cellsOf is s).map fun c => (said is s c).transition := by
  rw [transitions, entries_ofInstructions, List.map_flatMap]
  simp only [List.map_map]
  rfl

/-- There is a transition for each pair that instructions are for. -/
lemma mem_transitions_iff {is : List Instruction} {r : Transition} :
    r ∈ (ofInstructions is).transitions ↔
      ∃ i ∈ is, r = (said is i.state i.cell).transition := by
  rw [transitions_ofInstructions]
  simp only [List.mem_flatMap, List.mem_map, mem_statesOf_iff, mem_cellsOf_iff]
  constructor
  · rintro ⟨s, -, c, ⟨i, hi, rfl, rfl⟩, rfl⟩
    exact ⟨i, hi, rfl⟩
  · rintro ⟨i, hi, rfl⟩
    exact ⟨i.state, ⟨i, hi, rfl⟩, i.cell, ⟨i, hi, rfl, rfl⟩, rfl⟩

/-! ## Saying something again -/

/-- A directive given twice counts once. -/
lemma apply_apply (e : Entry) (d : Directive) : (e.apply d).apply d = e.apply d := by
  cases d <;> rfl

/-- An instruction merged again, at whatever line, makes no difference to the entries. -/
lemma mergeEntry_again (i : Instruction) (line : ℤ) (es : List Entry) :
    mergeEntry { i with line } (mergeEntry i es) = mergeEntry i es := by
  induction es with
  | nil =>
    rw [mergeEntry, mergeEntry, if_pos (by simp), apply_apply]
  | cons e es ih =>
    rw [mergeEntry]
    by_cases he : e.cell = i.cell
    · rw [if_pos (by simpa using he), mergeEntry, if_pos (by simpa using he), apply_apply]
    · rw [if_neg (by simpa using he), mergeEntry, if_neg (by simpa using he), ih]

/-- An instruction merged again, at whatever line, makes no difference to the groups. -/
lemma mergeGroup_again (i : Instruction) (line : ℤ) (gs : List (String × List Entry)) :
    mergeGroup { i with line } (mergeGroup i gs) = mergeGroup i gs := by
  induction gs with
  | nil =>
    rw [mergeGroup, mergeGroup, if_pos (by simp), mergeEntry_again]
  | cons g gs ih =>
    rw [mergeGroup]
    by_cases hg : g.1 = i.state
    · rw [if_pos (by simpa using hg), mergeGroup, if_pos (by simpa using hg), mergeEntry_again]
    · rw [if_neg (by simpa using hg), mergeGroup, if_neg (by simpa using hg), ih]

/-- Saying something again at once, on whatever line, changes nothing. -/
theorem ofInstructions_again (pre post : List Instruction) (i : Instruction) (line : ℤ) :
    ofInstructions (pre ++ i :: { i with line } :: post) = ofInstructions (pre ++ i :: post) := by
  have hmerge : ∀ d : Draft, (d.merge i).merge { i with line } = d.merge i := fun d =>
    congrArg Draft.mk (mergeGroup_again i line d.groups)
  simp only [ofInstructions, List.foldl_append, List.foldl_cons, hmerge]

/-! ## Exchanging two instructions -/

section Swap

variable {pre post : List Instruction} {i j : Instruction}

/-- The last words are the same if two instructions are exchanged that are not about one aspect of
one pair. -/
lemma lastSaid_swap (h : i.directive.aspect ≠ j.directive.aspect ∨
    (i.state, i.cell) ≠ (j.state, j.cell)) (state cell : String) (a : Aspect) :
    lastSaid (pre ++ j :: i :: post) state cell a =
      lastSaid (pre ++ i :: j :: post) state cell a := by
  have hnot : ¬ ((i.state == state && i.cell == cell && i.directive.aspect == a) = true ∧
      (j.state == state && j.cell == cell && j.directive.aspect == a) = true) := by
    simp only [Bool.and_eq_true, beq_iff_eq]
    rintro ⟨⟨⟨rfl, rfl⟩, rfl⟩, ⟨⟨hstate, hcell⟩, haspect⟩⟩
    rcases h with h | h
    · exact h haspect.symm
    · exact h (Prod.ext hstate.symm hcell.symm)
  unfold lastSaid
  rw [List.filter_append, List.filter_append]
  simp only [List.filter_cons]
  -- At most one of the two is in the list.
  split
  · rename_i hj
    have hi := fun hi => hnot ⟨hi, hj⟩
    rw [if_neg hi, if_neg hi]
  · rfl

/-- Exchanging two instructions that are not about one aspect of one pair changes no transition. -/
theorem transitions_swap_perm (h : i.directive.aspect ≠ j.directive.aspect ∨
    (i.state, i.cell) ≠ (j.state, j.cell)) :
    (ofInstructions (pre ++ j :: i :: post)).transitions.Perm
      (ofInstructions (pre ++ i :: j :: post)).transitions := by
  have hnodup : ∀ is, (ofInstructions is).transitions.Nodup := fun is =>
    (ofInstructions_wellFormed is).keys_nodup.of_map
  have hsaid : ∀ state cell, (said (pre ++ j :: i :: post) state cell).transition =
      (said (pre ++ i :: j :: post) state cell).transition := by
    intro state cell
    simp only [said, Entry.transition, lastSaid_swap h]
  refine (List.perm_ext_iff_of_nodup (hnodup _) (hnodup _)).mpr fun r => ?_
  rw [mem_transitions_iff, mem_transitions_iff]
  simp only [hsaid]
  refine exists_congr fun k => and_congr_left fun _ => ?_
  simp only [List.mem_append, List.mem_cons]
  tauto

end Swap

/-! ## The law of drafts -/

/-- The line of an entry is that of the first instruction for its pair. -/
lemma firstLine_of_mem_entries {is : List Instruction} {e : Entry}
    (h : e ∈ (ofInstructions is).entries) : firstLine is e.state e.cell = some e.line := by
  rw [entries_ofInstructions] at h
  obtain ⟨s, -, h⟩ := List.mem_flatMap.mp h
  obtain ⟨c, hc, rfl⟩ := List.mem_map.mp h
  change firstLine is s c = some ((firstLine is s c).getD 0)
  cases hline : firstLine is s c with
  | some line => rfl
  | none =>
    obtain ⟨i, hi, hstate, hcell⟩ := mem_cellsOf_iff.mp hc
    rw [firstLine, Option.map_eq_none_iff, List.find?_eq_none] at hline
    exact absurd (by simp [hstate, hcell]) (hline i hi)

/-- What instructions come to. There is one transition for each pair of state and symbol that is
mentioned, states in the order of their first mention and symbols of a state likewise, and each
part of it is what was last said about it, or else leaves things as they are. Saying something again
at once changes nothing, and exchanging two instructions that are not about one aspect of one pair
changes at most the order. There is a table exactly when all of these transitions are valid, and it
has them in this order; otherwise the first that is not is refused, at the line where its pair is
first mentioned. -/
theorem last_word_counts (is : List Instruction) :
    (ofInstructions is).transitions =
      ((statesOf is).flatMap fun s => (cellsOf is s).map fun c =>
        ⟨s, c, (lastSaid is s c .write).getD wildcard, (lastSaid is s c .move).getD wildcard,
          (lastSaid is s c .goto).getD s⟩) ∧
    ((ofInstructions is).transitions.map Transition.key).Nodup ∧
    (∀ k, k ∈ (ofInstructions is).transitions.map Transition.key ↔
      ∃ i ∈ is, (i.state, i.cell) = k) ∧
    (∀ pre i post line, is = pre ++ i :: post →
      ofInstructions (pre ++ i :: { i with line } :: post) = ofInstructions is) ∧
    (∀ pre i j post, is = pre ++ i :: j :: post →
      i.directive.aspect ≠ j.directive.aspect ∨ (i.state, i.cell) ≠ (j.state, j.cell) →
      (ofInstructions (pre ++ j :: i :: post)).transitions.Perm (ofInstructions is).transitions) ∧
    ((∃ t, (ofInstructions is).table = .ok t) ↔
      ∀ r ∈ (ofInstructions is).transitions, r.Valid) ∧
    (∀ t, (ofInstructions is).table = .ok t → t.transitions = (ofInstructions is).transitions) ∧
    (∀ e, (ofInstructions is).table = .error e →
      ∃ before r after refusal line, (ofInstructions is).transitions = before ++ r :: after ∧
        (∀ q ∈ before, q.Valid) ∧ r.defect? = some refusal ∧
        firstLine is r.state r.read = some line ∧ e = .at line (.refused refusal)) := by
  refine ⟨transitions_ofInstructions is, (ofInstructions_wellFormed is).keys_nodup, ?_, ?_, ?_, ?_,
    ?_, ?_⟩
  · intro k
    simp only [List.mem_map, mem_transitions_iff]
    constructor
    · rintro ⟨r, ⟨i, hi, rfl⟩, rfl⟩
      exact ⟨i, hi, rfl⟩
    · rintro ⟨i, hi, rfl⟩
      exact ⟨_, ⟨i, hi, rfl⟩, rfl⟩
  · rintro pre i post line rfl
    exact ofInstructions_again pre post i line
  · rintro pre i j post rfl h
    exact transitions_swap_perm h
  · constructor
    · rintro ⟨t, ht⟩
      exact (table_eq_ok_iff.mp ht).1
    · intro hvalid
      exact ⟨_, table_eq_ok_iff.mpr ⟨hvalid, rfl⟩⟩
  · intro t ht
    rw [(table_eq_ok_iff.mp ht).2]
    exact flatMap_tableGroups _
  · intro e he
    obtain ⟨before, entry, after, refusal, hentries, hvalid, hdefect, rfl⟩ := of_table_eq_error he
    have hmem : entry ∈ (ofInstructions is).entries := by simp [hentries]
    refine ⟨before.map Entry.transition, entry.transition, after.map Entry.transition, refusal,
      entry.line, ?_, ?_, hdefect, firstLine_of_mem_entries hmem, rfl⟩
    · rw [transitions, hentries, List.map_append, List.map_cons]
    · intro q hq
      obtain ⟨o, ho, rfl⟩ := List.mem_map.mp hq
      exact hvalid o ho

/-- Instructions for three pairs, of which one is first given a direction that there is not. -/
def revised : List Instruction :=
  [⟨"a", "1", .write "0", 1⟩, ⟨"b", "*", .move "up", 2⟩, ⟨"a", "0", .goto "b", 3⟩,
    ⟨"a", "1", .write "1", 4⟩, ⟨"b", "*", .write "_", 5⟩, ⟨"a", "1", .goto "b", 6⟩]

/-- The direction is refused where the pair is first mentioned. A direction that is given later
replaces it, and then there is a table. Exchanging the first two instructions exchanges the
states. -/
theorem last_word_counts_revised :
    (ofInstructions revised).transitions =
      [⟨"a", "1", "1", "*", "b"⟩, ⟨"a", "0", "*", "*", "b"⟩, ⟨"b", "*", "_", "up", "b"⟩] ∧
    (ofInstructions revised).table = .error (.at 2 (.refused (.badDirection "up"))) ∧
    (∃ t, (ofInstructions (revised ++ [⟨"b", "*", .move "l", 7⟩])).table = .ok t ∧
      t.transitions =
        [⟨"a", "1", "1", "*", "b"⟩, ⟨"a", "0", "*", "*", "b"⟩, ⟨"b", "*", "_", "l", "b"⟩]) ∧
    (ofInstructions (revised.tail.take 1 ++ revised.take 1 ++ revised.drop 2)).transitions.Perm
      (ofInstructions revised).transitions := by
  have hrevised : (ofInstructions revised).transitions =
      [⟨"a", "1", "1", "*", "b"⟩, ⟨"a", "0", "*", "*", "b"⟩, ⟨"b", "*", "_", "up", "b"⟩] := by
    decide +kernel
  have hlater : (ofInstructions (revised ++ [⟨"b", "*", .move "l", 7⟩])).transitions =
      [⟨"a", "1", "1", "*", "b"⟩, ⟨"a", "0", "*", "*", "b"⟩, ⟨"b", "*", "_", "l", "b"⟩] := by
    decide +kernel
  obtain ⟨-, -, -, -, hswap, -, -, -⟩ := last_word_counts revised
  obtain ⟨-, -, -, -, -, htable, hsame, -⟩ :=
    last_word_counts (revised ++ [⟨"b", "*", .move "l", 7⟩])
  obtain ⟨t, ht⟩ := htable.mpr (by rw [hlater]; decide +kernel)
  refine ⟨hrevised, by decide +kernel, ⟨t, ht, (hsame t ht).trans hlater⟩, ?_⟩
  exact hswap [] _ _ _ rfl (by decide)

end Draft

end TapeMachine.Program
