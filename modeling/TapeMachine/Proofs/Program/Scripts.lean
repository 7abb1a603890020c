import TapeMachine.Proofs.Program.Merging
import TapeMachine.Table.Script

/-!
# Scripts and drafts

A script and a draft are two ways to gather what is said about the rules of a table. A script is
told by a chain of calls that go to a state, go to a symbol of it and then say something about it;
a draft merges instructions, each of which names its state and symbol. Their entries differ, since a
script keeps directions and a draft keeps spellings and lines, but the transitions that they stand
for do not: saying something replaces one part of one transition, which is made first if nothing has
been said about its state and symbol before (`amended`).

Both keep to this (`Script.tableGroups_tell`, `Program.Draft.tableGroups_merge`), so they have the
same transitions after the same visits to rules (`Script.Agrees.visit`), and then the same table or
the same refusal. Where runs start is apart from all this: the last call that chooses a start says
it (`Script.ofCalls_eq`).
-/

namespace TapeMachine

open Program

/-! ## One more entry in a list -/

section Upsert

variable {α β : Type}

/-- Changes the elements of a list that have a key, or adds one if there is none. -/
def upsert (key : α → String) (k : String) (new : α) (f : α → α) (l : List α) : List α :=
  if k ∈ l.map key then l.map (fun a => if key a = k then f a else a) else l ++ [new]

/-- A view of the elements that respects keys and changes is a view of the list. -/
lemma map_upsert (key : α → String) (key' : β → String) (h : α → β) (new : α) {k : String}
    {f : α → α} {g : β → β} {l : List α} (hkey : ∀ a, key' (h a) = key a)
    (hf : ∀ a ∈ l, key a = k → h (f a) = g (h a)) :
    (upsert key k new f l).map h = upsert key' k (h new) g (l.map h) := by
  have hkeys : (l.map h).map key' = l.map key := by
    rw [List.map_map]
    exact List.map_congr_left fun a _ => hkey a
  unfold upsert
  rw [hkeys]
  split
  · rw [List.map_map, List.map_map]
    refine List.map_congr_left fun a ha => ?_
    simp only [Function.comp_apply, hkey]
    split
    · exact hf a ha ‹_›
    · rfl
  · rw [List.map_append]
    rfl

/-- Making sure that a key is there and then changing what has it. -/
lemma map_ensured (key : α → String) (new : α) {k : String} (hnew : key new = k) (f : α → α)
    (l : List α) :
    (if l.any (fun a => key a == k) then l else l ++ [new]).map
        (fun a => if key a == k then f a else a) = upsert key k (f new) f l := by
  have hany : l.any (fun a => key a == k) = true ↔ k ∈ l.map key := by
    simp [List.any_eq_true]
  unfold upsert
  by_cases h : k ∈ l.map key
  · rw [if_pos (hany.mpr h), if_pos h]
    simp only [beq_iff_eq]
  · -- The new element is the only one that has the key.
    have hold : (l.map fun a => if key a == k then f a else a) = l := by
      refine (List.map_congr_left fun a ha => if_neg fun hk => h ?_).trans (List.map_id l)
      exact List.mem_map.mpr ⟨a, ha, beq_iff_eq.mp hk⟩
    rw [if_neg fun hk => h (hany.mp hk), if_neg h, List.map_append, hold, List.map_singleton,
      if_pos (beq_iff_eq.mpr hnew)]

/-- After that the key is there. -/
lemma mem_map_upsert {key : α → String} {k : String} {new : α} {f : α → α} (hnew : key new = k)
    (hf : ∀ a, key a = k → key (f a) = k) (l : List α) : k ∈ (upsert key k new f l).map key := by
  unfold upsert
  split
  · rename_i hk
    obtain ⟨a, ha, hkey⟩ := List.mem_map.mp hk
    exact List.mem_map.mpr ⟨f a, List.mem_map.mpr ⟨a, ha, if_pos hkey⟩, hf a hkey⟩
  · exact List.mem_map.mpr ⟨new, by simp, hnew⟩

/-- What has the key is new or has been changed. -/
lemma of_mem_upsert {key : α → String} {k : String} {new b : α} {f : α → α} {l : List α}
    (h : b ∈ upsert key k new f l) (hb : key b = k) : b = new ∨ ∃ a, b = f a := by
  unfold upsert at h
  split at h
  · obtain ⟨a, -, rfl⟩ := List.mem_map.mp h
    split at hb
    · exact .inr ⟨a, if_pos ‹_›⟩
    · exact absurd hb ‹_›
  · rename_i hk
    rcases List.mem_append.mp h with h | h
    · exact absurd (List.mem_map.mpr ⟨b, h, hb⟩) hk
    · exact .inl (List.mem_singleton.mp h)

end Upsert

/-! ## What saying something does to transitions -/

/-- A rule about which nothing has been said. -/
def Transition.untouched (state cell : String) : Transition :=
  ⟨state, cell, wildcard, wildcard, state⟩

/-- Replaces what a directive is about. -/
def Program.Directive.amend : Directive → Transition → Transition
  | .write symbol, r => { r with write := symbol }
  | .move direction, r => { r with move := direction }
  | .goto state, r => { r with next := state }

/-- The rules of a state after something has been said about a symbol of it. -/
def amendedRules (state cell : String) (d : Directive) : List Transition → List Transition :=
  upsert Transition.read cell (d.amend (.untouched state cell)) d.amend

/-- The rules of a table after something has been said about a state and symbol. -/
def amended (state cell : String) (d : Directive) :
    List (String × List Transition) → List (String × List Transition) :=
  upsert Prod.fst state (state, amendedRules state cell d [])
    (fun g => (g.1, amendedRules state cell d g.2))

/-! ## Drafts -/

namespace Program.Draft

/-- A directive amends the transition of an entry. -/
lemma transition_apply (e : Entry) (d : Directive) :
    (e.apply d).transition = d.amend e.transition := by
  cases d <;> rfl

/-- The entries of a state take an instruction in as the transitions that they stand for do. -/
lemma map_transition_mergeEntry (i : Instruction) {es : List Entry}
    (hnd : (es.map Entry.cell).Nodup) :
    (mergeEntry i es).map Entry.transition =
      amendedRules i.state i.cell i.directive (es.map Entry.transition) := by
  have hmerge : mergeEntry i es = upsert Entry.cell i.cell
      (({ state := i.state, cell := i.cell, line := i.line } : Entry).apply i.directive)
      (fun e => e.apply i.directive) es := by
    unfold upsert
    split
    · exact mergeEntry_of_mem ‹_› hnd
    · exact mergeEntry_of_notMem ‹_›
  have hview := map_upsert Entry.cell Transition.read Entry.transition
    (({ state := i.state, cell := i.cell, line := i.line } : Entry).apply i.directive)
    (fun _ => rfl) fun e (_ : e ∈ es) (_ : e.cell = i.cell) => transition_apply e i.directive
  rw [hmerge, hview, transition_apply]
  rfl

/-- Merging an instruction amends the transitions of a draft. -/
theorem tableGroups_merge {d : Draft} (h : d.WellFormed) (i : Instruction) :
    (d.merge i).tableGroups = amended i.state i.cell i.directive d.tableGroups := by
  have hmerge : (d.merge i).groups = upsert Prod.fst i.state (i.state, mergeEntry i [])
      (fun g => (g.1, mergeEntry i g.2)) d.groups := by
    unfold upsert
    split
    · exact mergeGroup_of_mem ‹_› h.states_nodup
    · exact mergeGroup_of_notMem ‹_›
  have hview := map_upsert Prod.fst Prod.fst
    (fun g : String × List Entry => (g.1, g.2.map Entry.transition)) (i.state, mergeEntry i [])
    (f := fun g => (g.1, mergeEntry i g.2))
    (g := fun g => (g.1, amendedRules i.state i.cell i.directive g.2)) (l := d.groups)
    (fun _ => rfl) fun g hg (_ : g.1 = i.state) =>
      congrArg (g.1, ·) (map_transition_mergeEntry i (h.cells_nodup g hg))
  have hnew : (mergeEntry i []).map Entry.transition =
      amendedRules i.state i.cell i.directive [] :=
    map_transition_mergeEntry i List.nodup_nil
  rw [tableGroups, hmerge, hview, hnew]
  rfl

/-- Entries give the table of their transitions, or what it refuses is refused at a line. -/
lemma addEntries_eq_ok_or_error (t : Table) (es : List Entry) :
    (∃ u, t.addAll (es.map Entry.transition) = (u, none) ∧ addEntries t es = .ok u) ∨
      ∃ u refusal line, t.addAll (es.map Entry.transition) = (u, some refusal) ∧
        addEntries t es = .error (.at line (.refused refusal)) := by
  induction es generalizing t with
  | nil => exact .inl ⟨t, rfl, rfl⟩
  | cons e es ih =>
    rw [List.map_cons, Table.addAll, addEntries]
    cases t.add e.transition with
    | ok t' => exact ih t'
    | error refusal => exact .inr ⟨t, refusal, e.line, rfl, rfl⟩

/-- The table of a draft is that of its transitions, or what is refused is refused at a line. -/
theorem table_eq_ok_or_error (d : Draft) :
    (∃ t, Table.ofTransitions d.transitions = .ok t ∧ d.table = .ok t) ∨
      ∃ refusal line, Table.ofTransitions d.transitions = .error refusal ∧
        d.table = .error (.at line (.refused refusal)) := by
  unfold Table.ofTransitions
  rcases addEntries_eq_ok_or_error .empty d.entries with ⟨t, hall, htable⟩ |
    ⟨u, refusal, line, hall, htable⟩
  · exact .inl ⟨t, by rw [transitions, hall], htable⟩
  · exact .inr ⟨refusal, line, by rw [transitions, hall], htable⟩

end Program.Draft

/-! ## Scripts -/

namespace Script

/-- What can be said about a rule of a script. -/
inductive Saying where
  | write (symbol : String)
  | move (d : Direction)
  | goto (state : String)
  | halt (name : String)
deriving DecidableEq

/-- One call of a chain. -/
inductive Call where
  | start (state : String)
  | state (name : String)
  | on (symbol : String)
  | say (w : Saying)
deriving DecidableEq

/-- Says something about the current rule. -/
def say (s : Script) : Saying → Script
  | .write symbol => s.write symbol
  | .move d => s.move d
  | .goto state => s.goto state
  | .halt name => s.halt name

/-- Carries out a call. -/
def call (s : Script) : Call → Script
  | .start name => s.start name
  | .state name => s.state name
  | .on symbol => s.on symbol
  | .say w => s.say w

/-- The script of a chain of calls. -/
def ofCalls (calls : List Call) : Script :=
  calls.foldl call {}

/-- The directive that says the same in a program. -/
def Saying.directive : Saying → Directive
  | .write symbol => .write symbol
  | .move d => .move d.letter
  | .goto state => .goto state
  | .halt name => .goto (haltingState name)

/-- What saying something changes in a rule. -/
def Saying.edit : Saying → ScriptRule → ScriptRule
  | .write symbol, r => { r with write := some symbol }
  | .move d, r => { r with move := some d }
  | .goto state, r => { r with next := some state }
  | .halt name, r => { r with next := some (haltingState name) }

/-- Says something about a symbol of a state. -/
def tell (s : Script) (state symbol : String) (w : Saying) : Script :=
  ((s.state state).on symbol).say w

/-- The transitions of a script, state by state. -/
def tableGroups (s : Script) : List (String × List Transition) :=
  s.groups.map fun g => (g.1, g.2.map (transition g.1))

/-- The groups of the table hold the transitions of the script, in order. -/
lemma flatMap_tableGroups (s : Script) : s.tableGroups.flatMap (·.2) = s.transitions := by
  rw [tableGroups, transitions, List.flatMap_map]

/-- Saying something changes the rules of one state. -/
lemma say_eq_change (s : Script) (w : Saying) : s.say w = s.change w.edit := by
  cases w <;> rfl

/-- What is said of a rule amends its transition. -/
lemma transition_edit (state : String) (w : Saying) (r : ScriptRule) :
    transition state (w.edit r) = w.directive.amend (transition state r) := by
  cases w <;> rfl

/-- The rules of a state after something has been said about a symbol of it. -/
def toldRules (symbol : String) (w : Saying) : List ScriptRule → List ScriptRule :=
  upsert ScriptRule.symbol symbol (w.edit { symbol := symbol }) w.edit

/-- Going to a symbol makes sure that it has a rule, and saying something changes the rule. -/
lemma groups_tell (s : Script) (state symbol : String) (w : Saying) :
    (s.tell state symbol w).groups = upsert Prod.fst state (state, toldRules symbol w [])
      (fun g => (g.1, toldRules symbol w g.2)) s.groups := by
  have hrules := map_ensured ScriptRule.symbol { symbol := symbol } rfl w.edit
  have hgroups := map_ensured Prod.fst (state, []) rfl (fun g => (g.1, toldRules symbol w g.2))
    s.groups
  rw [tell, say_eq_change, ← hgroups]
  simp only [change, on, Script.state, changeState, List.map_map]
  refine List.map_congr_left fun g _ => ?_
  by_cases hg : g.1 = state
  · simp only [Function.comp_apply, hg, beq_self_eq_true, if_true]
    exact congrArg (state, ·) (hrules g.2)
  · simp [hg]

/-- What is said of the rules of a state amends their transitions. -/
lemma map_transition_toldRules (state symbol : String) (w : Saying) (rs : List ScriptRule) :
    (toldRules symbol w rs).map (transition state) =
      amendedRules state symbol w.directive (rs.map (transition state)) := by
  have hview := map_upsert ScriptRule.symbol Transition.read (transition state)
    (w.edit { symbol := symbol }) (k := symbol) (l := rs) (fun _ => rfl)
    fun r _ _ => transition_edit state w r
  rw [toldRules, hview, transition_edit]
  rfl

/-- Saying something about a symbol of a state amends the transitions of a script. -/
theorem tableGroups_tell (s : Script) (state symbol : String) (w : Saying) :
    (s.tell state symbol w).tableGroups = amended state symbol w.directive s.tableGroups := by
  have hview := map_upsert Prod.fst Prod.fst
    (fun g : String × List ScriptRule => (g.1, g.2.map (transition g.1)))
    (state, toldRules symbol w []) (k := state) (f := fun g => (g.1, toldRules symbol w g.2))
    (g := fun g => (g.1, amendedRules state symbol w.directive g.2)) (l := s.groups)
    (fun _ => rfl) fun g _ hg => by
      subst hg
      exact congrArg (g.1, ·) (map_transition_toldRules g.1 symbol w g.2)
  rw [tableGroups, groups_tell, hview, map_transition_toldRules]
  rfl

/-! ## Visits to rules -/

/-- The script is at the rule for a symbol of a state: what is said next is about it. -/
structure At (s : Script) (name sym : String) : Prop where
  state : s.state? = some name
  symbol : s.symbol? = some sym
  mem : name ∈ s.groups.map Prod.fst
  rule : ∀ g ∈ s.groups, g.1 = name → sym ∈ g.2.map ScriptRule.symbol

/-- Whoever has said something about a rule is at the rule. -/
lemma at_tell (s : Script) (name sym : String) (w : Saying) : (s.tell name sym w).At name sym := by
  have hsymbol : ∀ r : ScriptRule, r.symbol = sym → (w.edit r).symbol = sym := by
    intro r hr
    cases w <;> exact hr
  have hrule : ∀ rs, sym ∈ (toldRules sym w rs).map ScriptRule.symbol := fun rs =>
    mem_map_upsert (hsymbol _ rfl) hsymbol rs
  refine ⟨?_, ?_, ?_, ?_⟩
  · rw [tell, say_eq_change]
    rfl
  · rw [tell, say_eq_change]
    rfl
  · rw [groups_tell]
    refine mem_map_upsert ?_ (fun g hg => ?_) s.groups
    · rfl
    · exact hg
  · intro g hg hname
    rw [groups_tell] at hg
    rcases of_mem_upsert hg hname with rfl | ⟨g', rfl⟩
    · exact hrule []
    · exact hrule g'.2

/-- Going to the rule where the script is changes nothing. -/
lemma At.on_state {s : Script} {name sym : String} (h : s.At name sym) :
    (s.state name).on sym = s := by
  have hgroup : s.groups.any (fun g => g.1 == name) = true := by
    simpa [List.any_eq_true] using h.mem
  have hrules : (s.groups.map fun g => if g.1 == name then (g.1,
      if g.2.any (fun r => r.symbol == sym) then g.2 else g.2 ++ [{ symbol := sym }]) else g) =
      s.groups := by
    refine (List.map_congr_left fun g hg => ?_).trans (List.map_id _)
    split
    · rename_i hname
      have hrule : g.2.any (fun r => r.symbol == sym) = true := by
        simpa [List.any_eq_true] using h.rule g hg (beq_iff_eq.mp hname)
      rw [if_pos hrule]
      rfl
    · rfl
  simp only [on, Script.state, changeState, if_pos hgroup, hrules]
  rw [← h.state, ← h.symbol]

/-- What is said next is about the same rule. -/
lemma say_tell (s : Script) (name sym : String) (w w' : Saying) :
    (s.tell name sym w).say w' = (s.tell name sym w).tell name sym w' := by
  rw [tell.eq_def (s.tell name sym w), (at_tell s name sym w).on_state]

/-- A visit to a rule: something is said about a symbol of a state, and possibly more. -/
structure Stop where
  state : String
  symbol : String
  first : Saying
  more : List Saying
deriving DecidableEq

/-- The calls of a visit to a rule. -/
def Stop.calls (v : Stop) : List Call :=
  .state v.state :: .on v.symbol :: (v.first :: v.more).map .say

/-- The instructions that say the same, all of them at one line. -/
def Stop.instructions (line : ℤ) (v : Stop) : List Instruction :=
  (v.first :: v.more).map fun w => ⟨v.state, v.symbol, w.directive, line⟩

/-- A script and a draft that stand for the same transitions. -/
structure Agrees (s : Script) (d : Draft) : Prop where
  groups : s.tableGroups = d.tableGroups
  wellFormed : d.WellFormed

/-- Saying something about a rule is merging an instruction. -/
lemma Agrees.tell {s : Script} {d : Draft} (h : s.Agrees d) (name sym : String) (w : Saying)
    (line : ℤ) : (s.tell name sym w).Agrees (d.merge ⟨name, sym, w.directive, line⟩) where
  groups := by rw [tableGroups_tell, Draft.tableGroups_merge h.wellFormed, h.groups]
  wellFormed := h.wellFormed.merge _

/-- A visit to a rule is the merging of its instructions. -/
theorem Agrees.visit {s : Script} {d : Draft} (h : s.Agrees d) (v : Stop) (line : ℤ) :
    (v.calls.foldl call s).Agrees ((v.instructions line).foldl Draft.merge d) := by
  -- After the first saying the script is at the rule, so the others need not go there.
  have hmore : ∀ (ws : List Saying) (w : Saying) (s : Script) (d : Draft), s.Agrees d →
      ((ws.map Call.say).foldl call (s.tell v.state v.symbol w)).Agrees
        (((w :: ws).map fun w => ⟨v.state, v.symbol, w.directive, line⟩).foldl Draft.merge d) := by
    intro ws
    induction ws with
    | nil => exact fun w s d h => h.tell v.state v.symbol w line
    | cons w' ws ih =>
      intro w s d h
      have hnext := ih w' _ _ (h.tell v.state v.symbol w line)
      rwa [← say_tell] at hnext
  exact hmore v.more v.first s d h

/-- Visits to rules are the merging of their instructions. -/
theorem agrees_ofCalls (vs : List Stop) (line : ℤ) :
    (ofCalls (vs.flatMap Stop.calls)).Agrees
      (Draft.ofInstructions (vs.flatMap (Stop.instructions line))) := by
  have hfold : ∀ (s : Script) (d : Draft), s.Agrees d →
      ((vs.flatMap Stop.calls).foldl call s).Agrees
        ((vs.flatMap (Stop.instructions line)).foldl Draft.merge d) := by
    induction vs with
    | nil => exact fun s d h => h
    | cons v vs ih =>
      intro s d h
      rw [List.flatMap_cons, List.flatMap_cons, List.foldl_append, List.foldl_append]
      exact ih _ _ (h.visit v line)
  exact hfold {} {} ⟨rfl, Draft.ofInstructions_wellFormed []⟩

/-! ## Where runs start -/

/-- The state that a call chooses as the start, if it chooses one. -/
def Call.start? : Call → Option String
  | .start name => some name
  | .state _ | .on _ | .say _ => none

/-- The state that the last of such calls chooses. -/
def chosenStart (calls : List Call) : String :=
  ((calls.filterMap Call.start?).getLast?).getD ""

/-- Other calls neither look at the start nor change it. -/
lemma call_of_start?_eq_none {c : Call} (h : c.start? = none) (s : Script) (state : String) :
    ({ s with initial := state } : Script).call c = { s.call c with initial := state } := by
  obtain ⟨initial, groups, state?, symbol?⟩ := s
  cases c with
  | start name => cases h
  | state name => rfl
  | on sym => cases state? <;> rfl
  | say w =>
    change say _ w = { say _ w with initial := state }
    rw [say_eq_change, say_eq_change]
    cases state? <;> cases symbol? <;> rfl

/-- A script is that of the calls that choose no start, with the start that the others choose. -/
theorem ofCalls_eq (calls : List Call) :
    ofCalls calls = { ofCalls (calls.filter fun c => c.start?.isNone) with
      initial := chosenStart calls } := by
  induction calls using List.reverseRecOn with
  | nil => rfl
  | append_singleton calls c ih =>
    have hcall : ∀ cs : List Call, ofCalls (cs ++ [c]) = (ofCalls cs).call c := fun cs => by
      rw [ofCalls, List.foldl_append]
      rfl
    rw [hcall, ih, List.filter_append]
    cases hc : c.start? with
    | none =>
      rw [List.filter_cons_of_pos (by simp [hc]), List.filter_nil, hcall,
        call_of_start?_eq_none hc]
      simp [chosenStart, hc]
    | some state =>
      obtain rfl : c = .start state := by
        cases c with
        | start name => exact congrArg _ (Option.some.inj hc)
        | state name => cases hc
        | on sym => cases hc
        | say w => cases hc
      rw [List.filter_cons_of_neg (by simp [hc]), List.filter_nil, List.append_nil]
      simp [chosenStart, call, start, hc]

/-- The start that is chosen shows in the table and nowhere else. -/
lemma build_eq (s : Script) (state : String) (h : s.initial = "") :
    ({ s with initial := state } : Script).build =
      s.build.map fun t => if state = "" then t else { t with initial := state } := by
  have htransitions : ({ s with initial := state } : Script).transitions = s.transitions := rfl
  unfold build
  rw [htransitions, h]
  cases Table.ofTransitions s.transitions with
  | error e => rfl
  | ok t => simp [Except.map]

/-! ## The tables of scripts and drafts -/

/-- A script that agrees with a draft has its table, or refuses what it refuses. -/
theorem Agrees.build {s : Script} {d : Draft} (h : s.Agrees d) (hinitial : s.initial = "") :
    (∃ t, s.build = .ok t ∧ d.table = .ok t) ∨
      ∃ refusal line, s.build = .error refusal ∧
        d.table = .error (.at line (.refused refusal)) := by
  have htransitions : s.transitions = d.transitions := by
    rw [← s.flatMap_tableGroups, h.groups, d.flatMap_tableGroups]
  unfold Script.build
  rw [htransitions, hinitial]
  rcases d.table_eq_ok_or_error with ⟨t, hall, htable⟩ | ⟨refusal, line, hall, htable⟩
  · exact .inl ⟨t, by rw [hall]; rfl, htable⟩
  · exact .inr ⟨refusal, line, by rw [hall], htable⟩

/-- The calls of visits choose no start. -/
lemma chosenStart_calls (vs : List Stop) : chosenStart (vs.flatMap Stop.calls) = "" := by
  have hnone : (vs.flatMap Stop.calls).filterMap Call.start? = [] := by
    refine List.filterMap_eq_nil_iff.mpr fun c hc => ?_
    obtain ⟨v, -, hc⟩ := List.mem_flatMap.mp hc
    simp only [Stop.calls, List.mem_cons, List.mem_map] at hc
    rcases hc with rfl | rfl | ⟨w, -, rfl⟩ <;> rfl
  rw [chosenStart, hnone]
  rfl

/-- Scripts and drafts gather alike. Visits to rules, told as calls to a script and as instructions
at whatever lines, give the same table or are refused for the same reason. Calls that choose a
start, wherever they stand among the others, change where the table starts and nothing else: the
last of them counts, and it chooses nothing if its name is empty. -/
theorem scripts_build_what_drafts_build (vs : List Stop) (is : List Instruction)
    (his : is.map (Instruction.onLine 0) = vs.flatMap (Stop.instructions 0)) :
    ((∃ t, (ofCalls (vs.flatMap Stop.calls)).build = .ok t ∧
        (Draft.ofInstructions is).table = .ok t) ∨
      ∃ refusal line, (ofCalls (vs.flatMap Stop.calls)).build = .error refusal ∧
        (Draft.ofInstructions is).table = .error (.at line (.refused refusal))) ∧
    ∀ calls : List Call, calls.filter (fun c => c.start?.isNone) = vs.flatMap Stop.calls →
      (ofCalls calls).build = (ofCalls (vs.flatMap Stop.calls)).build.map fun t =>
        if chosenStart calls = "" then t else { t with initial := chosenStart calls } := by
  have hinitial : (ofCalls (vs.flatMap Stop.calls)).initial = "" := by
    rw [ofCalls_eq, chosenStart_calls]
  constructor
  · have hagrees : (ofCalls (vs.flatMap Stop.calls)).Agrees (Draft.ofInstructions is) := by
      refine ⟨?_, Draft.ofInstructions_wellFormed is⟩
      rw [(agrees_ofCalls vs 0).groups, ← his, Draft.tableGroups_map_onLine]
    exact hagrees.build hinitial
  · intro calls hcalls
    rw [ofCalls_eq, hcalls]
    exact build_eq _ _ hinitial

/-- Three visits, of which the last comes back to the first rule. -/
def comingBack : List Stop :=
  [⟨"a", "x", .write "y", []⟩, ⟨"b", "x", .goto "a", []⟩, ⟨"a", "x", .move .left, [.halt "b"]⟩]

/-- The table of these visits. -/
def thereAndBack : Table where
  initial := "a"
  groups := [("a", [⟨"a", "x", "y", "l", "halt-b"⟩]), ("b", [⟨"b", "x", "*", "*", "a"⟩])]

/-- Coming back to a rule goes on with it. A start can be chosen in the middle of a visit, and again
later. A symbol that is too long is refused in both ways. -/
theorem scripts_build_what_drafts_build_comingBack :
    (ofCalls (comingBack.flatMap Stop.calls)).build = .ok thereAndBack ∧
    (Draft.ofInstructions [⟨"a", "x", .write "y", 7⟩, ⟨"b", "x", .goto "a", 2⟩,
      ⟨"a", "x", .move "l", 3⟩, ⟨"a", "x", .goto "halt-b", 3⟩]).table = .ok thereAndBack ∧
    (ofCalls [.state "a", .on "x", .start "c", .say (.write "y"), .state "b", .on "x",
      .say (.goto "a"), .start "b", .state "a", .on "x", .say (.move .left),
      .say (.halt "b")]).build = .ok { thereAndBack with initial := "b" } ∧
    ∃ line, (Draft.ofInstructions [⟨"a", "xy", .write "y", 7⟩]).table =
      .error (.at line (.refused (.badRead "xy" "a"))) := by
  have hbuild : (ofCalls (comingBack.flatMap Stop.calls)).build = .ok thereAndBack := by
    decide +kernel
  have hrefused : (ofCalls ([⟨"a", "xy", .write "y", []⟩].flatMap Stop.calls)).build =
      .error (.badRead "xy" "a") := by decide +kernel
  obtain ⟨hsame, hstart⟩ := scripts_build_what_drafts_build comingBack
    [⟨"a", "x", .write "y", 7⟩, ⟨"b", "x", .goto "a", 2⟩, ⟨"a", "x", .move "l", 3⟩,
      ⟨"a", "x", .goto "halt-b", 3⟩] (by decide)
  obtain ⟨hsame', -⟩ := scripts_build_what_drafts_build
    [⟨"a", "xy", .write "y", []⟩] [⟨"a", "xy", .write "y", 7⟩] (by decide)
  rw [hbuild] at hsame
  rw [hrefused] at hsame'
  refine ⟨hbuild, by simpa using hsame, ?_, by simpa using hsame'⟩
  rw [hstart _ (by decide), hbuild]
  decide +kernel

end Script

end TapeMachine
