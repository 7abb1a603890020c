import Mathlib.Tactic.Common
import TapeMachine.Proofs.Keyed
import TapeMachine.Proofs.Table.Representation
import TapeMachine.Report.Diagram

/-!
# How a diagram is drawn

A diagram is drawn in one go: states get identifiers as they are met, and rules are gathered edge by
edge. What has come of it at the end is told by two lists without repetitions. `nodes` are the
states in the order in which they are met, and after declaring them a state has the identifier of
its place there (`declareAll_eq`); `edges` are the pairs that rules connect, and the label of a pair
tells all its rules in order (`foldl_note`). Edges are drawn between states that have been declared,
so drawing them gives out no further identifier (`foldl_connect`). `render_eq` puts the three
together.
-/

namespace TapeMachine.Diagram

/-! ## Nodes -/

/-- The states of a table and the states its rules lead to, each once, in the order in which a
reader meets them; the start state comes first. -/
def nodes (t : Table) : List String :=
  let start := if t.initial == "" then [] else [t.initial]
  (start ++ t.groups.flatMap (fun g => g.1 :: g.2.map (·.next))).eraseDups

/-- No state has two nodes. -/
lemma nodup_nodes (t : Table) : (nodes t).Nodup :=
  nodup_eraseDups _

/-- There is a node for the start state, for each state with rules, and for each next state. -/
lemma mem_nodes_iff {t : Table} {s : String} : s ∈ nodes t ↔
    s = t.initial ∧ s ≠ "" ∨ s ∈ t.states ∨ ∃ r ∈ t.transitions, r.next = s := by
  have hstart : s ∈ (if t.initial == "" then [] else [t.initial]) ↔ s = t.initial ∧ s ≠ "" := by
    by_cases h : t.initial = ""
    · simp only [h, beq_self_eq_true, if_true, List.not_mem_nil, false_iff, not_and]
      exact fun hs hne => hne hs
    · simp only [beq_iff_eq, h, if_false, List.mem_singleton]
      exact ⟨fun hs => ⟨hs, hs ▸ h⟩, fun hs => hs.1⟩
  have hgroups : s ∈ t.groups.flatMap (fun g => g.1 :: g.2.map (·.next)) ↔
      s ∈ t.states ∨ ∃ r ∈ t.transitions, r.next = s := by
    simp only [List.mem_flatMap, List.mem_cons, List.mem_map, Table.states, Table.transitions]
    constructor
    · rintro ⟨g, hg, rfl | ⟨r, hr, rfl⟩⟩
      · exact .inl ⟨g, hg, rfl⟩
      · exact .inr ⟨r, ⟨g, hg, hr⟩, rfl⟩
    · rintro (⟨g, hg, rfl⟩ | ⟨r, ⟨g, hg, hr⟩, rfl⟩)
      · exact ⟨g, hg, .inl rfl⟩
      · exact ⟨g, hg, .inr ⟨r, hr, rfl⟩⟩
  rw [nodes, List.mem_eraseDups, List.mem_append, hstart, hgroups]

/-- The identifier of a state with a node is that of its place. -/
lemma idOf?_eq {ids : Ids} {s : String} :
    idOf? ids s = if s ∈ ids then some (nodeId (ids.idxOf s)) else none := by
  rw [idOf?]
  split
  · rename_i hs
    have hplace : ids.findIdx? (· == s) = some (ids.idxOf s) :=
      List.findIdx?_eq_some_iff_findIdx_eq.mpr ⟨List.idxOf_lt_length_of_mem hs, rfl⟩
    rw [hplace, Option.map_some]
  · rename_i hs
    have hnone : ids.findIdx? (· == s) = none :=
      List.findIdx?_eq_none_iff.mpr fun x hx => beq_eq_false_iff_ne.mpr fun heq => hs (heq ▸ hx)
    rw [hnone, Option.map_none]

/-- A state with a node has the identifier of its place among the nodes, and others have none. -/
lemma idOf?_eq_some_iff {ids : Ids} {s id : String} :
    idOf? ids s = some id ↔ s ∈ ids ∧ id = nodeId (ids.idxOf s) := by
  rw [idOf?_eq]
  split_ifs with hs <;> simp [hs, eq_comm]

/-- A state that has an identifier keeps it, and no other state gets one. -/
lemma get_of_mem {ids : Ids} {s : String} (hs : s ∈ ids) :
    ids.get s = (nodeId (ids.idxOf s), ids) := by
  rw [Ids.get, idOf?_eq, if_pos hs]

/-- A state that has none gets the next. -/
lemma get_of_notMem {ids : Ids} {s : String} (hs : s ∉ ids) :
    ids.get s = (nodeId ids.length, ids ++ [s]) := by
  rw [Ids.get, idOf?_eq, if_neg hs]

namespace Drawing

/-- The lines that declare some states, with the identifiers of their places. -/
def declarations (t : Table) (ss : List String) : String :=
  String.join (ss.zipIdx.map fun n => nodeLine t (nodeId n.2) n.1)

/-- Declaring states one after the other declares each of them once. -/
lemma foldl_declare (t : Table) (title : String) (ss : List String) :
    ss.foldl (declare t) { text := title } =
      ⟨ss.eraseDups, title ++ declarations t ss.eraseDups⟩ := by
  induction ss using List.reverseRecOn with
  | nil => simp [declarations]
  | append_singleton ss s ih =>
    rw [List.foldl_append, ih, List.foldl_cons, List.foldl_nil, eraseDups_concat, declare, idOf?_eq]
    by_cases hs : s ∈ ss
    · simp [hs]
    · have hids : s ∉ ss.eraseDups := mt List.mem_eraseDups.mp hs
      rw [if_neg hids, if_neg (by simp), if_neg hs, get_of_notMem hids]
      simp [declarations, List.zipIdx_append, String.append_assoc]

/-- When all states have been declared, each has the identifier of its place among the nodes. -/
theorem declareAll_eq (t : Table) (title : String) :
    declareAll t { text := title } = ⟨nodes t, title ++ declarations t (nodes t)⟩ := by
  have hstart : (if t.initial == "" then { text := title } else
      declare t { text := title } t.initial) =
        (if t.initial == "" then [] else [t.initial]).foldl (declare t) { text := title } := by
    split <;> rfl
  rw [nodes, ← foldl_declare, List.foldl_append, List.foldl_flatMap, declareAll, hstart]
  simp only [List.foldl_cons, List.foldl_map]

end Drawing

/-! ## Edges -/

/-- The pairs of states that rules connect, each once, in table order. -/
def edges (t : Table) : List (String × String) :=
  (t.transitions.map (fun r => (r.state, r.next))).eraseDups

/-- What all rules between two states do. -/
def edgeLabel (t : Table) (e : String × String) : String :=
  "<br/>".intercalate
    ((t.transitions.filter (fun r => r.state == e.1 && r.next == e.2)).map ruleLabel)

/-- No two edges lead the same way. -/
lemma nodup_edges (t : Table) : (edges t).Nodup :=
  nodup_eraseDups _

/-- There is an edge where a transition leads, and nowhere else. -/
lemma mem_edges_iff {t : Table} {e : String × String} :
    e ∈ edges t ↔ ∃ r ∈ t.transitions, (r.state, r.next) = e := by
  rw [edges, List.mem_eraseDups, List.mem_map]

/-- Both ends of an edge have a node. -/
lemma mem_nodes_of_mem_edges {t : Table} (ht : t.WellFormed) {e : String × String}
    (he : e ∈ edges t) : e.1 ∈ nodes t ∧ e.2 ∈ nodes t := by
  obtain ⟨r, hr, rfl⟩ := mem_edges_iff.mp he
  exact ⟨mem_nodes_iff.mpr (.inr (.inl (ht.mem_states_iff.mpr ⟨r, hr, rfl⟩))),
    mem_nodes_iff.mpr (.inr (.inr ⟨r, hr, rfl⟩))⟩

/-- Noting rules one after the other keeps the pairs that they connect, each once, and for each pair
what its rules do. -/
lemma foldl_note (rs : List Transition) :
    (rs.foldl Connections.note {}).order = (rs.map fun r => (r.state, r.next)).eraseDups ∧
      ∀ e, (rs.foldl Connections.note {}).labels e =
        if e ∈ rs.map fun r => (r.state, r.next) then
          some ((rs.filter fun r => r.state == e.1 && r.next == e.2).map ruleLabel)
        else none := by
  induction rs using List.reverseRecOn with
  | nil => exact ⟨rfl, fun e => rfl⟩
  | append_singleton rs r ih =>
    obtain ⟨horder, hlabels⟩ := ih
    have hknown : ((rs.foldl Connections.note {}).labels (r.state, r.next)).isSome =
        decide ((r.state, r.next) ∈ rs.map fun r => (r.state, r.next)) := by
      rw [hlabels]
      split <;> simp [*]
    have hlabel : ((rs.foldl Connections.note {}).labels (r.state, r.next)).getD [] =
        (rs.filter fun q => q.state == r.state && q.next == r.next).map ruleLabel := by
      rw [hlabels]
      split
      · rfl
      · rename_i hnew
        have hnone : ∀ q ∈ rs, ¬(q.state == r.state && q.next == r.next) = true := by
          intro q hq heq
          refine hnew (List.mem_map.mpr ⟨q, hq, ?_⟩)
          simpa using heq
        rw [List.filter_eq_nil_iff.mpr hnone]
        rfl
    rw [List.foldl_append, List.foldl_cons, List.foldl_nil, List.map_append, List.map_singleton]
    refine ⟨?_, fun e => ?_⟩
    · rw [eraseDups_concat, Connections.note, hknown, horder]
      simp only [decide_eq_true_eq]
    · rw [Connections.note, hlabel]
      simp only [hlabels, List.mem_append, List.mem_singleton, List.filter_append, List.map_append]
      by_cases he : e = (r.state, r.next)
      · subst he
        simp
      · have hother : (r.state == e.1 && r.next == e.2) = false := by
          rw [Bool.eq_false_iff]
          intro heq
          rw [Bool.and_eq_true, beq_iff_eq, beq_iff_eq] at heq
          exact he (Prod.ext heq.1.symm heq.2.symm)
        simp [he, hother]

/-- Drawing edges between states that have been declared gives out no further identifier. -/
lemma foldl_connect (c : Connections) {ids : Ids} {es : List (String × String)}
    (h : ∀ e ∈ es, e.1 ∈ ids ∧ e.2 ∈ ids) (text : String) :
    es.foldl (Drawing.connect c) ⟨ids, text⟩ = ⟨ids, text ++ String.join (es.map fun e =>
      edgeLine (nodeId (ids.idxOf e.1)) (c.label e) (nodeId (ids.idxOf e.2)))⟩ := by
  induction es generalizing text with
  | nil => simp
  | cons e es ih =>
    obtain ⟨⟨hsource, htarget⟩, hes⟩ := List.forall_mem_cons.mp h
    have hconnect : Drawing.connect c ⟨ids, text⟩ e = ⟨ids, text ++
        edgeLine (nodeId (ids.idxOf e.1)) (c.label e) (nodeId (ids.idxOf e.2))⟩ := by
      rw [Drawing.connect, get_of_mem hsource]
      simp only [get_of_mem htarget]
    rw [List.foldl_cons, hconnect, ih hes]
    simp [String.append_assoc]

/-! ## A whole diagram -/

/-- The identifiers of the visited states that have a node, each once. -/
def visitedIds (ids : Ids) (o : Overlay) : List String :=
  (o.visited.filterMap (idOf? ids)).eraseDups

/-- The identifiers in the style of visited nodes are those of the visited states that have one. -/
lemma mem_visitedIds_iff {ids : Ids} {o : Overlay} {id : String} :
    id ∈ visitedIds ids o ↔ ∃ s ∈ o.visited, s ∈ ids ∧ id = nodeId (ids.idxOf s) := by
  simp only [visitedIds, List.mem_eraseDups, List.mem_filterMap, idOf?_eq_some_iff]

/-- Looking at visited states one after the other shows each identifier once. -/
lemma foldl_noteVisited (ids : Ids) (o : Overlay) :
    o.visited.foldl (noteVisited ids) [] = visitedIds ids o := by
  rw [visitedIds]
  induction o.visited using List.reverseRecOn with
  | nil => rfl
  | append_singleton ss s ih =>
    rw [List.foldl_append, ih, List.foldl_cons, List.foldl_nil, List.filterMap_append, noteVisited]
    cases hid : idOf? ids s with
    | none => simp [hid]
    | some id => simp [hid, eraseDups_concat]

/-- A diagram has a line for each node and for each edge, in this order. -/
theorem render_eq {t : Table} (ht : t.WellFormed) (overlay : Option Overlay) :
    render t overlay = "graph LR\n" ++ Drawing.declarations t (nodes t) ++
      String.join ((edges t).map fun e => edgeLine (nodeId ((nodes t).idxOf e.1)) (edgeLabel t e)
        (nodeId ((nodes t).idxOf e.2))) ++
      overlay.elim "" (overlayText (nodes t)) := by
  obtain ⟨horder, hlabels⟩ := foldl_note t.transitions
  have hends : ∀ e ∈ edges t, e.1 ∈ nodes t ∧ e.2 ∈ nodes t :=
    fun e he => mem_nodes_of_mem_edges ht he
  have hlabel : ∀ e ∈ edges t, (t.transitions.foldl Connections.note {}).label e =
      edgeLabel t e := by
    intro e he
    rw [Connections.label, hlabels, if_pos (List.mem_eraseDups.mp he)]
    rfl
  have hlines := List.map_congr_left fun e he => congrArg (fun label =>
    edgeLine (nodeId ((nodes t).idxOf e.1)) label (nodeId ((nodes t).idxOf e.2))) (hlabel e he)
  rw [← edges] at horder
  cases overlay with
  | none =>
    simp only [render, Drawing.declareAll_eq, horder, Option.elim_none]
    rw [foldl_connect _ hends, hlines]
  | some o =>
    simp only [render, Drawing.declareAll_eq, horder, Option.elim_some]
    rw [foldl_connect _ hends, hlines]

end TapeMachine.Diagram
