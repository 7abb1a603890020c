import Mathlib.Logic.Relation
import TapeMachine.Proofs.Table.Reachable
import TapeMachine.Report.Lint

/-!
# The walk through a table

A walk keeps a queue of states to visit. A round (`Round`) either passes over a state that was
visited before or pays for the states that it puts into the queue with the rules of the state that
it visits, and each rule pays once (`Round.length_add_unused_lt`). So the number of rounds is enough
to empty the queue (`rounds_walk`), and what rounds keep holds of the whole walk.

Whatever a rule of a visited state leads to is accounted for at any time (`Walk.Covers`): it is a
halting state, or it has rules and is visited or queued, or it has none and has been missed. At the
end of the walk everything that rules of visited states lead to has been visited or missed
(`Walk.Covers.walk`).
-/

namespace TapeMachine.Lint

/-! ## Noting missing targets -/

namespace Walk

variable {table : Table}

/-- Noting what rules miss visits nothing. -/
@[simp] lemma visited_note (table : Table) (w : Walk) (rules : List Transition) :
    (w.note table rules).visited = w.visited := by
  unfold note
  induction rules generalizing w with
  | nil => rfl
  | cons r rules ih =>
    rw [List.foldl_cons, ih]
    split <;> rfl

/-- What has been missed stays so. -/
lemma mem_missed_note {w : Walk} {rules : List Transition} {m : String × Transition}
    (hm : m ∈ w.missed) : m ∈ (w.note table rules).missed := by
  unfold note
  induction rules generalizing w with
  | nil => exact hm
  | cons r rules ih =>
    rw [List.foldl_cons]
    refine ih ?_
    split
    · exact hm
    · exact List.mem_cons_of_mem _ hm

/-- A target without rules that is not halting is missed. -/
lemma exists_mem_missed_note {w : Walk} {rules : List Transition} {r : Transition}
    (hr : r ∈ rules) (hhalt : isHalting r.next = false) (hstate : table.hasState r.next = false) :
    ∃ m ∈ (w.note table rules).missed, m.1 = r.next := by
  induction rules generalizing w with
  | nil => cases hr
  | cons r' rules ih =>
    rcases List.mem_cons.mp hr with rfl | hr
    · by_cases hseen : w.missed.any (fun m => m.1 == r.next) = true
      · obtain ⟨m, hm, hnext⟩ := List.any_eq_true.mp hseen
        exact ⟨m, mem_missed_note hm, beq_iff_eq.mp hnext⟩
      · refine ⟨(r.next, r), ?_, rfl⟩
        unfold note
        rw [List.foldl_cons, if_neg (by simp [hhalt, hstate, hseen])]
        exact mem_missed_note List.mem_cons_self
    · unfold note
      rw [List.foldl_cons]
      exact ih hr

end Walk

/-- The states that rules lead to are the next states that have rules, are not halting and were not
visited. -/
lemma mem_successors_iff {table : Table} {visited : List String} {rules : List Transition}
    {s : String} :
    s ∈ successors table visited rules ↔
      (∃ r ∈ rules, r.next = s) ∧ isHalting s = false ∧ table.hasState s = true ∧
        s ∉ visited := by
  simp [successors, and_assoc]

/-- Each rule leads to at most one state. -/
lemma length_successors_le (table : Table) (visited : List String) (rules : List Transition) :
    (successors table visited rules).length ≤ rules.length := by
  have hle := List.length_filter_le
    (fun s => !isHalting s && table.hasState s && !visited.contains s) (rules.map (·.next))
  rwa [List.length_map] at hle

/-! ## Enough rounds -/

/-- The number of rules whose states have not been visited. -/
def Walk.unused (table : Table) (w : Walk) : ℕ :=
  table.transitions.countP fun r => !w.visited.contains r.state

/-- The rules of a state are some of the transitions that start in it. -/
lemma length_rules_le {table : Table} (ht : table.WellFormed) (s : String) :
    (table.rules s).length ≤ table.transitions.countP fun r => r.state == s := by
  have hstate : ∀ r ∈ table.rules s, (r.state == s) = true := fun r hr =>
    beq_iff_eq.mpr (ht.mem_rules_iff.mp hr).2
  rw [← List.countP_eq_length.mpr hstate]
  refine List.Sublist.countP_le ?_
  unfold Table.rules Table.transitions
  cases hg : table.groups.lookup s with
  | none => exact List.nil_sublist _
  | some rules =>
    rw [List.flatMap_def]
    have hmem := mem_of_lookup_eq_some hg
    exact List.sublist_flatten_of_mem (List.mem_map.mpr ⟨(s, rules), hmem, rfl⟩)

/-- Visiting a state for the first time uses up its rules. -/
lemma Walk.unused_visit {table : Table} (ht : table.WellFormed) {w : Walk} {s : String}
    (hs : w.visited.contains s = false) :
    Walk.unused table { w with visited := s :: w.visited } + (table.rules s).length ≤
      w.unused table := by
  refine Nat.le_trans (Nat.add_le_add_left (length_rules_le ht s) _) (Nat.le_of_eq ?_)
  simp only [unused, List.contains_cons]
  induction table.transitions with
  | nil => rfl
  | cons r rules ih =>
    simp only [List.countP_cons]
    by_cases hr : r.state = s
    · subst hr
      simp only [hs, beq_self_eq_true, Bool.true_or, Bool.not_true, Bool.not_false,
        Bool.false_eq_true, if_false, if_true]
      omega
    · have hne : (r.state == s) = false := beq_eq_false_iff_ne.mpr hr
      simp only [hne, Bool.false_or, Bool.false_eq_true, if_false]
      omega

/-- One round of a walk: the first state of the queue is passed over if it was visited before, and
else it is visited. -/
inductive Round (table : Table) : List String × Walk → List String × Walk → Prop
  | skip {s : String} {queue : List String} {w : Walk} (hs : w.visited.contains s = true) :
      Round table (s :: queue, w) (queue, w)
  | visit {s : String} {queue : List String} {w : Walk} (hs : w.visited.contains s = false) :
      Round table (s :: queue, w) (queue ++ successors table (s :: w.visited) (table.rules s),
        Walk.note table { w with visited := s :: w.visited } (table.rules s))

/-- A round shortens the queue, or uses up more rules than it puts states into the queue. -/
lemma Round.length_add_unused_lt {table : Table} (ht : table.WellFormed)
    {c d : List String × Walk} (h : Round table c d) :
    d.1.length + d.2.unused table < c.1.length + c.2.unused table := by
  cases h with
  | skip hs =>
    simp only [List.length_cons]
    omega
  | @visit s queue w hs =>
    have hpaid := Walk.unused_visit ht hs
    have hnew := length_successors_le table (s :: w.visited) (table.rules s)
    have hunused : (Walk.note table { w with visited := s :: w.visited }
        (table.rules s)).unused table = Walk.unused table { w with visited := s :: w.visited } := by
      unfold Walk.unused
      rw [Walk.visited_note]
    simp only [List.length_append, List.length_cons, hunused]
    omega

/-- What was visited or queued before a round is so after it. -/
lemma Round.visited_or_queued {table : Table} {c d : List String × Walk} (h : Round table c d)
    {q : String} (hq : q ∈ c.2.visited ∨ q ∈ c.1) : q ∈ d.2.visited ∨ q ∈ d.1 := by
  cases h with
  | skip hs =>
    rcases hq with hq | hq
    · exact .inl hq
    · rcases List.mem_cons.mp hq with rfl | hq
      · exact .inl (List.contains_iff_mem.mp hs)
      · exact .inr hq
  | visit hs =>
    rw [Walk.visited_note]
    rcases hq with hq | hq
    · exact .inl (List.mem_cons_of_mem _ hq)
    · rcases List.mem_cons.mp hq with rfl | hq
      · exact .inl List.mem_cons_self
      · exact .inr (List.mem_append_left _ hq)

/-- A walk of enough rounds goes round by round until its queue is empty. -/
theorem rounds_walk {table : Table} (ht : table.WellFormed) {queue : List String} {w : Walk}
    {rounds : ℕ} (hrounds : queue.length + w.unused table ≤ rounds) :
    Relation.ReflTransGen (Round table) (queue, w) ([], walk table rounds queue w) := by
  induction rounds generalizing queue w with
  | zero =>
    obtain rfl : queue = [] := List.eq_nil_of_length_eq_zero (by omega)
    rw [walk]
  | succ rounds ih =>
    cases queue with
    | nil => rw [walk.eq_2 _ _ _ (Nat.succ_ne_zero rounds)]
    | cons s queue =>
      rw [walk]
      split
      · rename_i hs
        have hround : Round table (s :: queue, w) _ := .skip hs
        have hless := hround.length_add_unused_lt ht
        exact .head hround (ih (Nat.le_of_lt_succ (Nat.lt_of_lt_of_le hless hrounds)))
      · rename_i hs
        have hround : Round table (s :: queue, w) _ := .visit (Bool.eq_false_iff.mpr hs)
        have hless := hround.length_add_unused_lt ht
        exact .head hround (ih (Nat.le_of_lt_succ (Nat.lt_of_lt_of_le hless hrounds)))

/-! ## What a walk leaves behind -/

/-- Everything that a rule of a visited state leads to is accounted for. -/
structure Walk.Covers (table : Table) (queue : List String) (w : Walk) : Prop where
  reached : ∀ s ∈ w.visited, ∀ r ∈ table.rules s, isHalting r.next = false →
    table.hasState r.next = true → r.next ∈ w.visited ∨ r.next ∈ queue
  missed : ∀ s ∈ w.visited, ∀ r ∈ table.rules s, isHalting r.next = false →
    table.hasState r.next = false → ∃ m ∈ w.missed, m.1 = r.next

namespace Walk.Covers

variable {table : Table} {s : String} {queue : List String} {w : Walk}

/-- A state that was visited before can be passed over. -/
lemma skip (h : Covers table (s :: queue) w) (hs : w.visited.contains s = true) :
    Covers table queue w := by
  refine ⟨fun q hq r hr hhalt hstate => ?_, h.missed⟩
  rcases h.reached q hq r hr hhalt hstate with hmem | hmem
  · exact Or.inl hmem
  · rcases List.mem_cons.mp hmem with heq | hmem
    · exact Or.inl (heq ▸ List.contains_iff_mem.mp hs)
    · exact Or.inr hmem

/-- A state that is visited puts what its rules lead to into the queue, or notes it. -/
lemma visit (h : Covers table (s :: queue) w) :
    Covers table (queue ++ successors table (s :: w.visited) (table.rules s))
      (Walk.note table { w with visited := s :: w.visited } (table.rules s)) := by
  constructor
  · intro q hq r hr hhalt hstate
    rw [visited_note] at hq ⊢
    rcases List.mem_cons.mp hq with rfl | hq
    · by_cases hvisited : r.next ∈ q :: w.visited
      · exact Or.inl hvisited
      · refine Or.inr (List.mem_append_right _ ?_)
        exact mem_successors_iff.mpr ⟨⟨r, hr, rfl⟩, hhalt, hstate, hvisited⟩
    · rcases h.reached q hq r hr hhalt hstate with hmem | hmem
      · exact Or.inl (List.mem_cons_of_mem _ hmem)
      · rcases List.mem_cons.mp hmem with heq | hmem
        · exact Or.inl (heq ▸ List.mem_cons_self)
        · exact Or.inr (List.mem_append_left _ hmem)
  · intro q hq r hr hhalt hstate
    rw [visited_note] at hq
    rcases List.mem_cons.mp hq with rfl | hq
    · exact exists_mem_missed_note hr hhalt hstate
    · obtain ⟨m, hm, hnext⟩ := h.missed q hq r hr hhalt hstate
      exact ⟨m, mem_missed_note hm, hnext⟩

/-- A round keeps account of everything. -/
lemma round {c d : List String × Walk} (h : Round table c d) (hc : Covers table c.1 c.2) :
    Covers table d.1 d.2 := by
  cases h with
  | skip hs => exact hc.skip hs
  | visit hs => exact hc.visit

/-- A walk of enough rounds empties its queue: all states of the queue are visited, those visited
before stay so, and everything that their rules lead to has been visited or missed. -/
theorem walk (ht : table.WellFormed) (h : Covers table queue w) {rounds : ℕ}
    (hrounds : queue.length + w.unused table ≤ rounds) :
    Covers table [] (Lint.walk table rounds queue w) ∧
      ∀ q, q ∈ w.visited ∨ q ∈ queue → q ∈ (Lint.walk table rounds queue w).visited := by
  have hrun := rounds_walk ht hrounds
  constructor
  · exact hrun.head_induction_on (motive := fun c _ => Covers table c.1 c.2 → _) id
      (fun hround _ ih hc => ih (round hround hc)) h
  · intro q hq
    exact hrun.head_induction_on (motive := fun c _ => q ∈ c.2.visited ∨ q ∈ c.1 → _)
      (fun hend => hend.resolve_right List.not_mem_nil)
      (fun hround _ ih hc => ih (hround.visited_or_queued hc)) hq

end Walk.Covers

/-! ## The walk from the start state -/

/-- The walk that a table is checked by. -/
def tour (table : Table) : Walk :=
  walk table (table.size + 1) [table.initial] {}

/-- One round for the start state and one for each rule are enough. -/
lemma unused_le_size (table : Table) :
    [table.initial].length + Walk.unused table {} ≤ table.size + 1 := by
  have hle : Walk.unused table {} ≤ table.size := List.countP_le_length
  rw [List.length_singleton]
  omega

/-- The walk visits the start state, and everything that rules of visited states lead to has been
visited or missed. -/
theorem covers_tour {table : Table} (ht : table.WellFormed) :
    Walk.Covers table [] (tour table) ∧ table.initial ∈ (tour table).visited := by
  have hnone : Walk.Covers table [table.initial] {} :=
    ⟨fun _ hs => absurd hs List.not_mem_nil, fun _ hs => absurd hs List.not_mem_nil⟩
  obtain ⟨hcovers, hvisited⟩ := hnone.walk ht (unused_le_size table)
  exact ⟨hcovers, hvisited _ (Or.inr List.mem_cons_self)⟩

/-- What is reported of a table with a start state, in terms of the walk. -/
lemma mem_findings_iff {table : Table} (h : table.initial ≠ "") {f : Finding} :
    f ∈ findings table ↔
      (table.hasState table.initial = false ∧ isHalting table.initial = false ∧
        f = .deadStart table.initial) ∨
      (∃ m ∈ (tour table).missed, f = .missing m.1 m.2) ∨
      ∃ s ∈ table.states, s ∉ (tour table).visited ∧ f = .unreachable s := by
  have hstart : (table.initial == "") = false := beq_eq_false_iff_ne.mpr h
  unfold findings
  rw [hstart, if_neg Bool.false_ne_true, List.mem_append, List.mem_append, or_assoc]
  refine or_congr ?_ (or_congr ?_ ?_)
  · cases table.hasState table.initial <;> cases isHalting table.initial <;> simp
  · simp only [List.mem_map, List.mem_reverse, tour, eq_comm]
  · simp only [List.mem_map, List.mem_filter, tour, eq_comm, and_assoc]
    simp

end TapeMachine.Lint
