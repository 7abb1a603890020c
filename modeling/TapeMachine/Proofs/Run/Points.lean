import Mathlib.Data.Nat.Find
import TapeMachine.Proofs.Run.Agreement

/-!
# The points of a run

Left to itself, a machine goes through a sequence of points that depends on its table and its tape
only: `Snapshot.after?` is that sequence. A step limit and an interruption add nothing to it. They
decide at which point a run stops, which is what `Snapshot.stop?` says, and `stop?_eq` spells out
how they compete: entering a halting state comes first, then the interruption, then what the machine
does by itself, and last the limit.

So a run is the sequence up to the first point at which it stops (`ends_iff_stopsAt`), and runs that
are carried out in different ways are compared by comparing where they stop.
-/

namespace TapeMachine

namespace Snapshot

/-! ## The sequence -/

/-- The last step has led into a halting state. Starting in one does not count. -/
def Halted (s : Snapshot) : Prop :=
  0 < s.steps ∧ isHalting s.state = true

instance (s : Snapshot) : Decidable s.Halted :=
  inferInstanceAs (Decidable (_ ∧ _))

/-- The transition that a machine left to itself performs at a point. -/
def transition? (table : Table) (s : Snapshot) : Option Transition :=
  if s.Halted then none else table.lookup s.state s.tape.read

/-- The point after `n` transitions, if the machine performs that many. -/
def after? (table : Table) : ℕ → Snapshot → Option Snapshot
  | 0, s => some s
  | n + 1, s => (s.transition? table).bind fun r => after? table n (s.perform r)

/-- The events of the first `n` transitions, or of all of them if there are fewer. -/
def trace (table : Table) : ℕ → Snapshot → List StepEvent
  | 0, _ => []
  | n + 1, s =>
    match s.transition? table with
    | none => []
    | some r => s.event r :: trace table n (s.perform r)

section Sequence

variable {table : Table} {s q : Snapshot}

/-- A run of `n + 1` steps is one step and a run of `n` steps. -/
lemma after?_succ_of_some {r : Transition} (h : s.transition? table = some r) (n : ℕ) :
    s.after? table (n + 1) = (s.perform r).after? table n := by
  rw [after?, h, Option.bind_some]

/-- The trace of `n + 1` steps is the event of one step and the trace of the others. -/
lemma trace_succ_of_some {r : Transition} (h : s.transition? table = some r) (n : ℕ) :
    s.trace table (n + 1) = s.event r :: (s.perform r).trace table n := by
  rw [trace, h]

/-- The point after `n` transitions counts `n` more steps. -/
lemma steps_of_after? {n : ℕ} (h : s.after? table n = some q) : q.steps = s.steps + n := by
  induction n generalizing s with
  | zero =>
    cases h
    rfl
  | succ n ih =>
    obtain ⟨r, -, hq⟩ := Option.bind_eq_some_iff.mp h
    have hsteps : q.steps = s.steps + 1 + n := ih hq
    omega

/-- A machine that performs `n` transitions shows `n` events. -/
lemma length_trace {n : ℕ} (h : s.after? table n = some q) : (s.trace table n).length = n := by
  induction n generalizing s with
  | zero => rfl
  | succ n ih =>
    obtain ⟨r, hr, hq⟩ := Option.bind_eq_some_iff.mp h
    rw [trace_succ_of_some hr, List.length_cons, ih hq]

/-- A machine that does not perform `n` transitions gets to a point at which it performs none. -/
lemma exists_of_after?_eq_none {n : ℕ} (h : s.after? table n = none) :
    ∃ k < n, ∃ q, s.after? table k = some q ∧ q.transition? table = none := by
  induction n generalizing s with
  | zero => cases h
  | succ n ih =>
    cases hr : s.transition? table with
    | none => exact ⟨0, Nat.succ_pos n, s, rfl, hr⟩
    | some r =>
      rw [after?_succ_of_some hr] at h
      obtain ⟨k, hk, q, hq, hstuck⟩ := ih h
      refine ⟨k + 1, Nat.succ_lt_succ hk, q, ?_, hstuck⟩
      rw [after?_succ_of_some hr, hq]

/-- The last of some transitions is performed at the point that the others lead to. -/
lemma after?_succ (table : Table) (n : ℕ) (s : Snapshot) :
    s.after? table (n + 1) =
      (s.after? table n).bind fun q => (q.transition? table).map q.perform := by
  induction n generalizing s with
  | zero =>
    change (s.transition? table).bind (fun r => some (s.perform r)) = _
    rw [after?, Option.bind_some, Option.map_eq_bind]
    rfl
  | succ n ih =>
    cases hr : s.transition? table with
    | none => rw [after?, after?, hr, Option.bind_none, Option.bind_none, Option.bind_none]
    | some r => rw [after?_succ_of_some hr, ih, after?_succ_of_some hr]

/-- Behind a point at which the machine performs no transition there is no further one. -/
lemma after?_eq_none_of_lt {n k : ℕ} (h : s.after? table n = some q)
    (hq : q.transition? table = none) (hk : n < k) : s.after? table k = none := by
  induction k with
  | zero => exact absurd hk (Nat.not_lt_zero n)
  | succ k ih =>
    rw [after?_succ]
    rcases Nat.lt_succ_iff_lt_or_eq.mp hk with hk | rfl
    · rw [ih hk, Option.bind_none]
    · rw [h, Option.bind_some, hq, Option.map_none]

end Sequence

/-! ## Where runs stop -/

/-- Why and under which label a run stops at a point. -/
def stop? (table : Table) (opts : RunOptions) (s : Snapshot) : Option (Reason × String) :=
  if s.Halted then some (.haltState, s.state)
  else
    match verdict table opts s with
    | .stop reason label => some (reason, label)
    | .follow _ => none

section Stops

variable {table : Table} {opts : RunOptions} {s : Snapshot}

/-- A machine in a halting state stops there. -/
lemma stop?_of_halted (h : s.Halted) : s.stop? table opts = some (.haltState, s.state) :=
  if_pos h

/-- A machine stops when the verdict says so. -/
lemma stop?_of_stop (hs : ¬ s.Halted) {reason : Reason} {label : String}
    (h : verdict table opts s = .stop reason label) :
    s.stop? table opts = some (reason, label) := by
  rw [stop?, if_neg hs, h]

/-- A machine that follows a transition does not stop. -/
lemma stop?_of_follow (hs : ¬ s.Halted) {r : Transition} (h : verdict table opts s = .follow r) :
    s.stop? table opts = none := by
  rw [stop?, if_neg hs, h]

/-- The reasons for which a run stops, in the order in which they count: a halting state, an
interruption, a machine that has nothing more to do, and the limit. -/
theorem stop?_eq (table : Table) (opts : RunOptions) (s : Snapshot) :
    s.stop? table opts =
      if s.Halted then some (.haltState, s.state)
      else
        match Interrupt.due? opts.interrupt s.steps with
        | some cause => some (.interrupted, interruptedLabel cause.message)
        | none =>
          (s.stop? table {}).or
            (if 0 < opts.limit ∧ opts.limit ≤ s.steps then
              some (.stepLimit, stepLimitLabel opts.limit)
            else none) := by
  by_cases hs : s.Halted
  · rw [if_pos hs, stop?_of_halted hs]
  · unfold stop? verdict
    rw [if_neg hs, if_neg hs, if_neg hs]
    cases Interrupt.due? opts.interrupt s.steps with
    | some cause => rfl
    | none =>
      cases table.groups.lookup s.state with
      | none => rfl
      | some rules =>
        dsimp only [Interrupt.due?]
        cases Table.select rules s.tape.read with
        | none => rfl
        | some r =>
          by_cases hl : 0 < opts.limit ∧ opts.limit ≤ s.steps
          · simp [hl]
          · simp [hl]

/-- Following a transition means that the machine performs it by itself. -/
lemma transition?_of_follow (hs : ¬ s.Halted) {r : Transition}
    (h : verdict table opts s = .follow r) : s.transition? table = some r := by
  unfold transition? Table.lookup Table.rules
  rw [if_neg hs]
  unfold verdict at h
  cases hdue : Interrupt.due? opts.interrupt s.steps with
  | some cause =>
    rw [hdue] at h
    cases h
  | none =>
    rw [hdue] at h
    cases hg : table.groups.lookup s.state with
    | none =>
      rw [hg] at h
      cases h
    | some rules =>
      rw [hg] at h
      dsimp only at h
      cases hsel : Table.select rules s.tape.read with
      | none =>
        rw [hsel] at h
        cases h
      | some t =>
        rw [hsel] at h
        dsimp only at h
        split at h
        · cases h
        · cases h
          exact hsel

/-- Where a run does not stop, it follows the transition that the machine performs by itself. -/
lemma exists_follow_of_stop?_eq_none (h : s.stop? table opts = none) :
    ¬ s.Halted ∧ ∃ r, verdict table opts s = .follow r ∧ s.transition? table = some r := by
  have hs : ¬ s.Halted := by
    intro hs
    rw [stop?_of_halted hs] at h
    cases h
  refine ⟨hs, ?_⟩
  cases hv : verdict table opts s with
  | stop reason label =>
    rw [stop?_of_stop hs hv] at h
    cases h
  | follow r => exact ⟨r, rfl, transition?_of_follow hs hv⟩

/-- Left to itself, the machine goes on wherever it can perform a transition. -/
lemma stop?_alone_of_some {r : Transition} (h : s.transition? table = some r) :
    s.stop? table {} = none := by
  unfold transition? at h
  split at h
  · cases h
  · rename_i hs
    refine stop?_of_follow (r := r) hs ?_
    unfold Table.lookup Table.rules at h
    unfold verdict
    dsimp only [Interrupt.due?]
    cases hg : table.groups.lookup s.state with
    | none =>
      rw [hg] at h
      cases h
    | some rules =>
      rw [hg, Option.getD_some] at h
      simp only [h, Nat.lt_irrefl, false_and, if_false]

/-- Every run stops where the machine has nothing more to do. -/
lemma stop?_ne_none (h : s.transition? table = none) : s.stop? table opts ≠ none := by
  intro hstop
  obtain ⟨-, r, -, hr⟩ := exists_follow_of_stop?_eq_none hstop
  rw [hr] at h
  cases h

/-- A machine left to itself stops in a halting state that it has entered, or because it does not
know what to do in another state. -/
lemma reason_of_stop?_alone {reason : Reason} {label : String}
    (h : s.stop? table {} = some (reason, label)) :
    (s.Halted ∧ reason = .haltState) ∨
      (¬ s.Halted ∧ (reason = .noState ∨ reason = .noTransition)) := by
  by_cases hs : s.Halted
  · rw [stop?_of_halted hs] at h
    cases h
    exact Or.inl ⟨hs, rfl⟩
  · refine Or.inr ⟨hs, ?_⟩
    unfold stop? verdict at h
    rw [if_neg hs] at h
    dsimp only [Interrupt.due?] at h
    cases hg : table.groups.lookup s.state with
    | none =>
      rw [hg] at h
      cases h
      exact Or.inl rfl
    | some rules =>
      rw [hg] at h
      dsimp only at h
      cases hsel : Table.select rules s.tape.read with
      | none =>
        rw [hsel] at h
        cases h
        exact Or.inr rfl
      | some r =>
        simp [hsel] at h

end Stops

end Snapshot

/-! ## Runs -/

/-- A run from `s` stops after `n` transitions, at `q`, and at no earlier point. -/
structure StopsAt (table : Table) (opts : RunOptions) (s : Snapshot) (n : ℕ) (q : Snapshot)
    (reason : Reason) (label : String) : Prop where
  point : s.after? table n = some q
  stop : q.stop? table opts = some (reason, label)
  going : ∀ k < n, ∀ p, s.after? table k = some p → p.stop? table opts = none

section Runs

variable {α : Type} {table : Table} {opts : RunOptions} {observe : α → StepEvent → α}
  {s : Snapshot}

/-- A run stops no later than at a point at which it would stop, or at which the machine cannot be.
-/
theorem exists_stopsAt {n : ℕ}
    (h : ∀ q, s.after? table n = some q → q.stop? table opts ≠ none) :
    ∃ k ≤ n, ∃ q reason label, StopsAt table opts s k q reason label := by
  have hex : ∃ k ≤ n, ∃ q, s.after? table k = some q ∧ q.stop? table opts ≠ none := by
    cases hq : s.after? table n with
    | some q => exact ⟨n, Nat.le_refl n, q, hq, h q hq⟩
    | none =>
      obtain ⟨k, hk, q, hq, hstuck⟩ := Snapshot.exists_of_after?_eq_none hq
      exact ⟨k, Nat.le_of_lt hk, q, hq, Snapshot.stop?_ne_none hstuck⟩
  -- The first point at which the run stops is the least number with this property.
  have hfirst : ∃ k, ∃ q, s.after? table k = some q ∧ q.stop? table opts ≠ none := by
    obtain ⟨k, -, hk⟩ := hex
    exact ⟨k, hk⟩
  classical
  obtain ⟨q, hq, hstop⟩ := Nat.find_spec hfirst
  obtain ⟨⟨reason, label⟩, hsome⟩ := Option.ne_none_iff_exists'.mp hstop
  obtain ⟨k, hk, hkq⟩ := hex
  refine ⟨Nat.find hfirst, le_trans (Nat.find_min' hfirst hkq) hk, q, reason, label, hq, hsome, ?_⟩
  intro j hj p hp
  by_contra hne
  exact Nat.find_min hfirst hj ⟨p, hp, hne⟩

/-- A run that stops at once. -/
lemma stopsAt_zero {reason : Reason} {label : String} {q : Snapshot} :
    StopsAt table opts s 0 q reason label ↔ q = s ∧ s.stop? table opts = some (reason, label) := by
  constructor
  · intro h
    cases h.point
    exact ⟨rfl, h.stop⟩
  · rintro ⟨rfl, h⟩
    exact ⟨rfl, h, fun k hk => absurd hk (Nat.not_lt_zero k)⟩

/-- A run that stops later follows a transition, and goes on from there. -/
lemma stopsAt_succ {n : ℕ} {reason : Reason} {label : String} {q : Snapshot} :
    StopsAt table opts s (n + 1) q reason label ↔
      s.stop? table opts = none ∧ ∃ r, s.transition? table = some r ∧
        StopsAt table opts (s.perform r) n q reason label := by
  constructor
  · intro h
    have hnone : s.stop? table opts = none := h.going 0 (Nat.succ_pos n) s rfl
    obtain ⟨-, r, -, hr⟩ := Snapshot.exists_follow_of_stop?_eq_none hnone
    refine ⟨hnone, r, hr, ?_, h.stop, ?_⟩
    · rw [← Snapshot.after?_succ_of_some hr, h.point]
    · intro k hk p hp
      refine h.going (k + 1) (Nat.succ_lt_succ hk) p ?_
      rw [Snapshot.after?_succ_of_some hr, hp]
  · rintro ⟨hnone, r, hr, h⟩
    refine ⟨?_, h.stop, ?_⟩
    · rw [Snapshot.after?_succ_of_some hr, h.point]
    · intro k hk p hp
      cases k with
      | zero =>
        cases hp
        exact hnone
      | succ k =>
        rw [Snapshot.after?_succ_of_some hr] at hp
        exact h.going k (Nat.lt_of_succ_lt_succ hk) p hp

/-- After a step into a state that is not a halting one, no halting state has been entered. -/
lemma Snapshot.halted_perform_iff {r : Transition} :
    (s.perform r).Halted ↔ isHalting r.next = true :=
  ⟨fun h => h.2, fun h => ⟨Nat.succ_pos _, h⟩⟩

/-- A run that has not halted yet ends at the first point at which it stops, and its observer has
seen the events up to there. -/
theorem ends_iff_stopsAt (hs : ¬ s.Halted) {seen : α} {e : Ending α} :
    Ends table opts observe s seen e ↔
      ∃ n, StopsAt table opts s n e.last e.reason e.label ∧
        e.seen = (s.trace table n).foldl observe seen := by
  constructor
  · intro he
    induction he with
    | stop hv => exact ⟨0, stopsAt_zero.mpr ⟨rfl, Snapshot.stop?_of_stop hs hv⟩, rfl⟩
    | @halt s seen r hv hh =>
      have hr := Snapshot.transition?_of_follow hs hv
      have hhalted : (s.perform r).Halted := Snapshot.halted_perform_iff.mpr hh
      refine ⟨1, stopsAt_succ.mpr ⟨Snapshot.stop?_of_follow hs hv, r, hr, ?_⟩, ?_⟩
      · exact stopsAt_zero.mpr ⟨rfl, Snapshot.stop?_of_halted hhalted⟩
      · rw [Snapshot.trace_succ_of_some hr]
        rfl
    | @step s seen r e hv hh _ ih =>
      have hr := Snapshot.transition?_of_follow hs hv
      have hgoing : ¬ (s.perform r).Halted := by simp [Snapshot.halted_perform_iff, hh]
      obtain ⟨n, hn, hseen⟩ := ih hgoing
      refine ⟨n + 1, stopsAt_succ.mpr ⟨Snapshot.stop?_of_follow hs hv, r, hr, hn⟩, ?_⟩
      rw [hseen, Snapshot.trace_succ_of_some hr, List.foldl_cons]
  · rintro ⟨n, hn, hseen⟩
    obtain ⟨q, reason, label, seen'⟩ := e
    dsimp only at hn hseen
    subst hseen
    induction n generalizing s seen with
    | zero =>
      obtain ⟨rfl, hstop⟩ := stopsAt_zero.mp hn
      cases hv : verdict table opts q with
      | stop reason' label' =>
        rw [Snapshot.stop?_of_stop hs hv] at hstop
        cases hstop
        exact .stop hv
      | follow r =>
        rw [Snapshot.stop?_of_follow hs hv] at hstop
        cases hstop
    | succ n ih =>
      obtain ⟨hnone, r, hr, hn⟩ := stopsAt_succ.mp hn
      obtain ⟨-, r', hv, hr'⟩ := Snapshot.exists_follow_of_stop?_eq_none hnone
      cases hr.symm.trans hr'
      rw [Snapshot.trace_succ_of_some hr, List.foldl_cons]
      cases hh : isHalting r.next with
      | false => exact .step hv hh (ih (by simp [Snapshot.halted_perform_iff, hh]) hn)
      | true =>
        -- The run stops right after the step, so this was its last one.
        have hhalted : (s.perform r).Halted := Snapshot.halted_perform_iff.mpr hh
        cases n with
        | zero =>
          obtain ⟨rfl, hstop⟩ := stopsAt_zero.mp hn
          rw [Snapshot.stop?_of_halted hhalted] at hstop
          cases hstop
          exact .halt hv hh
        | succ n =>
          obtain ⟨hgoing, -⟩ := stopsAt_succ.mp hn
          rw [Snapshot.stop?_of_halted hhalted] at hgoing
          cases hgoing

end Runs

/-! ## Machines -/

/-- The events that are collected one in front of the other are the events in reverse order. -/
lemma foldl_collect (es : List StepEvent) : es.foldl (fun es e => e :: es) [] = es.reverse := by
  rw [List.foldl_flip_cons_eq_append', List.append_nil]

/-- A machine finishes its run where the run stops, and reports the steps up to there. -/
theorem Machine.run_eq_some_iff_stopsAt {m : Machine} {interrupt : Option Interrupt}
    {x : Machine × Finished} :
    m.run interrupt = some x ↔
      ∃ n q reason label, StopsAt m.table (m.options interrupt) m.snapshot n q reason label ∧
        m.finish interrupt ⟨q, reason, label, (m.snapshot.trace m.table n).reverse⟩ = x := by
  have hstart : ¬ m.snapshot.Halted := fun h => absurd h.1 (Nat.lt_irrefl 0)
  have hfreeze : ∀ s, verdict m.table.freeze (m.options interrupt) s =
      verdict m.table (m.options interrupt) s := fun _ => rfl
  rw [Machine.run_eq_some_iff]
  constructor
  · rintro ⟨e, he, rfl⟩
    obtain ⟨n, hn, hseen⟩ := (ends_iff_stopsAt hstart).mp (he.congr hfreeze)
    refine ⟨n, e.last, e.reason, e.label, hn, ?_⟩
    rw [← foldl_collect, ← hseen]
  · rintro ⟨n, q, reason, label, hn, rfl⟩
    refine ⟨_, ?_, rfl⟩
    refine Ends.congr (fun s => (hfreeze s).symm) ((ends_iff_stopsAt hstart).mpr ⟨n, hn, ?_⟩)
    rw [foldl_collect]

end TapeMachine
