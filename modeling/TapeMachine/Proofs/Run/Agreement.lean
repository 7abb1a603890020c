import TapeMachine.Proofs.Run.Ending
import TapeMachine.Proofs.Table.Patching
import TapeMachine.Proofs.Table.Representation

/-!
# Tables that run alike

A run asks its table two things: whether a state has rules at all, and which transition it has for a
state and a symbol. Tables that answer both alike reach the same verdict at every point
(`verdict_congr`), and so their runs go through the same steps, whether they end or not
(`events_congr`, `runFrom_congr`).

Tables between which nothing differs answer alike, however their transitions are ordered: since no
pair of state and symbol has two transitions, what a table answers depends on its replica only. So a
change of a table that is not worth announcing changes no run (`unannounced_change_keeps_runs`).
-/

namespace TapeMachine

/-! ## The steps of a run -/

/-- The first `n` steps of a run from a snapshot, or all of them if there are fewer; the run need
not end. -/
def events (table : Table) (opts : RunOptions) : ℕ → Snapshot → List StepEvent
  | 0, _ => []
  | n + 1, s =>
    match verdict table opts s with
    | .stop _ _ => []
    | .follow r => s.event r :: if isHalting r.next then [] else events table opts n (s.perform r)

section Events

variable {table : Table} {opts : RunOptions} {s : Snapshot}

/-- A run that stops at once has no events. -/
lemma events_of_stop {reason : Reason} {label : String}
    (h : verdict table opts s = .stop reason label) (n : ℕ) : events table opts n s = [] := by
  cases n with
  | zero => rfl
  | succ n => rw [events, h]

/-- A run that follows a transition has its event first, and then those of the rest of the run. -/
lemma events_of_follow {r : Transition} (h : verdict table opts s = .follow r) (n : ℕ) :
    events table opts (n + 1) s =
      s.event r :: if isHalting r.next then [] else events table opts n (s.perform r) := by
  rw [events, h]

/-- A run does not lose steps. -/
lemma Ends.steps_le {α : Type} {observe : α → StepEvent → α} {seen : α} {e : Ending α}
    (h : Ends table opts observe s seen e) : s.steps ≤ e.last.steps := by
  induction h with
  | stop _ => exact Nat.le_refl _
  | halt _ _ => exact Nat.le_succ _
  | step _ _ _ ih => exact Nat.le_of_succ_le ih

/-- The steps that an observer has collected at the end of a run are the steps of the run. -/
lemma Ends.seen_eq_events {seen : List StepEvent} {e : Ending (List StepEvent)}
    (h : Ends table opts (fun es e => e :: es) s seen e) {n : ℕ} (hn : e.last.steps ≤ s.steps + n) :
    e.seen = (events table opts n s).reverse ++ seen := by
  induction h generalizing n with
  | stop hv =>
    rw [events_of_stop hv]
    rfl
  | halt hv hh =>
    obtain ⟨n, rfl⟩ : ∃ m, n = m + 1 := Nat.exists_eq_add_one.mpr (by
      simp only [Snapshot.perform] at hn
      omega)
    rw [events_of_follow hv, if_pos hh]
    rfl
  | @step s _ r _ hv hh he ih =>
    have hle : s.steps + 1 ≤ _ := he.steps_le
    obtain ⟨n, rfl⟩ : ∃ m, n = m + 1 := Nat.exists_eq_add_one.mpr (by omega)
    rw [events_of_follow hv, if_neg (by simp [hh]), List.reverse_cons, List.append_assoc]
    exact ih (by simp only [Snapshot.perform]; omega)

/-- The trace of a run that ends holds all of its steps. -/
theorem seen_of_traceRun {tape : Tape} {e : Ending (List StepEvent)}
    (h : traceRun table opts tape = some e) :
    e.seen = events table opts e.last.steps { state := table.initial, tape } := by
  obtain ⟨e, he, rfl⟩ := Option.map_eq_some_iff.mp h
  have hseen := (runFrom_eq_some_iff.mp he).seen_eq_events (Nat.le_add_left e.last.steps _)
  rw [hseen, List.append_nil, List.reverse_reverse]

end Events

/-! ## Equal verdicts -/

section Congruence

variable {α : Type} {a b : Table} {opts : RunOptions}

/-- Tables that know the same states and find the same transitions decide alike. -/
theorem verdict_congr (hstate : ∀ state, a.hasState state = b.hasState state)
    (hlookup : ∀ state symbol, a.lookup state symbol = b.lookup state symbol) (opts : RunOptions)
    (s : Snapshot) : verdict a opts s = verdict b opts s := by
  have hstate := hstate s.state
  have hlookup := hlookup s.state s.tape.read
  unfold Table.hasState at hstate
  unfold Table.lookup Table.rules at hlookup
  unfold verdict
  cases ha : a.groups.lookup s.state with
  | none =>
    rw [ha] at hstate
    rw [Option.isSome_eq_false_iff.mp hstate.symm |> Option.isNone_iff_eq_none.mp]
  | some as =>
    rw [ha] at hstate hlookup
    obtain ⟨bs, hb⟩ := Option.isSome_iff_exists.mp hstate.symm
    rw [hb] at hlookup ⊢
    simp only [Option.getD_some] at hlookup
    simp only [hlookup]

/-- Tables that decide alike perform the same steps. -/
theorem events_congr (h : ∀ s, verdict a opts s = verdict b opts s) (n : ℕ) (s : Snapshot) :
    events a opts n s = events b opts n s := by
  induction n generalizing s with
  | zero => rfl
  | succ n ih =>
    cases hv : verdict a opts s with
    | stop reason label => rw [events_of_stop hv, events_of_stop ((h s).symm.trans hv)]
    | follow r => rw [events_of_follow hv, events_of_follow ((h s).symm.trans hv), ih]

/-- Tables that decide alike end alike. -/
lemma Ends.congr {observe : α → StepEvent → α} (h : ∀ s, verdict a opts s = verdict b opts s)
    {s : Snapshot} {seen : α} {e : Ending α} (he : Ends a opts observe s seen e) :
    Ends b opts observe s seen e := by
  induction he with
  | stop hv => exact .stop ((h _).symm.trans hv)
  | halt hv hh => exact .halt ((h _).symm.trans hv) hh
  | step hv hh _ ih => exact .step ((h _).symm.trans hv) hh ih

/-- Tables that decide alike have the same runs, also where a run does not end. -/
theorem runFrom_congr (h : ∀ s, verdict a opts s = verdict b opts s)
    (observe : α → StepEvent → α) (s : Snapshot) (seen : α) :
    runFrom a opts observe s seen = runFrom b opts observe s seen := by
  refine Option.ext fun e => ?_
  rw [runFrom_eq_some_iff, runFrom_eq_some_iff]
  exact ⟨Ends.congr h, Ends.congr fun s => (h s).symm⟩

end Congruence

/-! ## Tables with the same replica -/

namespace Table.WellFormed

variable {a b : Table}

/-- What a table finds does not depend on the order of its transitions. -/
theorem lookup_congr (ha : a.WellFormed) (hb : b.WellFormed) (h : a.replica = b.replica)
    (state symbol : String) : a.lookup state symbol = b.lookup state symbol := by
  have hmem : ∀ r, r ∈ a.transitions ↔ r ∈ b.transitions :=
    fun r => ha.mem_transitions_iff_of_replica_eq hb h
  refine Option.ext fun r => ?_
  simp only [ha.lookup_eq_some_iff, hb.lookup_eq_some_iff, hmem]

/-- Nor do the states that it knows. -/
lemma hasState_congr (ha : a.WellFormed) (hb : b.WellFormed) (h : a.replica = b.replica)
    (state : String) : a.hasState state = b.hasState state := by
  have hmem : ∀ r, r ∈ a.transitions ↔ r ∈ b.transitions :=
    fun r => ha.mem_transitions_iff_of_replica_eq hb h
  rw [Bool.eq_iff_iff, ← mem_states_iff_hasState, ← mem_states_iff_hasState, ha.mem_states_iff,
    hb.mem_states_iff]
  simp only [hmem]

end Table.WellFormed

/-- If nothing differs between two tables, every lookup in one gives what it gives in the other, and
so does every run of a machine: on every input and with every limit, interruption and rendering of
the tape, the steps are the same, however far the run is followed, and if it ends then it ends with
the same trace of all these steps, the same tape and the same result. -/
theorem unannounced_change_keeps_runs {a b : Table} (ha : a.Reachable) (hb : b.Reachable)
    (h : (TableDiff.between (some a) b).isEmpty = true) :
    (∀ state symbol, a.lookup state symbol = b.lookup state symbol) ∧
    ∀ (input runId : String) (limit : ℕ) (sorted : Bool) (interrupt : Option Interrupt),
      let opts : RunOptions := { limit, sorted, interrupt }
      let machine (t : Table) : Machine :=
        { input, table := t, tape := .ofInput input, runId, limit, sorted }
      (∀ n, events a opts n (machine a).snapshot = events b opts n (machine b).snapshot) ∧
      (∀ e, traceRun a opts (.ofInput input) = some e →
        e.seen = events a opts e.last.steps (machine a).snapshot) ∧
      traceRun a opts (.ofInput input) = traceRun b opts (.ofInput input) ∧
      ((machine a).run interrupt).map (fun x => (x.1.tape, x.2)) =
        ((machine b).run interrupt).map (fun x => (x.1.tape, x.2)) := by
  have hreplica := Replica.replica_eq_of_isEmpty hb.wellFormed h
  have hinitial : a.initial = b.initial := congrArg Replica.initial hreplica
  have hlookup := ha.wellFormed.lookup_congr hb.wellFormed hreplica
  have hstate := ha.wellFormed.hasState_congr hb.wellFormed hreplica
  refine ⟨hlookup, ?_⟩
  intro input runId limit sorted interrupt opts machine
  have hverdict : ∀ s, verdict a opts s = verdict b opts s := verdict_congr hstate hlookup opts
  have hsnapshot : (machine a).snapshot = (machine b).snapshot := by
    simp only [machine, Machine.snapshot, hinitial]
  refine ⟨?_, ?_, ?_, ?_⟩
  · intro n
    rw [hsnapshot, events_congr hverdict]
  · intro e he
    exact seen_of_traceRun he
  · unfold traceRun observeRun
    rw [runFrom_congr hverdict, hinitial]
  · have hfrozen : ∀ s, verdict a.freeze opts s = verdict b.freeze opts s :=
      verdict_congr hstate hlookup opts
    rw [Machine.run_eq, Machine.run_eq, Option.map_map, Option.map_map, hsnapshot]
    change (runFrom a.freeze opts _ _ _).map _ = (runFrom b.freeze opts _ _ _).map _
    rw [runFrom_congr hfrozen]
    rfl

/-- A table that looks for the end of a word, and the same table with its transitions the other way
round. -/
def wordEnd : Table :=
  Table.empty.perform (.addAll [⟨"go", "*", "*", "r", "go"⟩, ⟨"go", "_", "*", "l", "halt"⟩])

/-- The table that moves to the end of a word, its transitions in reverse order. -/
def wordEndReversed : Table :=
  Table.empty.perform (.addAll [⟨"go", "_", "*", "l", "halt"⟩, ⟨"go", "*", "*", "r", "go"⟩])

/-- Changing the order of the transitions is not announced and does not show in a run that is cut
short. -/
theorem unannounced_change_keeps_runs_wordEnd :
    wordEnd ≠ wordEndReversed ∧ wordEnd.Reachable ∧ wordEndReversed.Reachable ∧
      (TableDiff.between (some wordEnd) wordEndReversed).isEmpty = true ∧
      wordEnd.lookup "go" "_" = wordEndReversed.lookup "go" "_" ∧
      (Machine.run { input := "ab", table := wordEnd, tape := .ofInput "ab", limit := 2 }
          (some ⟨1, .cancelled⟩)).map (fun x => (x.1.tape, x.2)) =
        (Machine.run { input := "ab", table := wordEndReversed, tape := .ofInput "ab", limit := 2 }
          (some ⟨1, .cancelled⟩)).map (fun x => (x.1.tape, x.2)) := by
  have hreachable : wordEnd.Reachable := .step .empty _
  have hreachable' : wordEndReversed.Reachable := .step .empty _
  have hempty : (TableDiff.between (some wordEnd) wordEndReversed).isEmpty = true := by decide
  obtain ⟨hlookup, hruns⟩ := unannounced_change_keeps_runs hreachable hreachable' hempty
  obtain ⟨-, -, -, hrun⟩ := hruns "ab" "" 2 false (some ⟨1, .cancelled⟩)
  exact ⟨by decide, hreachable, hreachable', hempty, hlookup "go" "_", hrun⟩

end TapeMachine
