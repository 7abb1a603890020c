import TapeMachine.Proofs.Report.Walk
import TapeMachine.Proofs.Run.Agreement

/-!
# What a check of a table says about its runs

A run moves through the table as the walk does, along rules of the state it is in, and it ends where
the walk turns back, at a halting state. So a run that starts in the start state never leaves the
states of the walk while it has rules to follow (`visited_of_mem_events`). If nothing was missed, it
always has rules after its first step (`of_ends_noState`).

The main statement, `accepted_table_runs_keep_to_known_states`, says both of every run: with
whatever tape, limit and interruption, and also of runs that never end.
-/

namespace TapeMachine

open Lint

variable {table : Table} {opts : RunOptions} {s : Snapshot}

/-! ## What a run asks of its table -/

/-- A transition that is followed is a rule of the state. -/
lemma mem_rules_of_follow {r : Transition} (h : verdict table opts s = .follow r) :
    r ∈ table.rules s.state ∧ table.hasState s.state = true := by
  unfold verdict at h
  split at h
  · cases h
  · unfold Table.rules Table.hasState
    cases hg : table.groups.lookup s.state with
    | none =>
      simp only [hg] at h
      cases h
    | some rules =>
      simp only [hg] at h
      refine ⟨?_, rfl⟩
      cases hsel : Table.select rules s.tape.read with
      | none =>
        simp only [hsel] at h
        cases h
      | some r' =>
        simp only [hsel] at h
        split at h
        · cases h
        · cases h
          unfold Table.select at hsel
          split at hsel
          · rename_i hfind
            cases hsel
            exact List.mem_of_find?_eq_some hfind
          · exact List.mem_of_find?_eq_some hsel

/-- A run that stops for want of a state is in a state without rules. -/
lemma hasState_of_stop_noState {label : String} (h : verdict table opts s = .stop .noState label) :
    table.hasState s.state = false := by
  unfold verdict at h
  split at h
  · cases h
  · unfold Table.hasState
    cases hg : table.groups.lookup s.state with
    | none => rfl
    | some rules =>
      simp only [hg] at h
      split at h
      · cases h
      · split at h
        · cases h
        · cases h

/-! ## Runs and the walk -/

/-- As long as a run has rules to follow, it is in states that the walk visits. -/
theorem visited_of_mem_events (ht : table.WellFormed)
    (hs : table.hasState s.state = true → s.state ∈ (tour table).visited) {n : ℕ} {e : StepEvent}
    (he : e ∈ events table opts n s) : e.transition.state ∈ (tour table).visited := by
  induction n generalizing s with
  | zero => cases he
  | succ n ih =>
    cases hv : verdict table opts s with
    | stop reason label =>
      rw [events_of_stop hv] at he
      cases he
    | follow r =>
      obtain ⟨hr, hstate⟩ := mem_rules_of_follow hv
      rw [events_of_follow hv] at he
      rcases List.mem_cons.mp he with rfl | he
      · change r.state ∈ (tour table).visited
        rw [(ht.mem_rules_iff.mp hr).2]
        exact hs hstate
      · split at he
        · cases he
        · rename_i hgoing
          refine ih (fun hnext => ?_) he
          obtain ⟨hcovers, -⟩ := covers_tour ht
          rcases hcovers.reached _ (hs hstate) r hr (Bool.eq_false_iff.mpr hgoing) hnext with h | h
          · exact h
          · cases h

/-- If the walk has missed nothing, a run that is in a state of the walk and ends for want of a
state has ended right there. -/
theorem of_ends_noState {α : Type} {observe : α → StepEvent → α} {seen : α} {e : Ending α}
    (ht : table.WellFormed) (hmissed : (tour table).missed = [])
    (h : Ends table opts observe s seen e) (hs : s.state ∈ (tour table).visited)
    (hreason : e.reason = .noState) : e.last = s ∧ table.hasState s.state = false := by
  induction h with
  | stop hv =>
    cases hreason
    exact ⟨rfl, hasState_of_stop_noState hv⟩
  | halt hv hh => cases hreason
  | @step s seen r e hv hh he ih =>
    obtain ⟨hr, -⟩ := mem_rules_of_follow hv
    obtain ⟨hcovers, -⟩ := covers_tour ht
    -- The step leads to a state of the walk that has rules, and the run cannot end there.
    cases hnext : table.hasState r.next with
    | false =>
      obtain ⟨m, hm, -⟩ := hcovers.missed _ hs r hr hh hnext
      rw [hmissed] at hm
      cases hm
    | true =>
      have hvisited : r.next ∈ (tour table).visited :=
        (hcovers.reached _ hs r hr hh hnext).resolve_right List.not_mem_nil
      obtain ⟨-, hnone⟩ := ih hvisited hreason
      cases hnone.symm.trans hnext

/-! ## Accepted tables -/

/-- A table is accepted when there is nothing to report. -/
lemma report_eq_none_iff : report table = none ↔ findings table = [] := by
  unfold report
  cases findings table <;> simp

/-- An accepted table has a start state, which has rules or is a halting one, and the walk through
it misses nothing. -/
lemma of_report_eq_none (h : report table = none) :
    (table.hasState table.initial = false → isHalting table.initial = true) ∧
      (tour table).missed = [] := by
  have hfindings := report_eq_none_iff.mp h
  have hinitial : table.initial ≠ "" := by
    intro hempty
    simp [findings, hempty] at hfindings
  constructor
  · intro hstate
    by_contra hhalting
    have hmem := (mem_findings_iff hinitial).mpr
      (Or.inl ⟨hstate, Bool.eq_false_iff.mpr hhalting, rfl⟩)
    rw [hfindings] at hmem
    cases hmem
  · refine List.eq_nil_iff_forall_not_mem.mpr fun m hm => ?_
    have hmem := (mem_findings_iff hinitial).mpr (Or.inr (Or.inl ⟨m, hm, rfl⟩))
    rw [hfindings] at hmem
    cases hmem

/-- A run of an accepted table ends for want of a state only if the start state is a halting one
without rules, and then at once. Of any table with a start state, accepted or not, no run performs a
transition in a state that is reported as unreachable, however far the run is followed. -/
theorem accepted_table_runs_keep_to_known_states {t : Table} (ht : t.Reachable) :
    (report t = none → ∀ (m : Machine) (interrupt : Option Interrupt)
      (x : Machine × Machine.Finished), m.table = t → m.run interrupt = some x →
        x.2.result.reason = .noState →
          isHalting t.initial = true ∧ t.hasState t.initial = false ∧ x.2.result.steps = 0) ∧
    (t.initial ≠ "" → ∀ (m : Machine) (interrupt : Option Interrupt) (n : ℕ) (e : StepEvent),
      m.table = t → e ∈ events t (m.options interrupt) n m.snapshot →
        .unreachable e.transition.state ∉ findings t) := by
  obtain ⟨-, hstart⟩ := covers_tour ht.wellFormed
  constructor
  · rintro hreport m interrupt x rfl hrun hreason
    obtain ⟨hhalting, hmissed⟩ := of_report_eq_none hreport
    obtain ⟨e, he, rfl⟩ := Machine.run_eq_some_iff.mp hrun
    have hfreeze : ∀ s, verdict m.table.freeze (m.options interrupt) s =
        verdict m.table (m.options interrupt) s := fun _ => rfl
    obtain ⟨hlast, hstate⟩ :=
      of_ends_noState ht.wellFormed hmissed (he.congr hfreeze) hstart hreason
    exact ⟨hhalting hstate, hstate, congrArg Snapshot.steps hlast⟩
  · rintro hinitial m interrupt n e rfl he hmem
    have hvisited := visited_of_mem_events ht.wellFormed (fun _ => hstart) he
    rcases (mem_findings_iff hinitial).mp hmem with ⟨-, -, hf⟩ | ⟨m', -, hf⟩ | ⟨s, -, hs, hf⟩
    · cases hf
    · cases hf
    · cases hf
      exact hs hvisited

/-- A table of nothing but a start state, which is a halting one. -/
def resting : Table :=
  Table.empty.perform (.setInitial "halt-rest")

/-- A table with a state that no run comes to. -/
def bypass : Table :=
  Table.empty.perform (.addAll [⟨"go", "*", "*", "r", "go"⟩, ⟨"aside", "*", "*", "l", "go"⟩])

/-- The table of nothing but a halting start state is accepted, and its runs end at once. A state
that no run comes to is reported, while the one that a run for ever comes back to is not. -/
theorem accepted_table_runs_keep_to_known_states_resting :
    (report resting = none ∧ ∃ x, (Machine.ofInput "1" resting).run = some x ∧
      x.2.result.reason = .noState ∧ x.2.result.steps = 0) ∧
    (.unreachable "aside" ∈ findings bypass ∧
      ∃ e ∈ events bypass {} 1 (Machine.ofInput "1" bypass).snapshot,
        e.transition.state = "go" ∧ .unreachable "go" ∉ findings bypass) := by
  have hresting : resting.Reachable := .step .empty _
  have hbypass : bypass.Reachable := .step .empty _
  have hreport : report resting = none := by decide +kernel
  have hrun : (Machine.ofInput "1" resting).run = some ((Machine.ofInput "1" resting).finish none
      ⟨(Machine.ofInput "1" resting).snapshot, .noState, noStateLabel "halt-rest", []⟩) :=
    Machine.run_eq_some_iff.mpr ⟨_, .stop rfl, rfl⟩
  obtain ⟨hends, -⟩ := accepted_table_runs_keep_to_known_states hresting
  obtain ⟨-, hperformed⟩ := accepted_table_runs_keep_to_known_states hbypass
  obtain ⟨-, -, hsteps⟩ := hends hreport _ none _ rfl hrun rfl
  have hevents : (⟨1, 0, "1", ⟨"go", "*", "*", "r", "go"⟩⟩ : StepEvent) ∈
      events bypass {} 1 (Machine.ofInput "1" bypass).snapshot := by
    decide +kernel
  refine ⟨⟨hreport, _, hrun, rfl, hsteps⟩, by decide +kernel, _, hevents, rfl, ?_⟩
  exact hperformed (by decide +kernel) (Machine.ofInput "1" bypass) none 1 _ rfl hevents

end TapeMachine
