import Mathlib.Tactic.Common
import TapeMachine.Machine

/-!
# Runs that end

`runFrom` is a partial function. `Ends` is the same thing as an inductive relation: a run ends where
the verdict is to stop, or after a step into a halting state, or as the run goes on after a step
into any other state. `runFrom_eq_some_iff` says that the two agree, and so facts about finished
runs are proved by induction on `Ends`.
-/

namespace TapeMachine

variable {α : Type} {table : Table} {opts : RunOptions} {observe : α → StepEvent → α}

/-- How a run from a snapshot ends, with an observer that has seen something before. -/
inductive Ends (table : Table) (opts : RunOptions) (observe : α → StepEvent → α) :
    Snapshot → α → Ending α → Prop
  | stop {s : Snapshot} {seen : α} {reason : Reason} {label : String}
      (h : verdict table opts s = .stop reason label) :
      Ends table opts observe s seen ⟨s, reason, label, seen⟩
  | halt {s : Snapshot} {seen : α} {r : Transition} (h : verdict table opts s = .follow r)
      (hh : isHalting r.next = true) :
      Ends table opts observe s seen
        ⟨s.perform r, .haltState, r.next, observe seen (s.event r)⟩
  | step {s : Snapshot} {seen : α} {r : Transition} {e : Ending α}
      (h : verdict table opts s = .follow r) (hh : isHalting r.next = false)
      (he : Ends table opts observe (s.perform r) (observe seen (s.event r)) e) :
      Ends table opts observe s seen e

/-- A run goes on as its next step says. -/
lemma runFrom_eq (s : Snapshot) (seen : α) :
    runFrom table opts observe s seen =
      (advance table opts observe s seen).elim
        (fun x => runFrom table opts observe x.1 x.2) some := by
  rw [runFrom, goOn]
  cases advance table opts observe s seen <;> rfl

/-- A run that is told to stop has ended. -/
lemma runFrom_of_stop {s : Snapshot} {seen : α} {reason : Reason} {label : String}
    (h : verdict table opts s = .stop reason label) :
    runFrom table opts observe s seen = some ⟨s, reason, label, seen⟩ := by
  rw [runFrom_eq, advance, h]
  rfl

/-- A run that is told to follow a transition performs it, and ends there if the next state is a
halting one. -/
lemma runFrom_of_follow {s : Snapshot} {seen : α} {r : Transition}
    (h : verdict table opts s = .follow r) :
    runFrom table opts observe s seen =
      if isHalting r.next then
        some ⟨s.perform r, .haltState, r.next, observe seen (s.event r)⟩
      else runFrom table opts observe (s.perform r) (observe seen (s.event r)) := by
  rw [runFrom_eq, advance, h]
  change Sum.elim _ some (if isHalting r.next then _ else _) = _
  split <;> rfl

/-- A run ends in some way exactly when `Ends` says so. -/
theorem runFrom_eq_some_iff {s : Snapshot} {seen : α} {e : Ending α} :
    runFrom table opts observe s seen = some e ↔ Ends table opts observe s seen e := by
  constructor
  · refine goOn.partial_correctness (fun x => advance table opts observe x.1 x.2)
      (fun x e => Ends table opts observe x.1 x.2 e) ?_ (s, seen) e
    rintro run ih ⟨s, seen⟩ e hrun
    cases hv : verdict table opts s with
    | stop reason label =>
      simp only [advance, hv, Option.some.injEq] at hrun
      exact hrun ▸ Ends.stop hv
    | follow r =>
      simp only [advance, hv] at hrun
      cases hh : isHalting r.next with
      | true =>
        rw [if_pos (by exact hh)] at hrun
        exact Option.some_inj.mp hrun ▸ Ends.halt hv hh
      | false =>
        rw [if_neg (by simpa [Snapshot.perform] using hh)] at hrun
        exact Ends.step hv hh (ih _ _ hrun)
  · intro he
    induction he with
    | stop h => exact runFrom_of_stop h
    | halt h hh => rw [runFrom_of_follow h, if_pos hh]
    | step h hh _ ih => rw [runFrom_of_follow h, hh, if_neg Bool.false_ne_true, ih]

/-! ## Machines -/

/-- How a machine carries out a run. -/
def Machine.options (m : Machine) (interrupt : Option Interrupt) : RunOptions :=
  { limit := m.limit, sorted := m.sorted, interrupt }

/-- Where a run of a machine begins. -/
def Machine.snapshot (m : Machine) : Snapshot :=
  { state := m.table.initial, tape := m.tape }

/-- What a machine makes of the end of its run: it keeps the last tape and reports the result. -/
def Machine.finish (m : Machine) (interrupt : Option Interrupt) (e : Ending (List StepEvent)) :
    Machine × Finished :=
  let result := e.result (m.options interrupt) m.input
  ({ m with table := m.table.freeze, tape := e.last.tape },
    { result, cause := e.cause? (m.options interrupt),
      records := Log.runRecords m.runId e.seen.reverse result })

/-- Running a machine is running its frozen table from its tape. -/
lemma Machine.run_eq (m : Machine) (interrupt : Option Interrupt) :
    m.run interrupt =
      (runFrom m.table.freeze (m.options interrupt) (fun es e => e :: es) m.snapshot []).map
        (m.finish interrupt) := by
  have htrace : traceRun m.table.freeze { limit := m.limit, sorted := m.sorted, interrupt } m.tape =
      (runFrom m.table.freeze (m.options interrupt) (fun es e => e :: es) m.snapshot []).map
        fun e => { e with seen := e.seen.reverse } := rfl
  simp only [Machine.run, htrace]
  cases runFrom m.table.freeze (m.options interrupt) (fun es e => e :: es) m.snapshot [] <;> rfl

/-- A machine finishes a run exactly when the run ends. -/
theorem Machine.run_eq_some_iff {m : Machine} {interrupt : Option Interrupt}
    {x : Machine × Finished} :
    m.run interrupt = some x ↔
      ∃ e, Ends m.table.freeze (m.options interrupt) (fun es e => e :: es) m.snapshot [] e ∧
        m.finish interrupt e = x := by
  rw [Machine.run_eq, Option.map_eq_some_iff]
  simp only [runFrom_eq_some_iff]

end TapeMachine
