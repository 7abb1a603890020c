import Mathlib.Algebra.BigOperators.Group.List.Basic
import Mathlib.Algebra.Ring.Nat
import Mathlib.Data.List.Perm.Basic
import TapeMachine.Proofs.Keyed
import TapeMachine.Proofs.Run.Observers

/-!
# What is counted

Counts of runs are kept in two ways: every step is counted when it is performed, and every run
reports at its end why it ended and how many steps it took. The two agree because a run that ends
tells of each of its steps once and of its end once, whatever the reason (`Engine.told_spec`).

Runs that are carried out at once tell of their events in any interleaving (`Interleaves`). Counting
does not depend on it: with a registry that obeys the laws of counters and histograms
(`LawfulRegistry`), what is counted after a history depends only on which events it has
(`Registry.accounts_of_perm`). So the samples that are shown are sums and counts over the results
(`metrics_account_for_runs`). The registry of this library, `Metrics`, obeys the laws.
-/

namespace TapeMachine

/-! ## Histories -/

/-- The histories in which each of some lists of events comes in its own order. -/
inductive Interleaves {α : Type} : List (List α) → List α → Prop
  | done {ls : List (List α)} (h : ∀ l ∈ ls, l = []) : Interleaves ls []
  | next {a b : List (List α)} {l rest : List α} {x : α}
      (h : Interleaves (a ++ l :: b) rest) : Interleaves (a ++ (x :: l) :: b) (x :: rest)

namespace Interleaves

variable {α : Type} {ls : List (List α)} {l : List α}

/-- A history has the events of all lists. -/
lemma perm (h : Interleaves ls l) : l.Perm ls.flatten := by
  induction h with
  | done h => rw [List.flatten_eq_nil_iff.mpr h]
  | @next a b l rest x _ ih =>
    have hrest : (x :: rest).Perm (x :: (a.flatten ++ (l ++ b.flatten))) := by simpa using ih
    simpa using hrest.trans List.perm_middle.symm

/-- A list without events adds nothing. -/
lemma cons_nil (h : Interleaves ls l) : Interleaves ([] :: ls) l := by
  induction h with
  | done h => exact .done (List.forall_mem_cons.mpr ⟨rfl, h⟩)
  | @next a b l rest x _ ih => exact .next (a := [] :: a) ih

/-- One list may come after the other. -/
lemma flatten (ls : List (List α)) : Interleaves ls ls.flatten := by
  induction ls with
  | nil => exact .done (by simp)
  | cons l ls ih =>
    induction l with
    | nil => exact ih.cons_nil
    | cons x l ihl => exact .next (a := []) ihl

end Interleaves

/-! ## The events of a run -/

namespace RunEvent

/-- Whether the event is a step. -/
def isStep : RunEvent → Bool
  | .step _ => true
  | .halt _ => false

/-- The end that the event reports: why, and after how many steps. -/
def end? : RunEvent → Option (Reason × ℕ)
  | .step _ => none
  | .halt r => some (r.reason, r.steps)

end RunEvent

/-- What a run tells: its steps and then its end. A run that never ends has told nothing that is
complete. -/
def Engine.told (e : Engine) (table : Table) (input : String) (interrupt : Option Interrupt) :
    List RunEvent :=
  match traceRun table (e.options interrupt) (.ofInput input) with
  | none => []
  | some end_ => runEvents end_.seen (end_.result (e.options interrupt) input)

/-- The run of an input comes to an end. -/
def Engine.Stops (e : Engine) (table : Table) (input : String) (interrupt : Option Interrupt) :
    Prop :=
  (traceRun table (e.options interrupt) (.ofInput input)).isSome = true

/-- The trace of a run that ends has as many steps as its result says. -/
lemma length_seen_of_traceRun {table : Table} {opts : RunOptions} {tape : Tape}
    {end_ : Ending (List StepEvent)} (h : traceRun table opts tape = some end_) :
    end_.seen.length = end_.last.steps := by
  obtain ⟨n, hstops, hseen⟩ := traceRun_eq_some_iff.mp h
  rw [hseen, Snapshot.length_trace hstops.point, Snapshot.steps_of_after? hstops.point,
    Nat.zero_add]

namespace Engine

variable {e : Engine} {table : Table} {input : String} {interrupt : Option Interrupt}

/-- A run that ends has a result, and tells of each of its steps and once of its end. -/
lemma told_spec (h : e.Stops table input interrupt) :
    ∃ o, e.run interrupt table input = some o ∧
      (e.told table input interrupt).countP RunEvent.isStep = o.1.steps ∧
      (e.told table input interrupt).filterMap RunEvent.end? = [(o.1.reason, o.1.steps)] := by
  obtain ⟨end_, htrace⟩ := Option.isSome_iff_exists.mp h
  have hlength := length_seen_of_traceRun htrace
  have htold : e.told table input interrupt =
      runEvents end_.seen (end_.result (e.options interrupt) input) := by
    rw [told, htrace]
  refine ⟨(end_.result (e.options interrupt) input, end_.cause? (e.options interrupt)), ?_, ?_, ?_⟩
  · rw [run_eq, htrace, Option.map_some]
  · rw [htold, runEvents, List.countP_append, List.countP_map]
    change _ = end_.last.steps
    simpa [RunEvent.isStep, Function.comp_def] using hlength
  · rw [htold, runEvents, List.filterMap_append, List.filterMap_map]
    simp [RunEvent.end?, Function.comp_def]

end Engine

/-! ## Counting -/

/-- The number that a series has when nothing has been counted. -/
def Series.atFirst : Series → Option ℕ
  | .halts _ => none
  | .bucket (some bound) => if bound ∈ Metrics.bounds then some 0 else none
  | _ => some 0

/-- What an observation of the length of a run adds to a series. -/
def Series.weight (steps : ℕ) : Series → ℕ
  | .bucket (some bound) => if steps ≤ bound then 1 else 0
  | .bucket none => 1
  | .runs => 1
  | .runSteps => steps
  | _ => 0

/-- What a library that counts promises: a counter that goes up changes its own series only, which
is shown from then on, and an observation adds to the series of the histogram. -/
class LawfulRegistry (μ : Type) [Registry μ] : Prop where
  sample_fresh (s : Series) : Registry.sample (Registry.fresh : μ) s = s.atFirst
  sample_inc (m : μ) (c : Counter) (s : Series) : Registry.sample (Registry.inc m c) s =
    if s = c.series then some ((Registry.sample m s).getD 0 + 1) else Registry.sample m s
  sample_observe (m : μ) (steps : ℕ) (s : Series) : Registry.sample (Registry.observe m steps) s =
    (Registry.sample m s).map (· + s.weight steps)

/-- One for each element with a property adds up to the number of them. -/
lemma sum_map_ite {α : Type} (p : α → Prop) [DecidablePred p] (l : List α) :
    (l.map fun a => if p a then 1 else 0).sum = l.countP p := by
  induction l with
  | nil => rfl
  | cons a l ih =>
    rw [List.map_cons, List.sum_cons, ih, List.countP_cons, Nat.add_comm]
    simp

namespace Registry

variable {μ : Type} [Registry μ] [LawfulRegistry μ]

/-- A step counts in one series. -/
lemma sample_receive_step (m : μ) (ev : StepEvent) (s : Series) :
    sample (Metrics.hooks.receive m (.step ev)) s =
      if s = .steps then some ((sample m s).getD 0 + 1) else sample m s :=
  LawfulRegistry.sample_inc m .steps s

/-- The end of a run counts in the series of its reason. -/
lemma sample_receive_halt_halts (m : μ) (r : Result) (reason : Reason) :
    sample (Metrics.hooks.receive m (.halt r)) (.halts reason) =
      if r.reason = reason then some ((sample m (.halts reason)).getD 0 + 1)
      else sample m (.halts reason) := by
  change sample (observe (inc m (.halts r.reason)) r.steps) (.halts reason) = _
  have hseries : Series.halts reason = (Counter.halts r.reason).series ↔ r.reason = reason :=
    ⟨fun h => (Series.halts.inj h).symm, fun h => congrArg Series.halts h.symm⟩
  rw [LawfulRegistry.sample_observe, LawfulRegistry.sample_inc, if_congr hseries rfl rfl]
  simp [Series.weight]

/-- The end of a run counts in the series of the histogram. -/
lemma sample_receive_halt (m : μ) (r : Result) {s : Series} (hs : ∀ reason, s ≠ .halts reason) :
    sample (Metrics.hooks.receive m (.halt r)) s = (sample m s).map (· + s.weight r.steps) := by
  change sample (observe (inc m (.halts r.reason)) r.steps) s = _
  rw [LawfulRegistry.sample_observe, LawfulRegistry.sample_inc]
  exact congrArg _ (if_neg (hs r.reason))

/-- After some events, the number of steps has grown by the steps among them. -/
lemma sample_steps_foldl (events : List RunEvent) (m : μ) {n : ℕ} (h : sample m .steps = some n) :
    sample (events.foldl Metrics.hooks.receive m) .steps =
      some (n + events.countP RunEvent.isStep) := by
  induction events generalizing m n with
  | nil => exact h
  | cons event events ih =>
    rw [List.foldl_cons]
    cases event with
    | step ev =>
      have hstep : sample (Metrics.hooks.receive m (.step ev)) .steps = some (n + 1) := by
        rw [sample_receive_step, if_pos rfl, h, Option.getD_some]
      have hcount : (RunEvent.step ev :: events).countP RunEvent.isStep =
          events.countP RunEvent.isStep + 1 := List.countP_cons_of_pos rfl
      rw [ih _ hstep, hcount, Nat.add_assoc, Nat.add_comm 1]
    | halt r =>
      have hhalt : sample (Metrics.hooks.receive m (.halt r)) .steps = some n := by
        have hseries : ∀ reason, Series.steps ≠ .halts reason := nofun
        rw [sample_receive_halt m r hseries, h]
        rfl
      have hcount : (RunEvent.halt r :: events).countP RunEvent.isStep =
          events.countP RunEvent.isStep := List.countP_cons_of_neg nofun
      rw [ih _ hhalt, hcount]

/-- After some events, the number of a reason has grown by the ends among them that have it. A
reason without a number gets one with the first of them. -/
lemma sample_halts_foldl (events : List RunEvent) (m : μ) (reason : Reason) :
    sample (events.foldl Metrics.hooks.receive m) (.halts reason) =
      if (events.filterMap RunEvent.end?).countP (·.1 = reason) = 0 then sample m (.halts reason)
      else some ((sample m (.halts reason)).getD 0 +
        (events.filterMap RunEvent.end?).countP (·.1 = reason)) := by
  induction events generalizing m with
  | nil => rfl
  | cons event events ih =>
    rw [List.foldl_cons, ih]
    cases event with
    | step ev =>
      have hstep : sample (Metrics.hooks.receive m (.step ev)) (.halts reason) =
          sample m (.halts reason) := by
        rw [sample_receive_step, if_neg nofun]
      rw [hstep]
      rfl
    | halt r =>
      have hends : (RunEvent.halt r :: events).filterMap RunEvent.end? =
          (r.reason, r.steps) :: events.filterMap RunEvent.end? := rfl
      rw [sample_receive_halt_halts, hends, List.countP_cons]
      generalize (events.filterMap RunEvent.end?).countP (·.1 = reason) = n
      by_cases hreason : r.reason = reason
      · by_cases hn : n = 0
        · simp [hreason, hn]
        · simp [hreason, hn, Nat.add_assoc, Nat.add_comm 1]
      · simp [hreason]

/-- After some events, a series of the histogram has grown by what each of the ends adds to it. -/
lemma sample_histogram_foldl (events : List RunEvent) (m : μ) {s : Series} (hsteps : s ≠ .steps)
    (hhalts : ∀ reason, s ≠ .halts reason) :
    sample (events.foldl Metrics.hooks.receive m) s = (sample m s).map
      (· + ((events.filterMap RunEvent.end?).map fun e => s.weight e.2).sum) := by
  induction events generalizing m with
  | nil => simp
  | cons event events ih =>
    rw [List.foldl_cons, ih]
    cases event with
    | step ev =>
      rw [sample_receive_step, if_neg hsteps]
      rfl
    | halt r =>
      rw [sample_receive_halt m r hhalts, Option.map_map]
      congr 1
      funext n
      exact Nat.add_assoc ..

/-- The numbers that are shown are sums and counts over results. -/
structure Accounts (m : μ) (results : List Result) : Prop where
  steps : sample m .steps = some (results.map Result.steps).sum
  runSteps : sample m .runSteps = some (results.map Result.steps).sum
  halts : ∀ reason, sample m (.halts reason) =
    if results.countP (·.reason = reason) = 0 then none
    else some (results.countP (·.reason = reason))
  runs : sample m .runs = some results.length
  unbounded : sample m (.bucket none) = some results.length
  bucket : ∀ bound ∈ Metrics.bounds,
    sample m (.bucket (some bound)) = some (results.countP (·.steps ≤ bound))

/-- They are so after events that have as many steps as the results, and whose ends are those of the
results, in any order. -/
lemma accounts_of_perm {events : List RunEvent} {results : List Result}
    (hsteps : events.countP RunEvent.isStep = (results.map Result.steps).sum)
    (hends : (events.filterMap RunEvent.end?).Perm (results.map fun r => (r.reason, r.steps))) :
    Accounts (events.foldl Metrics.hooks.receive (fresh : μ)) results := by
  have hhalts : ∀ reason, (events.filterMap RunEvent.end?).countP (·.1 = reason) =
      results.countP (·.reason = reason) := by
    intro reason
    rw [hends.countP_eq, List.countP_map]
    rfl
  have hhistogram : ∀ s : Series, s ≠ .steps → (∀ reason, s ≠ .halts reason) →
      s.atFirst = some 0 →
      sample (events.foldl Metrics.hooks.receive (fresh : μ)) s =
        some (results.map fun r => s.weight r.steps).sum := by
    intro s hsteps hhalts hfirst
    rw [sample_histogram_foldl events _ hsteps hhalts, LawfulRegistry.sample_fresh, hfirst,
      Option.map_some, Nat.zero_add, (hends.map _).sum_eq, List.map_map]
    rfl
  have hlength : (results.map fun _ => 1).sum = results.length := by
    rw [List.map_const', List.sum_replicate_nat, Nat.mul_one]
  refine ⟨?_, ?_, fun reason => ?_, ?_, ?_, fun bound hbound => ?_⟩
  · rw [sample_steps_foldl events _ (LawfulRegistry.sample_fresh _), hsteps, Nat.zero_add]
  · exact hhistogram .runSteps nofun nofun rfl
  · rw [sample_halts_foldl, LawfulRegistry.sample_fresh, hhalts]
    simp [Series.atFirst]
  · rw [← hlength]
    exact hhistogram .runs nofun nofun rfl
  · rw [← hlength]
    exact hhistogram (.bucket none) nofun nofun rfl
  · rw [hhistogram (.bucket (some bound)) nofun nofun (if_pos hbound)]
    exact congrArg some (sum_map_ite (fun r : Result => r.steps ≤ bound) results)

end Registry

/-! ## A lawful registry -/

namespace Metrics

/-- The name and label of a line. -/
def seriesName : Series → String
  | .halts reason => labelled "turing_halts_total" "reason" reason.name
  | .bucket (some bound) => labelled "turing_run_steps_bucket" "le" (number bound)
  | .bucket none => labelled "turing_run_steps_bucket" "le" "+Inf"
  | .runSteps => "turing_run_steps_sum"
  | .runs => "turing_run_steps_count"
  | .steps => "turing_steps_total"

/-- The lines are the samples, one a line. -/
lemma lines_eq (m : Metrics) :
    m.lines = m.samples.map fun s => seriesName s.1 ++ " " ++ number s.2 := by
  simp [lines, samples, seriesName, Function.comp_def]

/-- No series is shown twice. -/
lemma nodup_keys_samples (m : Metrics) : (m.samples.map (·.1)).Nodup := by
  have hall : (shownReasons.map Series.halts ++ bounds.map (Series.bucket ∘ some) ++
      [Series.bucket none, .runSteps, .runs, .steps]).Nodup := by
    decide
  have hkeys : m.samples.map (·.1) =
      (shownReasons.filter (fun r => m.halts r != 0)).map Series.halts ++
        bounds.map (Series.bucket ∘ some) ++ [.bucket none, .runSteps, .runs, .steps] := by
    simp [samples, Function.comp_def]
  rw [hkeys]
  exact hall.sublist ((((List.filter_sublist).map _).append (.refl _)).append (.refl _))

/-- The number of a series, read off what has been kept. -/
def count? (m : Metrics) : Series → Option ℕ
  | .halts reason => if m.halts reason = 0 then none else some (m.halts reason)
  | .bucket (some bound) => if bound ∈ bounds then some (m.within bound) else none
  | .bucket none => some m.lengths.length
  | .runSteps => some m.total
  | .runs => some m.lengths.length
  | .steps => some m.steps

/-- This is the number that is shown. -/
lemma sample_eq_count? (m : Metrics) (s : Series) : Registry.sample m s = m.count? s := by
  have hmem : ∀ n, Registry.sample m s = some n ↔ (s, n) ∈ m.samples := fun n =>
    ⟨mem_of_lookup_eq_some, lookup_eq_some_of_mem m.nodup_keys_samples⟩
  refine Option.ext fun n => ?_
  rw [hmem]
  cases s with
  | halts reason =>
    have hshown : reason ∈ shownReasons := by cases reason <;> decide
    simp [samples, count?, hshown]
  | bucket bound =>
    cases bound with
    | none => simp [samples, count?, eq_comm (a := n)]
    | some bound => simp [samples, count?]
  | runSteps => simp [samples, count?, eq_comm (a := n)]
  | runs => simp [samples, count?, eq_comm (a := n)]
  | steps => simp [samples, count?, eq_comm (a := n)]

/-- The number of transitions over all runs is the sum of their numbers. -/
lemma total_eq (m : Metrics) : m.total = m.lengths.sum := by
  rw [total, List.sum_eq_foldl]

instance : LawfulRegistry Metrics where
  sample_fresh s := by
    rw [sample_eq_count?]
    cases s with
    | bucket bound => cases bound <;> rfl
    | _ => rfl
  sample_inc m c s := by
    rw [sample_eq_count?, sample_eq_count?]
    cases c with
    | steps =>
      cases s with
      | bucket bound => cases bound <;> rfl
      | _ => rfl
    | halts reason =>
      change (m.inc (.halts reason)).count? s = _
      cases s with
      | halts other =>
        have hhalts : (m.inc (.halts reason)).halts other =
            m.halts other + if reason = other then 1 else 0 := by
          simp [inc, halts, List.countP_append, List.countP_singleton]
        rw [count?, hhalts]
        by_cases hother : reason = other
        · subst hother
          by_cases hnone : m.halts reason = 0 <;> simp [count?, Counter.series, hnone]
        · simp [count?, Counter.series, hother, Ne.symm hother]
      | bucket bound => cases bound <;> rfl
      | _ => rfl
  sample_observe m steps s := by
    rw [sample_eq_count?, sample_eq_count?]
    change (m.observe steps).count? s = _
    cases s with
    | halts reason =>
      change (if m.halts reason = 0 then none else some (m.halts reason)) = Option.map (· + 0) _
      simp [count?]
    | bucket bound =>
      cases bound with
      | none => simp [observe, count?, Series.weight]
      | some bound =>
        have hwithin : (m.observe steps).within bound =
            m.within bound + if steps ≤ bound then 1 else 0 := by
          simp [observe, within, List.countP_append, List.countP_singleton]
        rw [count?, count?, hwithin]
        split <;> rfl
    | runSteps => simp [observe, count?, total_eq, Series.weight]
    | runs => simp [observe, count?, Series.weight]
    | steps => rfl

end Metrics

/-! ## Many runs -/

section Runs

variable {μ : Type} [Registry μ] {e : Engine} {table : Table}

/-- The result of each of some runs that end. -/
def Engine.resultsOf (e : Engine) (table : Table) (runs : List (String × Option Interrupt)) :
    List Result :=
  runs.filterMap fun r => (e.run r.2 table r.1).map (·.1)

/-- What each of some runs tells. -/
def Engine.toldOf (e : Engine) (table : Table) (runs : List (String × Option Interrupt)) :
    List (List RunEvent) :=
  runs.map fun r => e.told table r.1 r.2

/-- In all they tell of as many steps as the results say, and of one end each. -/
lemma Engine.flatten_toldOf {runs : List (String × Option Interrupt)}
    (h : ∀ r ∈ runs, e.Stops table r.1 r.2) :
    (e.toldOf table runs).flatten.countP RunEvent.isStep =
        ((e.resultsOf table runs).map Result.steps).sum ∧
      (e.toldOf table runs).flatten.filterMap RunEvent.end? =
        (e.resultsOf table runs).map fun r => (r.reason, r.steps) := by
  induction runs with
  | nil => exact ⟨rfl, rfl⟩
  | cons r runs ih =>
    obtain ⟨hr, hruns⟩ := List.forall_mem_cons.mp h
    obtain ⟨hsteps, hends⟩ := ih hruns
    obtain ⟨o, ho, hrsteps, hrends⟩ := told_spec hr
    have hresults : e.resultsOf table (r :: runs) = o.1 :: e.resultsOf table runs := by
      simp [resultsOf, ho]
    rw [hresults]
    constructor
    · change (e.told table r.1 r.2 ++ (e.toldOf table runs).flatten).countP _ = _
      rw [List.countP_append, hrsteps, hsteps]
      rfl
    · change (e.told table r.1 r.2 ++ (e.toldOf table runs).flatten).filterMap _ = _
      rw [List.filterMap_append, hrends, hends]
      rfl

/-- However runs are interleaved, the counts are right. -/
lemma accounts_of_interleaves [LawfulRegistry μ] {runs : List (String × Option Interrupt)}
    (h : ∀ r ∈ runs, e.Stops table r.1 r.2) {history : List RunEvent}
    (hhistory : Interleaves (e.toldOf table runs) history) :
    Registry.Accounts (history.foldl Metrics.hooks.receive (Registry.fresh : μ))
      (e.resultsOf table runs) := by
  obtain ⟨hsteps, hends⟩ := Engine.flatten_toldOf h
  refine Registry.accounts_of_perm ?_ ?_
  · rw [← hsteps, hhistory.perm.countP_eq]
  · rw [← hends]
    exact hhistory.perm.filterMap _

/-- Running all inputs, where every run ends, gives the result of each. -/
lemma Engine.runAll_eq_some {interrupt : Option Interrupt} {inputs : List String}
    (h : ∀ input ∈ inputs, e.Stops table input interrupt) :
    ∃ results cause, e.runAll interrupt table inputs = some (results, cause) ∧
      results = e.resultsOf table (inputs.map (·, interrupt)) ∧
      results.length = inputs.length := by
  induction inputs with
  | nil => exact ⟨[], none, rfl, rfl, rfl⟩
  | cons input inputs ih =>
    obtain ⟨hinput, hinputs⟩ := List.forall_mem_cons.mp h
    obtain ⟨results, cause, hall, hresults, hlength⟩ := ih hinputs
    obtain ⟨o, ho, -⟩ := told_spec hinput
    refine ⟨o.1 :: results, o.2.or cause, ?_, ?_, ?_⟩
    · rw [runAll_cons, ho, hall]
      rfl
    · rw [hresults]
      simp [resultsOf, ho]
    · rw [List.length_cons, List.length_cons, hlength]

/-- Counting over all inputs is counting what their runs tell, one after the other. -/
lemma Engine.measure_metrics {interrupt : Option Interrupt} {inputs : List String}
    {m : μ} {results : List Result} {cause : Option StopCause} {m' : μ}
    (h : e.measure interrupt table m inputs = some (results, cause, m')) :
    m' = (e.toldOf table (inputs.map (·, interrupt))).flatten.foldl Metrics.hooks.receive m := by
  induction inputs generalizing m results cause with
  | nil =>
    cases h
    rfl
  | cons input inputs ih =>
    rw [measure, runHooked_eq] at h
    cases htrace : traceRun table (e.options interrupt) (.ofInput input) with
    | none =>
      rw [htrace] at h
      cases h
    | some end_ =>
      have htold : e.told table input interrupt =
          runEvents end_.seen (end_.result (e.options interrupt) input) := by
        rw [told, htrace]
      simp only [htrace, Option.map_some, Option.bind_eq_bind, Option.bind_some,
        Option.bind_eq_some_iff, Prod.exists, Option.some.injEq, Prod.mk.injEq] at h
      obtain ⟨_, _, _, hrest, -, -, rfl⟩ := h
      change _ = (e.told table input interrupt ++ _).foldl _ m
      rw [ih hrest, List.foldl_append, htold]
      rfl

end Runs

/-- Metrics account for every step and every run. Take any runs of a table that all end, each with
its own input and interruption. However their events are interleaved, the samples that are shown in
the end are right, whatever lawful registry counts them: both numbers of steps are the sum over the
results, each reason counts the results that have it and is not shown if there are none, and the
ranges count the results with at most so many steps. In particular this is so after all inputs were
run one after the other. The registry of this library shows its samples line by line. -/
theorem metrics_account_for_runs {μ : Type} [Registry μ] [LawfulRegistry μ] (e : Engine)
    (table : Table) :
    (∀ (runs : List (String × Option Interrupt)) (history : List RunEvent),
      (∀ r ∈ runs, e.Stops table r.1 r.2) → Interleaves (e.toldOf table runs) history →
      Registry.Accounts (history.foldl Metrics.hooks.receive (Registry.fresh : μ))
        (e.resultsOf table runs)) ∧
    (∀ (inputs : List String) (interrupt : Option Interrupt),
      (∀ input ∈ inputs, e.Stops table input interrupt) →
      ∃ results cause, ∃ m : μ,
        e.measure interrupt table Registry.fresh inputs = some (results, cause, m) ∧
        e.runAll interrupt table inputs = some (results, cause) ∧
        results.length = inputs.length ∧ Registry.Accounts m results) ∧
    ∀ m : Metrics, (∀ s, Registry.sample m s = m.samples.lookup s) ∧
      m.lines = m.samples.map fun s => Metrics.seriesName s.1 ++ " " ++ Metrics.number s.2 := by
  refine ⟨fun runs history h hhistory => accounts_of_interleaves h hhistory, ?_,
    fun m => ⟨fun _ => rfl, m.lines_eq⟩⟩
  intro inputs interrupt h
  obtain ⟨results, cause, hall, hresults, hlength⟩ := Engine.runAll_eq_some h
  obtain ⟨m, hm⟩ : ∃ m : μ,
      e.measure interrupt table Registry.fresh inputs = some (results, cause, m) := by
    have hmeasure := e.measure_eq interrupt table (Registry.fresh : μ) inputs
    rw [hall, Option.map_eq_some_iff] at hmeasure
    obtain ⟨o, hm, ho⟩ := hmeasure
    cases ho
    exact ⟨o.2.2, hm⟩
  refine ⟨results, cause, m, hm, hall, hlength, ?_⟩
  rw [Engine.measure_metrics hm, hresults]
  exact accounts_of_interleaves (by simpa using h) (.flatten _)

/-- A run that halts after one step, and a run that was interrupted before it began and ends between
the step and the end of the first. -/
theorem metrics_account_for_runs_wordEnd :
    let engine : Engine := {}
    let runs : List (String × Option Interrupt) := [("", none), ("ab", some ⟨0, .cancelled⟩)]
    ∃ step first second,
      engine.toldOf wordEnd runs = [[.step step, .halt first], [.halt second]] ∧
      engine.resultsOf wordEnd runs = [first, second] ∧
      (first.reason = .haltState ∧ first.steps = 1) ∧
      (second.reason = .interrupted ∧ second.steps = 0) ∧
      Registry.Accounts ([RunEvent.step step, .halt second, .halt first].foldl
        Metrics.hooks.receive ({} : Metrics)) [first, second] := by
  intro engine runs
  let r : Transition := ⟨"go", "_", "*", "l", "halt"⟩
  let start : Snapshot := ⟨wordEnd.initial, .ofInput "", 0⟩
  let first : Ending (List StepEvent) := ⟨start.perform r, .haltState, "halt", [start.event r]⟩
  let second : Ending (List StepEvent) :=
    ⟨⟨wordEnd.initial, .ofInput "ab", 0⟩, .interrupted, interruptedLabel "context canceled", []⟩
  have hfirst : traceRun wordEnd (engine.options none) (.ofInput "") = some first := by
    rw [traceRun, observeRun, runFrom_of_follow (r := r) (by decide +kernel),
      if_pos (by decide +kernel)]
    rfl
  have hsecond : traceRun wordEnd (engine.options (some ⟨0, .cancelled⟩)) (.ofInput "ab") =
      some second := by
    have hstop : verdict wordEnd (engine.options (some ⟨0, .cancelled⟩))
        { state := wordEnd.initial, tape := .ofInput "ab" } =
          .stop .interrupted (interruptedLabel "context canceled") := by decide +kernel
    rw [traceRun, observeRun, runFrom_of_stop hstop]
    rfl
  have hstops : ∀ r ∈ runs, engine.Stops wordEnd r.1 r.2 := by
    simp only [runs, List.forall_mem_cons, List.not_mem_nil, false_implies, implies_true, and_true]
    exact ⟨Option.isSome_iff_exists.mpr ⟨_, hfirst⟩, Option.isSome_iff_exists.mpr ⟨_, hsecond⟩⟩
  have htold : engine.toldOf wordEnd runs =
      [runEvents first.seen (first.result (engine.options none) ""),
        runEvents second.seen (second.result (engine.options (some ⟨0, .cancelled⟩)) "ab")] := by
    simp only [Engine.toldOf, runs, List.map_cons, List.map_nil, Engine.told, hfirst, hsecond]
  have hresults : engine.resultsOf wordEnd runs =
      [first.result (engine.options none) "",
        second.result (engine.options (some ⟨0, .cancelled⟩)) "ab"] := by
    simp [Engine.resultsOf, runs, engine.run_eq, hfirst, hsecond]
  refine ⟨_, _, _, htold, hresults, ⟨rfl, rfl⟩, ⟨rfl, rfl⟩, ?_⟩
  rw [← hresults]
  refine (metrics_account_for_runs (μ := Metrics) engine wordEnd).1 runs _ hstops ?_
  rw [htold]
  refine .next (a := []) (.next (a := [_]) (b := []) (.next (a := []) (.done ?_)))
  simp

end TapeMachine
