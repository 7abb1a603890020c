import TapeMachine.Metrics
import TapeMachine.Proofs.Run.Points

/-!
# Those who follow a run

A run does not depend on who follows it: with any observer it ends where its trace ends, and what
the observer has made of it is what it makes of the steps of the trace, one after the other
(`observeRun_eq`). So the outcomes of runs that are counted are the outcomes of the runs
(`Engine.measure_eq`).

Hooks are told of the steps and then of the end (`Engine.runHooked_eq`), and where several
hooks are merged, each of them is told of every event, in the order in which they were registered
(`Hooks.receive_mergeAll`).
-/

namespace TapeMachine

/-! ## Observers -/

section Observers

variable {α : Type} {table : Table} {opts : RunOptions} {tape : Tape}

/-- A run ends at the first point at which it stops, whoever observes it. -/
lemma observeRun_eq_some_iff {observe : α → StepEvent → α} {seen : α} {e : Ending α} :
    observeRun table opts tape observe seen = some e ↔
      ∃ n, StopsAt table opts { state := table.initial, tape } n e.last e.reason e.label ∧
        e.seen = (Snapshot.trace table n { state := table.initial, tape }).foldl observe seen := by
  have hstart : ¬ ({ state := table.initial, tape } : Snapshot).Halted :=
    fun h => absurd h.1 (Nat.lt_irrefl 0)
  rw [observeRun, runFrom_eq_some_iff, ends_iff_stopsAt hstart]

/-- The trace of a run holds the events up to the first point at which it stops. -/
lemma traceRun_eq_some_iff {e : Ending (List StepEvent)} :
    traceRun table opts tape = some e ↔
      ∃ n, StopsAt table opts { state := table.initial, tape } n e.last e.reason e.label ∧
        e.seen = Snapshot.trace table n { state := table.initial, tape } := by
  rw [traceRun, Option.map_eq_some_iff]
  constructor
  · rintro ⟨e, he, rfl⟩
    obtain ⟨n, hstops, hseen⟩ := observeRun_eq_some_iff.mp he
    refine ⟨n, hstops, ?_⟩
    change e.seen.reverse = _
    rw [hseen, foldl_collect, List.reverse_reverse]
  · rintro ⟨n, hstops, hseen⟩
    refine ⟨{ e with seen := e.seen.reverse }, observeRun_eq_some_iff.mpr ⟨n, hstops, ?_⟩, ?_⟩
    · rw [foldl_collect, ← hseen]
    · simp only [List.reverse_reverse]

/-- What an observer makes of a run is what it makes of its trace. -/
theorem observeRun_eq (table : Table) (opts : RunOptions) (tape : Tape)
    (observe : α → StepEvent → α) (seen : α) :
    observeRun table opts tape observe seen =
      (traceRun table opts tape).map fun e => { e with seen := e.seen.foldl observe seen } := by
  refine Option.ext fun e => ?_
  rw [observeRun_eq_some_iff, Option.map_eq_some_iff]
  constructor
  · rintro ⟨n, hstops, hseen⟩
    refine ⟨{ e with seen := Snapshot.trace table n { state := table.initial, tape } },
      traceRun_eq_some_iff.mpr ⟨n, hstops, rfl⟩, ?_⟩
    simp only [← hseen]
  · rintro ⟨e', htrace, rfl⟩
    obtain ⟨n, hstops, hseen⟩ := traceRun_eq_some_iff.mp htrace
    exact ⟨n, hstops, by rw [hseen]⟩

end Observers

/-! ## Engines -/

namespace Engine

variable {α : Type} (e : Engine) (interrupt : Option Interrupt) (table : Table)

/-- The outcome of a run is read off its trace, and a run without a trace has none. -/
lemma observe_eq (input : String) (see : α → StepEvent → α) (seen : α) :
    e.observe interrupt table input see seen =
      (traceRun table (e.options interrupt) (.ofInput input)).map fun end_ =>
        { result := end_.result (e.options interrupt) input
          cause := end_.cause? (e.options interrupt)
          seen := end_.seen.foldl see seen } := by
  simp only [observe, observeRun_eq, Option.map_map]
  rfl

/-- The result of a run and its cause are read off its trace. -/
lemma run_eq (input : String) :
    e.run interrupt table input =
      (traceRun table (e.options interrupt) (.ofInput input)).map fun end_ =>
        (end_.result (e.options interrupt) input, end_.cause? (e.options interrupt)) := by
  simp only [run, observe_eq, Option.map_map]
  rfl

/-- The result of a run and its cause do not depend on who observes it. -/
lemma observe_outcome (input : String) (see : α → StepEvent → α) (seen : α) :
    (e.observe interrupt table input see seen).map (fun o => (o.result, o.cause)) =
      e.run interrupt table input := by
  simp only [run_eq, observe_eq, Option.map_map]
  rfl

/-- Running several inputs is running the first and then the others. -/
lemma runAll_cons (input : String) (inputs : List String) :
    e.runAll interrupt table (input :: inputs) =
      (e.run interrupt table input).bind fun o =>
        (e.runAll interrupt table inputs).map fun os => (o.1 :: os.1, o.2.or os.2) := by
  rw [runAll, List.mapM_cons]
  cases e.run interrupt table input with
  | none => rfl
  | some o =>
    cases hruns : inputs.mapM (e.run interrupt table) with
    | none => simp [runAll, hruns]
    | some os => cases h : o.2 <;> simp [runAll, hruns, h]

/-- The outcomes of runs that are counted are the outcomes of the runs. -/
theorem measure_eq {μ : Type} [Registry μ] (m : μ) (inputs : List String) :
    (e.measure interrupt table m inputs).map (fun o => (o.1, o.2.1)) =
      e.runAll interrupt table inputs := by
  induction inputs generalizing m with
  | nil => rfl
  | cons input inputs ih =>
    rw [runAll_cons, ← e.observe_outcome interrupt table input
      (fun m ev => Metrics.hooks.receive m (.step ev)) m]
    simp only [measure, runHooked]
    cases e.observe interrupt table input _ m with
    | none => rfl
    | some o =>
      rw [← ih (Metrics.hooks.receive o.seen (.halt o.result))]
      cases h : e.measure interrupt table (Metrics.hooks.receive o.seen (.halt o.result)) inputs <;>
        simp [h]

end Engine

/-! ## Hooks -/

namespace Hooks

variable {σ ε : Type}

/-- Of two things that are chained, the first is done first. -/
lemma call_chain (a b : Option (σ → ε → σ)) (s : σ) (e : ε) :
    call (chain a b) s e = call b (call a s e) e := by
  cases a with
  | none => rfl
  | some a => cases b <;> rfl

/-- Of merged hooks, the first are told first. -/
lemma receive_merge (h other : Hooks σ) (s : σ) (event : RunEvent) :
    (h.merge other).receive s event = other.receive (h.receive s event) event := by
  cases event with
  | step e => exact call_chain h.onStep other.onStep s e
  | halt r => exact call_chain h.onHalt other.onHalt s r

/-- Of any number of hooks, all are told, in the order in which they were registered. -/
theorem receive_mergeAll (hs : List (Hooks σ)) (s : σ) (event : RunEvent) :
    (mergeAll hs).receive s event = hs.foldl (fun s h => h.receive s event) s := by
  have hmerged : ∀ h : Hooks σ, (hs.foldl merge h).receive s event =
      hs.foldl (fun s h => h.receive s event) (h.receive s event) := by
    induction hs with
    | nil => exact fun h => rfl
    | cons other hs ih =>
      intro h
      rw [List.foldl_cons, ih, receive_merge, List.foldl_cons]
  have hempty : ({} : Hooks σ).receive s event = s := by
    cases event <;> rfl
  rw [mergeAll, hmerged, hempty]

end Hooks

/-- What hooks are told of a run: its steps, and then its end. -/
def runEvents (es : List StepEvent) (r : Result) : List RunEvent :=
  es.map .step ++ [.halt r]

/-- Hooks are told of the steps of a run that ends and then of its end. -/
theorem Engine.runHooked_eq {σ : Type} (e : Engine) (interrupt : Option Interrupt) (table : Table)
    (input : String) (hooks : Hooks σ) (s : σ) :
    e.runHooked interrupt table input hooks s =
      (traceRun table (e.options interrupt) (.ofInput input)).map fun end_ =>
        { result := end_.result (e.options interrupt) input
          cause := end_.cause? (e.options interrupt)
          seen := (runEvents end_.seen (end_.result (e.options interrupt) input)).foldl
            hooks.receive s } := by
  simp only [runHooked, observe_eq, Option.map_map, runEvents, List.foldl_append, List.foldl_map,
    List.foldl_cons, List.foldl_nil]
  rfl

end TapeMachine
