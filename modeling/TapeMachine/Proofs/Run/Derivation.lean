import TapeMachine.Proofs.Run.CutShort
import TapeMachine.Proofs.Run.Observers
import TapeMachine.Proofs.Tape.Contents

/-!
# Steps that derive the result

The steps that an observer sees are enough to check the result of a run without running the machine:
`Derives` lists what to check. Steps are numbered, start in the start state, follow one another, use
the transition that the table has for what they read, and read what the steps before them have
written; writing all of them again gives the tape of the result, and the last one says whether the
machine has halted.

Every fact of `Derives` is a fact about one step or about two that follow each other, and so it
comes from what a step of the trace is: the event of the transition that the machine performs at a
point of the run (`Snapshot.exists_of_getElem?_trace`). The main statement, `steps_derive_result`,
adds that all hooks are told of these steps and of this result.
-/

namespace TapeMachine

/-! ## Writing again -/

/-- The tape on which the writes of some steps are made again, each where its step has made it. -/
def replay (tape : Tape) (es : List StepEvent) : Tape :=
  es.foldl (fun tape e => ({ tape with head := e.head } : Tape).write e.transition.write) tape

/-- What makes the steps of a run a derivation of its result. -/
structure Derives (t : Table) (input : String) (sorted : Bool) (es : List StepEvent)
    (r : Result) : Prop where
  length_eq : es.length = r.steps
  numbered : ∀ i e, es[i]? = some e → e.step = i + 1
  starts : ∀ e, es[0]? = some e → e.transition.state = t.initial ∧ e.head = 0
  follows : ∀ e ∈ es, t.lookup e.transition.state e.symbol = some e.transition
  linked : ∀ i a b, es[i]? = some a → es[i + 1]? = some b →
    b.transition.state = a.transition.next ∧ b.head = a.transition.direction.shift a.head
  reads : ∀ i e, es[i]? = some e →
    e.symbol = (replay (.ofInput input) (es.take i)).symbolAt e.head
  leaves : r.tape = (replay (.ofInput input) es).render sorted
  halts_last : ∀ i e, es[i]? = some e → isHalting e.transition.next = true → i + 1 = es.length
  halts_iff : (∃ e ∈ es.getLast?, isHalting e.transition.next = true) ↔ r.reason = .haltState

/-! ## The steps of a trace -/

namespace Snapshot

variable {table : Table} {s q : Snapshot} {n i : ℕ}

/-- The first events of a trace are the trace of fewer transitions. -/
lemma take_trace (table : Table) (s : Snapshot) (h : i ≤ n) :
    (s.trace table n).take i = s.trace table i := by
  induction n generalizing s i with
  | zero =>
    cases Nat.le_zero.mp h
    rfl
  | succ n ih =>
    cases i with
    | zero => rfl
    | succ i =>
      cases hr : s.transition? table with
      | none => rw [trace, trace, hr, List.take_nil]
      | some r =>
        rw [trace_succ_of_some hr, trace_succ_of_some hr, List.take_succ_cons,
          ih _ (Nat.le_of_succ_le_succ h)]

/-- An event of a trace is that of the transition which the machine performs at its point. -/
lemma exists_of_getElem?_trace {e : StepEvent} (h : (s.trace table n)[i]? = some e) :
    i < n ∧ ∃ p r, s.after? table i = some p ∧ p.transition? table = some r ∧ e = p.event r := by
  induction n generalizing s i with
  | zero => cases h
  | succ n ih =>
    cases hr : s.transition? table with
    | none =>
      rw [trace, hr] at h
      cases h
    | some r =>
      rw [trace_succ_of_some hr] at h
      cases i with
      | zero =>
        cases h
        exact ⟨Nat.succ_pos n, s, r, rfl, hr, rfl⟩
      | succ i =>
        obtain ⟨hi, p, r', hp, hr', he⟩ := ih h
        exact ⟨Nat.succ_lt_succ hi, p, r', (after?_succ_of_some hr i).trans hp, hr', he⟩

/-- The transition that a machine performs is the one that its table has for the state and the
symbol, and the machine has not halted before. -/
lemma of_transition?_eq_some (ht : table.WellFormed) {r : Transition}
    (h : s.transition? table = some r) :
    ¬ s.Halted ∧ table.lookup s.state s.tape.read = some r ∧ r.state = s.state := by
  unfold transition? at h
  split at h
  · cases h
  · rename_i hs
    exact ⟨hs, h, (ht.lookup_eq_some_iff.mp h).2.1⟩

/-- The point after an event is the one to which its transition leads. -/
lemma after?_succ_of_point {r : Transition} (hq : s.after? table i = some q)
    (hr : q.transition? table = some r) : s.after? table (i + 1) = some (q.perform r) := by
  rw [after?_succ, hq, Option.bind_some, hr, Option.map_some]

/-- Events are numbered from where the machine is. -/
lemma step_of_getElem?_trace {e : StepEvent} (h : (s.trace table n)[i]? = some e) :
    e.step = s.steps + i + 1 := by
  obtain ⟨-, p, r, hp, -, rfl⟩ := exists_of_getElem?_trace h
  rw [← steps_of_after? hp]
  rfl

/-- The first event starts where the machine is. -/
lemma start_of_getElem?_trace (ht : table.WellFormed) {e : StepEvent}
    (h : (s.trace table n)[0]? = some e) :
    e.transition.state = s.state ∧ e.head = s.tape.head := by
  obtain ⟨-, p, r, hp, hr, rfl⟩ := exists_of_getElem?_trace h
  cases hp
  exact ⟨(of_transition?_eq_some ht hr).2.2, rfl⟩

/-- Every event uses the transition that the table has for its state and its symbol. -/
lemma lookup_of_mem_trace (ht : table.WellFormed) {e : StepEvent} (h : e ∈ s.trace table n) :
    table.lookup e.transition.state e.symbol = some e.transition := by
  obtain ⟨i, hi⟩ := List.mem_iff_getElem?.mp h
  obtain ⟨-, p, r, -, hr, rfl⟩ := exists_of_getElem?_trace hi
  obtain ⟨-, hlookup, hstate⟩ := of_transition?_eq_some ht hr
  change table.lookup r.state p.tape.read = some r
  rw [hstate, hlookup]

/-- An event starts in the state and at the place to which the one before it leads, and that state
is not a halting one. -/
lemma linked_of_getElem?_trace (ht : table.WellFormed) {a b : StepEvent}
    (ha : (s.trace table n)[i]? = some a) (hb : (s.trace table n)[i + 1]? = some b) :
    b.transition.state = a.transition.next ∧ b.head = a.transition.direction.shift a.head ∧
      isHalting a.transition.next = false := by
  obtain ⟨-, p, r, hp, hr, rfl⟩ := exists_of_getElem?_trace ha
  obtain ⟨-, p', r', hp', hr', rfl⟩ := exists_of_getElem?_trace hb
  cases (after?_succ_of_point hp hr).symm.trans hp'
  obtain ⟨hgoing, -, hstate⟩ := of_transition?_eq_some ht hr'
  refine ⟨hstate, ?_, ?_⟩
  · change r.direction.shift (p.tape.write r.write).head = r.direction.shift p.tape.head
    rw [Tape.head_write]
  · rw [halted_perform_iff] at hgoing
    exact Bool.eq_false_iff.mpr hgoing

/-- Writing again what was written up to a point gives the tape at that point, wherever the head is.
-/
lemma replay_trace (h : s.after? table n = some q) {tape : Tape}
    (htape : ({ tape with head := s.tape.head } : Tape) = s.tape) :
    ({ replay tape (s.trace table n) with head := q.tape.head } : Tape) = q.tape := by
  induction n generalizing s tape with
  | zero =>
    cases h
    exact htape
  | succ n ih =>
    obtain ⟨r, hr, hq⟩ := Option.bind_eq_some_iff.mp h
    rw [trace_succ_of_some hr, replay, List.foldl_cons]
    refine ih hq ?_
    change ({ ({ tape with head := s.tape.head } : Tape).write r.write with
      head := (s.perform r).tape.head } : Tape) = (s.perform r).tape
    rw [htape]
    rfl

/-- An event reads what the events before it have left under its head. -/
lemma symbol_of_getElem?_trace {e : StepEvent} (h : (s.trace table n)[i]? = some e) :
    e.symbol = (replay s.tape ((s.trace table n).take i)).symbolAt e.head := by
  obtain ⟨hi, p, r, hp, -, rfl⟩ := exists_of_getElem?_trace h
  rw [take_trace table s (Nat.le_of_lt hi)]
  exact congrArg (fun tape => tape.symbolAt p.tape.head) (replay_trace hp rfl).symm

/-- The text of a tape does not depend on its head. -/
lemma render_replay_trace (h : s.after? table n = some q) (sorted : Bool) :
    q.tape.render sorted = (replay s.tape (s.trace table n)).render sorted :=
  congrArg (fun tape => tape.render sorted) (replay_trace h rfl).symm

/-- A machine has halted at a point if the last event before it led into a halting state. -/
lemma halted_iff_getLast?_trace (hs : s.steps = 0) (h : s.after? table n = some q) :
    q.Halted ↔ ∃ e ∈ (s.trace table n).getLast?, isHalting e.transition.next = true := by
  rw [List.getLast?_eq_getElem?, length_trace h]
  cases n with
  | zero =>
    cases h
    constructor
    · intro hhalted
      exact absurd hhalted.1 (by omega)
    · rintro ⟨e, he, -⟩
      cases he
  | succ n =>
    obtain ⟨e, he⟩ : ∃ e, (s.trace table (n + 1))[n]? = some e :=
      ⟨_, List.getElem?_eq_getElem (by rw [length_trace h]; exact Nat.lt_succ_self n)⟩
    obtain ⟨-, p, r, hp, hr, rfl⟩ := exists_of_getElem?_trace he
    cases (after?_succ_of_point hp hr).symm.trans h
    rw [halted_perform_iff, Nat.add_sub_cancel, he]
    simp [event]

end Snapshot

/-! ## The steps of a run -/

/-- A run stops because of a halting state exactly if it has entered one. -/
lemma StopsAt.halted_iff {t : Table} {opts : RunOptions} {s q : Snapshot} {n : ℕ} {reason : Reason}
    {label : String} (h : StopsAt t opts s n q reason label) :
    q.Halted ↔ reason = .haltState := by
  constructor
  · intro hq
    have hstop := h.stop
    rw [Snapshot.stop?_of_halted hq] at hstop
    cases hstop
    rfl
  · rintro rfl
    exact Snapshot.halted_of_stop? h.stop

/-- The steps of a run that ends derive its result. -/
theorem derives_of_traceRun {t : Table} (ht : t.WellFormed) {opts : RunOptions} {input : String}
    {end_ : Ending (List StepEvent)} (h : traceRun t opts (.ofInput input) = some end_) :
    Derives t input opts.sorted end_.seen (end_.result opts input) := by
  obtain ⟨n, hstops, hseen⟩ := traceRun_eq_some_iff.mp h
  have hsteps : end_.last.steps = n := by
    rw [Snapshot.steps_of_after? hstops.point]
    exact Nat.zero_add n
  have hlength : end_.seen.length = n := by
    rw [hseen, Snapshot.length_trace hstops.point]
  constructor
  · exact hlength.trans hsteps.symm
  · intro i e he
    rw [hseen] at he
    rw [Snapshot.step_of_getElem?_trace he]
    exact congrArg (· + 1) (Nat.zero_add i)
  · intro e he
    rw [hseen] at he
    obtain ⟨hstate, hhead⟩ := Snapshot.start_of_getElem?_trace ht he
    exact ⟨hstate, hhead.trans (Tape.head_ofInput input)⟩
  · intro e he
    rw [hseen] at he
    exact Snapshot.lookup_of_mem_trace ht he
  · intro i a b ha hb
    rw [hseen] at ha hb
    obtain ⟨hstate, hhead, -⟩ := Snapshot.linked_of_getElem?_trace ht ha hb
    exact ⟨hstate, hhead⟩
  · intro i e he
    rw [hseen] at he ⊢
    exact Snapshot.symbol_of_getElem?_trace he
  · rw [hseen]
    exact Snapshot.render_replay_trace hstops.point opts.sorted
  · intro i e he hhalting
    have hi : i < end_.seen.length := (List.getElem?_eq_some_iff.mp he).1
    by_contra hlast
    -- With a further event, this one cannot have led into a halting state.
    obtain ⟨b, hb⟩ : ∃ b, end_.seen[i + 1]? = some b :=
      ⟨_, List.getElem?_eq_getElem (show i + 1 < end_.seen.length by omega)⟩
    rw [hseen] at he hb
    obtain ⟨-, -, hgoing⟩ := Snapshot.linked_of_getElem?_trace ht he hb
    rw [hgoing] at hhalting
    cases hhalting
  · rw [hseen, ← Snapshot.halted_iff_getLast?_trace rfl hstops.point]
    exact hstops.halted_iff

/-- A run that ends, with whatever limit and interruption, tells all hooks the same: first its
steps, which derive its result, and then its result, once. Of hooks that are merged, each is told of
every event, and those that were registered first are told first. -/
theorem steps_derive_result {t : Table} (ht : t.Reachable) (e : Engine)
    (interrupt : Option Interrupt) (input : String)
    (hends : (traceRun t (e.options interrupt) (.ofInput input)).isSome = true) :
    ∃ es, ∃ r, e.run interrupt t input = some r ∧ r.1.input = input ∧
      Derives t input e.sorted es r.1 ∧
      ∀ (σ : Type) (hs : List (Hooks σ)) (s : σ),
        ∃ o, e.runHooked interrupt t input (Hooks.mergeAll hs) s = some o ∧
          (o.result, o.cause) = r ∧
          o.seen = (runEvents es r.1).foldl
            (fun s event => hs.foldl (fun s (h : Hooks σ) => h.receive s event) s) s := by
  obtain ⟨end_, htrace⟩ := Option.isSome_iff_exists.mp hends
  have hrun : e.run interrupt t input =
      some (end_.result (e.options interrupt) input, end_.cause? (e.options interrupt)) := by
    rw [e.run_eq, htrace, Option.map_some]
  refine ⟨end_.seen, _, hrun, rfl, derives_of_traceRun ht.wellFormed htrace, ?_⟩
  intro σ hs s
  have ho := e.runHooked_eq interrupt t input (Hooks.mergeAll hs) s
  have hreceive : (Hooks.mergeAll hs).receive =
      fun s event => hs.foldl (fun s h => h.receive s event) s :=
    funext fun s => funext fun event => Hooks.receive_mergeAll hs s event
  rw [hreceive, htrace, Option.map_some] at ho
  exact ⟨_, ho, rfl, rfl⟩

/-- Hooks that note every event under a number. -/
def Hooks.recorder (i : ℕ) : Hooks (List (ℕ × RunEvent)) where
  onStep := some fun log e => log ++ [(i, .step e)]
  onHalt := some fun log r => log ++ [(i, .halt r)]

/-- A machine that is cut short after two steps tells two recorders of both steps and of the end,
the first recorder always before the second. -/
theorem steps_derive_result_wordEnd :
    let engine : Engine := { limit := 2 }
    wordEnd.Reachable ∧
      ∃ es r o, engine.run none wordEnd "ab" = some r ∧ es.length = 2 ∧
        Derives wordEnd "ab" false es r.1 ∧
        engine.runHooked none wordEnd "ab" (Hooks.mergeAll [.recorder 1, .recorder 2]) [] =
          some o ∧
        o.seen = (runEvents es r.1).flatMap fun event => [(1, event), (2, event)] := by
  intro engine
  have hreachable : wordEnd.Reachable := .step .empty _
  obtain ⟨k, hk, q, reason, label, hstops⟩ : ∃ k ≤ 2, ∃ q reason label,
      StopsAt wordEnd (engine.options none) ⟨wordEnd.initial, .ofInput "ab", 0⟩ k q reason label :=
    exists_stopsAt_of_limit (engine.options none) (by decide) rfl
  -- It goes on after no step and after one.
  have hgoing : ∀ k < 2, (Snapshot.after? wordEnd k ⟨wordEnd.initial, .ofInput "ab", 0⟩).bind
      (Snapshot.stop? wordEnd (engine.options none)) = none := by
    decide +kernel
  have hk2 : k = 2 := by
    by_contra hne
    have hnone := hgoing k (by omega)
    rw [hstops.point, Option.bind_some, hstops.stop] at hnone
    cases hnone
  have htrace : traceRun wordEnd (engine.options none) (.ofInput "ab") =
      some ⟨q, reason, label, Snapshot.trace wordEnd k _⟩ :=
    traceRun_eq_some_iff.mpr ⟨k, hstops, rfl⟩
  obtain ⟨es, r, hrun, -, hderives, hhooks⟩ := steps_derive_result hreachable engine none "ab"
    (Option.isSome_iff_exists.mpr ⟨_, htrace⟩)
  obtain ⟨o, ho, -, hseen⟩ := hhooks _ [.recorder 1, .recorder 2] []
  refine ⟨hreachable, es, r, o, hrun, ?_, hderives, ho, ?_⟩
  · rw [engine.run_eq, htrace, Option.map_some, Option.some_inj] at hrun
    rw [hderives.length_eq, ← hrun]
    exact (Snapshot.steps_of_after? hstops.point).trans (by rw [hk2])
  · have hboth : ∀ log event,
        [Hooks.recorder 1, .recorder 2].foldl (fun s (h : Hooks _) => h.receive s event) log =
          log ++ [(1, event), (2, event)] := by
      intro log event
      cases event <;> simp [Hooks.recorder, Hooks.receive, Hooks.call]
    rw [hseen, List.flatMap_eq_foldl]
    simp only [hboth]

end TapeMachine
