import Mathlib.Order.Bounds.Defs
import TapeMachine.Proofs.Run.Points

/-!
# Runs that are cut short

A step limit and an interruption cut a run short. Both leave the points of the run as they are and
add points at which it stops, so a run that is cut short is an exact prefix of the run that is not.

A limit is looked at last, after everything that the machine does by itself: it shows only at a
point at which there is a further transition, and otherwise it does not show at all
(`step_limit_is_exact`). An interruption is looked at only every 1024 steps, after a halting state
and before everything else, so it shows at the first such point that the run reaches after it
(`interruption_is_exact`).
-/

namespace TapeMachine

/-! ## Limits -/

section Limit

variable {table : Table} {opts : RunOptions} {s q : Snapshot} {n limit : ℕ} {reason : Reason}
  {label : String}

/-- A limit adds points at which a run stops. -/
lemma Snapshot.stop?_limit (table : Table) (opts : RunOptions) (limit : ℕ) (s : Snapshot) :
    s.stop? table { opts with limit } =
      (s.stop? table { opts with limit := 0 }).or
        (if 0 < limit ∧ limit ≤ s.steps then some (.stepLimit, stepLimitLabel limit)
          else none) := by
  rw [Snapshot.stop?_eq, Snapshot.stop?_eq table { opts with limit := 0 }]
  by_cases hs : s.Halted
  · rw [if_pos hs, if_pos hs, Option.some_or]
  · rw [if_neg hs, if_neg hs]
    cases Interrupt.due? opts.interrupt s.steps with
    | some cause => rfl
    | none => simp

/-- Without a limit, no run stops at the limit. -/
lemma Snapshot.reason_ne_stepLimit
    (h : s.stop? table { opts with limit := 0 } = some (reason, label)) : reason ≠ .stepLimit := by
  rw [Snapshot.stop?_eq] at h
  by_cases hs : s.Halted
  · rw [if_pos hs] at h
    cases h
    simp
  · rw [if_neg hs] at h
    cases hdue : Interrupt.due? opts.interrupt s.steps with
    | some cause =>
      simp only [hdue] at h
      cases h
      simp
    | none =>
      simp only [hdue, Nat.lt_irrefl, false_and, if_false, Option.or_none] at h
      rcases Snapshot.reason_of_stop?_alone h with ⟨-, rfl⟩ | ⟨-, rfl | rfl⟩ <;> simp

/-- A run that stops for another reason than its limit stops there without the limit, too. -/
lemma StopsAt.unlimited (h : StopsAt table { opts with limit } s n q reason label)
    (hreason : reason ≠ .stepLimit) :
    StopsAt table { opts with limit := 0 } s n q reason label := by
  refine ⟨h.point, ?_, ?_⟩
  · have hstop := h.stop
    rw [Snapshot.stop?_limit] at hstop
    rcases Option.or_eq_some_iff.mp hstop with hfree | ⟨-, hlimit⟩
    · exact hfree
    · split at hlimit
      · cases hlimit
        exact absurd rfl hreason
      · cases hlimit
  · intro k hk p hp
    have hgoing := h.going k hk p hp
    rw [Snapshot.stop?_limit, Option.or_eq_none_iff] at hgoing
    exact hgoing.1

/-- A run that stops without a limit stops there under every limit that it does not exceed. -/
lemma StopsAt.limited (h : StopsAt table { opts with limit := 0 } s n q reason label)
    (hn : limit = 0 ∨ s.steps + n ≤ limit) :
    StopsAt table { opts with limit } s n q reason label := by
  refine ⟨h.point, ?_, ?_⟩
  · rw [Snapshot.stop?_limit, h.stop, Option.some_or]
  · intro k hk p hp
    have hsteps : p.steps = s.steps + k := Snapshot.steps_of_after? hp
    have hunder : ¬ (0 < limit ∧ limit ≤ p.steps) := by omega
    rw [Snapshot.stop?_limit, h.going k hk p hp, if_neg hunder, Option.none_or]

/-- A run that stops at its limit has used it up, and the machine has a further transition. -/
lemma StopsAt.of_stepLimit (h : StopsAt table { opts with limit } s n q .stepLimit label) :
    limit ≤ s.steps + n ∧ q.stop? table { opts with limit := 0 } = none := by
  have hsteps : q.steps = s.steps + n := Snapshot.steps_of_after? h.point
  have hstop := h.stop
  rw [Snapshot.stop?_limit] at hstop
  rcases Option.or_eq_some_iff.mp hstop with hfree | ⟨hfree, hlimit⟩
  · exact absurd rfl (Snapshot.reason_ne_stepLimit hfree)
  · split at hlimit
    · rename_i hused
      exact ⟨hsteps ▸ hused.2, hfree⟩
    · cases hlimit

/-- A machine that stops at its limit could perform a further transition. -/
lemma StopsAt.isSome_after?_succ (h : StopsAt table { opts with limit } s n q .stepLimit label) :
    (s.after? table (n + 1)).isSome = true := by
  obtain ⟨-, r, -, hr⟩ := Snapshot.exists_follow_of_stop?_eq_none h.of_stepLimit.2
  rw [Snapshot.after?_succ, h.point, Option.bind_some, hr]
  rfl

/-- A machine cannot go on from where it stops by itself. -/
lemma Snapshot.after?_eq_none_of_stop? (hq : s.after? table n = some q)
    (hstop : q.stop? table {} = some (reason, label)) {k : ℕ} (hk : n < k) :
    s.after? table k = none := by
  have hstuck : q.transition? table = none := by
    cases hr : q.transition? table with
    | none => rfl
    | some r =>
      rw [Snapshot.stop?_alone_of_some hr] at hstop
      cases hstop
  exact Snapshot.after?_eq_none_of_lt hq hstuck hk

/-- Without the limit, a run that stops at its limit does not stop by then. -/
lemma StopsAt.lt_of_stepLimit (h : StopsAt table { opts with limit } s n q .stepLimit label)
    {n₀ : ℕ} {q₀ : Snapshot} {reason₀ : Reason} {label₀ : String}
    (h₀ : StopsAt table { opts with limit := 0 } s n₀ q₀ reason₀ label₀) : n < n₀ := by
  by_contra hle
  have hnone : q₀.stop? table { opts with limit := 0 } = none := by
    rcases Nat.lt_or_eq_of_le (Nat.le_of_not_lt hle) with hlt | rfl
    · have hgoing := h.going n₀ hlt q₀ h₀.point
      rw [Snapshot.stop?_limit, Option.or_eq_none_iff] at hgoing
      exact hgoing.1
    · cases h.point.symm.trans h₀.point
      exact h.of_stepLimit.2
  rw [h₀.stop] at hnone
  cases hnone

/-- A run with a limit stops before it exceeds the limit. -/
lemma exists_stopsAt_of_limit (opts : RunOptions) (hl : 0 < limit) (hs : s.steps = 0) :
    ∃ k ≤ limit, ∃ q reason label, StopsAt table { opts with limit } s k q reason label := by
  refine exists_stopsAt fun q hq hnone => ?_
  have hsteps : q.steps = s.steps + limit := Snapshot.steps_of_after? hq
  have hused : 0 < limit ∧ limit ≤ q.steps := by omega
  rw [Snapshot.stop?_limit, if_pos hused, Option.or_eq_none_iff] at hnone
  cases hnone.2

end Limit

/-- A machine with another limit. -/
def Machine.withLimit (m : Machine) (limit : ℕ) : Machine :=
  { m with limit }

/-- The end of a machine's run, with all its steps. -/
def Machine.ending (m : Machine) (n : ℕ) (q : Snapshot) (reason : Reason) (label : String) :
    Ending (List StepEvent) :=
  ⟨q, reason, label, (m.snapshot.trace m.table n).reverse⟩

/-- A machine with another limit goes through the same points, and its limit does not show in what
it reports. -/
lemma Machine.run_withLimit_eq_some_iff {m : Machine} {limit : ℕ} {interrupt : Option Interrupt}
    {x : Machine × Finished} :
    (m.withLimit limit).run interrupt = some x ↔
      ∃ n q reason label,
        StopsAt m.table { m.options interrupt with limit } m.snapshot n q reason label ∧
        ((m.finish interrupt (m.ending n q reason label)).1.withLimit limit,
          (m.finish interrupt (m.ending n q reason label)).2) = x :=
  Machine.run_eq_some_iff_stopsAt

/-- A run reports as many steps as the machine has performed transitions. -/
lemma Machine.steps_of_point {m : Machine} {n : ℕ} {q : Snapshot}
    (h : m.snapshot.after? m.table n = some q) : q.steps = n := by
  rw [Snapshot.steps_of_after? h]
  exact Nat.zero_add n

/-- A machine with a limit finishes its run within the limit. It stops at the limit exactly when
without one it would perform more transitions: when it would go on for ever, or stop only after more
of them. It then has performed as many transitions as the limit says, and its tape and head are
those after so many transitions. Otherwise the limit does not show: the run ends in the same way
under every larger limit and without one. In particular a machine that stops by itself after just as
many transitions reports its own reason. -/
theorem step_limit_is_exact (m : Machine) (interrupt : Option Interrupt) {limit : ℕ}
    (hl : 0 < limit) :
    ∃ m' f, (m.withLimit limit).run interrupt = some (m', f) ∧ f.result.steps ≤ limit ∧
      (f.result.reason = .stepLimit ↔
        ∀ m₀ f₀, (m.withLimit 0).run interrupt = some (m₀, f₀) → limit < f₀.result.steps) ∧
      (interrupt = none →
        (f.result.reason = .stepLimit ↔ (m.snapshot.after? m.table (limit + 1)).isSome = true)) ∧
      (f.result.reason = .stepLimit →
        f.result.steps = limit ∧ ∃ q, m.snapshot.after? m.table limit = some q ∧
          m'.tape = q.tape ∧ f.result.tape = q.tape.render m.sorted) ∧
      (f.result.reason ≠ .stepLimit →
        ∀ n, n = 0 ∨ limit ≤ n → (m.withLimit n).run interrupt = some (m'.withLimit n, f)) ∧
      ∀ m₀ f₀, (m.withLimit 0).run interrupt = some (m₀, f₀) → f₀.result.steps ≤ limit →
        f = f₀ ∧ f.result.reason ≠ .stepLimit := by
  obtain ⟨k, hk, q, reason, label, hstops⟩ :
      ∃ k ≤ limit, ∃ q reason label,
        StopsAt m.table { m.options interrupt with limit } m.snapshot k q reason label :=
    exists_stopsAt_of_limit (m.options interrupt) hl rfl
  have hsteps : q.steps = k := Machine.steps_of_point hstops.point
  -- The two cases: at the limit, no run without it stops by then; otherwise it stops alike.
  have hexceeds : reason = .stepLimit →
      ∀ m₀ f₀, (m.withLimit 0).run interrupt = some (m₀, f₀) → k < f₀.result.steps := by
    rintro rfl m₀ f₀ hfree
    obtain ⟨n, q₀, reason₀, label₀, hstops₀, heq⟩ := Machine.run_withLimit_eq_some_iff.mp hfree
    cases heq
    change k < q₀.steps
    rw [Machine.steps_of_point hstops₀.point]
    exact hstops.lt_of_stepLimit hstops₀
  have hunlimited : reason ≠ .stepLimit → ∀ n, n = 0 ∨ limit ≤ n →
      (m.withLimit n).run interrupt =
        some ((m.finish interrupt (m.ending k q reason label)).1.withLimit n,
          (m.finish interrupt (m.ending k q reason label)).2) := by
    intro hreason n hn
    have hwithin : n = 0 ∨ m.snapshot.steps + k ≤ n := by
      change n = 0 ∨ 0 + k ≤ n
      omega
    exact Machine.run_withLimit_eq_some_iff.mpr
      ⟨k, q, reason, label, (hstops.unlimited hreason).limited hwithin, rfl⟩
  have hfull : reason = .stepLimit → k = limit := by
    rintro rfl
    have hused : limit ≤ 0 + k := hstops.of_stepLimit.1
    omega
  refine ⟨_, _, Machine.run_withLimit_eq_some_iff.mpr ⟨k, q, reason, label, hstops, rfl⟩,
    le_of_eq_of_le hsteps hk, ⟨?_, ?_⟩, ?_, ?_, hunlimited, ?_⟩
  · intro hreason m₀ f₀ hfree
    exact hfull hreason ▸ hexceeds hreason m₀ f₀ hfree
  · intro hall
    by_contra hreason
    have hlt : limit < q.steps := hall _ _ (hunlimited hreason 0 (Or.inl rfl))
    omega
  · rintro rfl
    constructor
    · intro hreason
      cases hfull hreason
      cases hreason
      exact hstops.isSome_after?_succ
    · intro hsome
      by_contra hreason
      have hstop : q.stop? m.table {} = some (reason, label) := (hstops.unlimited hreason).stop
      rw [Snapshot.after?_eq_none_of_stop? hstops.point hstop (Nat.lt_succ_of_le hk)] at hsome
      cases hsome
  · intro hreason
    cases hfull hreason
    exact ⟨hsteps, q, hstops.point, rfl, rfl⟩
  · intro m₀ f₀ hfree hle
    have hreason : reason ≠ .stepLimit := by
      intro hreason
      have hlt := hexceeds hreason m₀ f₀ hfree
      rw [hfull hreason] at hlt
      omega
    rw [hunlimited hreason 0 (Or.inl rfl)] at hfree
    cases hfree
    exact ⟨rfl, hreason⟩

/-- Looking for the end of a word of two letters takes three transitions: a limit of two cuts the
run short, and a limit of three does not. -/
theorem step_limit_is_exact_wordEnd :
    let m : Machine := .ofInput "ab" wordEnd
    0 < 2 ∧ 0 < 3 ∧
      (∃ m' f, (m.withLimit 2).run = some (m', f) ∧ f.result.reason = .stepLimit ∧
        f.result.steps = 2) ∧
      ∃ m' f, (m.withLimit 3).run = some (m', f) ∧ f.result.reason ≠ .stepLimit ∧
        (m.withLimit 0).run = some (m'.withLimit 0, f) := by
  intro m
  refine ⟨by decide, by decide, ?_, ?_⟩
  · obtain ⟨m', f, hrun, -, -, hmore, hlimit, -⟩ := step_limit_is_exact m none (by decide : 0 < 2)
    have hreason : f.result.reason = .stepLimit := (hmore rfl).mpr (by decide +kernel)
    exact ⟨m', f, hrun, hreason, (hlimit hreason).1⟩
  · obtain ⟨m', f, hrun, -, -, hmore, -, hsame, -⟩ := step_limit_is_exact m none (by decide : 0 < 3)
    have hreason : f.result.reason ≠ .stepLimit :=
      fun h => absurd ((hmore rfl).mp h) (by decide +kernel)
    exact ⟨m', f, hrun, hreason, hsame hreason 0 (Or.inl rfl)⟩

/-! ## Interruptions -/

/-- An interruption is due at the points at which it is looked for, from its own moment on. -/
lemma Interrupt.due?_eq (i : Interrupt) (n : ℕ) :
    Interrupt.due? (some i) n = if 1024 ∣ n ∧ i.after ≤ n then some i.cause else none := by
  have hdvd : n % checkInterval = 0 ↔ 1024 ∣ n := Nat.dvd_iff_mod_eq_zero.symm
  rw [Interrupt.due?]
  exact if_congr (and_congr_left' hdvd) rfl rfl

section Interruption

variable {table : Table} {opts : RunOptions} {s q : Snapshot} {n M : ℕ} {reason : Reason}
  {label : String} {i : Interrupt}

/-- An interruption comes after a halting state and before everything else. -/
lemma Snapshot.stop?_interrupt (table : Table) (opts : RunOptions) (i : Interrupt) (s : Snapshot) :
    s.stop? table { opts with interrupt := some i } =
      if ¬ s.Halted ∧ 1024 ∣ s.steps ∧ i.after ≤ s.steps then
        some (.interrupted, interruptedLabel i.cause.message)
      else s.stop? table { opts with interrupt := none } := by
  rw [Snapshot.stop?_eq, Snapshot.stop?_eq table { opts with interrupt := none }]
  by_cases hs : s.Halted
  · simp [hs]
  · rw [if_neg hs, if_neg hs]
    dsimp only
    rw [Interrupt.due?_eq]
    by_cases hdue : 1024 ∣ s.steps ∧ i.after ≤ s.steps
    · simp [hs, hdue]
    · have hskip : ¬ (¬ s.Halted ∧ 1024 ∣ s.steps ∧ i.after ≤ s.steps) := fun h => hdue h.2
      rw [if_neg hdue, if_neg hskip]
      rfl

/-- A run reports a halting state only if it has entered one. -/
lemma Snapshot.halted_of_stop? (h : s.stop? table opts = some (.haltState, label)) : s.Halted := by
  by_contra hs
  rw [Snapshot.stop?_eq, if_neg hs] at h
  cases hdue : Interrupt.due? opts.interrupt s.steps with
  | some cause =>
    rw [hdue] at h
    cases h
  | none =>
    rw [hdue] at h
    rcases Option.or_eq_some_iff.mp h with halone | ⟨-, hlimit⟩
    · rcases Snapshot.reason_of_stop?_alone halone with ⟨hs', -⟩ | ⟨-, hreason | hreason⟩
      · exact hs hs'
      · cases hreason
      · cases hreason
    · split at hlimit <;> cases hlimit

/-- A run that nobody interrupts reports no interruption. -/
lemma Snapshot.reason_ne_interrupted (opts : RunOptions)
    (h : s.stop? table { opts with interrupt := none } = some (reason, label)) :
    reason ≠ .interrupted := by
  rw [Snapshot.stop?_eq] at h
  by_cases hs : s.Halted
  · rw [if_pos hs] at h
    cases h
    simp
  · rw [if_neg hs] at h
    rcases Option.or_eq_some_iff.mp h with halone | ⟨-, hlimit⟩
    · rcases Snapshot.reason_of_stop?_alone halone with ⟨-, rfl⟩ | ⟨-, rfl | rfl⟩ <;> simp
    · split at hlimit <;> cases hlimit
      simp

/-- Before the first point at which it is due, an interruption does not show. -/
lemma Snapshot.stop?_interrupt_of_lt (hM : IsLeast {n | 1024 ∣ n ∧ i.after ≤ n} M)
    (h : s.steps < M) :
    s.stop? table { opts with interrupt := some i } =
      s.stop? table { opts with interrupt := none } := by
  rw [Snapshot.stop?_interrupt, if_neg]
  rintro ⟨-, hdue⟩
  exact absurd (hM.2 hdue) (Nat.not_le_of_lt h)

/-- A run that is over before the interruption shows is not interrupted. -/
lemma StopsAt.interrupted (opts : RunOptions)
    (h : StopsAt table { opts with interrupt := none } s n q reason label)
    (hs : s.steps = 0) (hM : IsLeast {n | 1024 ∣ n ∧ i.after ≤ n} M)
    (hover : reason = .haltState ∧ n ≤ M ∨ reason ≠ .haltState ∧ n < M) :
    StopsAt table { opts with interrupt := some i } s n q reason label := by
  refine ⟨h.point, ?_, ?_⟩
  · rcases hover with ⟨rfl, -⟩ | ⟨-, hn⟩
    · have hhalted : q.Halted := Snapshot.halted_of_stop? h.stop
      rw [Snapshot.stop?_interrupt, if_neg fun hdue => hdue.1 hhalted, h.stop]
    · have hsteps : q.steps = s.steps + n := Snapshot.steps_of_after? h.point
      rw [Snapshot.stop?_interrupt_of_lt hM (by omega), h.stop]
  · intro k hk p hp
    have hsteps : p.steps = s.steps + k := Snapshot.steps_of_after? hp
    rw [Snapshot.stop?_interrupt_of_lt hM (by omega), h.going k hk p hp]

/-- Any other run is interrupted at the first point at which the interruption is due. -/
lemma exists_stopsAt_interruption (opts : RunOptions) (hs : s.steps = 0)
    (hM : IsLeast {n | 1024 ∣ n ∧ i.after ≤ n} M)
    (hlate : ∀ n q reason label, StopsAt table { opts with interrupt := none } s n q reason label →
      ¬ (reason = .haltState ∧ n ≤ M ∨ reason ≠ .haltState ∧ n < M)) :
    ∃ q, StopsAt table { opts with interrupt := some i } s M q .interrupted
      (interruptedLabel i.cause.message) := by
  -- The uninterrupted run stops neither before the point nor, in a halting state, at it.
  have hgoing : ∀ k < M, ∀ p, s.after? table k = some p →
      p.stop? table { opts with interrupt := none } = none := by
    intro k hk p hp
    by_contra hstop
    have hover : ∀ q, s.after? table k = some q →
        q.stop? table { opts with interrupt := none } ≠ none := by
      intro q hq
      cases hp.symm.trans hq
      exact hstop
    obtain ⟨n, hn, q, reason, label, hstops⟩ := exists_stopsAt hover
    refine hlate n q reason label hstops ?_
    by_cases hreason : reason = .haltState
    · exact Or.inl ⟨hreason, by omega⟩
    · exact Or.inr ⟨hreason, by omega⟩
  obtain ⟨q, hq⟩ : ∃ q, s.after? table M = some q := by
    cases hq : s.after? table M with
    | some q => exact ⟨q, rfl⟩
    | none =>
      obtain ⟨k, hk, p, hp, hstuck⟩ := Snapshot.exists_of_after?_eq_none hq
      exact absurd (hgoing k hk p hp) (Snapshot.stop?_ne_none hstuck)
  have hsteps : q.steps = M := by
    rw [Snapshot.steps_of_after? hq, hs, Nat.zero_add]
  have hnot : ¬ q.Halted := by
    intro hhalted
    exact hlate M q _ _ ⟨hq, Snapshot.stop?_of_halted hhalted, hgoing⟩ (Or.inl ⟨rfl, Nat.le_refl M⟩)
  refine ⟨q, hq, ?_, ?_⟩
  · rw [Snapshot.stop?_interrupt, hsteps, if_pos ⟨hnot, hM.1⟩]
  · intro k hk p hp
    have hpsteps : p.steps = k := by
      rw [Snapshot.steps_of_after? hp, hs, Nat.zero_add]
    rw [Snapshot.stop?_interrupt_of_lt hM (hpsteps.symm ▸ hk), hgoing k hk p hp]

end Interruption

/-- The run is over when an interruption is looked for after `n` steps: it has stopped before, or it
has just entered a halting state. -/
def Machine.Finished.OverBy (f : Machine.Finished) (n : ℕ) : Prop :=
  f.result.reason = .haltState ∧ f.result.steps ≤ n ∨
    f.result.reason ≠ .haltState ∧ f.result.steps < n

/-- An interruption shows in the report of a run only if the run was interrupted. -/
lemma Machine.finish_of_ne_interrupted (m : Machine) (interrupt : Option Interrupt)
    {e : Ending (List StepEvent)} (h : e.reason ≠ .interrupted) :
    m.finish interrupt e = m.finish none e := by
  have hcause : e.cause? (m.options interrupt) = e.cause? (m.options none) := by
    rw [Ending.cause?, Ending.cause?, if_neg h, if_neg h]
  unfold Machine.finish
  rw [hcause]
  rfl

/-- The log of a run has one record for each step. -/
lemma Log.countP_step_runRecords (runId : String) (es : List StepEvent) (r : Result) :
    (Log.runRecords runId es r).countP (fun x => x.message == "step") = es.length := by
  have hsteps : ∀ x ∈ es.map (Log.stepRecord runId), (x.message == "step") = true := by
    intro x hx
    obtain ⟨e, -, rfl⟩ := List.mem_map.mp hx
    rfl
  rw [Log.runRecords, List.countP_append, List.countP_eq_length.mpr hsteps, List.length_map]
  rfl

/-- The log of a run has one record of its end. -/
lemma Log.countP_halt_runRecords (runId : String) (es : List StepEvent) (r : Result) :
    (Log.runRecords runId es r).countP (fun x => x.message == "halt") = 1 := by
  have hsteps : ∀ x ∈ es.map (Log.stepRecord runId), ¬ (x.message == "halt") = true := by
    intro x hx
    obtain ⟨e, -, rfl⟩ := List.mem_map.mp hx
    change ¬ ("step" == "halt") = true
    decide
  rw [Log.runRecords, List.countP_append, List.countP_eq_zero.mpr hsteps]
  rfl

/-- A machine is interrupted once so many steps have been performed, and `M` is the first number of
steps from then on at which this is looked at. If the machine is over by then, the interruption does
not show in any way. Otherwise the run is cut short after `M` transitions and reports the cause: the
tape and the head are those after `M` transitions, there was one event for each of them, and one for
the end. -/
theorem interruption_is_exact (m : Machine) (i : Interrupt) {M : ℕ}
    (hM : IsLeast {n | 1024 ∣ n ∧ i.after ≤ n} M) :
    (∀ m' f, m.run none = some (m', f) → f.OverBy M →
      m.run (some i) = some (m', f) ∧ f.cause = none) ∧
    ((∀ m' f, m.run none = some (m', f) → ¬ f.OverBy M) →
      ∃ m' f q, m.run (some i) = some (m', f) ∧ f.cause = some i.cause ∧
        f.result.reason = .interrupted ∧ f.result.state = interruptedLabel i.cause.message ∧
        f.result.steps = M ∧ m.snapshot.after? m.table M = some q ∧ m'.tape = q.tape ∧
        f.result.tape = q.tape.render m.sorted ∧
        f.records = Log.runRecords m.runId (m.snapshot.trace m.table M) f.result ∧
        f.records.countP (fun x => x.message == "step") = M ∧
        f.records.countP (fun x => x.message == "halt") = 1) := by
  constructor
  · intro m' f hrun hover
    obtain ⟨n, q, reason, label, hstops, heq⟩ := Machine.run_eq_some_iff_stopsAt.mp hrun
    cases heq
    have hsteps : q.steps = n := Machine.steps_of_point hstops.point
    have hover : reason = .haltState ∧ n ≤ M ∨ reason ≠ .haltState ∧ n < M := hsteps ▸ hover
    have hstops' : StopsAt m.table (m.options (some i)) m.snapshot n q reason label :=
      StopsAt.interrupted (m.options none) hstops rfl hM hover
    have hreason : reason ≠ .interrupted :=
      Snapshot.reason_ne_interrupted (m.options none) hstops.stop
    refine ⟨Machine.run_eq_some_iff_stopsAt.mpr ⟨n, q, reason, label, hstops', ?_⟩, ite_self none⟩
    exact m.finish_of_ne_interrupted (some i) hreason
  · intro hlate
    obtain ⟨q, hq⟩ := exists_stopsAt_interruption (m.options none) (s := m.snapshot) rfl hM
      fun n q reason label hstops hover => by
        have hrun := Machine.run_eq_some_iff_stopsAt.mpr ⟨n, q, reason, label, hstops, rfl⟩
        have hsteps : q.steps = n := Machine.steps_of_point hstops.point
        exact hlate _ _ hrun (hsteps.symm ▸ hover)
    have hrun := Machine.run_eq_some_iff_stopsAt.mpr ⟨M, q, _, _, hq, rfl⟩
    refine ⟨_, _, q, hrun, rfl, rfl, rfl, Machine.steps_of_point hq.point, hq.point, rfl, rfl, ?_⟩
    have hrecords : (m.snapshot.trace m.table M).reverse.reverse = m.snapshot.trace m.table M :=
      List.reverse_reverse _
    have hlength : (m.snapshot.trace m.table M).length = M := Snapshot.length_trace hq.point
    dsimp only [Machine.finish]
    rw [hrecords, Log.countP_step_runRecords, Log.countP_halt_runRecords]
    exact ⟨rfl, hlength, rfl⟩

/-- A table that goes to the right for ever. -/
def wanderer : Table :=
  Table.empty.perform (.addAll [⟨"go", "*", "*", "r", "go"⟩])

/-- Its machine performs a transition wherever it is. -/
lemma transition?_wanderer {s : Snapshot} (h : s.state = "go") :
    s.transition? wanderer = some ⟨"go", "*", "*", "r", "go"⟩ := by
  have hs : ¬ s.Halted := by
    rintro ⟨-, hhalting⟩
    rw [h] at hhalting
    exact absurd hhalting (by decide)
  have hrules : wanderer.rules "go" = [⟨"go", "*", "*", "r", "go"⟩] := by decide
  rw [Snapshot.transition?, if_neg hs, h, Table.lookup, hrules, Table.select]
  by_cases hread : "*" = s.tape.read
  · simp [hread]
  · simp [hread, wildcard]

/-- And so it gets to every point. -/
lemma exists_after?_wanderer (n : ℕ) {s : Snapshot} (h : s.state = "go") :
    ∃ q, s.after? wanderer n = some q ∧ q.state = "go" := by
  induction n generalizing s with
  | zero => exact ⟨s, rfl, h⟩
  | succ n ih =>
    rw [Snapshot.after?_succ_of_some (transition?_wanderer h)]
    exact ih rfl

/-- A machine that never stops, and that is interrupted in its first step, stops after 1024 steps.
-/
theorem interruption_is_exact_wanderer :
    let m : Machine := .ofInput "ab" wanderer
    IsLeast {n | 1024 ∣ n ∧ 1 ≤ n} 1024 ∧ m.run none = none ∧
      ∃ m' f, m.run (some ⟨1, .cancelled⟩) = some (m', f) ∧ f.cause = some .cancelled ∧
        f.result.reason = .interrupted ∧ f.result.steps = 1024 := by
  intro m
  have hleast : IsLeast {n | 1024 ∣ n ∧ 1 ≤ n} 1024 :=
    ⟨⟨Nat.dvd_refl 1024, by decide⟩, fun n hn => Nat.le_of_dvd hn.2 hn.1⟩
  have hforever : m.run none = none := by
    rw [Option.eq_none_iff_forall_ne_some]
    intro x hrun
    obtain ⟨n, q, reason, label, hstops, -⟩ := Machine.run_eq_some_iff_stopsAt.mp hrun
    obtain ⟨q', hq', hstate⟩ := exists_after?_wanderer n (s := m.snapshot) rfl
    cases hq'.symm.trans hstops.point
    have hgoing : q.stop? wanderer {} = none :=
      Snapshot.stop?_alone_of_some (transition?_wanderer hstate)
    cases hgoing.symm.trans hstops.stop
  obtain ⟨m', f, q, hrun, hcause, hreason, -, hsteps, -⟩ :=
    (interruption_is_exact m ⟨1, .cancelled⟩ hleast).2 fun m' f hrun => by
      rw [hforever] at hrun
      cases hrun
  exact ⟨hleast, hforever, m', f, hrun, hcause, hreason, hsteps⟩

end TapeMachine
