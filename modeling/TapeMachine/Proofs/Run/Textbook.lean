import Mathlib.Data.Int.Notation
import Mathlib.Logic.Function.Basic
import Mathlib.Tactic.Common
import TapeMachine.Machine
import TapeMachine.Proofs.Run.Ending
import TapeMachine.Proofs.Table.Reachable
import TapeMachine.Proofs.Tape.Contents

/-!
# The textbook machine

The machine of the textbooks has a state, a head on the integers and a tape that is a total function
from the integers to symbols. It is given by a list of transitions: `Uses` says which of them it
uses in a configuration, `Configuration.after` what that does, and `Steps` iterates the two.
`Stops` says where it stops, why, and under which label.

`Machine.run` keeps a sparse tape and decides in one loop what to do next. The simulation relation
is `Represents`: same state, same head, and the same symbol at every position. One lemma compares
the two machines at a single point (`verdict_spec`), one after a single step (`Represents.perform`),
and induction along a finished run gives `firstStop_of_ends`; that a run does end follows from the
first stop of the textbook machine (`exists_ends`). Together these are
`run_implements_textbook_machine`.
-/

namespace TapeMachine

namespace Textbook

/-! ## The reference machine -/

/-- A state, the position of the head, and the symbol at every position. -/
structure Configuration where
  state : String
  head : ℤ
  tape : ℤ → String

/-- How far a direction takes the head. -/
def offset (spelling : String) : ℤ :=
  if spelling = "left" ∨ spelling = "l" then -1
  else if spelling = "right" ∨ spelling = "r" then 1
  else 0

/-- The input at the positions from 0 on, one character a position, and blanks everywhere else. -/
def inputTape (input : String) (p : ℤ) : String :=
  if 0 ≤ p then ((input.toList[p.toNat]?).map String.singleton).getD blank else blank

/-- The configuration in which a run on an input starts. -/
def start (initial input : String) : Configuration :=
  ⟨initial, 0, inputTape input⟩

/-- The transition used in a configuration: the one of the state for the symbol that is read, or,
if there is none, the wildcard transition of the state. -/
def Uses (rs : List Transition) (c : Configuration) (r : Transition) : Prop :=
  r ∈ rs ∧ r.state = c.state ∧
    (r.read = c.tape c.head ∨
      r.read = wildcard ∧ ∀ q ∈ rs, q.state = c.state → q.read ≠ c.tape c.head)

/-- The configuration after a transition: the symbol is written unless it is the wildcard, then the
head moves and the state changes. -/
def Configuration.after (c : Configuration) (r : Transition) : Configuration where
  state := r.next
  head := c.head + offset r.move
  tape := if r.write = wildcard then c.tape else Function.update c.tape c.head r.write

/-- The configurations that exactly `n` steps lead to. -/
inductive Steps (rs : List Transition) (c₀ : Configuration) : ℕ → Configuration → Prop
  | zero : Steps rs c₀ 0 c₀
  | succ {n : ℕ} {c : Configuration} {r : Transition} (h : Steps rs c₀ n c) (hr : Uses rs c r) :
      Steps rs c₀ (n + 1) (c.after r)

/-- The last of `n` steps has led into a halting state. Starting in one does not count. -/
def Entered (n : ℕ) (c : Configuration) : Prop :=
  1 ≤ n ∧ isHalting c.state = true

/-- Why and with which label the machine stops after `n` steps, with a limit if it is positive. -/
inductive Stops (rs : List Transition) (limit n : ℕ) (c : Configuration) : Reason → String → Prop
  | haltState (h : Entered n c) : Stops rs limit n c .haltState c.state
  | noState (h : ¬ Entered n c) (hs : ∀ r ∈ rs, r.state ≠ c.state) :
      Stops rs limit n c .noState (noStateLabel c.state)
  | noTransition (h : ¬ Entered n c) (hs : ∃ r ∈ rs, r.state = c.state) (hu : ∀ r, ¬ Uses rs c r) :
      Stops rs limit n c .noTransition (noTransitionLabel c.state (c.tape c.head))
  | stepLimit (h : ¬ Entered n c) (hl : 0 < limit) (hn : n = limit) (hu : ∃ r, Uses rs c r) :
      Stops rs limit n c .stepLimit (stepLimitLabel limit)

/-- The machine stops after `n` steps and at no earlier point. -/
structure FirstStop (rs : List Transition) (limit : ℕ) (c₀ : Configuration) (n : ℕ)
    (c : Configuration) (reason : Reason) (label : String) : Prop where
  steps : Steps rs c₀ n c
  stops : Stops rs limit n c reason label
  first : ∀ k < n, ∀ c', Steps rs c₀ k c' → ∀ reason' label', ¬ Stops rs limit k c' reason' label'

/-! ## The reference machine is deterministic -/

section Determinism

variable {t : Table} {c : Configuration}

/-- No configuration of a well-formed table uses two transitions. -/
lemma Uses.unique (ht : t.WellFormed) {r q : Transition} (hr : Uses t.transitions c r)
    (hq : Uses t.transitions c q) : r = q := by
  obtain ⟨hr, hrs, hr'⟩ := hr
  obtain ⟨hq, hqs, hq'⟩ := hq
  have hread : r.read = q.read := by
    rcases hr' with hr' | ⟨hr', hrn⟩
    · rcases hq' with hq' | ⟨-, hqn⟩
      · rw [hr', hq']
      · exact absurd hr' (hqn r hr hrs)
    · rcases hq' with hq' | ⟨hq', -⟩
      · exact absurd hq' (hrn q hq hqs)
      · rw [hr', hq']
  exact ht.eq_of_key_eq hr hq (Prod.ext (hrs.trans hqs.symm) hread)

/-- As many steps from the same configuration lead to the same configuration. -/
lemma Steps.unique (ht : t.WellFormed) {c₀ c c' : Configuration} {n : ℕ}
    (h : Steps t.transitions c₀ n c) (h' : Steps t.transitions c₀ n c') : c = c' := by
  induction h generalizing c' with
  | zero =>
    cases h'
    rfl
  | succ _ hr ih =>
    cases h' with
    | succ h' hr' =>
      cases ih h'
      rw [hr.unique ht hr']

end Determinism

/-! ## One step of the two machines -/

/-- A snapshot of a run stands for a configuration: same state, same head, and the same symbol at
every position. -/
structure Represents (s : Snapshot) (c : Configuration) : Prop where
  state : s.state = c.state
  head : s.tape.head = c.head
  tape : ∀ p, s.tape.symbolAt p = c.tape p

/-- The symbol under the head is the same. -/
lemma Represents.read {s : Snapshot} {c : Configuration} (h : Represents s c) :
    s.tape.read = c.tape c.head := by
  rw [Tape.read, h.tape, h.head]

/-- The direction of a transition moves the head by the offset of its spelling. -/
lemma shift_direction (r : Transition) (p : ℤ) : r.direction.shift p = p + offset r.move := by
  unfold Transition.direction Direction.parse? offset
  by_cases hl : r.move = "left" ∨ r.move = "l"
  · simp only [Bool.or_eq_true, beq_iff_eq, hl, if_true, Option.getD_some, Direction.shift]
    omega
  · by_cases hr : r.move = "right" ∨ r.move = "r"
    · simp only [Bool.or_eq_true, beq_iff_eq, hl, hr, if_true, if_false, Option.getD_some,
        Direction.shift]
    · simp only [Bool.or_eq_true, beq_iff_eq, hl, hr, if_false]
      -- Whether the spelling means staying or means nothing, the head stays.
      split <;> simp [Direction.shift]

/-- Performing a transition keeps snapshot and configuration together. -/
theorem Represents.perform {s : Snapshot} {c : Configuration} (h : Represents s c)
    (r : Transition) : Represents (s.perform r) (c.after r) := by
  refine ⟨rfl, ?_, ?_⟩
  · change r.direction.shift (s.tape.write r.write).head = c.head + offset r.move
    rw [shift_direction, Tape.head_write, h.head]
  · intro p
    change (s.tape.write r.write).symbolAt p = (c.after r).tape p
    rw [Tape.symbolAt_write, Configuration.after, h.head, h.tape]
    by_cases hw : r.write = wildcard
    · simp [hw]
    · simp [hw, Function.update_apply]

/-- A run and the reference machine start together. -/
lemma represents_start (initial input : String) :
    Represents { state := initial, tape := .ofInput input } (start initial input) :=
  ⟨rfl, Tape.head_ofInput input, Tape.symbolAt_ofInput input⟩

section Verdict

variable {t : Table} {opts : RunOptions} {s : Snapshot} {c : Configuration}

/-- What the verdict of an uninterrupted run says about the configuration. -/
theorem verdict_spec (ht : t.WellFormed) (hi : opts.interrupt = none) (h : Represents s c) :
    ((∀ r ∈ t.transitions, r.state ≠ c.state) ∧
      verdict t opts s = .stop .noState (noStateLabel c.state)) ∨
    ((∃ r ∈ t.transitions, r.state = c.state) ∧ (∀ r, ¬ Uses t.transitions c r) ∧
      verdict t opts s = .stop .noTransition (noTransitionLabel c.state (c.tape c.head))) ∨
    ∃ r, Uses t.transitions c r ∧
      verdict t opts s =
        if 0 < opts.limit ∧ opts.limit ≤ s.steps then .stop .stepLimit (stepLimitLabel opts.limit)
        else .follow r := by
  have huses : ∀ r, t.lookup c.state (c.tape c.head) = some r ↔ Uses t.transitions c r :=
    fun r => ht.lookup_eq_some_iff
  have hdue : Interrupt.due? opts.interrupt s.steps = none := by
    rw [hi]
    rfl
  unfold verdict
  rw [hdue, h.state, h.read]
  cases hg : t.groups.lookup c.state with
  | none =>
    refine Or.inl ⟨?_, rfl⟩
    intro r hr hs
    exact lookup_eq_none_iff.mp hg (ht.mem_states_iff.mpr ⟨r, hr, hs⟩)
  | some rules =>
    have hlookup : t.lookup c.state (c.tape c.head) = Table.select rules (c.tape c.head) := by
      rw [Table.lookup, Table.rules, hg]
      rfl
    have hstate : ∃ r ∈ t.transitions, r.state = c.state :=
      ht.mem_states_iff.mp (List.mem_map_of_mem (mem_of_lookup_eq_some hg))
    refine Or.inr ?_
    dsimp only
    cases hsel : Table.select rules (c.tape c.head) with
    | none =>
      refine Or.inl ⟨hstate, ?_, rfl⟩
      intro r hr
      rw [(huses r).mpr hr, hsel] at hlookup
      cases hlookup
    | some r => exact Or.inr ⟨r, (huses r).mp (hlookup.trans hsel), rfl⟩

end Verdict

/-! ## Along a run -/

/-- What holds at every point of a run: the reference machine has performed as many steps, is in the
configuration that the snapshot stands for, and has not stopped before. -/
structure Reached (rs : List Transition) (limit : ℕ) (c₀ : Configuration) (s : Snapshot)
    (c : Configuration) : Prop where
  steps : Steps rs c₀ s.steps c
  represents : Represents s c
  going : ¬ Entered s.steps c
  within : 0 < limit → s.steps ≤ limit
  before : ∀ k < s.steps, ∀ c', Steps rs c₀ k c' →
    ∀ reason label, ¬ Stops rs limit k c' reason label

section Run

variable {α : Type} {t : Table} {opts : RunOptions} {observe : α → StepEvent → α}
  {c₀ c : Configuration} {s : Snapshot}

/-- The beginning of a run is reached. -/
lemma reached_start (rs : List Transition) (limit : ℕ) (initial input : String) :
    Reached rs limit (start initial input) { state := initial, tape := .ofInput input }
      (start initial input) where
  steps := .zero
  represents := represents_start initial input
  going h := absurd h.1 (Nat.not_succ_le_zero 0)
  within _ := Nat.zero_le _
  before k hk := absurd hk (Nat.not_lt_zero k)

/-- Where a run is told to stop, the reference machine stops for the first time. -/
lemma Reached.firstStop_of_stop (ht : t.WellFormed) (hi : opts.interrupt = none)
    (h : Reached t.transitions opts.limit c₀ s c) {reason : Reason} {label : String}
    (hv : verdict t opts s = .stop reason label) :
    FirstStop t.transitions opts.limit c₀ s.steps c reason label := by
  refine ⟨h.steps, ?_, h.before⟩
  rcases verdict_spec ht hi h.represents with ⟨hs, hv'⟩ | ⟨hs, hu, hv'⟩ | ⟨r, hr, hv'⟩
  · cases hv.symm.trans hv'
    exact .noState h.going hs
  · cases hv.symm.trans hv'
    exact .noTransition h.going hs hu
  · by_cases hl : 0 < opts.limit ∧ opts.limit ≤ s.steps
    · rw [if_pos hl] at hv'
      cases hv.symm.trans hv'
      exact .stepLimit h.going hl.1 (Nat.le_antisymm (h.within hl.1) hl.2) ⟨r, hr⟩
    · rw [if_neg hl] at hv'
      cases hv.symm.trans hv'

/-- A run is told to follow a transition only if the reference machine uses it and does not stop. -/
lemma Reached.of_follow (ht : t.WellFormed) (hi : opts.interrupt = none)
    (h : Reached t.transitions opts.limit c₀ s c) {r : Transition}
    (hv : verdict t opts s = .follow r) :
    Uses t.transitions c r ∧ (0 < opts.limit → s.steps < opts.limit) ∧
      ∀ reason label, ¬ Stops t.transitions opts.limit s.steps c reason label := by
  rcases verdict_spec ht hi h.represents with ⟨-, hv'⟩ | ⟨-, -, hv'⟩ | ⟨q, hq, hv'⟩
  · cases hv.symm.trans hv'
  · cases hv.symm.trans hv'
  · by_cases hl : 0 < opts.limit ∧ opts.limit ≤ s.steps
    · rw [if_pos hl] at hv'
      cases hv.symm.trans hv'
    · rw [if_neg hl] at hv'
      cases hv.symm.trans hv'
      have hlt : 0 < opts.limit → s.steps < opts.limit :=
        fun hpos => Nat.lt_of_not_le fun hle => hl ⟨hpos, hle⟩
      refine ⟨hq, hlt, ?_⟩
      intro reason label hstops
      cases hstops with
      | haltState he => exact h.going he
      | noState _ hs => exact hs r hq.1 hq.2.1
      | noTransition _ _ hu => exact hu r hq
      | stepLimit _ hpos hn _ => exact absurd hn (Nat.ne_of_lt (hlt hpos))

/-- After a step the reference machine has not stopped before. -/
lemma Reached.before_succ (ht : t.WellFormed) (hi : opts.interrupt = none)
    (h : Reached t.transitions opts.limit c₀ s c) {r : Transition}
    (hv : verdict t opts s = .follow r) :
    ∀ k < s.steps + 1, ∀ c', Steps t.transitions c₀ k c' →
      ∀ reason label, ¬ Stops t.transitions opts.limit k c' reason label := by
  intro k hk c' hc' reason label
  rcases Nat.lt_succ_iff_lt_or_eq.mp hk with hk | rfl
  · exact h.before k hk c' hc' reason label
  · rw [hc'.unique ht h.steps]
    exact (h.of_follow ht hi hv).2.2 reason label

/-- A step into a halting state is the first point at which the reference machine stops. -/
lemma Reached.firstStop_of_halt (ht : t.WellFormed) (hi : opts.interrupt = none)
    (h : Reached t.transitions opts.limit c₀ s c) {r : Transition}
    (hv : verdict t opts s = .follow r) (hh : isHalting r.next = true) :
    FirstStop t.transitions opts.limit c₀ (s.steps + 1) (c.after r) .haltState r.next where
  steps := h.steps.succ (h.of_follow ht hi hv).1
  stops := .haltState ⟨Nat.succ_pos _, hh⟩
  first := h.before_succ ht hi hv

/-- A step into any other state is a further point of the run. -/
theorem Reached.perform (ht : t.WellFormed) (hi : opts.interrupt = none)
    (h : Reached t.transitions opts.limit c₀ s c) {r : Transition}
    (hv : verdict t opts s = .follow r) (hh : isHalting r.next = false) :
    Reached t.transitions opts.limit c₀ (s.perform r) (c.after r) where
  steps := h.steps.succ (h.of_follow ht hi hv).1
  represents := h.represents.perform r
  going he := absurd he.2 (Bool.eq_false_iff.mp hh)
  within hpos := (h.of_follow ht hi hv).2.1 hpos
  before := h.before_succ ht hi hv

/-- A run ends where the reference machine stops for the first time, and leaves the same tape. -/
theorem firstStop_of_ends (ht : t.WellFormed) (hi : opts.interrupt = none) {seen : α} {e : Ending α}
    (he : Ends t opts observe s seen e) (h : Reached t.transitions opts.limit c₀ s c) :
    ∃ c', FirstStop t.transitions opts.limit c₀ e.last.steps c' e.reason e.label ∧
      Represents e.last c' := by
  induction he generalizing c with
  | stop hv => exact ⟨c, h.firstStop_of_stop ht hi hv, h.represents⟩
  | halt hv hh => exact ⟨_, h.firstStop_of_halt ht hi hv hh, h.represents.perform _⟩
  | step hv hh _ ih => exact ih (h.perform ht hi hv hh)

/-- A run ends if the reference machine stops within so many more steps, or if the limit is that
near. -/
theorem exists_ends (ht : t.WellFormed) (hi : opts.interrupt = none) (k : ℕ) {seen : α}
    (h : Reached t.transitions opts.limit c₀ s c)
    (hk : (0 < opts.limit ∧ opts.limit ≤ s.steps + k) ∨
      ∃ n ≤ s.steps + k, ∃ c' reason label,
        Steps t.transitions c₀ n c' ∧ Stops t.transitions opts.limit n c' reason label) :
    ∃ e, Ends t opts observe s seen e := by
  induction k generalizing s c seen with
  | zero =>
    cases hv : verdict t opts s with
    | stop reason label => exact ⟨_, .stop hv⟩
    | follow r =>
      -- The reference machine goes on here, so neither the limit nor its stop can be this near.
      rcases hk with ⟨hpos, hle⟩ | ⟨n, hn, c', reason, label, hsteps, hstops⟩
      · exact absurd hle (Nat.not_le_of_lt ((h.of_follow ht hi hv).2.1 hpos))
      · exact absurd hstops
          (h.before_succ ht hi hv n (Nat.lt_succ_of_le hn) c' hsteps reason label)
  | succ k ih =>
    cases hv : verdict t opts s with
    | stop reason label => exact ⟨_, .stop hv⟩
    | follow r =>
      cases hh : isHalting r.next with
      | true => exact ⟨_, .halt hv hh⟩
      | false =>
        have hsucc : s.steps + (k + 1) = (s.perform r).steps + k := by
          change s.steps + (k + 1) = s.steps + 1 + k
          omega
        rw [hsucc] at hk
        obtain ⟨e, he⟩ := ih (h.perform ht hi hv hh) hk
        exact ⟨e, .step hv hh he⟩

end Run

/-! ## Machines -/

/-- A machine on a fresh tape implements the textbook machine. It finishes its run if it has a step
limit or if the textbook machine stops. A finished run was not cut short; it has performed as many
steps as the textbook machine up to the first point at which that one stops, it stopped for the same
reason and under the same label, and it leaves the head and every cell as the textbook machine
does. From left to right, the text of its tape is that of the textbook machine's cells at increasing
positions, and skips blank cells only. -/
theorem run_implements_textbook_machine {t : Table} (ht : t.Reachable) (input runId : String)
    (limit : ℕ) (sorted : Bool) :
    let m : Machine := { input, table := t, tape := .ofInput input, runId, limit, sorted }
    (m.run.isSome = true ↔
      0 < limit ∨ ∃ n c reason label, Steps t.transitions (start t.initial input) n c ∧
        Stops t.transitions limit n c reason label) ∧
    ∀ m' f, m.run = some (m', f) →
      f.cause = none ∧ ∃ c,
        FirstStop t.transitions limit (start t.initial input) f.result.steps c f.result.reason
          f.result.state ∧
        m'.tape.head = c.head ∧ (∀ p, m'.tape.symbolAt p = c.tape p) ∧
        ∃ ps : List ℤ, ps.Pairwise (· < ·) ∧ (∀ p, c.tape p ≠ blank → p ∈ ps) ∧
          m'.tape.render true = String.join (ps.map c.tape) := by
  intro m
  have hwf : t.freeze.WellFormed := ht.wellFormed.of_groups_eq rfl
  have hstart : Reached t.freeze.transitions (m.options none).limit (start t.initial input)
      m.snapshot (start t.initial input) := reached_start _ limit t.initial input
  have hfinished : ∀ m' f, m.run = some (m', f) →
      f.cause = none ∧ ∃ c,
        FirstStop t.transitions limit (start t.initial input) f.result.steps c f.result.reason
          f.result.state ∧
        m'.tape.head = c.head ∧ (∀ p, m'.tape.symbolAt p = c.tape p) ∧
        ∃ ps : List ℤ, ps.Pairwise (· < ·) ∧ (∀ p, c.tape p ≠ blank → p ∈ ps) ∧
          m'.tape.render true = String.join (ps.map c.tape) := by
    intro m' f hf
    obtain ⟨e, he, heq⟩ := Machine.run_eq_some_iff.mp hf
    cases heq
    obtain ⟨c, hstop, hrep⟩ := firstStop_of_ends hwf rfl he hstart
    have htape : e.last.tape.symbolAt = c.tape := funext hrep.tape
    refine ⟨?_, c, hstop, hrep.head, hrep.tape, ?_⟩
    · change (if e.reason = .interrupted then none else none) = none
      exact ite_self _
    · rw [← htape]
      exact e.last.tape.render_leftToRight
  refine ⟨⟨?_, ?_⟩, hfinished⟩
  · intro hsome
    obtain ⟨⟨m', f⟩, hf⟩ := Option.isSome_iff_exists.mp hsome
    obtain ⟨-, c, hstop, -⟩ := hfinished m' f hf
    exact Or.inr ⟨_, c, _, _, hstop.steps, hstop.stops⟩
  · intro h
    have hnear : ∃ k, (0 < limit ∧ limit ≤ m.snapshot.steps + k) ∨
        ∃ n ≤ m.snapshot.steps + k, ∃ c' reason label,
          Steps t.transitions (start t.initial input) n c' ∧
            Stops t.transitions limit n c' reason label := by
      rcases h with hpos | ⟨n, c, reason, label, hsteps, hstops⟩
      · exact ⟨limit, Or.inl ⟨hpos, Nat.le_add_left _ _⟩⟩
      · exact ⟨n, Or.inr ⟨n, Nat.le_add_left _ _, c, reason, label, hsteps, hstops⟩⟩
    obtain ⟨k, hk⟩ := hnear
    obtain ⟨e, he⟩ : ∃ e, Ends t.freeze (m.options none) (fun es e => e :: es) m.snapshot [] e :=
      exists_ends hwf rfl k hstart hk
    rw [Machine.run_eq_some_iff.mpr ⟨e, he, rfl⟩]
    rfl

/-- A table that replaces the symbols of its input by `x`, up to the first blank. -/
def crossOut : Table :=
  Table.empty.perform
    (.addAll [⟨"scan", "*", "x", "r", "scan"⟩, ⟨"scan", "_", "*", "stay", "halt"⟩])

/-- A run with a step limit finishes, and does what the textbook machine does. -/
theorem run_implements_textbook_machine_crossOut :
    crossOut.Reachable ∧ ∃ m' f c,
      Machine.run { input := "a1", table := crossOut, tape := .ofInput "a1", limit := 9 } =
        some (m', f) ∧
      FirstStop crossOut.transitions 9 (start "scan" "a1") f.result.steps c f.result.reason
        f.result.state ∧
      m'.tape.head = c.head ∧ ∀ p, m'.tape.symbolAt p = c.tape p := by
  have hreachable : crossOut.Reachable := .step .empty _
  obtain ⟨hsome, hall⟩ := run_implements_textbook_machine hreachable "a1" "" 9 false
  obtain ⟨⟨m', f⟩, hrun⟩ := Option.isSome_iff_exists.mp (hsome.mpr (Or.inl (by decide)))
  obtain ⟨-, c, hstop, hhead, htape, -⟩ := hall m' f hrun
  have hinitial : crossOut.initial = "scan" := by decide
  rw [hinitial] at hstop
  exact ⟨hreachable, m', f, c, hrun, hstop, hhead, htape⟩

end Textbook

end TapeMachine
