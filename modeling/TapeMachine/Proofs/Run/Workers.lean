import Mathlib.Data.Finset.Card
import Mathlib.Data.Finset.Range
import Mathlib.Logic.Function.Basic
import Mathlib.Logic.Relation
import TapeMachine.Proofs.Run.Observers

/-!
# Many runs at once

Many inputs are run by a bounded number of workers. Runs are launched in the order of the inputs and
end in any order; meanwhile the results are handed out in the order of the inputs, each as soon as
it is there, until one is refused. `Batch.Step` is one step of this, so what can happen is any
interleaving of launching, running and handing out.

None of this shows: what is handed out, and the error in the end, are those of running one input
after the other (`Batch.Answers`), every interleaving comes to an end, and there is no way to get
stuck before it (`workers_answer_in_order`).
-/

namespace TapeMachine

open Engine (EachError)

/-! ## Workers -/

/-- Inputs to be run at once, and whoever takes the results. -/
structure Batch (ε : Type) where
  engine : Engine
  table : Table
  inputs : List String
  /-- What interrupts the run of each input. -/
  interrupt : ℕ → Option Interrupt
  /-- Takes the result of an input, or refuses it. -/
  yield : ℕ → Result → Option ε
  /-- The most runs at a time. -/
  workers : ℕ

/-- How far handing out results has come. -/
inductive Phase (ε : Type) where
  /-- The result of this input is next. -/
  | handing (next : ℕ)
  /-- All results were taken, or one was refused, and what still runs is waited for. -/
  | waiting (refusal : Option ε)
  | returned (error : Option (EachError ε))

/-- The state of all workers: how many runs were launched, what came of those that have ended, and
which results were handed out. -/
structure Pool (ε : Type) where
  launched : ℕ := 0
  slots : ℕ → Option (Result × Option StopCause) := fun _ => none
  calls : List (ℕ × Result) := []
  phase : Phase ε := .handing 0

namespace Pool

variable {ε : Type}

/-- The runs that were launched and have not ended. -/
def inFlight (s : Pool ε) : Finset ℕ := (Finset.range s.launched).filter (s.slots · = none)

/-- What is in flight has been launched and has not come back. -/
lemma mem_inFlight {s : Pool ε} {i : ℕ} : i ∈ s.inFlight ↔ i < s.launched ∧ s.slots i = none := by
  simp [inFlight]

/-- The end of a run. -/
def fill (s : Pool ε) (i : ℕ) (o : Result × Option StopCause) : Pool ε :=
  { s with slots := Function.update s.slots i (some o) }

/-- Whether a result was refused, so that what still runs is broken off. -/
def Cancelled (s : Pool ε) : Prop := ∃ e, s.phase = .waiting (some e)

/-- The error in the end: the refusal, or else the first interruption in the order of the inputs. -/
def error (s : Pool ε) (n : ℕ) : Option ε → Option (EachError ε)
  | some e => some (.refused e)
  | none => ((List.range n).findSome? fun i => (s.slots i).bind (·.2)).map .interrupted

end Pool

namespace Batch

variable {ε : Type} {b : Batch ε} {s s' : Pool ε} {n : ℕ}

/-- The run of an input comes to an end. -/
def Stops (b : Batch ε) (interrupt : Option Interrupt) (input : String) : Prop :=
  (b.engine.run interrupt b.table input).isSome = true

/-- One step of the workers, or of whoever hands out results. -/
inductive Step (b : Batch ε) (s : Pool ε) : Pool ε → Prop where
  | launch (h : s.launched < b.inputs.length) (free : s.inFlight.card < b.workers) :
      Step b s { s with launched := s.launched + 1 }
  | finish {i : ℕ} {input : String} {interrupt : Option Interrupt}
      {o : Result × Option StopCause} (flying : i ∈ s.inFlight) (h : b.inputs[i]? = some input)
      (cause : s.Cancelled ∨ interrupt = b.interrupt i)
      (ends : b.engine.run interrupt b.table input = some o) : Step b s (s.fill i o)
  | take {i : ℕ} {r : Result} {cause : Option StopCause} (h : s.phase = .handing i)
      (there : s.slots i = some (r, cause)) (taken : b.yield i r = none) :
      Step b s { s with calls := s.calls ++ [(i, r)], phase := .handing (i + 1) }
  | refuse {i : ℕ} {r : Result} {cause : Option StopCause} {e : ε} (h : s.phase = .handing i)
      (there : s.slots i = some (r, cause)) (refused : b.yield i r = some e) :
      Step b s { s with calls := s.calls ++ [(i, r)], phase := .waiting (some e) }
  | exhaust (h : s.phase = .handing b.inputs.length) :
      Step b s { s with phase := .waiting none }
  | ret {refusal : Option ε} (h : s.phase = .waiting refusal)
      (launched : s.launched = b.inputs.length) (ended : s.inFlight = ∅) :
      Step b s { s with phase := .returned (s.error b.inputs.length refusal) }

/-- What can come of a batch. -/
def Reaches (b : Batch ε) (s : Pool ε) : Prop := Relation.ReflTransGen b.Step {} s

/-! ## One input after the other -/

/-- What comes of each input when it is run alone, if its run comes to an end. -/
def outcomes (b : Batch ε) : List (Option (Result × Option StopCause)) :=
  b.inputs.mapIdx fun i input => b.engine.run (b.interrupt i) b.table input

/-- The result of each input when it is run alone. -/
def results (b : Batch ε) : List (Option Result) := b.outcomes.map (·.map (·.1))

/-- These are the first results, and they are all taken. -/
structure Takes (b : Batch ε) (rs : List Result) : Prop where
  results : b.results.take rs.length = rs.map some
  taken : ∀ i r, rs[i]? = some r → b.yield i r = none

/-- What is handed out, and the error in the end, if one input is run after the other. -/
inductive Answers (b : Batch ε) : List (ℕ × Result) → Option (EachError ε) → Prop where
  | refused {rs : List Result} {r : Result} {e : ε} (taken : b.Takes rs)
      (h : b.results[rs.length]? = some (some r)) (refused : b.yield rs.length r = some e) :
      Answers b ((rs ++ [r]).mapIdx Prod.mk) (some (.refused e))
  | served {rs : List Result} (taken : b.Takes rs) (all : rs.length = b.inputs.length) :
      Answers b (rs.mapIdx Prod.mk) ((b.outcomes.findSome? (·.bind (·.2))).map .interrupted)

/-- There is one outcome for each input. -/
@[simp] lemma length_outcomes (b : Batch ε) : b.outcomes.length = b.inputs.length := by
  simp [outcomes]

/-- There is one result for each input. -/
@[simp] lemma length_results (b : Batch ε) : b.results.length = b.inputs.length := by
  simp [results]

/-- No results are always the first results, and taken. -/
lemma takes_nil (b : Batch ε) : b.Takes [] :=
  ⟨by simp, by simp⟩

/-- One more result is taken. -/
lemma Takes.concat {rs : List Result} {r : Result} (h : b.Takes rs)
    (hr : b.results[rs.length]? = some (some r)) (htaken : b.yield rs.length r = none) :
    b.Takes (rs ++ [r]) := by
  constructor
  · rw [List.length_append, List.length_singleton, List.take_add_one, h.results, hr]
    simp
  · intro i r' hr'
    have hi : i < rs.length + 1 := by simpa using (List.getElem?_eq_some_iff.mp hr').1
    rcases Nat.lt_succ_iff_lt_or_eq.mp hi with hlt | rfl
    · exact h.taken i r' (by rwa [List.getElem?_append_left hlt] at hr')
    · obtain rfl : r = r' := by simpa using hr'
      exact htaken

/-- There are no more first results than inputs. -/
lemma Takes.length_le {rs : List Result} (h : b.Takes rs) : rs.length ≤ b.inputs.length := by
  have hlength := congrArg List.length h.results
  simp only [List.length_take, length_results, List.length_map] at hlength
  omega

/-- As many results as there are inputs are all results. -/
lemma Takes.results_eq {rs : List Result} (h : b.Takes rs) (hall : rs.length = b.inputs.length) :
    b.results = rs.map some := by
  rw [← h.results, List.take_of_length_le (by simp [hall])]

/-! ## What is true between the steps -/

/-- What is in the slots comes from running the inputs alone. -/
def Genuine (b : Batch ε) (s : Pool ε) : Prop :=
  ∀ i o, s.slots i = some o → b.outcomes[i]? = some (some o)

/-- So many results were all taken, and are what was handed out. -/
def Handed (b : Batch ε) (s : Pool ε) (n : ℕ) : Prop :=
  ∃ rs, b.Takes rs ∧ rs.length = n ∧ s.calls = rs.mapIdx Prod.mk

/-- What was handed out fits how far handing out has come. -/
def Fits (b : Batch ε) (s : Pool ε) : Phase ε → Prop
  | .handing n => b.Handed s n ∧ b.Genuine s
  | .waiting none => b.Handed s b.inputs.length ∧ b.Genuine s
  | .waiting (some e) => b.Answers s.calls (some (.refused e))
  | .returned error => b.Answers s.calls error

/-- What is true of the workers at any time. -/
structure Orderly (b : Batch ε) (s : Pool ε) : Prop where
  launched_le : s.launched ≤ b.inputs.length
  launched_of_slot : ∀ i o, s.slots i = some o → i < s.launched
  inFlight_le : s.inFlight.card ≤ b.workers
  fits : b.Fits s s.phase

/-- A pool that has not started is orderly. -/
lemma orderly_start (b : Batch ε) : b.Orderly {} where
  launched_le := Nat.zero_le _
  launched_of_slot i o h := by cases h
  inFlight_le := Nat.zero_le _
  fits := by
    exact ⟨⟨[], b.takes_nil, rfl, rfl⟩, fun i o h => by cases h⟩

/-- Launching a run adds it to those in flight. -/
lemma inFlight_launch (h : b.Orderly s) :
    ({ s with launched := s.launched + 1 } : Pool ε).inFlight =
      insert s.launched s.inFlight := by
  have hnone : s.slots s.launched = none := by
    cases hslot : s.slots s.launched with
    | none => rfl
    | some o => exact absurd (h.launched_of_slot _ _ hslot) (Nat.lt_irrefl _)
  simp [Pool.inFlight, Finset.range_add_one, Finset.filter_insert, hnone]

/-- The end of a run takes it out of those in flight. -/
lemma inFlight_fill (s : Pool ε) (i : ℕ) (o : Result × Option StopCause) :
    (s.fill i o).inFlight = s.inFlight.erase i := by
  ext j
  rw [Finset.mem_erase, Pool.mem_inFlight, Pool.mem_inFlight]
  by_cases hj : j = i
  · subst hj
    simp [Pool.fill]
  · simp [Pool.fill, hj]

/-- What a slot holds after the end of a run. -/
lemma slots_fill_eq_some {i j : ℕ} {o o' : Result × Option StopCause}
    (h : (s.fill i o).slots j = some o') : (j = i ∧ o' = o) ∨ s.slots j = some o' := by
  change Function.update s.slots i (some o) j = some o' at h
  by_cases hj : j = i
  · subst hj
    rw [Function.update_self] at h
    cases h
    exact .inl ⟨rfl, rfl⟩
  · rw [Function.update_of_ne hj] at h
    exact .inr h

/-- The end of a run that was not broken off keeps the slots genuine. -/
lemma Genuine.fill (h : b.Genuine s) {i : ℕ} {input : String} {o : Result × Option StopCause}
    (hinput : b.inputs[i]? = some input)
    (hends : b.engine.run (b.interrupt i) b.table input = some o) : b.Genuine (s.fill i o) := by
  intro j o hj
  rcases slots_fill_eq_some hj with ⟨rfl, rfl⟩ | hj
  · simp [outcomes, hinput, hends]
  · exact h j o hj

/-- A result in a genuine slot is that of its input. -/
lemma Genuine.getElem?_results (h : b.Genuine s) {i : ℕ} {r : Result} {cause : Option StopCause}
    (hslot : s.slots i = some (r, cause)) : b.results[i]? = some (some r) := by
  simp [results, h i _ hslot]

/-- Looking through all slots finds the first interruption. -/
lemma Genuine.error (h : b.Genuine s) (hlaunched : s.launched = b.inputs.length)
    (hended : s.inFlight = ∅) :
    s.error b.inputs.length none =
      (b.outcomes.findSome? (·.bind (·.2))).map .interrupted := by
  have hslots : (List.range b.inputs.length).map s.slots = b.outcomes := by
    refine List.ext_getElem (by simp) fun i hi hi' => ?_
    simp only [List.length_map, List.length_range] at hi
    simp only [List.getElem_map, List.getElem_range]
    cases hslot : s.slots i with
    | some o => exact (List.getElem_eq_iff hi').mpr (h i o hslot) |>.symm
    | none =>
      have hmem : i ∈ s.inFlight := Pool.mem_inFlight.mpr ⟨by omega, hslot⟩
      rw [hended] at hmem
      exact absurd hmem (Finset.notMem_empty i)
  rw [Pool.error, ← hslots, List.findSome?_map]
  rfl

/-- The end of a run changes nothing about what was handed out. -/
lemma Fits.fill (h : b.Fits s s.phase) {i : ℕ} {input : String} {interrupt : Option Interrupt}
    {o : Result × Option StopCause} (hinput : b.inputs[i]? = some input)
    (hcause : s.Cancelled ∨ interrupt = b.interrupt i)
    (hends : b.engine.run interrupt b.table input = some o) : b.Fits (s.fill i o) s.phase := by
  cases hphase : s.phase with
  | handing n =>
    rw [hphase] at h
    obtain rfl := hcause.resolve_left (by simp [Pool.Cancelled, hphase])
    exact ⟨h.1, h.2.fill hinput hends⟩
  | waiting refusal =>
    rw [hphase] at h
    cases refusal with
    | none =>
      obtain rfl := hcause.resolve_left (by simp [Pool.Cancelled, hphase])
      exact ⟨h.1, h.2.fill hinput hends⟩
    | some e => exact h
  | returned error =>
    rw [hphase] at h
    exact h

/-- Every step keeps the workers orderly. -/
theorem Orderly.step (h : b.Orderly s) (hstep : b.Step s s') : b.Orderly s' := by
  cases hstep with
  | launch hlt hfree =>
    refine ⟨hlt, fun i o hi => Nat.lt_succ_of_lt (h.launched_of_slot i o hi), ?_, h.fits⟩
    rw [inFlight_launch h]
    exact Nat.le_trans (Finset.card_insert_le _ _) hfree
  | @finish i input interrupt o hflying hinput hcause hends =>
    have hlaunched : i < s.launched := (Pool.mem_inFlight.mp hflying).1
    refine ⟨h.launched_le, fun j o hj => ?_, ?_, h.fits.fill hinput hcause hends⟩
    · rcases slots_fill_eq_some hj with ⟨rfl, -⟩ | hj
      · exact hlaunched
      · exact h.launched_of_slot j o hj
    · rw [inFlight_fill]
      exact Nat.le_trans Finset.card_erase_le h.inFlight_le
  | @take i r cause hphase hslot htaken =>
    have hfits := h.fits
    rw [hphase] at hfits
    obtain ⟨⟨rs, htakes, rfl, hcalls⟩, hgenuine⟩ := hfits
    have hr := hgenuine.getElem?_results hslot
    refine ⟨h.launched_le, h.launched_of_slot, h.inFlight_le,
      ⟨rs ++ [r], htakes.concat hr htaken, by simp, ?_⟩, hgenuine⟩
    rw [hcalls, List.mapIdx_concat]
  | @refuse i r cause e hphase hslot hrefused =>
    have hfits := h.fits
    rw [hphase] at hfits
    obtain ⟨⟨rs, htakes, rfl, hcalls⟩, hgenuine⟩ := hfits
    have hr := hgenuine.getElem?_results hslot
    refine ⟨h.launched_le, h.launched_of_slot, h.inFlight_le, ?_⟩
    change b.Answers (s.calls ++ [(rs.length, r)]) (some (.refused e))
    rw [hcalls, ← List.mapIdx_concat]
    exact .refused htakes hr hrefused
  | exhaust hphase =>
    have hfits := h.fits
    rw [hphase] at hfits
    exact ⟨h.launched_le, h.launched_of_slot, h.inFlight_le, hfits⟩
  | @ret refusal hphase hlaunched hended =>
    have hfits := h.fits
    rw [hphase] at hfits
    refine ⟨h.launched_le, h.launched_of_slot, h.inFlight_le, ?_⟩
    cases refusal with
    | some e => exact hfits
    | none =>
      obtain ⟨⟨rs, htakes, hlength, hcalls⟩, hgenuine⟩ := hfits
      change b.Answers s.calls (s.error b.inputs.length none)
      rw [hcalls, hgenuine.error hlaunched hended]
      exact .served htakes hlength

/-- Workers are orderly at any time. -/
theorem Orderly.of_reaches (h : b.Reaches s) : b.Orderly s := by
  induction h with
  | refl => exact b.orderly_start
  | tail _ hstep ih => exact ih.step hstep

/-! ## Every run comes to its end -/

/-- While there are runs to launch or to wait for, one of the two can be done. -/
lemma exists_step_of_open (hworkers : 0 < b.workers)
    (hstops : ∀ i input, b.inputs[i]? = some input → b.Stops (b.interrupt i) input)
    (h : b.Orderly s) (hopen : s.launched < b.inputs.length ∨ s.inFlight ≠ ∅) :
    ∃ s', b.Step s s' := by
  by_cases hflying : s.inFlight = ∅
  · have hlt := hopen.resolve_right (not_not_intro hflying)
    refine ⟨_, .launch hlt ?_⟩
    rw [hflying]
    exact hworkers
  · obtain ⟨i, hi⟩ := Finset.nonempty_iff_ne_empty.mpr hflying
    have hlt : i < b.inputs.length :=
      Nat.lt_of_lt_of_le (Pool.mem_inFlight.mp hi).1 h.launched_le
    have hinput := List.getElem?_eq_getElem hlt
    obtain ⟨o, ho⟩ := Option.isSome_iff_exists.mp (hstops i _ hinput)
    exact ⟨_, .finish hi hinput (.inr rfl) ho⟩

/-- There is a next step until the error is returned. -/
theorem exists_step (hworkers : 0 < b.workers)
    (hstops : ∀ i input, b.inputs[i]? = some input → b.Stops (b.interrupt i) input)
    (h : b.Orderly s) (hphase : ∀ error, s.phase ≠ .returned error) : ∃ s', b.Step s s' := by
  by_cases hopen : s.launched < b.inputs.length ∨ s.inFlight ≠ ∅
  · exact exists_step_of_open hworkers hstops h hopen
  · have hlaunched : s.launched = b.inputs.length :=
      Nat.le_antisymm h.launched_le (Nat.not_lt.mp fun hlt => hopen (.inl hlt))
    have hended : s.inFlight = ∅ := not_not.mp fun hne => hopen (.inr hne)
    cases hp : s.phase with
    | handing n =>
      have hfits := h.fits
      rw [hp] at hfits
      obtain ⟨⟨rs, htakes, hlength, -⟩, -⟩ := hfits
      have hle : n ≤ b.inputs.length := hlength ▸ htakes.length_le
      rcases Nat.lt_or_eq_of_le hle with hn | rfl
      · -- All runs have ended, so the next result is there.
        cases hslot : s.slots n with
        | none =>
          have hmem : n ∈ s.inFlight := Pool.mem_inFlight.mpr ⟨by omega, hslot⟩
          rw [hended] at hmem
          exact absurd hmem (Finset.notMem_empty n)
        | some o =>
          cases hyield : b.yield n o.1 with
          | none => exact ⟨_, .take hp hslot hyield⟩
          | some e => exact ⟨_, .refuse hp hslot hyield⟩
      · exact ⟨_, .exhaust hp⟩
    | waiting refusal => exact ⟨_, .ret hp hlaunched hended⟩
    | returned error => exact absurd hp (hphase error)

/-- How many steps of handing out are left, at most. -/
def handingLeft (length : ℕ) : Phase ε → ℕ
  | .handing n => length - n + 2
  | .waiting _ => 1
  | .returned _ => 0

/-- How many steps are left, at most: runs to launch, runs to end, and results to hand out. -/
def left (b : Batch ε) (s : Pool ε) : ℕ :=
  (b.inputs.length - s.launched) + (b.inputs.length - s.launched + s.inFlight.card) +
    handingLeft b.inputs.length s.phase

/-- Every step leaves fewer steps. -/
lemma left_lt_of_step (h : b.Orderly s) (hstep : b.Step s s') : b.left s' < b.left s := by
  cases hstep with
  | launch hlt hfree =>
    have hcard := Finset.card_insert_le s.launched s.inFlight
    rw [← inFlight_launch h] at hcard
    simp only [left]
    omega
  | @finish i input interrupt o hflying hinput hcause hends =>
    have hcard := Finset.card_erase_lt_of_mem hflying
    rw [← inFlight_fill s i o] at hcard
    simp only [left, Pool.fill] at hcard ⊢
    omega
  | @take i r cause hphase hslot htaken =>
    have hlt := Nat.lt_of_lt_of_le (h.launched_of_slot i _ hslot) h.launched_le
    simp only [left, hphase, handingLeft, Pool.inFlight]
    omega
  | refuse hphase hslot hrefused =>
    simp only [left, hphase, handingLeft, Pool.inFlight]
    omega
  | exhaust hphase =>
    simp only [left, hphase, handingLeft, Pool.inFlight]
    omega
  | ret hphase hlaunched hended =>
    simp only [left, hphase, handingLeft, Pool.inFlight]
    omega

/-- No interleaving goes on for ever. -/
theorem exists_not_step (run : ℕ → Pool ε) (hrun : run 0 = {}) :
    ∃ n ≤ 3 * b.inputs.length + 2, ¬ b.Step (run n) (run (n + 1)) := by
  by_contra! hall
  have hleft : ∀ n ≤ 3 * b.inputs.length + 3,
      b.Reaches (run n) ∧ b.left (run n) + n ≤ 3 * b.inputs.length + 2 := by
    intro n
    induction n with
    | zero =>
      intro _
      rw [hrun]
      refine ⟨.refl, ?_⟩
      simp [left, handingLeft, Pool.inFlight]
      omega
    | succ n ih =>
      intro hn
      obtain ⟨hreaches, hle⟩ := ih (by omega)
      have hstep := hall n (by omega)
      have hlt := left_lt_of_step (.of_reaches hreaches) hstep
      exact ⟨hreaches.tail hstep, by omega⟩
  have hlast := (hleft _ (Nat.le_refl _)).2
  omega

/-! ## Results in order -/

/-- Takes or refuses a result, and notes that it was handed out. -/
def noting (yield : ℕ → Result → Option ε) (calls : List (ℕ × Result)) (i : ℕ) (r : Result) :
    List (ℕ × Result) × Option ε :=
  (calls ++ [(i, r)], yield i r)

/-- Where the first results are taken, they are handed out, and handing out goes on with the
others. -/
lemma handOut_append {yield : ℕ → Result → Option ε} {rs : List Result} {k : ℕ}
    (calls : List (ℕ × Result)) (rest : List (Option Result))
    (h : ∀ i r, rs[i]? = some r → yield (k + i) r = none) :
    Engine.handOut (noting yield) calls k (rs.map some ++ rest) =
      Engine.handOut (noting yield) (calls ++ rs.mapIdx fun i r => (k + i, r)) (k + rs.length)
        rest := by
  induction rs generalizing calls k with
  | nil => simp
  | cons r rs ih =>
    have hr : yield k r = none := h 0 r rfl
    have hrs : ∀ i r', rs[i]? = some r' → yield (k + 1 + i) r' = none := by
      intro i r' hr'
      rw [Nat.add_right_comm]
      exact h (i + 1) r' hr'
    rw [List.map_cons, List.cons_append, Engine.handOut, noting, hr]
    simp only
    rw [ih _ hrs, List.mapIdx_cons, List.append_assoc]
    simp [Nat.add_assoc, Nat.add_comm 1]

/-- Where all runs are interrupted alike, the outcomes are those of running every input. -/
lemma outcomes_eq_map {interrupt : Option Interrupt} (h : ∀ i, b.interrupt i = interrupt) :
    b.outcomes = b.inputs.map (b.engine.run interrupt b.table) := by
  refine List.ext_getElem? fun i => ?_
  simp [outcomes, h]

/-- The answer is that of running every input and handing out the results. -/
theorem Answers.runEach_eq {calls : List (ℕ × Result)} {error : Option (EachError ε)}
    (h : b.Answers calls error) {interrupt : Option Interrupt}
    (hinterrupt : ∀ i, b.interrupt i = interrupt) :
    b.engine.runEach interrupt b.table b.inputs (noting b.yield) [] = some (calls, error) := by
  rw [Engine.runEach, ← outcomes_eq_map hinterrupt, ← results]
  cases h with
  | @refused rs r e htakes hr hrefused =>
    have hout := handOut_append (k := 0) [] (b.results.drop rs.length)
      (by simpa using htakes.taken)
    have hdrop : b.results.drop rs.length = some r :: b.results.drop (rs.length + 1) :=
      List.drop_eq_getElem?_toList_append.trans (by simp [hr])
    rw [← htakes.results, List.take_append_drop, hdrop] at hout
    simp only [hout, Nat.zero_add, List.nil_append, Engine.handOut, noting, hrefused,
      List.mapIdx_concat, Option.map_some]
  | @served rs htakes hall =>
    have hout := handOut_append (k := 0) [] [] (by simpa using htakes.taken)
    rw [htakes.results_eq hall, ← List.append_nil (rs.map some), hout]
    simp [Engine.handOut]

/-- Puts each result that is handed out at its index. -/
def collect (blank : Result) (n : ℕ) (calls : List (ℕ × Result)) : List Result :=
  calls.foldl (fun rs c => rs.set c.1 c.2) (List.replicate n blank)

/-- All results in order are put together again. -/
lemma collect_mapIdx (blank : Result) (rs : List Result) :
    collect blank rs.length (rs.mapIdx Prod.mk) = rs := by
  -- The places before the next index are filled already.
  have hfold : ∀ (rs before : List Result),
      (rs.mapIdx fun i r => (before.length + i, r)).foldl (fun out c => out.set c.1 c.2)
        (before ++ List.replicate rs.length blank) = before ++ rs := by
    intro rs
    induction rs with
    | nil => simp
    | cons r rs ih =>
      intro before
      have hset : (before ++ List.replicate (rs.length + 1) blank).set before.length r =
          before ++ [r] ++ List.replicate rs.length blank := by
        simp [List.replicate_succ]
      have hrest := ih (before ++ [r])
      rw [List.mapIdx_cons, List.foldl_cons, List.length_cons]
      simp only [Nat.add_zero]
      rw [hset]
      simpa [Nat.add_comm 1, Nat.add_assoc] using hrest
  simpa [collect] using hfold rs []

/-- Where no result is refused, all are handed out. -/
lemma Answers.eq_of_taken {calls : List (ℕ × Result)} {error : Option (EachError ε)}
    (h : b.Answers calls error) (hyield : ∀ i r, b.yield i r = none) :
    (∃ rs : List Result, b.results = rs.map some ∧ calls = rs.mapIdx Prod.mk) ∧
      error = (b.outcomes.findSome? (·.bind (·.2))).map .interrupted := by
  cases h with
  | @refused rs r e _ _ hrefused =>
    rw [hyield rs.length r] at hrefused
    cases hrefused
  | @served rs htakes hall => exact ⟨⟨rs, htakes.results_eq hall, rfl⟩, rfl⟩

/-- Where every run ends, running all inputs gives all results and the first interruption. -/
lemma runAll_eq {interrupt : Option Interrupt} (hinterrupt : ∀ i, b.interrupt i = interrupt)
    {rs : List Result} (hresults : b.results = rs.map some) :
    b.engine.runAll interrupt b.table b.inputs =
      some (rs, b.outcomes.findSome? (·.bind (·.2))) := by
  rw [results] at hresults
  rw [outcomes_eq_map hinterrupt] at hresults ⊢
  generalize b.inputs = inputs at hresults ⊢
  induction inputs generalizing rs with
  | nil =>
    obtain rfl : rs = [] := by simpa using hresults.symm
    rfl
  | cons input inputs ih =>
    cases rs with
    | nil => simp at hresults
    | cons r rs =>
      simp only [List.map_cons, List.cons.injEq, Option.map_eq_some_iff] at hresults
      obtain ⟨⟨o, ho, rfl⟩, hrest⟩ := hresults
      rw [Engine.runAll_cons, ho, ih hrest, List.map_cons, ho]
      cases h : o.2 <;> simp [h]

end Batch

/-- However many workers there are and in whatever order their runs end, results are handed out as
if one input was run after the other: each is the result of its input alone, and the error in the
end is the refusal or else the first interruption. The workers keep to their number, never get stuck
before the end, and come to it. -/
theorem workers_answer_in_order {ε : Type} (b : Batch ε) (hworkers : 0 < b.workers)
    (hstops : ∀ i input, b.inputs[i]? = some input → b.Stops (b.interrupt i) input) :
    (∀ s, b.Reaches s → s.inFlight.card ≤ b.workers) ∧
    (∀ s, b.Reaches s → (∀ error, s.phase ≠ .returned error) → ∃ s', b.Step s s') ∧
    (∀ run : ℕ → Pool ε, run 0 = {} →
      ∃ n ≤ 3 * b.inputs.length + 2, ¬ b.Step (run n) (run (n + 1))) ∧
    ∀ s error, b.Reaches s → s.phase = .returned error →
      b.Answers s.calls error ∧
      (∀ interrupt, (∀ i, b.interrupt i = interrupt) →
        b.engine.runEach interrupt b.table b.inputs (Batch.noting b.yield) [] =
          some (s.calls, error)) ∧
      ((∀ i r, b.yield i r = none) → ∀ blank,
        (Batch.collect blank b.inputs.length s.calls).map some =
          (b.inputs.mapIdx fun i input =>
            (b.engine.run (b.interrupt i) b.table input).map (·.1)) ∧
        error = (b.outcomes.findSome? (·.bind (·.2))).map .interrupted ∧
        ∀ interrupt, (∀ i, b.interrupt i = interrupt) →
          b.engine.runAll interrupt b.table b.inputs =
            some (Batch.collect blank b.inputs.length s.calls,
              b.outcomes.findSome? (·.bind (·.2)))) := by
  refine ⟨fun s hs => (Batch.Orderly.of_reaches hs).inFlight_le, fun s hs hphase =>
    Batch.exists_step hworkers hstops (.of_reaches hs) hphase, Batch.exists_not_step, ?_⟩
  intro s error hs hphase
  have hanswers : b.Answers s.calls error := by
    have hfits := (Batch.Orderly.of_reaches hs).fits
    rwa [hphase] at hfits
  refine ⟨hanswers, fun interrupt hinterrupt => hanswers.runEach_eq hinterrupt, ?_⟩
  intro hyield blank
  obtain ⟨hall, herror⟩ := hanswers.eq_of_taken hyield
  obtain ⟨rs, hresults, hcalls⟩ := hall
  have hcollect : Batch.collect blank b.inputs.length s.calls = rs := by
    have hlength : b.inputs.length = rs.length := by
      rw [← b.length_results, hresults, List.length_map]
    rw [hcalls, hlength]
    exact Batch.collect_mapIdx blank rs
  refine ⟨?_, herror, fun interrupt hinterrupt => ?_⟩
  · rw [hcollect, ← hresults]
    refine List.ext_getElem? fun i => ?_
    simp [Batch.results, Batch.outcomes, Function.comp_def]
  · rw [hcollect]
    exact Batch.runAll_eq hinterrupt hresults

/-- Two workers run two inputs, the second ends first, and its result is refused. -/
theorem workers_answer_in_order_second_first :
    let b : Batch Unit :=
      { engine := {}, table := .empty, inputs := ["0", "1"], interrupt := fun _ => none
        yield := fun i _ => if i = 1 then some () else none, workers := 2 }
    ∃ s r₀ r₁, b.Reaches s ∧ s.phase = .returned (some (.refused ())) ∧
      b.results = [some r₀, some r₁] ∧ s.calls = [(0, r₀), (1, r₁)] ∧
      b.Answers s.calls (some (.refused ())) := by
  intro b
  have hrun : ∀ input, ∃ o, b.engine.run none b.table input = some o := by
    intro input
    have hstop : verdict b.table (b.engine.options none)
        { state := b.table.initial, tape := .ofInput input } = .stop .noState _ := rfl
    refine Option.isSome_iff_exists.mp ?_
    rw [Engine.run, Engine.observe, observeRun, runFrom_of_stop hstop]
    rfl
  obtain ⟨⟨r₀, c₀⟩, hrun₀⟩ := hrun "0"
  obtain ⟨⟨r₁, c₁⟩, hrun₁⟩ := hrun "1"
  let s₁ : Pool Unit := { launched := 1 }
  let s₂ : Pool Unit := { launched := 2 }
  let s₃ := s₂.fill 1 (r₁, c₁)
  let s₄ := s₃.fill 0 (r₀, c₀)
  have hlaunched : b.Reaches s₂ := by
    have hfirst : b.Step {} s₁ := .launch (by decide) (by decide)
    have hsecond : b.Step s₁ s₂ :=
      .launch (by decide) (Nat.lt_of_le_of_lt (Finset.card_filter_le _ _) (by decide))
    exact .tail (.tail .refl hfirst) hsecond
  have hended : b.Reaches s₄ := by
    have hsecond : b.Step s₂ s₃ :=
      .finish (Pool.mem_inFlight.mpr ⟨by decide, rfl⟩) rfl (.inr rfl) hrun₁
    have hfirst : b.Step s₃ s₄ :=
      .finish (Pool.mem_inFlight.mpr ⟨Nat.zero_lt_two, rfl⟩) rfl (.inr rfl) hrun₀
    exact .tail (.tail hlaunched hsecond) hfirst
  have hempty : s₄.inFlight = ∅ := by
    rw [Pool.inFlight, Finset.filter_eq_empty_iff]
    intro i hi
    have hcases : i = 0 ∨ i = 1 := by
      have hlt : i < 2 := Finset.mem_range.mp hi
      omega
    rcases hcases with rfl | rfl <;> exact Option.some_ne_none _
  have hreturned := Relation.ReflTransGen.tail (.tail (.tail hended
    (.take (i := 0) rfl rfl rfl)) (.refuse (i := 1) rfl rfl rfl)) (.ret rfl rfl hempty)
  have hanswers := (workers_answer_in_order b (by decide) fun i input _ =>
    Option.isSome_iff_exists.mpr (hrun input)).2.2.2 _ _ hreturned rfl
  refine ⟨_, r₀, r₁, hreturned, rfl, ?_, rfl, hanswers.1⟩
  change [(b.engine.run none b.table "0").map (·.1), (b.engine.run none b.table "1").map (·.1)] = _
  rw [hrun₀, hrun₁]
  rfl

end TapeMachine
