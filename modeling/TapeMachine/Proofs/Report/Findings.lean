import TapeMachine.Proofs.Report.Walk

/-!
# What is reported of a table

`Reaches table s` says that the state `s` can be come to: it is the start state, or a rule of such a
state leads to it, it is not halting and it has rules. The walk visits exactly these states
(`mem_visited_tour_iff`). That it visits all of them is the account it keeps of what rules lead to;
that it visits no others, and misses only what their rules lead to, is kept by every round
(`Walk.Sound.round`).

So the findings are determined by the table alone, and `findings_are_exact` lists them.
-/

namespace TapeMachine.Lint

/-- The states that a table can come to from its start state, along rules of such states. Halting
states are not gone on from, and neither are states without rules. -/
inductive Reaches (table : Table) : String → Prop
  | start : Reaches table table.initial
  | step {s : String} {r : Transition} (h : Reaches table s) (hr : r ∈ table.rules s)
      (hhalt : isHalting r.next = false) (hstate : table.hasState r.next = true) :
      Reaches table r.next

/-- A name that a rule leads to, without rules of its own and not halting. -/
structure IsMissed (table : Table) (name : String) (r : Transition) : Prop where
  next : r.next = name
  not_halting : isHalting name = false
  not_hasState : table.hasState name = false
  reached : ∃ s, Reaches table s ∧ r ∈ table.rules s

/-! ## The walk goes no further -/

namespace Walk

variable {table : Table}

/-- What is kept of the missed targets when one more is noted, is kept when rules are noted. -/
lemma note_induction {w : Walk} {rules : List Transition} {motive : Walk → Prop} (start : motive w)
    (add : ∀ w, motive w → ∀ r ∈ rules, isHalting r.next = false → table.hasState r.next = false →
      r.next ∉ w.missed.map (·.1) → motive { w with missed := (r.next, r) :: w.missed }) :
    motive (w.note table rules) := by
  refine List.foldlRecOn rules _ start fun w hw r hr => ?_
  split
  · exact hw
  · rename_i hnew
    simp only [Bool.or_eq_true, not_or, Bool.not_eq_true] at hnew
    obtain ⟨⟨hhalt, hstate⟩, hmissed⟩ := hnew
    refine add w hw r hr hhalt hstate fun hmem => ?_
    obtain ⟨m, hm, heq⟩ := List.mem_map.mp hmem
    simpa [heq] using List.any_eq_false.mp hmissed m hm

/-- Everything that a walk has queued, visited and missed can be come to, and no target has been
missed twice. -/
structure Sound (table : Table) (queue : List String) (w : Walk) : Prop where
  queued : ∀ s ∈ queue, Reaches table s
  visited : ∀ s ∈ w.visited, Reaches table s
  missed : ∀ m ∈ w.missed, IsMissed table m.1 m.2
  missed_nodup : (w.missed.map (·.1)).Nodup

/-- A walk that starts has seen nothing but the start state in its queue. -/
lemma Sound.start (table : Table) : Sound table [table.initial] {} := by
  refine ⟨fun s hs => ?_, fun s hs => ?_, fun m hm => ?_, List.nodup_nil⟩
  · obtain rfl := List.mem_singleton.mp hs
    exact .start
  · cases hs
  · cases hm

/-- A round goes nowhere that cannot be come to. -/
lemma Sound.round {c d : List String × Walk} (h : Round table c d) (hc : Sound table c.1 c.2) :
    Sound table d.1 d.2 := by
  cases h with
  | skip hs => exact ⟨fun s hs => hc.queued s (List.mem_cons_of_mem _ hs), hc.visited, hc.missed,
      hc.missed_nodup⟩
  | @visit s queue w hs =>
    have hreach : Reaches table s := hc.queued s List.mem_cons_self
    refine ⟨?_, ?_, ?_, ?_⟩
    · intro q hq
      rcases List.mem_append.mp hq with hq | hq
      · exact hc.queued q (List.mem_cons_of_mem _ hq)
      · obtain ⟨⟨r, hr, rfl⟩, hhalt, hstate, -⟩ := mem_successors_iff.mp hq
        exact .step hreach hr hhalt hstate
    · intro q hq
      rw [visited_note] at hq
      rcases List.mem_cons.mp hq with rfl | hq
      · exact hreach
      · exact hc.visited q hq
    · refine note_induction (motive := fun w => ∀ m ∈ w.missed, IsMissed table m.1 m.2) ?_ ?_
      · exact hc.missed
      · intro w hw r hr hhalt hstate _ m hm
        rcases List.mem_cons.mp hm with rfl | hm
        · exact ⟨rfl, hhalt, hstate, s, hreach, hr⟩
        · exact hw m hm
    · refine note_induction (motive := fun w => (w.missed.map (·.1)).Nodup) ?_ ?_
      · exact hc.missed_nodup
      · intro w hw r _ _ _ hnew
        exact List.nodup_cons.mpr ⟨hnew, hw⟩

end Walk

/-! ## The walk from the start state -/

section Tour

variable {table : Table}

/-- The walk that a table is checked by goes round by round until its queue is empty. -/
theorem rounds_tour (ht : table.WellFormed) :
    Relation.ReflTransGen (Round table) ([table.initial], {}) ([], tour table) :=
  rounds_walk ht (unused_le_size table)

/-- No walk goes on for ever. -/
theorem wellFounded_round (ht : table.WellFormed) : WellFounded fun d c => Round table c d :=
  Subrelation.wf (fun h => Round.length_add_unused_lt ht h)
    (measure fun c : List String × Walk => c.1.length + c.2.unused table).wf

/-- The walk from the start of the table is sound when it ends. -/
lemma sound_tour (ht : table.WellFormed) : Walk.Sound table [] (tour table) :=
  (rounds_tour ht).head_induction_on (motive := fun c _ => Walk.Sound table c.1 c.2 → _) id
    (fun hround _ ih hc => ih (Walk.Sound.round hround hc)) (Walk.Sound.start table)

/-- The walk visits exactly the states that can be come to. -/
theorem mem_visited_tour_iff (ht : table.WellFormed) {s : String} :
    s ∈ (tour table).visited ↔ Reaches table s := by
  obtain ⟨hcovers, hstart⟩ := covers_tour ht
  constructor
  · exact (sound_tour ht).visited s
  · intro h
    induction h with
    | start => exact hstart
    | step _ hr hhalt hstate ih =>
      exact (hcovers.reached _ ih _ hr hhalt hstate).resolve_right List.not_mem_nil

/-- The walk misses exactly the names without rules that rules of such states lead to. -/
theorem mem_missed_tour_iff (ht : table.WellFormed) {name : String} :
    name ∈ (tour table).missed.map (·.1) ↔ ∃ r, IsMissed table name r := by
  constructor
  · intro h
    obtain ⟨m, hm, rfl⟩ := List.mem_map.mp h
    exact ⟨m.2, (sound_tour ht).missed m hm⟩
  · rintro ⟨r, rfl, hhalt, hstate, s, hs, hr⟩
    obtain ⟨hcovers, -⟩ := covers_tour ht
    obtain ⟨m, hm, hnext⟩ :=
      hcovers.missed s ((mem_visited_tour_iff ht).mpr hs) r hr hhalt hstate
    exact List.mem_map.mpr ⟨m, hm, hnext⟩

end Tour

/-- The findings of a table with a start state, in terms of the walk. -/
lemma findings_eq {table : Table} (h : table.initial ≠ "") :
    findings table =
      (if table.hasState table.initial = false ∧ isHalting table.initial = false then
        [.deadStart table.initial] else []) ++
      (tour table).missed.reverse.map (fun m => .missing m.1 m.2) ++
      (table.states.filter fun s => !(tour table).visited.contains s).map .unreachable := by
  have hstart : (table.initial == "") = false := beq_eq_false_iff_ne.mpr h
  unfold findings
  rw [hstart, if_neg Bool.false_ne_true]
  cases table.hasState table.initial <;> cases isHalting table.initial <;> rfl

/-- The walk through a table ends, and what is reported is determined by what can be come to from
the start state: the start state if it has no rules and is not halting, once; every name without
rules that is not halting and that a rule of a state that can be come to leads to, once each, with
such a rule; and every state of the table that cannot be come to, in table order. The report counts
what it lists, and there is none when there is nothing to list. -/
theorem findings_are_exact {t : Table} (ht : t.Reachable) (hstart : t.initial ≠ "") :
    WellFounded (fun d c => Round t c d) ∧
    Relation.ReflTransGen (Round t) ([t.initial], {}) ([], tour t) ∧
    ∃ (missed : List (String × Transition)) (unreached : List String),
      findings t =
        (if t.hasState t.initial = false ∧ isHalting t.initial = false then
          [.deadStart t.initial] else []) ++
        missed.map (fun m => .missing m.1 m.2) ++ unreached.map .unreachable ∧
      (missed.map (·.1)).Nodup ∧
      (∀ name, name ∈ missed.map (·.1) ↔ isHalting name = false ∧ t.hasState name = false ∧
        ∃ s r, Reaches t s ∧ r ∈ t.rules s ∧ r.next = name) ∧
      (∀ m ∈ missed, m.2.next = m.1 ∧ ∃ s, Reaches t s ∧ m.2 ∈ t.rules s) ∧
      unreached.Sublist t.states ∧ unreached.Nodup ∧
      (∀ s, s ∈ unreached ↔ s ∈ t.states ∧ ¬ Reaches t s) ∧
      report t = if findings t = [] then none
        else some ("found " ++ toString (findings t).length ++ " errors:\n- " ++
          "\n- ".intercalate ((findings t).map Finding.message)) := by
  have hwf := ht.wellFormed
  refine ⟨wellFounded_round hwf, rounds_tour hwf, (tour t).missed.reverse,
    t.states.filter fun s => !(tour t).visited.contains s, findings_eq hstart, ?_, ?_, ?_,
    List.filter_sublist, hwf.states_nodup.filter _, ?_, ?_⟩
  · rw [List.map_reverse]
    exact List.nodup_reverse.mpr (sound_tour hwf).missed_nodup
  · intro name
    rw [List.map_reverse, List.mem_reverse, mem_missed_tour_iff hwf]
    constructor
    · rintro ⟨r, hnext, hhalt, hstate, s, hs, hr⟩
      exact ⟨hhalt, hstate, s, r, hs, hr, hnext⟩
    · rintro ⟨hhalt, hstate, s, r, hs, hr, hnext⟩
      exact ⟨r, hnext, hhalt, hstate, s, hs, hr⟩
  · intro m hm
    have hmissed := (sound_tour hwf).missed m (List.mem_reverse.mp hm)
    exact ⟨hmissed.next, hmissed.reached⟩
  · intro s
    rw [List.mem_filter, ← mem_visited_tour_iff hwf]
    simp
  · unfold report
    cases findings t <;> rfl

/-- A table with a loop of two states, a name that two of its rules lead to, and a state that none
leads to. -/
def detour : Table :=
  Table.empty.perform (.addAll [⟨"go", "1", "*", "r", "go"⟩, ⟨"go", "0", "*", "r", "lost"⟩,
    ⟨"go", "*", "*", "l", "back"⟩, ⟨"back", "0", "*", "l", "lost"⟩, ⟨"back", "1", "*", "r", "go"⟩,
    ⟨"back", "*", "*", "*", "halt-done"⟩, ⟨"aside", "*", "*", "r", "ghost"⟩])

/-- The name is reported once, with the rule that leads to it first, and the state as unreachable.
What rules of the unreachable state lead to is not reported. -/
theorem findings_are_exact_detour :
    (detour.Reachable ∧ detour.initial ≠ "") ∧
    Relation.ReflTransGen (Round detour) (["go"], {}) ([], tour detour) ∧
    findings detour = [.missing "lost" ⟨"go", "0", "*", "r", "lost"⟩, .unreachable "aside"] ∧
    ¬ Reaches detour "aside" ∧
    report detour = some ("found 2 errors:\n- Missing state 'lost' (goto from go(0))\n" ++
      "- Unreachable state 'aside'") := by
  have hreachable : detour.Reachable := .step .empty _
  have hinitial : detour.initial ≠ "" := by decide +kernel
  have hfindings : findings detour =
      [.missing "lost" ⟨"go", "0", "*", "r", "lost"⟩, .unreachable "aside"] := by decide +kernel
  obtain ⟨-, hrounds, missed, unreached, hall, -, -, -, -, -, hunreached, hreport⟩ :=
    findings_are_exact hreachable hinitial
  have haside : "aside" ∈ unreached := by
    have hmem : Finding.unreachable "aside" ∈ findings detour := by simp [hfindings]
    rw [hall] at hmem
    simpa using hmem
  refine ⟨⟨hreachable, hinitial⟩, hrounds, hfindings, ((hunreached "aside").mp haside).2, ?_⟩
  rw [hreport, hfindings]
  decide +kernel

end TapeMachine.Lint
