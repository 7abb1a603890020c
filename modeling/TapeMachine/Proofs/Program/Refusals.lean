import TapeMachine.Proofs.Program.FaultLines

/-!
# What a table refuses of a program

A draft has one entry for each state and symbol, and its table is frozen only when all of them are
in. So a table never refuses an entry because it has its state and symbol already, or because it is
frozen: what it refuses is the first entry whose transition has a defect, and the fault is this
defect, at the line of the entry (`Draft.of_table_eq_error`).

Together with the words that the stages of the compiler carry along, this says what a compiled table
looks like (`compiled_tables_are_sound`).
-/

namespace TapeMachine

/-- No defect of a transition has to do with the table. -/
lemma Transition.of_defect?_eq_some {r : Transition} {refusal : TableError}
    (h : r.defect? = some refusal) :
    (∀ state read, refusal ≠ .duplicate state read) ∧ refusal ≠ .frozen := by
  unfold defect? at h
  split at h
  · cases h
    simp
  split at h
  · cases h
    simp
  split at h
  · cases h
    simp
  · cases h

/-- A table that can be changed and has nothing for a state and symbol refuses defects only. -/
lemma Table.defect?_of_add_eq_error {t : Table} {r : Transition} {refusal : TableError}
    (hf : t.frozen = false) (hnew : ∀ q ∈ t.rules r.state, q.read ≠ r.read)
    (h : t.add r = .error refusal) : r.defect? = some refusal := by
  have hany : (t.rules r.state).any (fun q => q.read == r.read) = false := by
    simpa using hnew
  cases hd : r.defect? with
  | none => simp [add, hf, hd, hany] at h
  | some e =>
    have he : e = refusal := by simpa [add, hf, hd] using h
    rw [he]

namespace Program

open Text

namespace Draft

/-- Entries with states and symbols of their own are refused for a defect, and the first that has
one is. -/
lemma of_addEntries_eq_error {t : Table} {es : List Entry} {e : Error} (ht : t.WellFormed)
    (hf : t.frozen = false)
    (hkeys : (t.transitions.map Transition.key ++
      es.map fun entry => entry.transition.key).Nodup)
    (h : addEntries t es = .error e) :
    ∃ before entry after refusal, es = before ++ entry :: after ∧
      (∀ o ∈ before, o.transition.Valid) ∧ entry.transition.defect? = some refusal ∧
      e = .at entry.line (.refused refusal) := by
  -- The induction is on the entries; the table keeps its keys apart from theirs.
  induction es generalizing t with
  | nil => cases h
  | cons entry es ih =>
    have hnew : ∀ q ∈ t.rules entry.transition.state, q.read ≠ entry.transition.read := by
      intro q hq hread
      obtain ⟨hmem, hstate⟩ := ht.mem_rules_iff.mp hq
      have hkey : q.key = entry.transition.key := Prod.ext hstate hread
      have hapart := (List.nodup_append.mp hkeys).2.2
      exact hapart q.key (List.mem_map_of_mem hmem) _ List.mem_cons_self hkey
    rw [addEntries] at h
    cases hadd : t.add entry.transition with
    | error refusal =>
      rw [hadd] at h
      have hdefect := Table.defect?_of_add_eq_error hf hnew hadd
      exact ⟨[], entry, es, refusal, rfl, by simp, hdefect, (Except.error.inj h).symm⟩
    | ok t' =>
      rw [hadd] at h
      obtain ⟨-, hvalid, -, ht'⟩ := Table.add_eq_ok_iff.mp hadd
      have hf' : t'.frozen = false := by rw [ht', ← hf]
      have hperm : t'.transitions.Perm (entry.transition :: t.transitions) := by
        rw [ht']
        exact Table.flatMap_insertRule_perm entry.transition t.groups
      have hkeys' : (t'.transitions.map Transition.key ++
          es.map fun entry => entry.transition.key).Nodup := by
        have hmoved := (hperm.map Transition.key).append_right
          (es.map fun entry => entry.transition.key)
        rw [hmoved.nodup_iff]
        rw [List.map_cons] at hkeys
        exact List.nodup_middle.mp hkeys
      obtain ⟨before, entry', after, refusal, rfl, hbefore, hdefect, he⟩ :=
        ih (ht.add hadd) hf' hkeys' h
      refine ⟨entry :: before, entry', after, refusal, rfl, ?_, hdefect, he⟩
      exact List.forall_mem_cons.mpr ⟨hvalid, hbefore⟩

/-- The table of a draft refuses the first entry that has a defect, and nothing else. -/
theorem of_table_eq_error {is : List Instruction} {e : Error}
    (h : (ofInstructions is).table = .error e) :
    ∃ before entry after refusal, (ofInstructions is).entries = before ++ entry :: after ∧
      (∀ o ∈ before, o.transition.Valid) ∧ entry.transition.defect? = some refusal ∧
      e = .at entry.line (.refused refusal) := by
  have hkeys := (ofInstructions_wellFormed is).keys_nodup
  rw [transitions, List.map_map] at hkeys
  exact of_addEntries_eq_error Table.wellFormed_empty rfl hkeys h

end Draft

/-- What a table refuses of a program is a defect of a transition. -/
theorem exists_defect_of_compile {source start : String} {line : ℤ} {refusal : TableError}
    (h : compile source start = .error (.at line (.refused refusal))) :
    ∃ r : Transition, r.defect? = some refusal := by
  rcases bind_eq_error_iff.mp h with h | ⟨d, hd, h⟩
  · -- No stage before the table refuses anything.
    rcases of_draft_eq_error h with hcrash | ⟨hrefused, -⟩
    · cases hcrash
    · exact absurd rfl (hrefused line refusal)
  · obtain ⟨ts, is, -, -, rfl⟩ := draft_eq_ok_iff.mp hd
    rcases bind_eq_error_iff.mp h with h | ⟨t, -, ⟨⟩⟩
    obtain ⟨before, entry, after, refusal', -, -, hdefect, he⟩ := Draft.of_table_eq_error h
    have hsame : refusal = refusal' := by
      cases he
      rfl
    exact ⟨entry.transition, hsame ▸ hdefect⟩

/-- What a compiled table looks like. It is frozen, it covers no pair of state and symbol twice, its
transitions are valid, all its names and symbols are words, and it starts in the state that was
asked for or in that of its first transition. No program fails for a pair that is covered twice, or
for a table that is frozen. -/
theorem compiled_tables_are_sound (source start : String) :
    (∀ t, compile source start = .ok t →
      t.frozen = true ∧ (t.transitions.map Transition.key).Nodup ∧
      (∀ r ∈ t.transitions,
        r.Valid ∧ IsWord r.state ∧ IsWord r.next ∧ IsWord r.read ∧ IsWord r.write) ∧
      t.initial = if start = "" then (t.transitions.head?.map (·.state)).getD "" else start) ∧
    ∀ line refusal, compile source start = .error (.at line (.refused refusal)) →
      (∀ state read, refusal ≠ .duplicate state read) ∧ refusal ≠ .frozen := by
  constructor
  · intro t h
    have hwell := wellFormed_of_compile h
    obtain ⟨hnamed, hinitial⟩ := named_of_compile h
    have hfrozen : t.frozen = true := by
      obtain ⟨is, -, -, rfl⟩ := compile_eq_ok_iff.mp h
      rfl
    refine ⟨hfrozen, hwell.keys_nodup, fun r hr => ?_, hinitial⟩
    have hr' := hnamed r hr
    exact ⟨hwell.valid r hr, hr'.state, hr'.next, hr'.read, hr'.write⟩
  · intro line refusal h
    obtain ⟨r, hdefect⟩ := exists_defect_of_compile h
    exact Transition.of_defect?_eq_some hdefect

/-- The table of a program that says one thing twice and is started in its second state. -/
def secondThought : Table where
  initial := "b"
  groups := [("a", [⟨"a", "1", "_", "*", "halt-b"⟩]), ("b", [⟨"b", "*", "*", "l", "a"⟩])]
  frozen := true

/-- Saying something again replaces it, and what is refused is refused for what it says. -/
theorem compiled_tables_are_sound_secondThought :
    compile "a(1) -> write 0 b!\nb:\n    else:\n        move left goto a\na(1) -> write _\n" "b" =
        .ok secondThought ∧
      (secondThought.transitions.map Transition.key).Nodup ∧ secondThought.initial = "b" ∧
      compile "a(1) -> move up\na(1) -> move up\n" =
        .error (.at 1 (.refused (.badDirection "up"))) ∧
      TableError.badDirection "up" ≠ .frozen := by
  have hcompile : compile
      "a(1) -> write 0 b!\nb:\n    else:\n        move left goto a\na(1) -> write _\n" "b" =
        .ok secondThought := by decide +kernel
  have hrefused : compile "a(1) -> move up\na(1) -> move up\n" =
      .error (.at 1 (.refused (.badDirection "up"))) := by decide +kernel
  have hsound := (compiled_tables_are_sound _ "b").1 secondThought hcompile
  have hrefusal := (compiled_tables_are_sound _ "").2 1 _ hrefused
  exact ⟨hcompile, hsound.2.1, hsound.2.2.2, hrefused, hrefusal.2⟩

end Program

end TapeMachine
