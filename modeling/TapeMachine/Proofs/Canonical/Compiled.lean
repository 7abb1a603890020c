import TapeMachine.Proofs.Canonical.RoundTrip
import TapeMachine.Proofs.Program.Shorthand

/-!
# Canonical text of compiled programs

A compiled table is almost always faithful: its names and symbols are words, and its start is the
state of its first transition. What the compiler does not rule out is a name that starts with a
semicolon, since the semicolon is a character of words like any other; in canonical text a line that
starts so is a comment. So a compiled table is read back from its canonical text exactly when none
of its states has such a name (`compiled_read_back_iff`).
-/

namespace TapeMachine.Canonical

open Program Text

/-- The start of a compiled table is a word, unless the table is empty. -/
lemma initial_of_compile {source : String} {t : Table} (h : compile source = .ok t) :
    t.transitions = [] ∧ t.initial = "" ∨ IsWord t.initial := by
  obtain ⟨hnamed, hinitial⟩ := named_of_compile h
  rw [if_pos rfl] at hinitial
  cases htransitions : t.transitions with
  | nil =>
    rw [htransitions] at hinitial
    exact Or.inl ⟨rfl, hinitial⟩
  | cons r rs =>
    rw [htransitions] at hinitial hnamed
    refine Or.inr ?_
    rw [hinitial]
    exact (hnamed r List.mem_cons_self).state

/-- A compiled table is faithful if none of its lines looks like a comment. -/
lemma faithful_of_compile {source : String} {t : Table} (h : compile source = .ok t)
    (hcomment : ∀ r ∈ t.transitions, r.state.toList.head? ≠ some ';') : Faithful t := by
  obtain ⟨hnamed, -⟩ := named_of_compile h
  have hplain : ∀ r ∈ t.transitions, Plain r := by
    intro r hr
    have hr' := hnamed r hr
    exact ⟨hr'.state, hr'.next, hr'.read.2, hr'.write.2, hcomment r hr⟩
  rcases initial_of_compile h with ⟨hnil, hinitial⟩ | hword
  · rw [hnil] at hplain
    refine ⟨hnil ▸ hplain, by simp [hinitial], by simp [hinitial, trim], ?_⟩
    intro hne
    exact absurd hnil hne
  · refine ⟨hplain, ?_, trim_of_forall hword.2, fun _ => hword.1⟩
    intro hnewline
    exact absurd (hword.2 _ hnewline) (by decide)

/-- A compiled table whose lines fit is read back with the same start, states and transitions
exactly when no state that has transitions starts with a semicolon. -/
theorem compiled_read_back_iff {source : String} {t : Table} (h : compile source = .ok t)
    (hfit : Fits t) :
    (∃ u, decode (header t ++ encode t) = .ok u ∧ u.initial = t.initial ∧ u.states = t.states ∧
      u.transitions = t.transitions) ↔
      ∀ r ∈ t.transitions, r.state.toList.head? ≠ some ';' := by
  constructor
  · rintro ⟨u, hu, -, -, htransitions⟩ r hr
    have hfaithful := faithful_of_decode hu
    rw [← htransitions] at hr
    exact (hfaithful.plain r hr).no_comment
  · intro hcomment
    have hfaithful := faithful_of_compile h hcomment
    exact ⟨_, decode_written (wellFormed_of_compile h) hfaithful hfit, rfl, rfl, rfl⟩

/-- The table of a program that goes to the right up to a semicolon and erases it. -/
def ringBell : Table where
  initial := "wait"
  groups := [("wait", [⟨"wait", "*", "*", "r", "wait"⟩, ⟨"wait", ";", "_", "stay", "halt-rung"⟩])]
  frozen := true

/-- Symbols may be semicolons: such a program is read back. -/
theorem compiled_read_back_ringBell :
    compile "wait(*) -> move right\nwait(;) -> write _ move stay goto rung!\n" = .ok ringBell ∧
      Fits ringBell ∧
      ∃ u, decode (header ringBell ++ encode ringBell) = .ok u ∧ u.initial = ringBell.initial ∧
        u.states = ringBell.states ∧ u.transitions = ringBell.transitions := by
  have hcompile : compile "wait(*) -> move right\nwait(;) -> write _ move stay goto rung!\n" =
      .ok ringBell := by
    have hrender := compile_render
      [⟨⟨⟨['w', 'a', 'i', 't'], by decide, by decide, by decide⟩, ⟨'*', by decide⟩,
          [.move .right]⟩, .call, 0, by decide⟩,
        ⟨⟨⟨['w', 'a', 'i', 't'], by decide, by decide, by decide⟩, ⟨';', by decide⟩,
          [.write ⟨'_', by decide⟩, .move .stay,
            .halt ⟨['r', 'u', 'n', 'g'], by decide, by decide, by decide⟩]⟩, .call, 0, by decide⟩] 0
    exact hrender
  have hfits : Fits ringBell := by decide
  exact ⟨hcompile, hfits, (compiled_read_back_iff hcompile hfits).mpr (by decide)⟩

/-- The table of a program with one rule, for a state whose name starts with a semicolon. -/
def remark : Table where
  initial := ";a"
  groups := [(";a", [⟨";a", "*", "1", "*", ";a"⟩])]
  frozen := true

/-- The rule is lost when the table of this program is written and read. -/
theorem compiled_not_read_back_remark :
    compile ";a -> write 1\n" = .ok remark ∧ Fits remark ∧
      decode (header remark ++ encode remark) = .ok { initial := ";a" } ∧
      ¬ ∃ u, decode (header remark ++ encode remark) = .ok u ∧ u.initial = remark.initial ∧
        u.states = remark.states ∧ u.transitions = remark.transitions := by
  have hdecode : decode (header remark ++ encode remark) = .ok { initial := ";a" } := by decide
  refine ⟨?_, by decide, hdecode, ?_⟩
  · have hrender := compile_render [⟨⟨⟨[';', 'a'], by decide, by decide, by decide⟩,
      ⟨'*', by decide⟩, [.write ⟨'1', by decide⟩]⟩, .bare, 0, by decide⟩] 0
    exact hrender
  · rintro ⟨u, hu, -, -, htransitions⟩
    rw [hdecode] at hu
    cases hu
    exact absurd htransitions (by decide)

end TapeMachine.Canonical
