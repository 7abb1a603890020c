import Mathlib.Algebra.Group.Nat.Even
import Mathlib.Algebra.Ring.Parity
import Mathlib.Data.List.DropRight
import Mathlib.Data.List.Induction
import TapeMachine.Proofs.Table.Representation
import TapeMachine.Proofs.Text.Cutting
import TapeMachine.Report.Outline

/-!
# The cells of an outline

A row of an outline is cut into cells at its bare bars, those that no backslash escapes. Names are
escaped, but for the backslashes that are in them already: a bar behind an odd number of them ends
up bare (`Exposed`). Symbols are shown as code and are not escaped at all. So a row has its four
cells exactly when neither symbol is a bar and the next state exposes none
(`rows_have_four_cells_iff`).
-/

namespace TapeMachine.Outline

open Text

/-! ## Bars -/

/-- Whether the character behind a text is escaped, if that behind what stands before it is. A
backslash escapes a character, also a backslash, if it is not escaped itself. -/
def escapes (escaped : Bool) : List Char → Bool
  | [] => escaped
  | c :: cs => escapes (c == '\\' && !escaped) cs

/-- The number of bars in a text that are not escaped. -/
def bareBars (escaped : Bool) : List Char → ℕ
  | [] => 0
  | c :: cs => (if c = '|' ∧ escaped = false then 1 else 0) + bareBars (c == '\\' && !escaped) cs

/-- The pieces of a text between its bare bars. -/
def cutAtBars (escaped : Bool) : List Char → List (List Char)
  | [] => [[]]
  | c :: cs =>
    if c = '|' ∧ escaped = false then [] :: cutAtBars false cs
    else
      match cutAtBars (c == '\\' && !escaped) cs with
      | [] => [[c]]
      | q :: qs => (c :: q) :: qs

/-- Whether a bar behind two texts is escaped is told by reading one after the other. -/
lemma escapes_append (e : Bool) (as bs : List Char) :
    escapes e (as ++ bs) = escapes (escapes e as) bs := by
  induction as generalizing e with
  | nil => rfl
  | cons a as ih => exact ih _

/-- The bare bars of two texts are counted one after the other. -/
lemma bareBars_append (e : Bool) (as bs : List Char) :
    bareBars e (as ++ bs) = bareBars e as + bareBars (escapes e as) bs := by
  induction as generalizing e with
  | nil => simp [bareBars, escapes]
  | cons a as ih => rw [List.cons_append, bareBars, bareBars, escapes, ih, Nat.add_assoc]

/-- One bar more, one piece more. -/
lemma length_cutAtBars (e : Bool) (cs : List Char) :
    (cutAtBars e cs).length = bareBars e cs + 1 := by
  induction cs generalizing e with
  | nil => rfl
  | cons c cs ih =>
    rw [cutAtBars, bareBars]
    split
    · rename_i hc
      have hne : (c == '\\') = false := by simp [hc.1]
      rw [List.length_cons, ih, hne, Bool.false_and, Nat.add_comm 1]
    · have hlen := ih (c == '\\' && !e)
      split
      · rename_i heq
        rw [heq] at hlen
        cases hlen
      · rename_i q qs heq
        rw [heq] at hlen
        simpa using hlen

/-- A text without bare bars is one piece, and the bar behind it starts the next. -/
lemma cutAtBars_append_bar {e : Bool} {as : List Char} (has : bareBars e as = 0)
    (hend : escapes e as = false) (bs : List Char) :
    cutAtBars e (as ++ '|' :: bs) = as :: cutAtBars false bs := by
  induction as generalizing e with
  | nil =>
    rw [escapes] at hend
    rw [List.nil_append, cutAtBars, if_pos ⟨rfl, hend⟩]
  | cons a as ih =>
    rw [bareBars, Nat.add_eq_zero_iff] at has
    obtain ⟨ha, has⟩ := has
    have hbar : ¬ (a = '|' ∧ e = false) := fun h => by simp [h] at ha
    rw [List.cons_append, cutAtBars, if_neg hbar, ih has hend]

/-! ## Names -/

/-- The number of backslashes at the end of a text. -/
def backslashes (cs : List Char) : ℕ :=
  (cs.rtakeWhile (· == '\\')).length

/-- A name exposes a bar: the backslashes right before it are odd in number. -/
def Exposed (name : List Char) : Prop :=
  ∃ before after, name = before ++ '|' :: after ∧ Odd (backslashes before)

/-- What stands behind a text is escaped if the text ends with an odd number of backslashes. -/
lemma escapes_eq_true_iff (cs : List Char) : escapes false cs = true ↔ Odd (backslashes cs) := by
  induction cs using List.reverseRecOn with
  | nil => simp [escapes, backslashes]
  | append_singleton cs c ih =>
    rw [escapes_append, escapes, escapes, backslashes, List.rtakeWhile_concat]
    by_cases hc : c = '\\'
    · subst hc
      simp only [beq_self_eq_true, if_true, Bool.true_and, Bool.not_eq_true',
        List.length_append, List.length_singleton, Nat.odd_add_one]
      rw [← backslashes, ← ih, Bool.not_eq_true]
    · simp [hc]

/-- The characters of a name, escaped. -/
def escapeChar (c : Char) : List Char :=
  if c == '|' || c == '*' || c == '_' || c.toNat == 0x60 then ['\\', c] else [c]

/-- Escaping goes character by character. -/
lemma toList_escape (s : String) : (escape s).toList = s.toList.flatMap escapeChar := by
  rw [escape, String.toList_ofList]
  rfl

/-- Escaping a character does not matter for what stands behind it. -/
lemma escapes_escapeChar (e : Bool) (c : Char) : escapes e (escapeChar c) = escapes e [c] := by
  unfold escapeChar
  split
  · rename_i hc
    have hne : (c == '\\') = false := by
      refine beq_eq_false_iff_ne.mpr ?_
      rintro rfl
      exact absurd hc (by decide)
    simp [escapes, hne]
  · rfl

/-- An escaped character is a bare bar if it is a bar and stands behind an escaping backslash. -/
lemma bareBars_escapeChar (e : Bool) (c : Char) :
    bareBars e (escapeChar c) = if c = '|' ∧ e = true then 1 else 0 := by
  by_cases hc : c = '|'
  · subst hc
    cases e <;> decide
  · unfold escapeChar
    split <;> simp [bareBars, hc]

/-- An escaped name has a bare bar where the name has one behind an escaping backslash. -/
lemma bareBars_escape_eq_zero_iff (e : Bool) (cs : List Char) :
    bareBars e (cs.flatMap escapeChar) = 0 ↔
      ∀ before after, cs = before ++ '|' :: after → escapes e before = false := by
  induction cs generalizing e with
  | nil => simp [bareBars]
  | cons c cs ih =>
    rw [List.flatMap_cons, bareBars_append, Nat.add_eq_zero_iff, bareBars_escapeChar,
      escapes_escapeChar, ih]
    constructor
    · rintro ⟨hc, hcs⟩ before after heq
      cases before with
      | nil =>
        obtain ⟨rfl, -⟩ := List.cons.inj heq
        simpa [escapes] using hc
      | cons b before =>
        obtain ⟨rfl, rfl⟩ := List.cons.inj heq
        exact hcs before after rfl
    · intro h
      refine ⟨?_, fun before after heq => ?_⟩
      · by_cases hc : c = '|'
        · have hend := h [] cs (by rw [hc, List.nil_append])
          simpa [escapes] using fun _ => hend
        · simp [hc]
      · exact h (c :: before) after (by rw [heq, List.cons_append])

/-- An escaped name has no bare bar exactly when the name exposes none. -/
theorem bareBars_escape_iff (s : String) :
    bareBars false (escape s).toList = 0 ↔ ¬ Exposed s.toList := by
  rw [toList_escape, bareBars_escape_eq_zero_iff]
  simp only [Exposed, not_exists, not_and, ← escapes_eq_true_iff, Bool.not_eq_true]

/-! ## Rows -/

/-- The row of a rule, without its newline. -/
def rowLine (r : Transition) : List Char :=
  (row r).toList.dropLast

/-- A cell of a row, with the spaces around it. -/
def padded (s : String) : List Char :=
  ' ' :: s.toList ++ [' ']

/-- A row, cell by cell. -/
lemma rowLine_eq (r : Transition) :
    rowLine r = '|' :: (padded (code r.read) ++ '|' :: (padded (code r.write) ++
      '|' :: (padded r.direction.letter ++ '|' :: (padded (nextCell r) ++ ['|'])))) := by
  have hrow : (row r).toList = ('|' :: (padded (code r.read) ++ '|' :: (padded (code r.write) ++
      '|' :: (padded r.direction.letter ++ '|' :: (padded (nextCell r) ++ ['|']))))) ++ ['\n'] := by
    simp [row, padded]
  rw [rowLine, hrow, List.dropLast_concat]

/-- A row of the table is its line and a newline. -/
lemma toList_row (r : Transition) : (row r).toList = rowLine r ++ ['\n'] := by
  rw [rowLine_eq]
  simp [row, padded]

/-- A cell ends with a space, so the bar behind it is not escaped. -/
lemma escapes_padded (s : String) : escapes false (padded s) = false := by
  rw [padded, escapes_append]
  simp [escapes]

/-- The spaces around a cell do not matter for its bars. -/
lemma bareBars_padded (s : String) : bareBars false (padded s) = bareBars false s.toList := by
  rw [padded, List.cons_append, bareBars, bareBars_append]
  simp [bareBars]

/-- A code span has the bare bars of its text. -/
lemma bareBars_code (s : String) : bareBars false (code s).toList = bareBars false s.toList := by
  have hcode : (code s).toList = '\x60' :: (s.toList ++ ['\x60']) := by
    simp [code]
  rw [hcode, bareBars, bareBars_append]
  simp [bareBars]

/-- Stars around a name do not matter for its bars. -/
lemma bareBars_nextCell (r : Transition) :
    bareBars false (nextCell r).toList = bareBars false (escape r.next).toList := by
  unfold nextCell
  split
  · have hbold : ("**" ++ escape r.next ++ "**").toList =
        '*' :: '*' :: ((escape r.next).toList ++ ['*', '*']) := by
      simp
    rw [hbold, bareBars, bareBars, bareBars_append]
    simp [bareBars]
  · rfl

/-- The letter of a direction has no bar in it. -/
lemma bareBars_letter (d : Direction) : bareBars false d.letter.toList = 0 := by
  cases d <;> decide

/-- The bars of a row are the five that are drawn, and the bare ones of the symbols and the next
state. -/
lemma bareBars_rowLine (r : Transition) :
    bareBars false (rowLine r) = 5 + bareBars false r.read.toList +
      bareBars false r.write.toList + bareBars false (escape r.next).toList := by
  have hbar : ∀ cs, bareBars false ('|' :: cs) = 1 + bareBars false cs := fun cs => by
    simp [bareBars]
  rw [rowLine_eq, hbar, bareBars_append, escapes_padded, hbar, bareBars_append, escapes_padded,
    hbar, bareBars_append, escapes_padded, hbar, bareBars_append, escapes_padded, hbar]
  simp only [bareBars_padded, bareBars_code, bareBars_nextCell, bareBars_letter]
  have hnil : bareBars false [] = 0 := rfl
  omega

/-- A symbol of one character has a bare bar only if it is one. -/
lemma bareBars_symbol_eq_zero_iff {s : String} (h : s.length = 1) :
    bareBars false s.toList = 0 ↔ s ≠ "|" := by
  rw [← String.length_toList] at h
  obtain ⟨c, hc⟩ := List.length_eq_one_iff.mp h
  have hs : s = "|" ↔ c = '|' := by
    rw [← String.toList_inj, hc]
    simp
  rw [hc, ne_eq, hs]
  simp [bareBars]

/-- A row without other bare bars is cut into its four cells. -/
lemma cutAtBars_rowLine {r : Transition} (h : bareBars false (rowLine r) = 5) :
    cutAtBars false (rowLine r) =
      [[], padded (code r.read), padded (code r.write), padded r.direction.letter,
        padded (nextCell r), []] := by
  rw [bareBars_rowLine] at h
  have hread : bareBars false (padded (code r.read)) = 0 := by
    rw [bareBars_padded, bareBars_code]
    omega
  have hwrite : bareBars false (padded (code r.write)) = 0 := by
    rw [bareBars_padded, bareBars_code]
    omega
  have hmove : bareBars false (padded r.direction.letter) = 0 := by
    rw [bareBars_padded, bareBars_letter]
  have hnext : bareBars false (padded (nextCell r)) = 0 := by
    rw [bareBars_padded, bareBars_nextCell]
    omega
  rw [rowLine_eq, cutAtBars, if_pos ⟨rfl, rfl⟩, cutAtBars_append_bar hread (escapes_padded _),
    cutAtBars_append_bar hwrite (escapes_padded _), cutAtBars_append_bar hmove (escapes_padded _),
    cutAtBars_append_bar hnext (escapes_padded _)]
  rfl

/-! ## Documents -/

/-- A heading and the rows of the table below it. -/
structure Section where
  heading : List Char
  rows : List (List Char)
deriving DecidableEq

/-- Whether a line is a heading of the second level. -/
def isHeading (l : List Char) : Bool :=
  ['#', '#', ' '].isPrefixOf l

/-- The sections of a document, line by line: a heading opens one, and its rows are the lines up to
the next heading that start with a bar, but for the two above them that name the columns and draw
the rule. -/
def sections : List (List Char) → List Section
  | [] => []
  | l :: ls =>
    if isHeading l then
      ⟨l.drop 3, ((ls.takeWhile fun k => !isHeading k).filter fun k => k.head? == some '|').drop 2⟩
        :: sections ls
    else sections ls

/-- The lines that are no heading are passed over. -/
lemma sections_eq_nil {ls : List (List Char)} (h : ∀ l ∈ ls, isHeading l = false) :
    sections ls = [] := by
  induction ls with
  | nil => rfl
  | cons l ls ih =>
    obtain ⟨hl, hls⟩ := List.forall_mem_cons.mp h
    rw [sections, hl, if_neg Bool.false_ne_true, ih hls]

/-- A document in front of one that has no rows above its first heading. -/
lemma sections_append (as : List (List Char)) {bs : List (List Char)}
    (hbs : (bs.takeWhile fun k => !isHeading k).filter (fun k => k.head? == some '|') = []) :
    sections (as ++ bs) = sections as ++ sections bs := by
  induction as with
  | nil => rfl
  | cons a as ih =>
    rw [List.cons_append, sections, sections, ih]
    split
    · rw [List.takeWhile_append, List.cons_append]
      split
      · rename_i hlen
        rw [List.filter_append, hbs, List.append_nil,
          (List.takeWhile_prefix _).eq_of_length hlen]
      · rfl
    · rfl

/-- The lines of the table of a state: the columns, the rule below them, and the rows. -/
def tableLines (rules : List Transition) : List (List Char) :=
  "| Read | Write | Move | Next |".toList :: "|------|-------|------|------|".toList ::
    rules.map rowLine

/-- The lines of the section of a state. -/
def sectionLines (state : String) (rules : List Transition) : List (List Char) :=
  [] :: ("## ".toList ++ (escape state).toList) :: [] :: tableLines rules

/-- The lines above all sections. -/
def summaryLines (name : String) (t : Table) : List (List Char) :=
  ["# ".toList ++ (escape (if name == "" then "program" else name)).toList, [],
    "- **Initial state:** ".toList ++ (code t.initial).toList,
    "- **States:** ".toList ++ (toString t.states.length).toList,
    "- **Transitions:** ".toList ++ (toString t.size).toList]

/-- The section of a state is its lines, each with a newline. -/
lemma toList_stateSection (state : String) (rules : List Transition) :
    (stateSection state rules).toList =
      (sectionLines state rules).flatMap (· ++ ['\n']) := by
  have hrows : (String.join (rules.map row)).toList =
      (rules.map rowLine).flatMap (· ++ ['\n']) := toList_join_map fun r _ => toList_row r
  simp [stateSection, sectionLines, tableLines, hrows]

/-- The whole text is the summary and the sections of all states, line by line. -/
lemma toList_render (name : String) (t : Table) :
    (render name t).toList = (summaryLines name t ++
      t.groups.flatMap fun g => sectionLines g.1 g.2).flatMap (· ++ ['\n']) := by
  have hsections : (String.join (t.groups.map fun g => stateSection g.1 g.2)).toList =
      (t.groups.flatMap fun g => sectionLines g.1 g.2).flatMap (· ++ ['\n']) := by
    rw [String.toList_join, List.flatMap_map, List.flatMap_assoc]
    exact List.flatMap_congr fun g _ => toList_stateSection g.1 g.2
  have hsummary : ∀ title initial states size text : String,
      ("# " ++ title ++ "\n\n" ++ "- **Initial state:** " ++ initial ++ "\n" ++
        "- **States:** " ++ states ++ "\n" ++ "- **Transitions:** " ++ size ++ "\n" ++
        text).toList =
      ["# ".toList ++ title.toList, [], "- **Initial state:** ".toList ++ initial.toList,
        "- **States:** ".toList ++ states.toList,
        "- **Transitions:** ".toList ++ size.toList].flatMap (· ++ ['\n']) ++ text.toList := by
    simp
  rw [List.flatMap_append, ← hsections]
  exact hsummary _ _ _ _ _

/-- The lines of a table start with a bar. -/
lemma exists_bar_of_mem_tableLines {rules : List Transition} {l : List Char}
    (hl : l ∈ tableLines rules) : ∃ cs, l = '|' :: cs := by
  rcases List.mem_cons.mp hl with rfl | hl
  · exact ⟨_, rfl⟩
  rcases List.mem_cons.mp hl with rfl | hl
  · exact ⟨_, rfl⟩
  obtain ⟨r, -, rfl⟩ := List.mem_map.mp hl
  exact ⟨_, rowLine_eq r⟩

/-- The section of a state is read as its heading and its rows. -/
lemma sections_sectionLines (state : String) (rules : List Transition) :
    sections (sectionLines state rules) = [⟨(escape state).toList, rules.map rowLine⟩] := by
  have hheading : ∀ l ∈ tableLines rules, isHeading l = false := by
    intro l hl
    obtain ⟨cs, rfl⟩ := exists_bar_of_mem_tableLines hl
    rfl
  have htake : (tableLines rules).takeWhile (fun k => !isHeading k) = tableLines rules :=
    List.takeWhile_eq_self_iff.mpr fun l hl => by rw [hheading l hl, Bool.not_false]
  have hfilter : (tableLines rules).filter (fun k => k.head? == some '|') = tableLines rules := by
    refine List.filter_eq_self.mpr fun l hl => ?_
    obtain ⟨cs, rfl⟩ := exists_bar_of_mem_tableLines hl
    rfl
  have hblank : isHeading [] = false := rfl
  have hstate : isHeading ("## ".toList ++ (escape state).toList) = true := rfl
  have hrows : ([] :: tableLines rules).takeWhile (fun k => !isHeading k) =
      [] :: tableLines rules := by
    rw [List.takeWhile_cons, hblank, Bool.not_false, if_pos rfl, htake]
  rw [sectionLines, sections, hblank, if_neg Bool.false_ne_true, sections, hstate, if_pos rfl,
    hrows, List.filter_cons_of_neg (by decide), hfilter, sections, hblank,
    if_neg Bool.false_ne_true, sections_eq_nil hheading]
  rfl

/-- The sections of the states are read one after the other, whatever stands above them. -/
lemma sections_append_flatMap (as : List (List Char)) (gs : List (String × List Transition)) :
    sections (as ++ (gs.flatMap (fun g => sectionLines g.1 g.2) ++ [[]])) =
      sections as ++ gs.map fun g => ⟨(escape g.1).toList, g.2.map rowLine⟩ := by
  induction gs generalizing as with
  | nil => exact sections_append as rfl
  | cons g gs ih =>
    have hfirst : ∀ bs, ((sectionLines g.1 g.2 ++ bs).takeWhile fun k => !isHeading k).filter
        (fun k => k.head? == some '|') = [] := fun bs => by
      simp [sectionLines, isHeading]
    rw [List.flatMap_cons, List.append_assoc, sections_append as (hfirst _), ih,
      sections_sectionLines]
    rfl

section Newlines

/-- Escaping brings in no newline. -/
lemma newline_notMem_escape {s : String} (h : '\n' ∉ s.toList) : '\n' ∉ (escape s).toList := by
  rw [toList_escape, List.mem_flatMap]
  rintro ⟨c, hc, hmem⟩
  unfold escapeChar at hmem
  split at hmem
  · rcases List.mem_cons.mp hmem with heq | hmem
    · cases heq
    · exact h (List.mem_singleton.mp hmem ▸ hc)
  · exact h (List.mem_singleton.mp hmem ▸ hc)

/-- A row has no newline in it, if no text of its transition has. -/
lemma newline_notMem_rowLine {r : Transition} (h : ∀ f ∈ r.texts, '\n' ∉ f.toList) :
    '\n' ∉ rowLine r := by
  have hread : '\n' ∉ r.read.toList := h _ (by simp [Transition.texts])
  have hwrite : '\n' ∉ r.write.toList := h _ (by simp [Transition.texts])
  have hnext : '\n' ∉ (escape r.next).toList :=
    newline_notMem_escape (h _ (by simp [Transition.texts]))
  have hcell : '\n' ∉ (nextCell r).toList := by
    unfold nextCell
    split <;> simp [hnext]
  have hmove : '\n' ∉ r.direction.letter.toList := by
    cases r.direction <;> decide
  rw [rowLine_eq]
  simp [padded, code, hread, hwrite, hmove, hcell]

/-- No line of a section has a newline in it, if no name and no symbol has. -/
lemma newline_notMem_sectionLines {state : String} {rules : List Transition}
    (hstate : '\n' ∉ state.toList) (hrules : ∀ r ∈ rules, ∀ f ∈ r.texts, '\n' ∉ f.toList) :
    ∀ l ∈ sectionLines state rules, '\n' ∉ l := by
  have hname := newline_notMem_escape hstate
  intro l hl
  simp only [sectionLines, tableLines, List.mem_cons, List.mem_map] at hl
  rcases hl with rfl | rfl | rfl | rfl | rfl | ⟨r, hr, rfl⟩
  · exact List.not_mem_nil
  · simp [hname]
  · exact List.not_mem_nil
  · decide
  · decide
  · exact newline_notMem_rowLine (hrules r hr)

/-- No number has a newline in it. -/
lemma newline_notMem_toString (n : ℕ) : '\n' ∉ (toString n).toList := by
  rw [Nat.toString_eq_repr, Nat.toList_repr]
  intro h
  exact absurd (Nat.isDigit_of_mem_toDigits (by decide) (by decide) h) (by decide)

/-- No line of a summary of names without newlines is a heading of the second level. -/
lemma sections_summaryLines {name : String} {t : Table} (hname : '\n' ∉ name.toList)
    (hinitial : '\n' ∉ t.initial.toList) : sections ((summaryLines name t).flatMap lines) = [] := by
  have htitle : '\n' ∉ (escape (if name == "" then "program" else name)).toList := by
    refine newline_notMem_escape ?_
    split
    · decide
    · exact hname
  have hlines : ∀ l ∈ summaryLines name t, '\n' ∉ l ∧ isHeading l = false := by
    intro l hl
    simp only [summaryLines, List.mem_cons, List.not_mem_nil, or_false] at hl
    rcases hl with rfl | rfl | rfl | rfl | rfl
    · exact ⟨List.not_mem_append (by decide) htitle, rfl⟩
    · exact ⟨List.not_mem_nil, rfl⟩
    · exact ⟨List.not_mem_append (by decide) (by simp [code, hinitial]), rfl⟩
    · exact ⟨List.not_mem_append (by decide) (newline_notMem_toString _), rfl⟩
    · exact ⟨List.not_mem_append (by decide) (newline_notMem_toString _), rfl⟩
  refine sections_eq_nil fun l hl => ?_
  obtain ⟨k, hk, hl⟩ := List.mem_flatMap.mp hl
  obtain ⟨hnewline, hheading⟩ := hlines k hk
  rw [lines_of_notMem hnewline, List.mem_singleton] at hl
  rw [hl, hheading]

end Newlines

/-- The document of a table whose names and symbols hold no newline, read line by line, ends with
one section for each state, with one row for each of its rules in order; above them there is no
section unless there is a newline in the title or in the start state. A row has at least five bare
bars. It has exactly five, and so the four cells of its rule, if and only if neither symbol is a bar
and the next state exposes none. -/
theorem rows_have_four_cells_iff {t : Table} (ht : t.Reachable)
    (hlines : ∀ r ∈ t.transitions, ∀ f ∈ r.texts, '\n' ∉ f.toList) (name : String) :
    (∃ above, sections (lines (render name t).toList) =
        above ++ t.states.map (fun s => ⟨(escape s).toList, (t.rules s).map rowLine⟩) ∧
      ('\n' ∉ name.toList → '\n' ∉ t.initial.toList → above = [])) ∧
    ∀ r ∈ t.transitions,
      5 ≤ bareBars false (rowLine r) ∧
      (bareBars false (rowLine r) = 5 ↔ r.read ≠ "|" ∧ r.write ≠ "|" ∧ ¬ Exposed r.next.toList) ∧
      (cutAtBars false (rowLine r) =
          [[], padded (code r.read), padded (code r.write), padded r.direction.letter,
            padded (nextCell r), []] ↔
        r.read ≠ "|" ∧ r.write ≠ "|" ∧ ¬ Exposed r.next.toList) := by
  have hwf := ht.wellFormed
  refine ⟨⟨sections ((summaryLines name t).flatMap lines), ?_, sections_summaryLines⟩, ?_⟩
  · have hgroups : ∀ l ∈ t.groups.flatMap fun g => sectionLines g.1 g.2, '\n' ∉ l := by
      intro l hl
      obtain ⟨g, hg, hl⟩ := List.mem_flatMap.mp hl
      have hmem : ∀ r ∈ g.2, r ∈ t.transitions := fun r hr => List.mem_flatMap.mpr ⟨g, hg, hr⟩
      obtain ⟨r, hr⟩ := List.exists_mem_of_ne_nil _ (hwf.group_ne_nil g hg)
      have hstate : '\n' ∉ g.1.toList :=
        hwf.group_state g hg r hr ▸ hlines r (hmem r hr) r.state (by simp [Transition.texts])
      exact newline_notMem_sectionLines hstate (fun r hr => hlines r (hmem r hr)) l hl
    have hbody : (t.groups.flatMap fun g => sectionLines g.1 g.2).flatMap lines =
        t.groups.flatMap fun g => sectionLines g.1 g.2 := flatMap_lines_of_notMem hgroups
    have hsections :
        t.states.map (fun s => (⟨(escape s).toList, (t.rules s).map rowLine⟩ : Section)) =
          t.groups.map fun g => ⟨(escape g.1).toList, g.2.map rowLine⟩ := by
      rw [Table.states, List.map_map]
      exact List.map_congr_left fun g hg => by
        simp only [Function.comp_apply, hwf.rules_eq hg]
    rw [toList_render, ← List.append_nil (List.flatMap _ _), lines_flatMap_append,
      List.flatMap_append, hbody, List.append_assoc, hsections]
    exact sections_append_flatMap _ t.groups
  · intro r hr
    obtain ⟨-, hread, hwrite⟩ := Transition.valid_iff.mp (hwf.valid r hr)
    have hfive : bareBars false (rowLine r) = 5 ↔
        r.read ≠ "|" ∧ r.write ≠ "|" ∧ ¬ Exposed r.next.toList := by
      rw [← bareBars_symbol_eq_zero_iff hread, ← bareBars_symbol_eq_zero_iff hwrite,
        ← bareBars_escape_iff, bareBars_rowLine]
      omega
    refine ⟨by rw [bareBars_rowLine]; omega, hfive, fun hcut => hfive.mp ?_, fun h => ?_⟩
    · have hlength := length_cutAtBars false (rowLine r)
      rw [hcut] at hlength
      simpa using hlength.symm
    · exact cutAtBars_rowLine (hfive.mpr h)

instance (name : List Char) : Decidable (Exposed name) :=
  decidable_of_iff (¬ bareBars false (escape (String.ofList name)).toList = 0)
    (by rw [bareBars_escape_iff, String.toList_ofList, not_not])

/-- A machine whose states have bars and backslashes in their names. -/
def hurdles : Table :=
  Table.empty.perform (.addAll [⟨"a|b", "\\", "x", "r", "a|b"⟩, ⟨"a|b", "x", "*", "l", "c\\\\|d"⟩,
    ⟨"a|b", "*", "_", "*", "halt\\|"⟩])

/-- One bar and a bar behind two backslashes are escaped, and one behind a single backslash is
exposed. -/
theorem rows_have_four_cells_iff_hurdles :
    (hurdles.Reachable ∧ ∀ r ∈ hurdles.transitions, ∀ f ∈ r.texts, '\n' ∉ f.toList) ∧
    sections (lines (render "hurdles" hurdles).toList) =
      [⟨"a\\|b".toList, hurdles.transitions.map rowLine⟩] ∧
    bareBars false (rowLine ⟨"a|b", "x", "*", "l", "c\\\\|d"⟩) = 5 ∧
    bareBars false (rowLine ⟨"a|b", "*", "_", "*", "halt\\|"⟩) = 6 := by
  have hreachable : hurdles.Reachable := .step .empty _
  have hlines : ∀ r ∈ hurdles.transitions, ∀ f ∈ r.texts, '\n' ∉ f.toList := by decide +kernel
  obtain ⟨⟨above, hsections, habove⟩, hrows⟩ := rows_have_four_cells_iff hreachable hlines "hurdles"
  refine ⟨⟨hreachable, hlines⟩, ?_, ?_, by decide +kernel⟩
  · rw [hsections, habove (by decide +kernel) (by decide +kernel)]
    decide +kernel
  · exact (hrows _ (by decide +kernel)).2.1.mpr (by decide +kernel)

/-- A rule that reads a bar has a row with more than five bare bars. -/
theorem row_of_bar_has_more_cells :
    (Table.empty.perform (.add ⟨"a", "|", "*", "r", "halt"⟩)).Reachable ∧
      (Table.empty.perform (.add ⟨"a", "|", "*", "r", "halt"⟩)).transitions =
        [⟨"a", "|", "*", "r", "halt"⟩] ∧
      (∀ f ∈ (⟨"a", "|", "*", "r", "halt"⟩ : Transition).texts, '\n' ∉ f.toList) ∧
      bareBars false (rowLine ⟨"a", "|", "*", "r", "halt"⟩) = 6 ∧
      (cutAtBars false (rowLine ⟨"a", "|", "*", "r", "halt"⟩)).length = 7 :=
  ⟨.step .empty _, by decide +kernel, by decide +kernel, by decide +kernel, by decide +kernel⟩

end TapeMachine.Outline
