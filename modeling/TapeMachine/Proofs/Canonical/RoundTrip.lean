import Mathlib.Tactic.Common
import TapeMachine.Proofs.Table.Reachable
import TapeMachine.Proofs.Text.Cutting
import TapeMachine.Table.Canonical

/-!
# Reading canonical text back

A table checks the symbols and the direction of a transition, but not the names of states. So a
table can be written whose lines are cut differently when they are read, or passed over as comments,
or refused. `Faithful` says for which tables this does not happen: names are words, symbols are not
white space, no line starts like a comment, and the start line names the start state.

The forward half is an induction over the lines of a faithful table (`decode_written`). For the
backward half nothing need be known about the table that was written: every table that is ever read
is faithful (`faithful_of_decode`), because its names are words of a line and its start is the
trimmed rest of a line or the state of the first transition. Together the two halves say that a
table is read back as it was written exactly when it is faithful (`decode_written_iff_faithful`).
-/

namespace TapeMachine.Canonical

open Text

/-! ## Which tables are read back -/

/-- A transition whose line is read as this transition: its names are words, its symbols are not
white space, and its line does not start like a comment. -/
structure Plain (r : Transition) : Prop where
  state : IsWord r.state
  next : IsWord r.next
  read : ∀ c ∈ r.read.toList, isBlank c = false
  write : ∀ c ∈ r.write.toList, isBlank c = false
  no_comment : r.state.toList.head? ≠ some ';'

instance (r : Transition) : Decidable (Plain r) :=
  decidable_of_iff (IsWord r.state ∧ IsWord r.next ∧
      r.read.toList.all (fun c => !isBlank c) = true ∧
      r.write.toList.all (fun c => !isBlank c) = true ∧ r.state.toList.head? ≠ some ';')
    (by
      simp only [List.all_eq_true, Bool.not_eq_true']
      exact ⟨fun h => ⟨h.1, h.2.1, h.2.2.1, h.2.2.2.1, h.2.2.2.2⟩,
        fun h => ⟨h.state, h.next, h.read, h.write, h.no_comment⟩⟩)

/-- A table whose text says what the table says. -/
structure Faithful (t : Table) : Prop where
  plain : ∀ r ∈ t.transitions, Plain r
  one_line : '\n' ∉ t.initial.toList
  trimmed : trim t.initial.toList = t.initial.toList
  named : t.transitions ≠ [] → t.initial ≠ ""

instance (t : Table) : Decidable (Faithful t) :=
  decidable_of_iff ((∀ r ∈ t.transitions, Plain r) ∧ '\n' ∉ t.initial.toList ∧
      trim t.initial.toList = t.initial.toList ∧ (t.transitions ≠ [] → t.initial ≠ ""))
    ⟨fun h => ⟨h.1, h.2.1, h.2.2.1, h.2.2.2⟩, fun h => ⟨h.plain, h.one_line, h.trimmed, h.named⟩⟩

/-- A table as text: the line that names its start, and one line a transition. -/
def written (t : Table) : String :=
  header t ++ encode t

/-- Every line of a table's text, with its newline, fits a reading buffer. -/
def Fits (t : Table) : Prop :=
  ∀ l ∈ lines (written t).toList, byteSize l + 1 ≤ 65536

instance (t : Table) : Decidable (Fits t) :=
  inferInstanceAs (Decidable (∀ _ ∈ _, _))

/-! ## One line -/

/-- The characters of a transition's line. -/
lemma toList_line (r : Transition) :
    r.line.toList = r.state.toList ++ ' ' :: (r.read.toList ++ ' ' :: (r.write.toList ++
      ' ' :: (r.move.toList ++ ' ' :: r.next.toList))) := by
  simp [Transition.line, Transition.fields]

/-- A text of one character is not empty. -/
lemma toList_ne_nil_of_length_eq_one {s : String} (h : s.length = 1) : s.toList ≠ [] := by
  intro hs
  rw [← String.length_toList, hs] at h
  cases h

/-- Every accepted direction is a word. -/
lemma isWord_of_parse? {spelling : String} (h : (Direction.parse? spelling).isSome = true) :
    IsWord spelling := by
  unfold Direction.parse? at h
  have hcases : spelling = "left" ∨ spelling = "l" ∨ spelling = "right" ∨ spelling = "r" ∨
      spelling = "stay" ∨ spelling = wildcard := by
    by_contra hne
    simp only [not_or] at hne
    obtain ⟨h1, h2, h3, h4, h5, h6⟩ := hne
    simp [h1, h2, h3, h4, h5, h6] at h
  rcases hcases with rfl | rfl | rfl | rfl | rfl | rfl <;> decide

/-- The words of a plain transition's line are its five fields. -/
lemma words_line {r : Transition} (h : Plain r) (hv : r.Valid) :
    words r.line.toList =
      [r.state.toList, r.read.toList, r.write.toList, r.move.toList, r.next.toList] := by
  obtain ⟨hd, hread, hwrite⟩ := Transition.valid_iff.mp hv
  have hmove := isWord_of_parse? hd
  have hstate : r.state.toList ≠ [] := fun he => h.state.1 (String.toList_eq_nil_iff.mp he)
  have hnext : r.next.toList ≠ [] := fun he => h.next.1 (String.toList_eq_nil_iff.mp he)
  have hmove' : r.move.toList ≠ [] := fun he => hmove.1 (String.toList_eq_nil_iff.mp he)
  have hblank : isBlank ' ' = true := by decide
  rw [toList_line, words_append_cons _ hblank, words_append_cons _ hblank,
    words_append_cons _ hblank, words_append_cons _ hblank, words_of_forall hstate h.state.2,
    words_of_forall (toList_ne_nil_of_length_eq_one hread) h.read,
    words_of_forall (toList_ne_nil_of_length_eq_one hwrite) h.write,
    words_of_forall hmove' hmove.2, words_of_forall hnext h.next.2]
  rfl

/-- A plain transition's line has no white space at its ends. -/
lemma trim_line {r : Transition} (h : Plain r) : trim r.line.toList = r.line.toList := by
  have hstate : r.state.toList ≠ [] := fun he => h.state.1 (String.toList_eq_nil_iff.mp he)
  have hnext : r.next.toList ≠ [] := fun he => h.next.1 (String.toList_eq_nil_iff.mp he)
  rw [toList_line]
  refine trim_eq_self ((tight_of_forall h.state.2).append hstate _) ?_
  -- Read from behind, the line starts with the last field.
  have hrev : ∀ as bs : List Char, (as ++ ' ' :: bs).reverse = bs.reverse ++ ' ' :: as.reverse := by
    simp
  rw [hrev, hrev, hrev, hrev]
  simp only [List.append_assoc]
  exact (tight_of_forall fun c hc => h.next.2 c (List.mem_reverse.mp hc)).append
    (by simpa using hnext) _

/-- The mark of the start line, character by character. -/
lemma startMark_eq : startMark = [';', ' ', 'i', 'n', 'i', 't', 'i', 'a', 'l', ':'] := by
  decide

/-- A line that does not start with a semicolon is read for its fields. -/
lemma content_of_head?_ne {line : List Char} {c : Char} (htrim : trim line = line)
    (hhead : line.head? = some c) (hc : c ≠ ';') : content line = (parseLine line).map .rule := by
  cases line with
  | nil => cases hhead
  | cons a as =>
    cases hhead
    have hmark : startMark.isPrefixOf (c :: as) = false := by
      rw [startMark_eq, List.isPrefixOf_cons_cons, beq_eq_false_iff_ne.mpr (Ne.symm hc),
        Bool.false_and]
    simp [content, htrim, hmark, hc]

/-- The line of a plain transition says that transition. -/
theorem content_line {r : Transition} (h : Plain r) (hv : r.Valid) :
    content r.line.toList = .ok (.rule r) := by
  have hparse : parseLine r.line.toList = .ok r := by
    rw [parseLine, words_line h hv]
    simp only [String.ofList_toList]
  obtain ⟨c, cs, hcs⟩ := List.exists_cons_of_ne_nil
    (fun he => h.state.1 (String.toList_eq_nil_iff.mp he) : r.state.toList ≠ [])
  have hhead : r.line.toList.head? = some c := by
    rw [toList_line, hcs]
    rfl
  have hc : c ≠ ';' := by
    intro hc
    exact h.no_comment (by rw [hcs, hc]; rfl)
  rw [content_of_head?_ne (trim_line h) hhead hc, hparse]
  rfl

/-- The characters of the line that names the start, without its newline. -/
def headerLine (initial : String) : List Char :=
  startMark ++ ' ' :: initial.toList

/-- The start line names a trimmed start. -/
theorem content_headerLine {initial : String} (h : trim initial.toList = initial.toList) :
    content (headerLine initial) = .ok (.start initial) := by
  have hblank : isBlank ' ' = true := by decide
  by_cases he : initial.toList = []
  · rw [headerLine, he, String.toList_eq_nil_iff.mp he]
    rfl
  · have htrim : trim (headerLine initial) = headerLine initial := by
      have hlast : Tight initial.toList.reverse := by
        rw [← h]
        exact tight_reverse_trim _
      have hfirst : Tight startMark := by
        rw [startMark_eq]
        exact fun c hc => Option.mem_some.mp hc ▸ (by decide : isBlank ';' = false)
      refine trim_eq_self (hfirst.append (by rw [startMark_eq]; simp) _) ?_
      rw [headerLine, List.reverse_append, List.reverse_cons, List.append_assoc]
      exact hlast.append (by simpa using he) _
    have hmark : startMark.isPrefixOf (headerLine initial) = true := by
      rw [List.isPrefixOf_iff_prefix]
      exact List.prefix_append _ _
    have hrest : (headerLine initial).drop startMark.length = ' ' :: initial.toList :=
      List.drop_left
    simp only [content, htrim, hmark, if_true, hrest, trim_cons hblank, h, String.ofList_toList]

/-! ## The text of a table -/

/-- The characters of a table's text, line by line. -/
lemma toList_written (t : Table) :
    (written t).toList =
      headerLine t.initial ++ '\n' :: t.transitions.flatMap (fun r => r.line.toList ++ ['\n']) := by
  have hencode : ∀ rs : List Transition,
      (String.join (rs.map fun r => r.line ++ "\n")).toList =
        rs.flatMap (fun r => r.line.toList ++ ['\n']) := by
    intro rs
    induction rs with
    | nil => rfl
    | cons r rs ih => simp [ih]
  have hheader : (header t).toList = headerLine t.initial ++ ['\n'] := by
    have hmark : "; initial: ".toList = startMark ++ [' '] := by decide
    simp only [header, String.toList_append, hmark, headerLine]
    simp
  rw [written, String.toList_append, hheader, encode, hencode]
  simp

/-- No line of a plain transition holds a newline. -/
lemma newline_notMem_line {r : Transition} (h : Plain r) (hv : r.Valid) :
    '\n' ∉ r.line.toList := by
  have hblank : isBlank '\n' = true := by decide
  have hnot : ∀ cs : List Char, (∀ c ∈ cs, isBlank c = false) → '\n' ∉ cs := by
    intro cs hcs hmem
    rw [hcs _ hmem] at hblank
    cases hblank
  have hmove := (isWord_of_parse? (Transition.valid_iff.mp hv).1).2
  rw [toList_line]
  simp [hnot _ h.state.2, hnot _ h.read, hnot _ h.write, hnot _ hmove, hnot _ h.next.2]

/-- The lines of a faithful table: the start line, one line a transition, and nothing after the last
newline. -/
lemma lines_written {t : Table} (h : Faithful t) (hv : ∀ r ∈ t.transitions, r.Valid) :
    lines (written t).toList =
      headerLine t.initial :: (t.transitions.map (·.line.toList) ++ [[]]) := by
  have hrules : ∀ rs : List Transition, (∀ r ∈ rs, '\n' ∉ r.line.toList) →
      lines (rs.flatMap fun r => r.line.toList ++ ['\n']) = rs.map (·.line.toList) ++ [[]] := by
    intro rs hrs
    induction rs with
    | nil => rfl
    | cons r rs ih =>
      have hr : '\n' ∉ r.line.toList := hrs r List.mem_cons_self
      rw [List.flatMap_cons, List.append_assoc, List.singleton_append, lines_append_newline hr,
        ih fun q hq => hrs q (List.mem_cons_of_mem _ hq)]
      rfl
  have hheader : '\n' ∉ headerLine t.initial := by
    rw [headerLine, startMark_eq]
    simp [h.one_line]
  rw [toList_written, lines_append_newline hheader,
    hrules t.transitions fun r hr => newline_notMem_line (h.plain r hr) (hv r hr)]

/-! ## Writing and reading -/

/-- Reading the lines of transitions adds the transitions. -/
lemma decodeLines_rules {rs : List Transition} {u u' : Table} (start : String) (number : ℕ)
    (hrs : ∀ r ∈ rs, content r.line.toList = .ok (.rule r))
    (hfit : ∀ r ∈ rs, byteSize r.line.toList ≤ maxLine) (ha : u.addAll rs = (u', none)) :
    decodeLines u start number (rs.map (·.line.toList) ++ [[]]) = .ok (u', start) := by
  induction rs generalizing u number with
  | nil =>
    cases ha
    rfl
  | cons r rs ih =>
    rw [Table.addAll] at ha
    cases hadd : u.add r with
    | error e =>
      rw [hadd] at ha
      cases ha
    | ok u₁ =>
      rw [hadd] at ha
      have hlong : ¬ maxLine < byteSize r.line.toList :=
        Nat.not_lt_of_le (hfit r List.mem_cons_self)
      rw [List.map_cons, List.cons_append, decodeLines, if_neg hlong, hrs r List.mem_cons_self]
      simp only [hadd]
      exact ih (number + 1) (fun q hq => hrs q (List.mem_cons_of_mem _ hq))
        (fun q hq => hfit q (List.mem_cons_of_mem _ hq)) ha

/-- A faithful table whose lines fit is read back as it was written. -/
theorem decode_written {t : Table} (ht : t.WellFormed) (h : Faithful t) (hfit : Fits t) :
    decode (written t) = .ok { initial := t.initial, groups := t.groups } := by
  have hlines := lines_written h ht.valid
  have hbytes : ∀ l ∈ lines (written t).toList, byteSize l ≤ maxLine :=
    fun l hl => Nat.le_of_succ_le_succ (hfit l hl)
  rw [hlines] at hbytes
  have hheader : ¬ maxLine < byteSize (headerLine t.initial) :=
    Nat.not_lt_of_le (hbytes _ List.mem_cons_self)
  have hrules : ∀ r ∈ t.transitions, byteSize r.line.toList ≤ maxLine := by
    intro r hr
    refine hbytes _ (List.mem_cons_of_mem _ (List.mem_append_left _ ?_))
    exact List.mem_map.mpr ⟨r, hr, rfl⟩
  have hread := decodeLines_rules t.initial 2
    (fun r hr => content_line (h.plain r hr) (ht.valid r hr)) hrules ht.empty_addAll_transitions
  rw [decode, hlines, decodeLines, if_neg hheader, content_headerLine h.trimmed]
  simp only [hread]
  -- Only a table without transitions may have no start, and then none is read either.
  by_cases hi : t.initial = ""
  · have hnil : t.transitions = [] := by
      by_contra hne
      exact h.named hne hi
    simp [hi, hnil]
  · simp [hi]

/-! ## What is read is faithful -/

/-- A word of a text, as a name. -/
lemma isWord_ofList {text w : List Char} (h : w ∈ words text) : IsWord (String.ofList w) := by
  obtain ⟨hne, hblank⟩ := of_mem_words h
  refine ⟨?_, ?_⟩
  · intro he
    exact hne (by simpa using congrArg String.toList he)
  · rwa [String.toList_ofList]

/-- A line that says a transition says a plain one. -/
theorem plain_of_content {line : List Char} {r : Transition} (h : content line = .ok (.rule r)) :
    Plain r := by
  unfold content at h
  simp only at h
  split at h
  · cases h
  split at h
  · cases h
  rename_i _ hhead
  simp only [Bool.or_eq_true, List.isEmpty_iff, beq_iff_eq, not_or] at hhead
  unfold parseLine at h
  split at h
  · rename_i a b c d e hwords
    cases h
    have hmem : ∀ w ∈ [a, b, c, d, e], IsWord (String.ofList w) :=
      fun w hw => isWord_ofList (hwords ▸ hw)
    refine ⟨hmem a (by simp), hmem e (by simp), (hmem b (by simp)).2, (hmem c (by simp)).2, ?_⟩
    -- The line starts with the state, and a line that starts with a semicolon is passed over.
    obtain ⟨x, xs, hxs⟩ := List.exists_cons_of_ne_nil hhead.1
    have hx : isBlank x = false := tight_trim line x (by rw [hxs]; rfl)
    rw [hxs] at hwords hhead
    rw [String.toList_ofList, head?_of_words_eq_cons hx hwords]
    exact hhead.2
  · cases h

/-- A start line names a trimmed part of the line. -/
lemma of_content_start {line : List Char} {state : String}
    (h : content line = .ok (.start state)) :
    trim state.toList = state.toList ∧ ∀ c ∈ state.toList, c ∈ line := by
  unfold content at h
  simp only at h
  split at h
  · cases h
    rw [String.toList_ofList]
    refine ⟨trim_trim _, ?_⟩
    intro c hc
    exact (trim_sublist line).subset (List.drop_subset _ _ ((trim_sublist _).subset hc))
  split at h
  · cases h
  · unfold parseLine at h
    split at h <;> cases h

/-- What holds while lines are read: the transitions so far are plain, the start that was named is a
trimmed part of a line, and the first transition has given the table its start. -/
structure Reading (u : Table) (start : String) : Prop where
  plain : ∀ r ∈ u.transitions, Plain r
  initial : (u.groups = [] ∧ u.initial = "") ∨ IsWord u.initial
  one_line : '\n' ∉ start.toList
  trimmed : trim start.toList = start.toList

/-- Adding a plain transition goes on with the reading. -/
lemma Reading.add {u u' : Table} {start : String} {r : Transition} (h : Reading u start)
    (hr : Plain r) (ha : u.add r = .ok u') : Reading u' start := by
  obtain ⟨-, -, -, rfl⟩ := Table.add_eq_ok_iff.mp ha
  refine ⟨?_, Or.inr ?_, h.one_line, h.trimmed⟩
  · intro q hq
    rcases List.mem_cons.mp ((Table.flatMap_insertRule_perm r u.groups).mem_iff.mp hq) with rfl | hq
    · exact hr
    · exact h.plain q hq
  · rcases h.initial with ⟨hg, hi⟩ | hi
    · simpa [hg, hi] using hr.state
    · have hne : (u.initial == "") = false := beq_eq_false_iff_ne.mpr hi.1
      simpa [hne] using hi

/-- Reading lines keeps what holds while lines are read. -/
theorem Reading.decodeLines {ls : List (List Char)} (hls : ∀ l ∈ ls, '\n' ∉ l) {u u' : Table}
    {start start' : String} {number : ℕ} (h : Reading u start)
    (hd : decodeLines u start number ls = .ok (u', start')) : Reading u' start' := by
  induction ls generalizing u start number with
  | nil =>
    cases hd
    exact h
  | cons l ls ih =>
    have hls' : ∀ m ∈ ls, '\n' ∉ m := fun m hm => hls m (List.mem_cons_of_mem _ hm)
    rw [Canonical.decodeLines] at hd
    split at hd
    · cases hd
    cases hc : content l with
    | error count =>
      rw [hc] at hd
      cases hd
    | ok x =>
      rw [hc] at hd
      cases x with
      | nothing => exact ih hls' h hd
      | start state =>
        obtain ⟨htrim, hmem⟩ := of_content_start hc
        have hline : '\n' ∉ state.toList := fun hn => hls l List.mem_cons_self (hmem _ hn)
        exact ih hls' ⟨h.plain, h.initial, hline, htrim⟩ hd
      | rule r =>
        cases ha : u.add r with
        | error e =>
          simp only [ha] at hd
          cases hd
        | ok u₁ =>
          simp only [ha] at hd
          exact ih hls' (h.add (plain_of_content hc) ha) hd

/-- Every table that is read is faithful. -/
theorem faithful_of_decode {text : String} {u : Table} (h : decode text = .ok u) : Faithful u := by
  unfold decode at h
  cases hd : decodeLines .empty "" 1 (lines text.toList) with
  | error e =>
    rw [hd] at h
    cases h
  | ok x =>
    obtain ⟨u', start⟩ := x
    rw [hd] at h
    have hempty : Reading .empty "" :=
      ⟨fun r hr => absurd hr (List.not_mem_nil), Or.inl ⟨rfl, rfl⟩, by decide, by decide⟩
    have hread := hempty.decodeLines (fun l hl => newline_notMem_of_mem_lines hl) hd
    cases h
    by_cases hs : start = ""
    · simp only [hs, beq_self_eq_true, if_true]
      rcases hread.initial with ⟨hg, hi⟩ | hi
      · refine ⟨hread.plain, by simp [hi], by simp [hi, trim], ?_⟩
        intro hne
        exact absurd (by rw [Table.transitions, hg]; rfl) hne
      · refine ⟨hread.plain, ?_, trim_of_forall hi.2, fun _ => hi.1⟩
        intro hn
        have hblank := hi.2 _ hn
        revert hblank
        decide
    · have hs' : (start == "") = false := beq_eq_false_iff_ne.mpr hs
      simp only [hs', Bool.false_eq_true, if_false]
      exact ⟨hread.plain, hread.one_line, hread.trimmed, fun _ => hs⟩

/-- A faithful table is known by its transitions and its start. -/
lemma Faithful.of_eq {t u : Table} (h : Faithful u) (hr : u.transitions = t.transitions)
    (hi : u.initial = t.initial) : Faithful t :=
  ⟨hr ▸ h.plain, hi ▸ h.one_line, hi ▸ h.trimmed, hr ▸ hi ▸ h.named⟩

/-! ## The exact condition -/

/-- A reachable table whose lines fit is read back with the same states, transitions and start
exactly when it is faithful. -/
theorem decode_written_iff_faithful {t : Table} (ht : t.Reachable) (hfit : Fits t) :
    (∃ u, decode (header t ++ encode t) = .ok u ∧ u.states = t.states ∧
      u.transitions = t.transitions ∧ u.initial = t.initial) ↔ Faithful t := by
  constructor
  · rintro ⟨u, hu, -, hr, hi⟩
    exact (faithful_of_decode hu).of_eq hr hi
  · intro h
    exact ⟨_, decode_written ht.wellFormed h hfit, rfl, rfl, rfl⟩

/-- Two rules of a machine that looks for a semicolon. The first starts in a state whose name looks
like a comment. -/
def findSemicolon : Table :=
  Table.empty.perform
    (.addAll [⟨";", "*", "*", "r", ";"⟩, ⟨"found", ";", "x", "stay", "halt"⟩])

/-- A table with such a name fits its lines but is not read back. -/
theorem decode_written_iff_faithful_findSemicolon :
    findSemicolon.Reachable ∧ Fits findSemicolon ∧
      ¬ ∃ u, decode (header findSemicolon ++ encode findSemicolon) = .ok u ∧
        u.states = findSemicolon.states ∧ u.transitions = findSemicolon.transitions ∧
        u.initial = findSemicolon.initial := by
  have hreachable : findSemicolon.Reachable := .step .empty _
  have hfits : Fits findSemicolon := by decide
  refine ⟨hreachable, hfits, ?_⟩
  rw [decode_written_iff_faithful hreachable hfits]
  decide

end TapeMachine.Canonical
