import TapeMachine.Proofs.Program.FreeRows
import TapeMachine.Proofs.Program.Merging
import TapeMachine.Proofs.Program.Shorthand
import TapeMachine.Proofs.Report.Accepted
import TapeMachine.Proofs.Run.Observers

/-!
# Nested rules and the states they start in

A `NestedRule` is laid out in full: a line for its state, a line for the symbol within it, and a
line for each directive within that. Its symbols are all characters that make a word by themselves,
and its states have any names that can stand before a colon, also `left` and `right`, which the
normal form of keywords shortens wherever they stand.

The lines say what the directives say, under the shortened names (`NestedRule.says_rows`), and a
text of rules compiles to a table whose states are these names (`NestedRule.compile_render`). The
state in which runs are to start is not shortened, so a state can be started in under the name that
it is written with unless that is one of the directions (`starts_in_own_state_iff`).
-/

namespace TapeMachine.Program

open Text

/-! ## Names, symbols and directives -/

/-- A word with the long spellings of the directions replaced by their letters. -/
def shortened (w : List Char) : List Char :=
  if w = "right".toList then ['r'] else if w = "left".toList then ['l'] else w

/-- The normal form of a word other than `else` is the word, but for the directions. -/
lemma normal_of_ne_else {w : List Char} (h : w ≠ "else".toList) (line : ℕ) :
    Token.normal ⟨.word, w, line, 0⟩ = [⟨.word, shortened w, line, 0⟩] := by
  unfold shortened
  split_ifs with hright hleft
  · subst hright
    rfl
  · subst hleft
    rfl
  · refine normal_of_notMem ?_ line
    simp only [List.mem_cons, List.not_mem_nil, or_false, not_or]
    exact ⟨h, hright, hleft⟩

/-- A name of a state: a word that does not start anything else. Other than a `Name` it may be one
of the directions. -/
structure Heading where
  text : List Char
  ne_nil : text ≠ []
  chars : text.all isNameChar = true
  notKeyword : text ∉
    ["read".toList, "write".toList, "move".toList, "goto".toList, "else".toList]

namespace Heading

/-- Whether the name is one of the directions in its long spelling. -/
def IsDirection (q : Heading) : Prop :=
  q.text = "left".toList ∨ q.text = "right".toList

instance (q : Heading) : Decidable q.IsDirection :=
  inferInstanceAs (Decidable (_ ∨ _))

/-- The name under which the state is read. -/
def name (q : Heading) : Name where
  text := shortened q.text
  ne_nil := by
    unfold shortened
    split_ifs
    · decide
    · decide
    · exact q.ne_nil
  chars := by
    unfold shortened
    split_ifs
    · decide
    · decide
    · exact q.chars
  notKeyword := by
    unfold shortened
    split_ifs with hright hleft
    · decide
    · decide
    · have hnot := q.notKeyword
      simp only [keywords, List.mem_cons, List.not_mem_nil, or_false, not_or] at hnot ⊢
      obtain ⟨hread, hwrite, hmove, hgoto, helse⟩ := hnot
      exact ⟨hread, hwrite, hmove, hgoto, helse, hleft, hright⟩

/-- The name of a heading is the short form of its text. -/
lemma name_text (q : Heading) : q.name.text = shortened q.text := rfl

/-- A name is read as it is written unless it is one of the directions. -/
lemma name_value_eq_iff (q : Heading) :
    q.name.value = String.ofList q.text ↔ ¬ q.IsDirection := by
  rw [Name.value, String.ofList_inj, name_text, IsDirection, shortened]
  split_ifs with hright hleft
  · rw [hright]
    decide
  · rw [hleft]
    decide
  · exact iff_of_true rfl (not_or.mpr ⟨hleft, hright⟩)

/-- No state is read under the long spelling of a direction. -/
lemma name_value_ne {p q : Heading} (h : q.IsDirection) : p.name.value ≠ String.ofList q.text := by
  have hkeyword : q.text ∈ keywords := by
    rcases h with h | h <;> rw [h] <;> decide
  intro heq
  rw [Name.value, String.ofList_inj] at heq
  exact p.name.notKeyword (heq ▸ hkeyword)

/-- No heading is called `else`. -/
lemma ne_else (q : Heading) : q.text ≠ "else".toList := by
  intro h
  exact q.notKeyword (by rw [h]; decide)

/-- The normal form of a name is the name under which the state is read. -/
lemma normal (q : Heading) (line : ℕ) :
    Token.normal ⟨.word, q.text, line, 0⟩ = [⟨.word, q.name.text, line, 0⟩] :=
  normal_of_ne_else q.ne_else line

/-- A heading is a plain word. -/
lemma plainWord (q : Heading) : PlainWord q.text :=
  ⟨q.ne_nil, fun c hc => isPlainChar_of_isNameChar (List.all_eq_true.mp q.chars c hc)⟩

end Heading

/-- A symbol of the tape, or the wildcard: any character that makes a word by itself. -/
structure Glyph where
  char : Char
  isWord : (isWordChar char || char == '-') = true

namespace Glyph

/-- The string of a symbol. -/
def value (c : Glyph) : String := String.ofList [c.char]

/-- A glyph is one character. -/
lemma length_value (c : Glyph) : c.value.length = 1 := by
  simp [value]

/-- A glyph is a free word. -/
lemma free (c : Glyph) : FreeWord [c.char] := by
  constructor
  · have hc := c.isWord
    simp only [Bool.or_eq_true, beq_iff_eq] at hc
    rcases hc with hc | hc
    · exact .word hc rfl
    · rw [hc]
      exact .hyphen
  · intro hmark
    have hlength : defineMark.length ≤ 1 := hmark.length_le
    exact absurd hlength (by decide)

/-- A glyph is not rewritten. -/
lemma normal (c : Glyph) (line : ℕ) :
    Token.normal ⟨.word, [c.char], line, 0⟩ = [⟨.word, [c.char], line, 0⟩] := by
  refine normal_of_notMem (fun hmem => ?_) line
  have hlength : ∀ w ∈ ["else".toList, "right".toList, "left".toList], w.length ≠ 1 := by decide
  exact hlength _ hmem rfl

/-- The header of a symbol is the symbol. -/
lemma headerValue_char (c : Glyph) : headerValue [c.char] = c.value := by
  have hblank : ∀ d ∈ [c.char], isBlank d = false := by
    intro d hd
    rcases c.free.of_mem hd with hd | rfl
    · exact (Cursor.isWordChar_iff.mp hd).1
    · decide
  rw [headerValue, trim_of_forall hblank]
  rfl

end Glyph

/-- A directive as it is written. -/
inductive Action where
  | write (w : Glyph)
  | move (d : Spelling)
  | goto (q : Heading)
  /-- A jump to `q!`. -/
  | halt (q : Heading)

namespace Action

/-- The word a directive starts with. -/
def keyword : Action → List Char
  | .write _ => "write".toList
  | .move _ => "move".toList
  | .goto _ => "goto".toList
  | .halt _ => "goto".toList

/-- The word behind it. -/
def operand : Action → List Char
  | .write w => [w.char]
  | .move d => d.text
  | .goto q => q.text
  | .halt q => q.text ++ ['!']

/-- The word behind it in its normal form. -/
def short : Action → List Char
  | .write w => [w.char]
  | .move d => d.short
  | .goto q => q.name.text
  | .halt q => q.text ++ ['!']

/-- What a directive says: a jump to `q!` leads to a halting state. -/
def directive : Action → Directive
  | .write w => .write w.value
  | .move d => .move (String.ofList d.short)
  | .goto q => .goto q.name.value
  | .halt q => .goto (haltingState (String.ofList q.text))

/-- The keyword of an action is a free word. -/
lemma free_keyword (a : Action) : FreeWord a.keyword := by
  cases a <;> refine PlainWord.free ?_ <;> change PlainWord (String.toList _) <;> decide

/-- The operand of an action is a free word. -/
lemma free_operand (a : Action) : FreeWord a.operand := by
  cases a with
  | write w => exact w.free
  | move d => exact d.plainWord.free
  | goto q => exact q.plainWord.free
  | halt q =>
    refine PlainWord.free ⟨by simp [operand], fun c hc => ?_⟩
    rcases List.mem_append.mp hc with hc | hc
    · exact q.plainWord.2 c hc
    · rw [List.mem_singleton.mp hc]
      decide

/-- The keyword of an action is not rewritten. -/
lemma normal_keyword (a : Action) (line : ℕ) :
    Token.normal ⟨.word, a.keyword, line, 0⟩ = [⟨.word, a.keyword, line, 0⟩] := by
  cases a <;> rfl

/-- The operand of an action is rewritten to its short form. -/
lemma normal_operand (a : Action) (line : ℕ) :
    Token.normal ⟨.word, a.operand, line, 0⟩ = [⟨.word, a.short, line, 0⟩] := by
  cases a with
  | write w => exact w.normal line
  | move d => cases d <;> rfl
  | goto q => exact q.normal line
  | halt q =>
    refine normal_of_notMem (fun hmem => ?_) line
    have hmark : ∀ w ∈ ["else".toList, "right".toList, "left".toList], '!' ∉ w := by decide
    exact hmark _ hmem (List.mem_append_right _ List.mem_cons_self)

/-- A directive is read as one instruction for the open blocks. -/
lemma reads {p : Point} {b r : Block} (hp : p.atStatement.scope = ⟨some b, some r⟩) (a : Action)
    (line : ℕ) (ts : List Token) (hcolon : kind? ts ≠ some .colon)
    (harrow : kind? ts ≠ some .arrow) :
    Reads p (⟨.word, a.keyword, line, 0⟩ :: ⟨.word, a.short, line, 0⟩ :: ts)
      [⟨b.value, r.value, a.directive, line⟩] p.atStatement ts := by
  cases a with
  | write w =>
    have hs : readStatement ⟨some b, some r⟩ ⟨.word, "write".toList, line, 0⟩
        (⟨.word, [w.char], line, 0⟩ :: ts) = .ok (.directive (.write w.value), 1) := by
      rw [readStatement_of_reading b r line (by simp [kind?]) (by simp [kind?]) (by decide)]
      rfl
    exact reads_directive hp hs
  | move d => exact reads_command hp (.move d) line ts hcolon harrow
  | goto q => exact reads_command hp (.goto q.name) line ts hcolon harrow
  | halt q =>
    have hplain : ∀ w ∈ ["read".toList, "write".toList, "move".toList, "goto".toList], '!' ∉ w := by
      decide
    have hmark : '!' ∈ q.text ++ ['!'] := List.mem_append_right _ List.mem_cons_self
    have hread := reads_target hp (fun hmem => hplain _ hmem hmark) line hcolon harrow
    have hdestination : destination (q.text ++ ['!']) = haltingState (String.ofList q.text) := by
      simp [destination]
    rwa [hdestination] at hread

end Action

/-! ## Nested rules -/

/-- What is to be done in a state when a symbol is read, to be laid out in full. -/
structure NestedRule where
  state : Heading
  symbol : Glyph
  actions : List Action

namespace NestedRule

/-- The line of a directive. -/
def row (a : Action) : Row :=
  ⟨8, a.keyword, none, [.word a.operand], 0⟩

/-- The lines of a rule. -/
def rows (r : NestedRule) : List Row :=
  [⟨0, r.state.text, none, [.colon], 0⟩,
    ⟨4, "read".toList, none, [.word [r.symbol.char], .colon], 0⟩] ++ r.actions.map row

/-- The text of rules, one after the other. -/
def render (rs : List NestedRule) : List Char :=
  Row.textAll (rs.flatMap rows)

/-- The instructions of a rule, one for each of its directives. -/
def instructions (r : NestedRule) : List Instruction :=
  r.actions.map fun a => ⟨r.state.name.value, r.symbol.value, a.directive, 0⟩

/-- The rows of a nested rule are free. -/
lemma free_of_mem_rows {r : NestedRule} {x : Row} (h : x ∈ r.rows) : x.Free := by
  have hcolon : ∀ l ∈ [Lexeme.colon], l.Free := by simp [Lexeme.Free]
  rcases List.mem_append.mp h with h | h
  · simp only [List.mem_cons, List.not_mem_nil, or_false] at h
    rcases h with rfl | rfl
    · exact ⟨r.state.plainWord.free, rfl, hcolon, rfl⟩
    · have hread : FreeWord "read".toList := PlainWord.free (by decide)
      exact ⟨hread, rfl, List.forall_mem_cons.mpr ⟨r.symbol.free, hcolon⟩, rfl⟩
  · obtain ⟨a, -, rfl⟩ := List.mem_map.mp h
    refine ⟨a.free_keyword, rfl, fun l hl => ?_, rfl⟩
    rw [List.mem_singleton.mp hl]
    exact a.free_operand

/-! ### What the lines say -/

/-- The header of a state opens the block of the name under which the state is read. -/
lemma says_heading (s : Scope) (q : Heading) :
    RowsSay s [⟨0, q.text, none, [.colon], 0⟩] [] ⟨some ⟨q.name.value, 0⟩, none⟩ := by
  have htokens : ∀ line, normalize (Row.tokens line ⟨0, q.text, none, [.colon], 0⟩) =
      normalize (Row.tokens line ⟨0, q.name.text, none, [.colon], 0⟩) := by
    intro line
    rw [normalize_row, normalize_row, q.normal, q.name.normal]
  intro line us
  obtain ⟨is, hread, his⟩ := says_header s q.name 0 line us
  refine ⟨is, ?_, his⟩
  simp only [Row.tokensAll, List.append_nil] at hread ⊢
  rwa [htokens]

/-- The word `read` opens the block of a symbol within that of its state. -/
lemma says_symbol (b : Block) (hb : b.depth = 0) (c : Glyph) :
    RowsSay ⟨some b, none⟩ [⟨4, "read".toList, none, [.word [c.char], .colon], 0⟩] []
      ⟨some b, some ⟨c.value, 4⟩⟩ := by
  refine .of_reads fun line us => ⟨[], ?_, rfl⟩
  obtain ⟨v, depth⟩ := b
  subst hb
  have hs : readStatement (Point.atStatement ⟨⟨some ⟨v, 0⟩, none⟩, 4, true⟩).scope
      ⟨.word, "read".toList, line, 0⟩ (⟨.word, [c.char], line, 0⟩ :: ⟨.colon, [':'], line, 0⟩ ::
        ⟨.newline, ['\n'], line, 0⟩ :: us) = .ok (.openRead c.value, 2) := by
    rw [← c.headerValue_char]
    rfl
  have hread := (Reads.single (by simp) (by simp) hs).trans (.newline rfl (.refl _ us))
  have htokens : normalize (Row.tokens line
      ⟨4, "read".toList, none, [.word [c.char], .colon], 0⟩) ++ us =
      ⟨.indent, List.replicate 4 ' ', line, 4⟩ :: ⟨.word, "read".toList, line, 0⟩ ::
        ⟨.word, [c.char], line, 0⟩ :: ⟨.colon, [':'], line, 0⟩ ::
        ⟨.newline, ['\n'], line, 0⟩ :: us := by
    rw [normalize_row]
    change _ ++ (_ ++ (_ ++ ((Token.normal ⟨.word, [c.char], line, 0⟩ ++ _) ++ _))) ++ _ = _
    rw [c.normal]
    rfl
  rw [htokens]
  exact .indent rfl hread

/-- A line of a directive in the block of the symbol. -/
lemma says_row (b r : Block) (hb : b.depth = 0) (hr : r.depth = 4) (a : Action) :
    RowsSay ⟨some b, some r⟩ [row a] [⟨b.value, r.value, a.directive, 0⟩] ⟨some b, some r⟩ := by
  refine .of_reads fun line us => ⟨[⟨b.value, r.value, a.directive, line⟩], ?_, rfl⟩
  have hscope : (Point.atStatement ⟨⟨some b, some r⟩, 8, true⟩).scope = ⟨some b, some r⟩ := by
    simp [Scope.leave, hb, hr]
  have hread := (a.reads hscope line (⟨.newline, ['\n'], line, 0⟩ :: us) (by simp [kind?])
    (by simp [kind?])).trans (.newline rfl (.refl _ us))
  have hpoint : (Point.atStatement ⟨⟨some b, some r⟩, 8, true⟩).nextLine =
      ⟨⟨some b, some r⟩, 0, true⟩ := by
    rw [Point.nextLine, hscope]
  have htokens : normalize ((row a).tokens line) ++ us =
      ⟨.indent, List.replicate 8 ' ', line, 8⟩ :: ⟨.word, a.keyword, line, 0⟩ ::
        ⟨.word, a.short, line, 0⟩ :: ⟨.newline, ['\n'], line, 0⟩ :: us := by
    rw [normalize_row]
    change _ ++ (Token.normal ⟨.word, a.keyword, line, 0⟩ ++ (_ ++
      ((Token.normal ⟨.word, a.operand, line, 0⟩ ++ _) ++ _))) ++ _ = _
    rw [a.normal_keyword, a.normal_operand]
    rfl
  rw [htokens]
  rw [hpoint] at hread
  exact .indent rfl hread

/-- A rule is read as its instructions, wherever it stands. -/
theorem says_rows (r : NestedRule) (s : Scope) :
    ∃ s', RowsSay s r.rows r.instructions s' := by
  have hopen := (says_heading s r.state).append (says_symbol ⟨r.state.name.value, 0⟩ rfl r.symbol)
  have hactions : ∀ as : List Action, RowsSay
      ⟨some ⟨r.state.name.value, 0⟩, some ⟨r.symbol.value, 4⟩⟩ (as.map row)
      (as.map fun a => ⟨r.state.name.value, r.symbol.value, a.directive, 0⟩)
      ⟨some ⟨r.state.name.value, 0⟩, some ⟨r.symbol.value, 4⟩⟩ := by
    intro as
    induction as with
    | nil => exact .nil _
    | cons a as ih => exact (says_row _ _ rfl rfl a).append ih
  exact ⟨_, hopen.append (hactions r.actions)⟩

/-- Rules are read one after the other. -/
lemma says_flatMap_rows (rs : List NestedRule) (s : Scope) :
    ∃ s', RowsSay s (rs.flatMap rows) (rs.flatMap instructions) s' := by
  induction rs generalizing s with
  | nil => exact ⟨s, .nil s⟩
  | cons r rs ih =>
    obtain ⟨s', hr⟩ := r.says_rows s
    obtain ⟨s'', hrs⟩ := ih s'
    exact ⟨s'', hr.append hrs⟩

/-- The instructions of a rule say nothing that a table refuses. -/
lemma valid_of_mem_instructions {r : NestedRule} {i : Instruction} (h : i ∈ r.instructions) :
    i.Valid := by
  obtain ⟨a, -, rfl⟩ := List.mem_map.mp h
  refine ⟨r.symbol.length_value, fun m hm => ?_, fun w hw => ?_⟩
  · cases a with
    | move d =>
      cases hm
      exact d.parse?_short
    | write w => cases hm
    | goto q => cases hm
    | halt q => cases hm
  · cases a with
    | write w =>
      cases hw
      exact w.length_value
    | move d => cases hw
    | goto q => cases hw
    | halt q => cases hw

/-- A text of rules compiles to the table of the rules. -/
lemma compile_eq (rs : List NestedRule) (start : String) :
    compile (String.ofList (render rs)) start = .ok
      { initial := if start = "" then
          ((Draft.ofInstructions (rs.flatMap instructions)).transitions.head?.map
            (·.state)).getD "" else start
        groups := (Draft.ofInstructions (rs.flatMap instructions)).tableGroups
        frozen := true } := by
  have hfree : ∀ x ∈ rs.flatMap rows, x.Free := by
    intro x hx
    obtain ⟨r, -, hx⟩ := List.mem_flatMap.mp hx
    exact free_of_mem_rows hx
  have hvalid : ∀ i ∈ rs.flatMap instructions, i.Valid := by
    intro i hi
    obtain ⟨r, -, hi⟩ := List.mem_flatMap.mp hi
    exact valid_of_mem_instructions hi
  obtain ⟨s', hsays⟩ := says_flatMap_rows rs {}
  exact hsays.compile (programTokens_textAll hfree) hvalid start

/-- The states of the table of a text are those of the rules with a directive, under the names under
which they are read. -/
theorem compile_render (rs : List NestedRule) {start : String} (hstart : start ≠ "") :
    ∃ t, compile (String.ofList (render rs)) start = .ok t ∧ t.initial = start ∧
      ∀ s, t.hasState s = true ↔ ∃ r ∈ rs, r.actions ≠ [] ∧ r.state.name.value = s := by
  refine ⟨_, compile_eq rs start, if_neg hstart, fun s => ?_⟩
  rw [← Table.mem_states_iff_hasState, (wellFormed_of_compile (compile_eq rs start)).mem_states_iff]
  change (∃ t ∈ List.flatMap _ _, _) ↔ _
  rw [Draft.flatMap_tableGroups]
  simp only [Draft.mem_transitions_iff]
  constructor
  · rintro ⟨t, ⟨i, hi, rfl⟩, rfl⟩
    obtain ⟨r, hr, hi⟩ := List.mem_flatMap.mp hi
    obtain ⟨a, ha, rfl⟩ := List.mem_map.mp hi
    exact ⟨r, hr, List.ne_nil_of_mem ha, rfl⟩
  · rintro ⟨r, hr, hactions, rfl⟩
    obtain ⟨a, ha⟩ := List.exists_mem_of_ne_nil _ hactions
    have hi : ⟨r.state.name.value, r.symbol.value, a.directive, 0⟩ ∈ rs.flatMap instructions :=
      List.mem_flatMap.mpr ⟨r, hr, List.mem_map_of_mem ha⟩
    exact ⟨_, ⟨_, hi, rfl⟩, rfl⟩

end NestedRule

/-! ## Starting a program in one of its states -/

/-- A run that ends for want of a state before its first step starts in a state without rules. -/
lemma hasState_initial_of_traceRun {t : Table} {opts : RunOptions} {tape : Tape}
    {e : Ending (List StepEvent)} (h : traceRun t opts tape = some e)
    (hreason : e.reason = .noState) (hsteps : e.last.steps = 0) :
    t.hasState t.initial = false := by
  obtain ⟨n, hstops, -⟩ := traceRun_eq_some_iff.mp h
  have hn : n = 0 := by
    have hpoint := Snapshot.steps_of_after? hstops.point
    omega
  subst hn
  obtain ⟨-, hstop⟩ := stopsAt_zero.mp hstops
  rw [hreason, Snapshot.stop?, if_neg fun hhalted => absurd hhalted.1 (Nat.lt_irrefl 0)] at hstop
  split at hstop
  · cases hstop
    exact hasState_of_stop_noState (by assumption)
  · cases hstop

/-- A run that starts in a state without rules and is not interrupted ends there. -/
lemma traceRun_of_hasState_eq_false {t : Table} (h : t.hasState t.initial = false) (tape : Tape) :
    ∃ e, traceRun t {} tape = some e ∧ e.reason = .noState ∧ e.last.steps = 0 := by
  have hlookup : t.groups.lookup t.initial = none := by
    rwa [Table.hasState, Option.isSome_eq_false_iff, Option.isNone_iff_eq_none] at h
  have hverdict : verdict t {} { state := t.initial, tape } =
      .stop .noState (noStateLabel t.initial) := by
    simp [verdict, Interrupt.due?, hlookup]
  rw [traceRun, observeRun, runFrom_of_stop hverdict]
  exact ⟨_, rfl, rfl, rfl⟩

/-- A program can be started in each of its states, but a direction is no name for one. For every
list of nested rules and every rule of it with a directive, the text of the rules compiles to a
table that starts in the state of the rule, as it is written. This state has transitions, and no run
ends there for want of a state before its first step, exactly when the state is called neither
`left` nor `right`; under the name that it is read with it always has transitions. -/
theorem starts_in_own_state_iff (rs : List NestedRule) {r : NestedRule} (hr : r ∈ rs)
    (hactions : r.actions ≠ []) :
    (∃ t, compile (String.ofList (NestedRule.render rs)) (String.ofList r.state.text) = .ok t ∧
      t.initial = String.ofList r.state.text ∧
      (t.hasState t.initial = true ↔ ¬ r.state.IsDirection) ∧
      ((∀ opts tape e, traceRun t opts tape = some e →
        ¬ (e.reason = .noState ∧ e.last.steps = 0)) ↔ ¬ r.state.IsDirection)) ∧
    ∃ t, compile (String.ofList (NestedRule.render rs)) r.state.name.value = .ok t ∧
      t.initial = r.state.name.value ∧ t.hasState t.initial = true := by
  have hwritten : String.ofList r.state.text ≠ "" := by
    rw [Ne, ← String.toList_eq_nil_iff, String.toList_ofList]
    exact r.state.ne_nil
  have hread : r.state.name.value ≠ "" := by
    rw [Ne, Name.value, ← String.toList_eq_nil_iff, String.toList_ofList]
    exact r.state.name.ne_nil
  refine ⟨?_, ?_⟩
  · obtain ⟨t, hcompile, hinitial, hstates⟩ := NestedRule.compile_render rs hwritten
    have hstate : t.hasState t.initial = true ↔ ¬ r.state.IsDirection := by
      rw [hinitial, hstates]
      constructor
      · rintro ⟨q, -, -, hq⟩ hdirection
        exact Heading.name_value_ne hdirection hq
      · intro hdirection
        exact ⟨r, hr, hactions, r.state.name_value_eq_iff.mpr hdirection⟩
    refine ⟨t, hcompile, hinitial, hstate, ?_, ?_⟩
    · intro hruns
      rw [← hstate, ← Bool.not_eq_false]
      intro hnone
      obtain ⟨e, he, hend⟩ := traceRun_of_hasState_eq_false hnone (.ofInput "")
      exact hruns {} _ e he hend
    · rintro hdirection opts tape e he ⟨hreason, hsteps⟩
      have hnone := hasState_initial_of_traceRun he hreason hsteps
      rw [hstate.mpr hdirection] at hnone
      cases hnone
  · obtain ⟨t, hcompile, hinitial, hstates⟩ := NestedRule.compile_render rs hread
    refine ⟨t, hcompile, hinitial, ?_⟩
    rw [hinitial, hstates]
    exact ⟨r, hr, hactions, rfl⟩

/-- A program can be started in its second state. -/
theorem starts_in_own_state_iff_second :
    ∃ t, compile "a:\n    read -:\n        goto b\nb:\n    read #:\n        write 0\n" "b" = .ok t ∧
      t.initial = "b" ∧ t.hasState "b" = true ∧
      ∀ opts tape e, traceRun t opts tape = some e →
        ¬ (e.reason = .noState ∧ e.last.steps = 0) := by
  let b : Heading := ⟨['b'], by decide, by decide, by decide⟩
  let writing : NestedRule := ⟨b, ⟨'#', by decide⟩, [.write ⟨'0', by decide⟩]⟩
  let leaving : NestedRule :=
    ⟨⟨['a'], by decide, by decide, by decide⟩, ⟨'-', by decide⟩, [.goto b]⟩
  have hb : ¬ b.IsDirection := by decide
  obtain ⟨⟨t, hcompile, hinitial, hstate, hruns⟩, -⟩ :=
    starts_in_own_state_iff [leaving, writing] (r := writing) (by simp) (by simp [writing])
  refine ⟨t, hcompile, hinitial, ?_, hruns.mpr hb⟩
  have hown := hstate.mpr hb
  rwa [hinitial] at hown

/-- A program with the one state `left` cannot be started in it: the table has a state `l` in its
place, and every run of it ends at once. -/
theorem left_is_no_start :
    ∃ t, compile "left:\n    read 1:\n        write 0\n        goto halt\n" "left" = .ok t ∧
      t.initial = "left" ∧ t.states = ["l"] ∧ t.hasState "left" = false ∧
      ∀ tape, ∃ e, traceRun t {} tape = some e ∧ e.reason = .noState ∧ e.last.steps = 0 := by
  have hcompile := NestedRule.compile_eq
    [⟨⟨"left".toList, by decide, by decide, by decide⟩, ⟨'1', by decide⟩,
      [.write ⟨'0', by decide⟩, .goto ⟨"halt".toList, by decide, by decide, by decide⟩]⟩] "left"
  refine ⟨_, hcompile, rfl, by decide, by decide, fun tape => ?_⟩
  exact traceRun_of_hasState_eq_false (by decide) tape

end TapeMachine.Program
