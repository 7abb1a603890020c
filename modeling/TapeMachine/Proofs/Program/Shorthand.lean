import TapeMachine.Proofs.Program.Compiled
import TapeMachine.Proofs.Program.Rules

/-!
# All styles mean the same

However a rule is laid out, its header leaves the same two blocks open (`Rule.opened`): the block of
the state at depth 0 and the block of the symbol at depth 4, which an arrow behind the state makes
up by itself. The directives of the rule are then read within these two blocks, whether they stand
behind the header or on lines of their own at depth 8, and give the instructions of the rule
(`StyledRule.says_rows`). The next rule starts at depth 0 and so outside of all blocks.

The main result, `compile_render`, says that a text of rules compiles, and that its transitions are
those of the instructions of the rules in their order. So the styles do not matter.
-/

namespace TapeMachine.Program

open Text

/-! ## Normal forms -/

/-- A word that is no keyword is in its normal form. -/
lemma normal_of_notMem {w : List Char} (h : w ∉ ["else".toList, "right".toList, "left".toList])
    (line : ℕ) : Token.normal ⟨.word, w, line, 0⟩ = [⟨.word, w, line, 0⟩] := by
  simp only [List.mem_cons, List.not_mem_nil, or_false, not_or, ← beq_eq_false_iff_ne] at h
  simp only [Token.normal, h]
  rfl

/-- A name is not rewritten. -/
lemma Name.normal (q : Name) (line : ℕ) :
    Token.normal ⟨.word, q.text, line, 0⟩ = [⟨.word, q.text, line, 0⟩] := by
  refine normal_of_notMem (fun hmem => q.notKeyword ?_) line
  have hsub : ∀ w ∈ ["else".toList, "right".toList, "left".toList], w ∈ keywords := by decide
  exact hsub _ hmem

/-- A symbol is not rewritten. -/
lemma Symbol.normal (c : Symbol) (line : ℕ) :
    Token.normal ⟨.word, [c.char], line, 0⟩ = [⟨.word, [c.char], line, 0⟩] := by
  refine normal_of_notMem (fun hmem => ?_) line
  have hlength : ∀ w ∈ ["else".toList, "right".toList, "left".toList], w.length ≠ 1 := by decide
  exact hlength _ hmem rfl

namespace Command

/-- The tokens of a directive in their normal forms. -/
def tokens (line : ℕ) (c : Command) : List Token :=
  [⟨.word, c.keyword, line, 0⟩, ⟨.word, c.short, line, 0⟩]

/-- The keyword of a command is not rewritten. -/
lemma normal_keyword (c : Command) (line : ℕ) :
    Token.normal ⟨.word, c.keyword, line, 0⟩ = [⟨.word, c.keyword, line, 0⟩] := by
  cases c <;> rfl

/-- The operand of a command is rewritten to its short form. -/
lemma normal_operand (c : Command) (line : ℕ) :
    Token.normal ⟨.word, c.operand, line, 0⟩ = [⟨.word, c.short, line, 0⟩] := by
  cases c with
  | write w => exact w.normal line
  | move d => cases d <;> rfl
  | goto q => exact q.normal line
  | halt q =>
    refine normal_of_notMem (fun hmem => ?_) line
    have hmark : ∀ w ∈ ["else".toList, "right".toList, "left".toList], '!' ∉ w := by decide
    exact hmark _ hmem (List.mem_append_right _ List.mem_cons_self)

/-- The tokens of directives within a line. -/
lemma normalize_lexemes (cs : List Command) (line : ℕ) :
    normalize ((cs.flatMap lexemes).map (Lexeme.token line)) = cs.flatMap (tokens line) := by
  induction cs with
  | nil => rfl
  | cons c cs ih =>
    rw [List.flatMap_cons, List.map_append, normalize, List.flatMap_append, List.flatMap_cons]
    change Token.normal ⟨.word, c.keyword, line, 0⟩ ++ (Token.normal ⟨.word, c.operand, line, 0⟩ ++
      []) ++ normalize _ = _
    rw [normal_keyword, normal_operand, ih]
    rfl

end Command

/-! ## Directives -/

/-- In an open read block a word that is followed by another says a directive. -/
lemma readStatement_of_reading (b r : Block) (line : ℕ) {w : List Char} {ts : List Token}
    (hcolon : kind? ts ≠ some .colon) (harrow : kind? ts ≠ some .arrow)
    (hread : w ≠ "read".toList) :
    readStatement ⟨some b, some r⟩ ⟨.word, w, line, 0⟩ ts =
      readDirective ⟨.word, w, line, 0⟩ ts := by
  have hread' : (w == "read".toList) = false := beq_eq_false_iff_ne.mpr hread
  have hcolon' : (kind? ts == some .colon) = false := beq_eq_false_iff_ne.mpr hcolon
  have harrow' : (kind? ts == some .arrow) = false := beq_eq_false_iff_ne.mpr harrow
  simp only [readStatement, hcolon', harrow', readInState, hread']
  rfl

/-- A name does not end in an exclamation mark and so names no halting state. -/
lemma destination_name (q : Name) : destination q.text = q.value := by
  rw [destination]
  split
  · rename_i base hbase
    have hmem : '!' ∈ q.text := List.mem_reverse.mp (hbase ▸ List.mem_cons_self)
    exact absurd (List.all_eq_true.mp q.chars _ hmem) (by decide)
  · rfl

/-- A name with an exclamation mark stands for the halting state of this name. -/
lemma destination_halt (q : Name) : destination (q.text ++ ['!']) = haltingState q.value := by
  simp [destination, Name.value]

/-- A word that is none of the keywords of directives is the target of a jump. -/
lemma readDirective_target {w : List Char}
    (h : w ∉ ["write".toList, "move".toList, "goto".toList]) (line : ℕ) (ts : List Token) :
    readDirective ⟨.word, w, line, 0⟩ ts = .ok (.directive (.goto (destination w)), 0) := by
  simp only [List.mem_cons, List.not_mem_nil, or_false, not_or, ← beq_eq_false_iff_ne] at h
  simp only [readDirective, h]
  rfl

/-- A statement that is a directive is read as one instruction for the open blocks. -/
lemma reads_directive {p : Point} {b r : Block} (hp : p.atStatement.scope = ⟨some b, some r⟩)
    {w : List Char} {line taken : ℕ} {ts : List Token} {d : Directive}
    (hs : readStatement ⟨some b, some r⟩ ⟨.word, w, line, 0⟩ ts = .ok (.directive d, taken)) :
    Reads p (⟨.word, w, line, 0⟩ :: ts) [⟨b.value, r.value, d, line⟩] p.atStatement
      (ts.drop taken) := by
  rw [← hp] at hs
  have hread := Reads.single (by simp) (by simp) hs
  rw [hp] at hread
  exact hread

/-- The target of a jump is read as one instruction. -/
lemma reads_target {p : Point} {b r : Block} (hp : p.atStatement.scope = ⟨some b, some r⟩)
    {w : List Char} (hw : w ∉ ["read".toList, "write".toList, "move".toList, "goto".toList])
    (line : ℕ) {ts : List Token} (hcolon : kind? ts ≠ some .colon)
    (harrow : kind? ts ≠ some .arrow) :
    Reads p (⟨.word, "goto".toList, line, 0⟩ :: ⟨.word, w, line, 0⟩ :: ts)
      [⟨b.value, r.value, .goto (destination w), line⟩] p.atStatement ts := by
  rw [List.mem_cons, not_or] at hw
  have hgoto : readStatement p.atStatement.scope ⟨.word, "goto".toList, line, 0⟩
      (⟨.word, w, line, 0⟩ :: ts) = .ok (.nothing, 0) := by
    rw [hp, readStatement_of_reading b r line (by simp [kind?]) (by simp [kind?]) (by decide)]
    rfl
  have htarget := readStatement_of_reading b r line hcolon harrow hw.1
  rw [readDirective_target hw.2] at htarget
  have hp' : p.atStatement.atStatement.scope = ⟨some b, some r⟩ := by
    rw [Point.atStatement_atStatement, hp]
  have hread := (Reads.single (by simp) (by simp) hgoto).trans (reads_directive hp' htarget)
  rw [Point.atStatement_atStatement] at hread
  exact hread

/-- A directive is read as one instruction for the open blocks. -/
lemma reads_command {p : Point} {b r : Block} (hp : p.atStatement.scope = ⟨some b, some r⟩)
    (c : Command) (line : ℕ) (ts : List Token) (hcolon : kind? ts ≠ some .colon)
    (harrow : kind? ts ≠ some .arrow) :
    Reads p (c.tokens line ++ ts) [⟨b.value, r.value, c.directive, line⟩] p.atStatement ts := by
  have hsub : ∀ w ∈ ["read".toList, "write".toList, "move".toList, "goto".toList],
      w ∈ keywords ∧ '!' ∉ w := by decide
  cases c with
  | write w =>
    have hs : readStatement ⟨some b, some r⟩ ⟨.word, "write".toList, line, 0⟩
        (⟨.word, [w.char], line, 0⟩ :: ts) = .ok (.directive (.write w.value), 1) := by
      rw [readStatement_of_reading b r line (by simp [kind?]) (by simp [kind?]) (by decide)]
      rfl
    exact reads_directive hp hs
  | move d =>
    have hs : readStatement ⟨some b, some r⟩ ⟨.word, "move".toList, line, 0⟩
        (⟨.word, d.short, line, 0⟩ :: ts) =
          .ok (.directive (.move (String.ofList d.short)), 1) := by
      rw [readStatement_of_reading b r line (by simp [kind?]) (by simp [kind?]) (by decide)]
      rfl
    exact reads_directive hp hs
  | goto q =>
    have hread := reads_target hp (fun hmem => q.notKeyword (hsub _ hmem).1) line hcolon harrow
    rwa [destination_name] at hread
  | halt q =>
    have hmark : '!' ∈ q.text ++ ['!'] := List.mem_append_right _ List.mem_cons_self
    have hread := reads_target hp (fun hmem => (hsub _ hmem).2 hmark) line hcolon harrow
    rwa [destination_halt] at hread

/-- Directives to the end of a line are read as one instruction each. -/
lemma reads_commands {p : Point} {b r : Block} (hp : p.atStatement.scope = ⟨some b, some r⟩)
    (c : Command) (cs : List Command) (line : ℕ) (us : List Token) :
    Reads p
      (c.tokens line ++ (cs.flatMap (Command.tokens line) ++ ⟨.newline, ['\n'], line, 0⟩ :: us))
      ((c :: cs).map fun c => ⟨b.value, r.value, c.directive, line⟩) p.atStatement.nextLine us := by
  induction cs generalizing p c with
  | nil =>
    have hread := reads_command hp c line (⟨.newline, ['\n'], line, 0⟩ :: us)
      (by simp [kind?]) (by simp [kind?])
    exact hread.trans (.newline rfl (.refl _ us))
  | cons d ds ih =>
    have hread := reads_command hp c line (d.tokens line ++
      (ds.flatMap (Command.tokens line) ++ ⟨.newline, ['\n'], line, 0⟩ :: us))
      (by simp [kind?, Command.tokens]) (by simp [kind?, Command.tokens])
    have hp' : p.atStatement.atStatement.scope = ⟨some b, some r⟩ := by
      rw [Point.atStatement_atStatement, hp]
    have hnext := hread.trans (ih hp' d)
    rw [Point.atStatement_atStatement] at hnext
    rw [List.flatMap_cons, List.append_assoc]
    exact hnext

/-- Directives behind a header are read as one instruction each. -/
lemma reads_behind (b r : Block) (depth : ℕ) (cs : List Command) (line : ℕ) (us : List Token) :
    Reads ⟨⟨some b, some r⟩, depth, false⟩
      (cs.flatMap (Command.tokens line) ++ ⟨.newline, ['\n'], line, 0⟩ :: us)
      (cs.map fun c => ⟨b.value, r.value, c.directive, line⟩) ⟨⟨some b, some r⟩, 0, true⟩ us := by
  cases cs with
  | nil => exact .newline rfl (.refl _ us)
  | cons c cs =>
    have hread := reads_commands (p := ⟨⟨some b, some r⟩, depth, false⟩) rfl c cs line us
    rw [List.flatMap_cons, List.append_assoc]
    exact hread

/-! ## Lines -/

/-- Lines are read, from a scope to a scope, as instructions that are given but for their lines. -/
def RowsSay (s : Scope) (rs : List Row) (js : List Instruction) (s' : Scope) : Prop :=
  ∀ (line : ℕ) (us : List Token), ∃ is, Reads ⟨s, 0, true⟩ (normalize (Row.tokensAll line rs) ++ us)
    is ⟨s', 0, true⟩ us ∧ is.map (Instruction.onLine 0) = js.map (Instruction.onLine 0)

/-- No rows say nothing. -/
lemma RowsSay.nil (s : Scope) : RowsSay s [] [] s :=
  fun _ us => ⟨[], .refl _ us, rfl⟩

/-- Lines are read one after the other. -/
lemma RowsSay.append {s s' s'' : Scope} {rs rs' : List Row} {js js' : List Instruction}
    (h : RowsSay s rs js s') (h' : RowsSay s' rs' js' s'') :
    RowsSay s (rs ++ rs') (js ++ js') s'' := by
  intro line us
  obtain ⟨is', hread', his'⟩ := h' (line + rs.length) us
  obtain ⟨is, hread, his⟩ := h line (normalize (Row.tokensAll (line + rs.length) rs') ++ us)
  refine ⟨is ++ is', ?_, ?_⟩
  · rw [Row.tokensAll_append, normalize, List.flatMap_append, List.append_assoc]
    exact hread.trans hread'
  · rw [List.map_append, List.map_append, his, his']

/-- The tokens of a line in their normal forms. -/
lemma normalize_row (line : ℕ) (r : Row) :
    normalize (r.tokens line) = Row.indentTokens line r.indent ++
      (Token.normal ⟨.word, r.first, line, 0⟩ ++ (Row.bracketTokens line r.symbol ++
        (normalize (r.rest.map (Lexeme.token line)) ++ [⟨.newline, ['\n'], line, 0⟩]))) := by
  have hindent : normalize (Row.indentTokens line r.indent) = Row.indentTokens line r.indent := by
    cases r.indent <;> rfl
  have hbracket : normalize (Row.bracketTokens line r.symbol) =
      Row.bracketTokens line r.symbol := by
    cases r.symbol <;> rfl
  have hnewline : normalize [⟨.newline, ['\n'], line, 0⟩] = [⟨.newline, ['\n'], line, 0⟩] := rfl
  rw [normalize] at hindent hbracket hnewline
  rw [normalize, Row.tokens, List.flatMap_append, List.flatMap_append, List.flatMap_cons,
    List.flatMap_append, hindent, hbracket, hnewline]
  simp only [normalize, List.append_assoc]

/-- A single line is read as its tokens are, whatever follows. -/
lemma RowsSay.of_reads {s s' : Scope} {r : Row} {js : List Instruction}
    (h : ∀ (line : ℕ) (us : List Token), ∃ is, Reads ⟨s, 0, true⟩
      (normalize (r.tokens line) ++ us) is ⟨s', 0, true⟩ us ∧
        is.map (Instruction.onLine 0) = js.map (Instruction.onLine 0)) :
    RowsSay s [r] js s' := by
  intro line us
  obtain ⟨is, hread, his⟩ := h line us
  refine ⟨is, ?_, his⟩
  rw [Row.tokensAll, Row.tokensAll, List.append_nil]
  exact hread

/-! ## Headers -/

/-- The header of a name is the state. -/
lemma Name.headerValue_text (q : Name) : headerValue q.text = q.value := by
  have hblank : ∀ c ∈ q.text, isBlank c = false :=
    fun c hc => (Cursor.isWordChar_iff.mp (q.plainWord.isWordChar c hc)).1
  rw [headerValue, trim_of_forall hblank]
  rfl

/-- The header of a symbol is the symbol. -/
lemma Symbol.headerValue_char (c : Symbol) : headerValue [c.char] = c.value := by
  have hblank : ∀ d ∈ [c.char], isBlank d = false :=
    fun d hd => (Cursor.isWordChar_iff.mp (c.plainWord.isWordChar d hd)).1
  rw [headerValue, trim_of_forall hblank]
  rfl

/-- The header of a state opens its block, wherever it stands. -/
lemma says_header (s : Scope) (q : Name) (trail : ℕ) :
    RowsSay s [⟨0, q.text, none, [.colon], trail⟩] [] ⟨some ⟨q.value, 0⟩, none⟩ := by
  refine .of_reads fun line us => ⟨[], ?_, rfl⟩
  have hs : readStatement (Point.atStatement ⟨s, 0, true⟩).scope ⟨.word, q.text, line, 0⟩
      (⟨.colon, [':'], line, 0⟩ :: ⟨.newline, ['\n'], line, 0⟩ :: us) =
        .ok (.openState q.value, 1) := by
    rw [Point.atStatement_true, Scope.leave_zero, ← q.headerValue_text]
    rfl
  have hread := (Reads.single (by simp) (by simp) hs).trans (.newline rfl (.refl _ us))
  rw [Point.atStatement_true, Scope.leave_zero] at hread
  rw [normalize_row, q.normal]
  exact hread

/-- What is open within a rule, whatever its style. -/
def Rule.opened (r : Rule) : Scope :=
  ⟨some ⟨r.state.value, 0⟩, some ⟨r.symbol.value, 4⟩⟩

/-- The word `read` opens the block of a symbol within that of its state. -/
lemma Rule.reads_read (x : Rule) (line : ℕ) (us : List Token) :
    Reads ⟨⟨some ⟨x.state.value, 0⟩, none⟩, 0, true⟩
      ([⟨.indent, List.replicate 4 ' ', line, 4⟩, ⟨.word, "read".toList, line, 0⟩,
        ⟨.word, [x.symbol.char], line, 0⟩, ⟨.colon, [':'], line, 0⟩] ++ us) []
      ⟨x.opened, 4, false⟩ us := by
  have hs : readStatement (Point.atStatement ⟨⟨some ⟨x.state.value, 0⟩, none⟩, 4, true⟩).scope
      ⟨.word, "read".toList, line, 0⟩
      (⟨.word, [x.symbol.char], line, 0⟩ :: ⟨.colon, [':'], line, 0⟩ :: us) =
        .ok (.openRead x.symbol.value, 2) := by
    rw [← x.symbol.headerValue_char]
    rfl
  exact .indent rfl (Reads.single (by simp) (by simp) hs)

/-- So does a symbol with an arrow. -/
lemma Rule.reads_arrow (x : Rule) (line : ℕ) (us : List Token) :
    Reads ⟨⟨some ⟨x.state.value, 0⟩, none⟩, 0, true⟩
      ([⟨.indent, List.replicate 4 ' ', line, 4⟩, ⟨.word, [x.symbol.char], line, 0⟩,
        ⟨.arrow, ['-', '>'], line, 0⟩] ++ us) [] ⟨x.opened, 4, false⟩ us := by
  have hs : readStatement (Point.atStatement ⟨⟨some ⟨x.state.value, 0⟩, none⟩, 4, true⟩).scope
      ⟨.word, [x.symbol.char], line, 0⟩ (⟨.arrow, ['-', '>'], line, 0⟩ :: us) =
        .ok (.openRead x.symbol.value, 1) := by
    rw [← x.symbol.headerValue_char]
    rfl
  exact .indent rfl (Reads.single (by simp) (by simp) hs)

/-- A state with a symbol in parentheses and an arrow opens both blocks, the second deeper than the
line. -/
lemma Rule.reads_call (x : Rule) (s : Scope) (line : ℕ) (us : List Token) :
    Reads ⟨s, 0, true⟩ ([⟨.word, x.state.text, line, 0⟩,
      ⟨.bracketed, ['(', x.symbol.char, ')'], line, 0⟩, ⟨.arrow, ['-', '>'], line, 0⟩] ++ us) []
      ⟨x.opened, 0, false⟩ us := by
  have hs : readStatement (Point.atStatement ⟨s, 0, true⟩).scope ⟨.word, x.state.text, line, 0⟩
      (⟨.bracketed, ['(', x.symbol.char, ')'], line, 0⟩ :: ⟨.arrow, ['-', '>'], line, 0⟩ :: us) =
        .ok (.openStateRead x.state.value x.symbol.value, 2) := by
    rw [Point.atStatement_true, Scope.leave_zero, ← x.state.headerValue_text,
      ← x.symbol.headerValue_char]
    rfl
  have hread := Reads.single (by simp) (by simp) hs
  rw [Point.atStatement_true, Scope.leave_zero] at hread
  exact hread

/-- A state with an arrow does so for the wildcard. -/
lemma Rule.reads_bare (x : Rule) (hx : x.symbol.char = '*') (s : Scope) (line : ℕ)
    (us : List Token) :
    Reads ⟨s, 0, true⟩ ([⟨.word, x.state.text, line, 0⟩, ⟨.arrow, ['-', '>'], line, 0⟩] ++ us) []
      ⟨x.opened, 0, false⟩ us := by
  have hsymbol : x.symbol.value = wildcard := by
    rw [Symbol.value, hx]
    decide
  have hs : readStatement (Point.atStatement ⟨s, 0, true⟩).scope ⟨.word, x.state.text, line, 0⟩
      (⟨.arrow, ['-', '>'], line, 0⟩ :: us) =
        .ok (.openStateRead x.state.value x.symbol.value, 1) := by
    rw [Point.atStatement_true, Scope.leave_zero, ← x.state.headerValue_text, hsymbol]
    rfl
  have hread := Reads.single (by simp) (by simp) hs
  rw [Point.atStatement_true, Scope.leave_zero] at hread
  exact hread

/-! ## Styles -/

/-- The instructions of a rule at another line. -/
lemma Rule.map_onLine_instructions (x : Rule) (line line' : ℤ) :
    (x.instructions line).map (Instruction.onLine line') = x.instructions line' := by
  rw [instructions, List.map_map]
  rfl

/-- A line that opens the blocks of a rule and goes on with directives. -/
lemma Rule.says_of_opening (x : Rule) {s : Scope} {r : Row} {opening : ℕ → List Token} {depth : ℕ}
    {cs : List Command}
    (htokens : ∀ line, normalize (r.tokens line) =
      opening line ++ (cs.flatMap (Command.tokens line) ++ [⟨.newline, ['\n'], line, 0⟩]))
    (hopen : ∀ line us, Reads ⟨s, 0, true⟩ (opening line ++ us) [] ⟨x.opened, depth, false⟩ us)
    (line : ℤ) : RowsSay s [r] (Rule.instructions line { x with commands := cs }) x.opened := by
  apply RowsSay.of_reads
  intro n us
  have hread := (hopen n _).trans
    (reads_behind ⟨x.state.value, 0⟩ ⟨x.symbol.value, 4⟩ depth cs n us)
  refine ⟨Rule.instructions n { x with commands := cs }, ?_, ?_⟩
  · rw [htokens, List.append_assoc, List.append_assoc]
    exact hread
  · rw [Rule.map_onLine_instructions, Rule.map_onLine_instructions]

section Styles

variable (x : Rule) (cs : List Command) (trail : ℕ) (line : ℤ)

/-- The line `read c: d d`. -/
lemma Rule.says_read :
    RowsSay ⟨some ⟨x.state.value, 0⟩, none⟩
      [⟨4, "read".toList, none,
        .word [x.symbol.char] :: .colon :: cs.flatMap Command.lexemes, trail⟩]
      (Rule.instructions line { x with commands := cs }) x.opened := by
  refine x.says_of_opening (fun n => ?_) x.reads_read line
  rw [normalize_row, ← Command.normalize_lexemes]
  change _ ++ (_ ++ (_ ++ ((Token.normal ⟨.word, [x.symbol.char], n, 0⟩ ++ _) ++ _))) = _
  rw [x.symbol.normal]
  rfl

/-- The line `else: d d`. -/
lemma Rule.says_else (hx : x.symbol.char = '*') :
    RowsSay ⟨some ⟨x.state.value, 0⟩, none⟩
      [⟨4, "else".toList, none, .colon :: cs.flatMap Command.lexemes, trail⟩]
      (Rule.instructions line { x with commands := cs }) x.opened := by
  refine x.says_of_opening (fun n => ?_) x.reads_read line
  rw [normalize_row, ← Command.normalize_lexemes, hx]
  rfl

/-- The line `c -> d d`. -/
lemma Rule.says_arrow :
    RowsSay ⟨some ⟨x.state.value, 0⟩, none⟩
      [⟨4, [x.symbol.char], none, .arrow :: cs.flatMap Command.lexemes, trail⟩]
      (Rule.instructions line { x with commands := cs }) x.opened := by
  refine x.says_of_opening (fun n => ?_) x.reads_arrow line
  rw [normalize_row, ← Command.normalize_lexemes, x.symbol.normal]
  rfl

/-- The line `s(c) -> d d`. -/
lemma Rule.says_call (s : Scope) :
    RowsSay s [⟨0, x.state.text, some x.symbol.char, .arrow :: cs.flatMap Command.lexemes, trail⟩]
      (Rule.instructions line { x with commands := cs }) x.opened := by
  refine x.says_of_opening (fun n => ?_) (x.reads_call s) line
  rw [normalize_row, ← Command.normalize_lexemes, x.state.normal]
  rfl

/-- The line `s -> d d`. -/
lemma Rule.says_bare (hx : x.symbol.char = '*') (s : Scope) :
    RowsSay s [⟨0, x.state.text, none, .arrow :: cs.flatMap Command.lexemes, trail⟩]
      (Rule.instructions line { x with commands := cs }) x.opened := by
  refine x.says_of_opening (fun n => ?_) (x.reads_bare hx s) line
  rw [normalize_row, ← Command.normalize_lexemes, x.state.normal]
  rfl

/-- A line of directives in the block of the symbol. -/
lemma Rule.says_blockLine :
    RowsSay x.opened (StyledRule.blockLine trail cs)
      (Rule.instructions line { x with commands := cs }) x.opened := by
  cases cs with
  | nil => exact .nil x.opened
  | cons c cs =>
    apply RowsSay.of_reads
    intro n us
    have hread := reads_commands (p := ⟨x.opened, 8, true⟩) (b := ⟨x.state.value, 0⟩)
      (r := ⟨x.symbol.value, 4⟩) rfl c cs n us
    refine ⟨Rule.instructions n { x with commands := c :: cs }, ?_, ?_⟩
    · have htokens : normalize (Row.tokens n
          ⟨8, c.keyword, none, .word c.operand :: cs.flatMap Command.lexemes, trail⟩) ++ us =
          ⟨.indent, List.replicate 8 ' ', n, 8⟩ :: (c.tokens n ++
            (cs.flatMap (Command.tokens n) ++ ⟨.newline, ['\n'], n, 0⟩ :: us)) := by
        have hrest : normalize ((.word c.operand :: cs.flatMap Command.lexemes).map
            (Lexeme.token n)) = ⟨.word, c.short, n, 0⟩ :: cs.flatMap (Command.tokens n) := by
          change Token.normal ⟨.word, c.operand, n, 0⟩ ++ normalize _ = _
          rw [c.normal_operand, Command.normalize_lexemes]
          rfl
        rw [normalize_row, c.normal_keyword, hrest]
        simp [Row.indentTokens, Row.bracketTokens, Command.tokens]
      rw [htokens]
      exact .indent rfl hread
    · rw [Rule.map_onLine_instructions, Rule.map_onLine_instructions]

end Styles

/-- Lines of directives in the block of the symbol. -/
lemma Rule.says_block (x : Rule) (cs : List Command) (trail : ℕ) (line : ℤ) :
    RowsSay x.opened (StyledRule.block trail cs)
      (Rule.instructions line { x with commands := cs }) x.opened := by
  induction cs with
  | nil => exact .nil x.opened
  | cons c cs ih => exact (x.says_blockLine [c] trail line).append ih

/-- However a rule is laid out, it is read as its instructions. -/
theorem StyledRule.says_rows (x : StyledRule) (s : Scope) (line : ℤ) :
    RowsSay s x.rows (x.rule.instructions line) x.rule.opened := by
  obtain ⟨x, style, trail, hwild⟩ := x
  have hheader := says_header s x.state trail
  cases style with
  | nested =>
    have hopen := x.says_read [] trail line
    exact (hheader.append hopen).append (x.says_block x.commands trail line)
  | inline => exact hheader.append (x.says_read x.commands trail line)
  | arrow => exact hheader.append (x.says_arrow x.commands trail line)
  | call => exact x.says_call x.commands trail line s
  | bare => exact x.says_bare x.commands trail line (hwild rfl) s
  | otherwise =>
    have hopen := x.says_else [] trail line (hwild rfl)
    exact (hheader.append hopen).append (x.says_block x.commands trail line)
  | otherwiseTogether =>
    have hopen := x.says_else [] trail line (hwild rfl)
    exact (hheader.append hopen).append (x.says_blockLine x.commands trail line)

/-- Rules are read one after the other, each in its style. -/
lemma says_flatMap_rows (xs : List StyledRule) (s : Scope) (line : ℤ) :
    ∃ s', RowsSay s (xs.flatMap StyledRule.rows)
      (xs.flatMap fun x => x.rule.instructions line) s' := by
  induction xs generalizing s with
  | nil => exact ⟨s, .nil s⟩
  | cons x xs ih =>
    obtain ⟨s', hxs⟩ := ih x.rule.opened
    exact ⟨s', (x.says_rows s line).append hxs⟩

/-! ## Compiling rules -/

/-- There is no spacing between the tokens of a line. -/
lemma Row.kind_ne_space {r : Row} {line : ℕ} {t : Token} (h : t ∈ r.tokens line) :
    t.kind ≠ .space := by
  simp only [tokens, List.mem_append, List.mem_cons, List.mem_map, List.not_mem_nil,
    or_false] at h
  rcases h with (h | rfl | h | ⟨l, -, rfl⟩) | rfl
  · cases hr : r.indent with
    | zero => simp [hr, indentTokens] at h
    | succ n =>
      simp only [hr, indentTokens, List.mem_singleton] at h
      simp [h]
  · simp
  · cases hr : r.symbol with
    | none => simp [hr, bracketTokens] at h
    | some c =>
      simp only [hr, bracketTokens, List.mem_singleton] at h
      simp [h]
  · cases l <;> simp [Lexeme.token]
  · simp

/-- There are no spaces among the tokens of rows. -/
lemma Row.kind_ne_space_of_mem_tokensAll {rs : List Row} {line : ℕ} {t : Token}
    (h : t ∈ tokensAll line rs) : t.kind ≠ .space := by
  induction rs generalizing line with
  | nil => cases h
  | cons r rs ih =>
    rcases List.mem_append.mp h with h | h
    · exact kind_ne_space h
    · exact ih h

/-- The draft of lines that are read as instructions has these, but for their lines. -/
lemma RowsSay.draft {text : List Char} {rs : List Row} {js : List Instruction} {s' : Scope}
    (h : RowsSay {} rs js s')
    (htokens : programTokens text = .ok (normalize (Row.tokensAll 1 rs))) :
    ∃ is, draft text = .ok (.ofInstructions is) ∧
      is.map (Instruction.onLine 0) = js.map (Instruction.onLine 0) := by
  obtain ⟨is, hread, his⟩ := h 1 []
  rw [List.append_nil] at hread
  refine ⟨is, draft_eq_ok_iff.mpr ⟨_, is, htokens, ?_, rfl⟩, his⟩
  have hfilter : (normalize (Row.tokensAll 1 rs)).filter (fun t => t.kind != .space) =
      normalize (Row.tokensAll 1 rs) := by
    rw [List.filter_eq_self]
    intro t ht
    obtain ⟨u, hu, ht⟩ := List.mem_flatMap.mp ht
    rw [(Token.of_mem_normal ht).1]
    simpa using Row.kind_ne_space_of_mem_tokensAll hu
  rw [instructions, hfilter]
  exact readFrom_eq_ok_iff.mpr ⟨_, hread⟩

/-- The draft of a text of rules has the instructions of the rules, but for their lines. -/
lemma draft_render (xs : List StyledRule) (line : ℤ) :
    ∃ is, draft (render xs) = .ok (.ofInstructions is) ∧ is.map (Instruction.onLine 0) =
      (xs.flatMap fun x => x.rule.instructions line).map (Instruction.onLine 0) := by
  obtain ⟨s', hsays⟩ := says_flatMap_rows xs {} line
  exact hsays.draft (programTokens_render xs)

/-- The transitions of rules: each rule's directives are merged in, one after the other. -/
def Rule.transitions (rs : List Rule) (line : ℤ) : List Transition :=
  (Draft.ofInstructions (rs.flatMap (Rule.instructions line))).transitions

/-- What an instruction says is valid: its symbols are single characters and its direction is
accepted. -/
structure Instruction.Valid (i : Instruction) : Prop where
  cell : i.cell.length = 1
  move : ∀ d, i.directive = .move d → (Direction.parse? d).isSome = true
  write : ∀ w, i.directive = .write w → w.length = 1

/-- Valid instructions make valid transitions: what they leave unsaid has valid defaults. -/
lemma Draft.valid_of_forall {is : List Instruction} (h : ∀ i ∈ is, i.Valid) :
    ∀ t ∈ (ofInstructions is).transitions, t.Valid := by
  intro t ht
  obtain ⟨e, he, rfl⟩ := List.mem_map.mp ht
  have hsaid := said_of_mem_entries he
  refine Transition.valid_iff.mpr ⟨?_, ?_, ?_⟩
  · cases hm : e.move with
    | none =>
      simp only [Entry.transition, hm, Option.getD_none]
      decide
    | some m =>
      obtain ⟨i, hi, hd⟩ := hsaid.move m hm
      simp only [Entry.transition, hm, Option.getD_some]
      exact (h i hi).move m hd
  · obtain ⟨i, hi, -, hcell⟩ := hsaid.mention
    change e.cell.length = 1
    rw [← hcell]
    exact (h i hi).cell
  · cases hw : e.write with
    | none =>
      simp only [Entry.transition, hw, Option.getD_none]
      decide
    | some s =>
      obtain ⟨i, hi, hd⟩ := hsaid.write s hw
      simp only [Entry.transition, hw, Option.getD_some]
      exact (h i hi).write s hd

/-- The directions are accepted in all their spellings. -/
lemma Spelling.parse?_short (d : Spelling) :
    (Direction.parse? (String.ofList d.short)).isSome = true := by
  cases d <;> decide

/-- What a rule says is valid: its symbols are single characters and its directions accepted. -/
lemma Rule.valid_of_mem_instructions {r : Rule} {line : ℤ} {i : Instruction}
    (h : i ∈ r.instructions line) : i.Valid := by
  obtain ⟨c, -, rfl⟩ := List.mem_map.mp h
  refine ⟨by simp [Symbol.value], fun m hm => ?_, fun w hw => ?_⟩
  · cases c with
    | move d =>
      cases hm
      exact d.parse?_short
    | write w => cases hm
    | goto q => cases hm
    | halt q => cases hm
  · cases c with
    | write w =>
      cases hw
      simp [Symbol.value]
    | move d => cases hw
    | goto q => cases hw
    | halt q => cases hw

/-- Lines that are read as valid instructions compile to the table of these. -/
lemma RowsSay.compile {text : List Char} {rs : List Row} {js : List Instruction} {s' : Scope}
    (h : RowsSay {} rs js s') (htokens : programTokens text = .ok (normalize (Row.tokensAll 1 rs)))
    (hvalid : ∀ i ∈ js, i.Valid) (start : String) :
    compile (String.ofList text) start = .ok
      { initial := if start = "" then
          ((Draft.ofInstructions js).transitions.head?.map (·.state)).getD "" else start
        groups := (Draft.ofInstructions js).tableGroups
        frozen := true } := by
  obtain ⟨is, hdraft, his⟩ := h.draft htokens
  have hgroups : (Draft.ofInstructions is).tableGroups = (Draft.ofInstructions js).tableGroups := by
    rw [← Draft.tableGroups_map_onLine 0 is, his, Draft.tableGroups_map_onLine]
  have htransitions : (Draft.ofInstructions is).transitions =
      (Draft.ofInstructions js).transitions := by
    rw [← Draft.flatMap_tableGroups, hgroups, Draft.flatMap_tableGroups]
  refine compile_eq_ok_iff.mpr ⟨is, ?_, ?_, ?_⟩
  · rw [String.toList_ofList]
    exact hdraft
  · rw [htransitions]
    exact Draft.valid_of_forall hvalid
  · rw [htransitions, hgroups]

/-- Texts of the same rules have drafts with the same transitions, state by state. -/
lemma tableGroups_draft_render (xs : List StyledRule) (line : ℤ) :
    ∃ is, draft (render xs) = .ok (.ofInstructions is) ∧
      (Draft.ofInstructions is).tableGroups = (Draft.ofInstructions
        ((xs.map StyledRule.rule).flatMap (Rule.instructions line))).tableGroups := by
  obtain ⟨is, hdraft, his⟩ := draft_render xs line
  refine ⟨is, hdraft, ?_⟩
  rw [← Draft.tableGroups_map_onLine 0 is, his, Draft.tableGroups_map_onLine, List.flatMap_map]

/-- A text of rules compiles to the table of the rules. -/
lemma compile_render (xs : List StyledRule) (line : ℤ) :
    compile (String.ofList (render xs)) = .ok
      { initial := ((Rule.transitions (xs.map StyledRule.rule) line).head?.map (·.state)).getD ""
        groups := (Draft.ofInstructions
          ((xs.map StyledRule.rule).flatMap (Rule.instructions line))).tableGroups
        frozen := true } := by
  obtain ⟨s', hsays⟩ := says_flatMap_rows xs {} line
  have hvalid : ∀ i ∈ xs.flatMap (fun x => x.rule.instructions line), i.Valid := by
    intro i hi
    obtain ⟨x, -, hi⟩ := List.mem_flatMap.mp hi
    exact Rule.valid_of_mem_instructions hi
  rw [Rule.transitions, List.flatMap_map]
  exact hsays.compile (programTokens_render xs) hvalid ""

/-- Shorthand is no more than shorthand. For every list of rules, each in any of its styles, the
text of the rules can be read, its transitions are those of the rules' directives merged in order,
and it compiles to a table with these transitions. So another choice of styles compiles to the same
table. -/
theorem styles_compile_alike (xs : List StyledRule) (line : ℤ) :
    (draft (render xs)).map Draft.transitions =
        .ok (Rule.transitions (xs.map StyledRule.rule) line) ∧
      (compile (String.ofList (render xs))).map Table.transitions =
        .ok (Rule.transitions (xs.map StyledRule.rule) line) ∧
      ∀ ys : List StyledRule, ys.map StyledRule.rule = xs.map StyledRule.rule →
        compile (String.ofList (render ys)) = compile (String.ofList (render xs)) := by
  refine ⟨?_, ?_, ?_⟩
  · obtain ⟨is, hdraft, hgroups⟩ := tableGroups_draft_render xs line
    rw [hdraft]
    change Except.ok (Draft.ofInstructions is).transitions = _
    rw [← Draft.flatMap_tableGroups, hgroups, Draft.flatMap_tableGroups]
    rfl
  · rw [compile_render xs line]
    change Except.ok (List.flatMap _ _) = _
    rw [Draft.flatMap_tableGroups]
    rfl
  · intro ys hys
    rw [compile_render ys line, compile_render xs line, hys]

/-- A rule for the wildcard, which can be written in every style. -/
def Rule.eraseAndStop : Rule where
  state := ⟨['a'], by decide, by decide, by decide⟩
  symbol := ⟨'*', by decide⟩
  commands := [.write ⟨'_', by decide⟩, .move .right,
    .halt ⟨['b'], by decide, by decide, by decide⟩]

/-- Four of the styles of one rule. -/
theorem styles_compile_alike_eraseAndStop :
    (compile "a -> write _ move right goto b!\n").map Table.transitions =
        .ok [⟨"a", "*", "_", "r", "halt-b"⟩] ∧
      compile "a:\n    read *:\n        write _\n        move right\n        goto b!\n" =
        compile "a -> write _ move right goto b!\n" ∧
      compile "a:\n    * -> write _ move right goto b!\n" =
        compile "a -> write _ move right goto b!\n" ∧
      compile "a(*) -> write _ move right goto b!\n" =
        compile "a -> write _ move right goto b!\n" := by
  have hall := styles_compile_alike [⟨.eraseAndStop, .bare, 0, by decide⟩] 0
  have hnested := hall.2.2 [⟨.eraseAndStop, .nested, 0, by decide⟩] rfl
  have harrow := hall.2.2 [⟨.eraseAndStop, .arrow, 0, by decide⟩] rfl
  have hcall := hall.2.2 [⟨.eraseAndStop, .call, 0, by decide⟩] rfl
  exact ⟨hall.2.1, hnested, harrow, hcall⟩

end TapeMachine.Program
