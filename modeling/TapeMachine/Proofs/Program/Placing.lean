import TapeMachine.Proofs.Program.Lexing
import TapeMachine.Proofs.Text.Bytes

/-!
# Where tokens stand

Everything in a text that is not white space belongs to a token. `Spelled` says how the tokens are
spelled that are neither white space nor the end of a line, and `Finds` says what a step forward
finds at the front of a text: it passes over white space, or it finds a token that the text begins
with (`finds_of_step`). A text is `Clean` if it holds no control character but white space; there
every step goes forward or meets a fault, so the tokenizer comes to an end.

Taken together, the steps make the tokens stand in the text (`StandIn`): the text is the tokens one
after the other, each behind some white space that holds no newline (`Lexes.standIn`). So nothing is
lost but white space, and the line of a token counts the newlines before it.
-/

namespace TapeMachine.Program

open Text

/-! ## Words -/

section Words

variable {c : Char} {cs w pre post : List Char}

/-- A word is the longest word at its own front. -/
lemma takeWord_fst (cs : List Char) : takeWord (takeWord cs).1 = ((takeWord cs).1, []) := by
  induction cs with
  | nil => rfl
  | cons c cs ih =>
    by_cases hc : (isWordChar c || (c == '-' && hyphenJoins cs)) = true
    · have hc' : (isWordChar c || (c == '-' && hyphenJoins (takeWord cs).1)) = true := by
        simp only [Bool.or_eq_true, Bool.and_eq_true] at hc ⊢
        refine hc.imp_right fun ⟨hhyphen, hjoins⟩ => ⟨hhyphen, ?_⟩
        -- The character that the hyphen joins is in the word.
        cases cs with
        | nil => cases hjoins
        | cons d cs =>
          have hd : isWordChar d = true := by
            simp only [hyphenJoins, Bool.and_eq_true] at hjoins
            exact hjoins.2
          rw [Cursor.takeWord_cons_of_pos (by simp [hd])]
          exact hjoins
      rw [Cursor.takeWord_cons_of_pos hc]
      simp only
      rw [Cursor.takeWord_cons_of_pos hc', ih]
    · rw [Cursor.takeWord_cons_of_neg hc]
      rfl

/-- A text that is a word as a whole goes on as one. -/
lemma of_takeWord_cons (h : takeWord (c :: cs) = (c :: cs, [])) :
    (isWordChar c = true ∨ c = '-' ∧ hyphenJoins cs = true) ∧ takeWord cs = (cs, []) := by
  by_cases hc : (isWordChar c || (c == '-' && hyphenJoins cs)) = true
  · rw [Cursor.takeWord_cons_of_pos hc] at h
    simp only [Prod.mk.injEq, List.cons.injEq, true_and] at h
    refine ⟨?_, Prod.ext h.1 h.2⟩
    simpa using hc
  · rw [Cursor.takeWord_cons_of_neg hc] at h
    cases h

/-- Every hyphen in a word joins. -/
lemma hyphenJoins_of_takeWord (h : takeWord w = (w, [])) (hw : w = pre ++ '-' :: post) :
    hyphenJoins post = true := by
  induction pre generalizing w with
  | nil =>
    subst hw
    rcases (of_takeWord_cons h).1 with hhyphen | hjoins
    · exact absurd hhyphen (by decide)
    · exact hjoins.2
  | cons c pre ih =>
    subst hw
    exact ih (of_takeWord_cons h).2 rfl

/-- A text that is one word has only word characters and hyphens in it. -/
lemma isWordChar_or_eq_hyphen (h : takeWord w = (w, [])) (hc : c ∈ w) :
    isWordChar c = true ∨ c = '-' := by
  induction w with
  | nil => cases hc
  | cons d w ih =>
    obtain ⟨hd, hw⟩ := of_takeWord_cons h
    rcases List.mem_cons.mp hc with rfl | hc
    · exact hd.imp_right And.left
    · exact ih hw hc

end Words

/-! ## Spellings -/

/-- How a token is spelled that is neither white space nor the end of a line. -/
inductive Spelled : Kind → List Char → Prop
  | arrow : Spelled .arrow ['-', '>']
  | colon : Spelled .colon [':']
  | bracketed {c : Char} (hc : (c == ')' || isBlank c || c.toNat == 0) = false) :
      Spelled .bracketed ['(', c, ')']
  | hyphen : Spelled .word ['-']
  | word {c : Char} {w : List Char} (hc : isWordChar c = true) (hw : takeWord w = (w, [])) :
      Spelled .word (c :: w)

/-- What a word looks like: it is not empty and holds neither white space nor any of the marks, nor
an arrow, and a hyphen stands at its start or end only if it is the word. -/
structure WordShape (w : List Char) : Prop where
  ne_nil : w ≠ []
  solid : ∀ c ∈ w, isBlank c = false
  unmarked : ∀ c ∈ w, c ∉ [':', '(', ')', '{', '}']
  arrowless : ¬ ['-', '>'] <:+: w
  hyphen : w = ['-'] ∨ w.head? ≠ some '-' ∧ w.getLast? ≠ some '-'

/-- Words are spelled as words look. -/
theorem Spelled.wordShape {text : List Char} (h : Spelled .word text) : WordShape text := by
  cases h with
  | hyphen =>
    have hsolid : isBlank '-' = false := by decide
    have hunmarked : '-' ∉ [':', '(', ')', '{', '}'] := by decide
    exact ⟨by decide, List.forall_mem_singleton.mpr hsolid, List.forall_mem_singleton.mpr hunmarked,
      by decide, .inl rfl⟩
  | @word c w hc hw =>
    have hfirst : c ≠ '-' := (Cursor.isWordChar_iff.mp hc).2.2.2.2.2.2.2
    have hchars : ∀ d ∈ c :: w, isWordChar d = true ∨ d = '-' :=
      List.forall_mem_cons.mpr ⟨.inl hc, fun d hd => isWordChar_or_eq_hyphen hw hd⟩
    have hjoins : ∀ pre post, c :: w = pre ++ '-' :: post → hyphenJoins post = true := by
      intro pre post heq
      cases pre with
      | nil => exact absurd (List.cons.inj heq).1 hfirst
      | cons d pre => exact hyphenJoins_of_takeWord hw (List.cons.inj heq).2
    refine ⟨by simp, fun d hd => ?_, fun d hd => ?_, ?_, .inr ⟨?_, ?_⟩⟩
    · rcases hchars d hd with hd | rfl
      · exact (Cursor.isWordChar_iff.mp hd).1
      · decide
    · rcases hchars d hd with hd | rfl
      · obtain ⟨-, -, h1, h2, h3, h4, h5, -⟩ := Cursor.isWordChar_iff.mp hd
        simp [h1, h2, h3, h4, h5]
      · decide
    · rintro ⟨pre, post, heq⟩
      rw [List.append_assoc] at heq
      exact absurd (hjoins pre ('>' :: post) heq.symm) (by simp [hyphenJoins])
    · simpa using hfirst
    · intro hlast
      obtain ⟨pre, heq⟩ := List.getLast?_eq_some_iff.mp hlast
      exact absurd (hjoins pre [] heq) (by simp [hyphenJoins])

/-! ## Steps -/

namespace Cursor

variable {p q : Cursor} {c : Char} {cs : List Char} {s : Step}

/-- What a step forward finds at the front of a text, and where it leads. -/
inductive Finds (p : Cursor) : List Char → Step → Prop
  | pass {passed rest : List Char}
      (hpassed : ∀ d ∈ passed, isBlank d = true ∧ d ≠ '\n') (hne : passed ≠ []) :
      Finds p (passed ++ rest) ⟨none, { p with rest }⟩
  | newline (rest : List Char) :
      Finds p ('\n' :: rest) ⟨some ⟨.newline, ['\n'], p.line, 0⟩, ⟨rest, p.line + 1, true⟩⟩
  | indent {run rest : List Char} (hstart : p.lineStart = true) (hne : run ≠ []) :
      Finds p (run ++ rest) ⟨some ⟨.indent, run, p.line, spacingWidth run⟩, ⟨rest, p.line, false⟩⟩
  | space {run rest : List Char} (hstart : p.lineStart = false) (hne : run ≠ []) :
      Finds p (run ++ rest) ⟨some ⟨.space, run, p.line, spacingWidth run⟩, ⟨rest, p.line, false⟩⟩
  | found {kind : Kind} {text rest : List Char} (htext : Spelled kind text) :
      Finds p (text ++ rest) ⟨some ⟨kind, text, p.line, 0⟩, ⟨rest, p.line, false⟩⟩

/-- A run of blanks is indentation or spacing, or it is passed over. -/
lemma finds_blanks (hc : isSpacing c = true) : Finds p (c :: cs) (p.blanks c cs) := by
  have hcut : c :: cs = (c :: cs.takeWhile isSpacing) ++ cs.dropWhile isSpacing := by
    rw [List.cons_append, List.takeWhile_append_dropWhile]
  have hrun : ∀ d ∈ c :: cs.takeWhile isSpacing, isSpacing d = true :=
    List.forall_mem_cons.mpr ⟨hc, fun d hd => List.mem_takeWhile_imp hd⟩
  have hpassed : ∀ d ∈ c :: cs.takeWhile isSpacing, isBlank d = true ∧ d ≠ '\n' := by
    intro d hd
    have hspacing := hrun d hd
    simp only [isSpacing, Bool.or_eq_true, beq_iff_eq] at hspacing
    rcases hspacing with rfl | rfl
    · decide
    · decide
  rw [hcut]
  unfold blanks
  simp only
  split
  · exact .indent ‹_› (by simp)
  · rename_i hstart
    split
    · exact .space (Bool.eq_false_iff.mpr hstart) (by simp)
    · exact .pass hpassed (by simp)

/-- Every step forward finds one of these. -/
theorem finds_of_step (h : p.step c cs = .ok s) (hlt : s.next.rest.length < (c :: cs).length) :
    Finds p (c :: cs) s := by
  have hskip : isBlank c = true → c ≠ '\n' → p.skip cs = .ok s → Finds p (c :: cs) s := by
    intro hblank hnewline h
    cases h
    have hpassed : ∀ d ∈ [c], isBlank d = true ∧ d ≠ '\n' :=
      List.forall_mem_singleton.mpr ⟨hblank, hnewline⟩
    exact .pass hpassed (by simp)
  have hcontrol := (length_step_lt_iff h).mp hlt
  unfold step at h
  split at h
  · rename_i hreturn
    obtain rfl := beq_iff_eq.mp hreturn
    exact hskip (by decide) (by decide) h
  split at h
  · rename_i hnewline
    obtain rfl := beq_iff_eq.mp hnewline
    cases h
    exact .newline cs
  rename_i hnewline
  split at h
  · cases h
    exact finds_blanks ‹_›
  split at h
  · rename_i hhyphen
    obtain rfl := beq_iff_eq.mp hhyphen
    split at h
    · cases h
      exact .found .arrow
    · cases h
      exact .found .hyphen
  split at h
  · rename_i hcolon
    obtain rfl := beq_iff_eq.mp hcolon
    cases h
    exact .found .colon
  split at h
  · rename_i hopening
    obtain rfl := beq_iff_eq.mp hopening
    obtain ⟨d, rest, rfl, hd, rfl⟩ := bracket_eq_ok_iff.mp h
    exact .found (.bracketed hd)
  split at h
  · cases h
  split at h
  · cases h
  split at h
  · exact hskip ‹_› (by simpa using hnewline) h
  · rename_i hhyphen hcolon hopening hbrace hclosing hblank
    have hword : isWordChar c = true := by
      rw [Bool.or_eq_true, not_or] at hclosing
      simp only [beq_iff_eq, Bool.not_eq_true] at hhyphen hcolon hopening hbrace hclosing hblank
      refine isWordChar_iff.mpr ⟨hblank, Bool.eq_false_iff.mpr fun hc => ?_, hcolon, hopening,
        hclosing.1, hbrace, hclosing.2, hhyphen⟩
      exact absurd (hblank.symm.trans (hcontrol hc)) (by decide)
    rw [takeWord_cons_of_pos (by simp [hword])] at h
    cases h
    rw [← takeWord_append_eq cs, ← List.cons_append, takeWord_append_eq]
    exact .found (.word hword (takeWord_fst cs))

/-- A step forward passes over white space of a line, or over the text of the token that it
finds. -/
lemma passed_of_step (h : p.step c cs = .ok s) (hlt : s.next.rest.length < (c :: cs).length) :
    (s.token = none ∧ ∃ passed, passed ≠ [] ∧ c :: cs = passed ++ s.next.rest ∧
      (∀ d ∈ passed, isBlank d = true ∧ d ≠ '\n') ∧ s.next.line = p.line) ∨
    ∃ t, s.token = some t ∧ t.text ≠ [] ∧ c :: cs = t.text ++ s.next.rest ∧ t.line = p.line ∧
      s.next.line = p.line + t.text.count '\n' := by
  obtain ⟨-, hcount, -⟩ := line_of_step h
  -- The newlines of the text that are not in the rest are in the text of the token.
  have hlines : ∀ {passed : List Char}, c :: cs = passed ++ s.next.rest →
      s.next.line = p.line + passed.count '\n' := by
    intro passed hpassed
    rw [hpassed, List.count_append] at hcount
    omega
  have hfinds := finds_of_step h hlt
  generalize c :: cs = text at hfinds hlines
  cases hfinds with
  | pass hpassed hne => exact .inl ⟨rfl, _, hne, rfl, hpassed, rfl⟩
  | newline rest => exact .inr ⟨_, rfl, by simp, rfl, rfl, hlines rfl⟩
  | indent hstart hne => exact .inr ⟨_, rfl, hne, rfl, rfl, hlines rfl⟩
  | space hstart hne => exact .inr ⟨_, rfl, hne, rfl, rfl, hlines rfl⟩
  | found hspelled =>
    refine .inr ⟨_, rfl, ?_, rfl, rfl, hlines rfl⟩
    cases hspelled <;> simp

/-- A step forward leaves what is behind the text that it passes over. -/
lemma forward_of_step (h : p.step c cs = .ok s) (hlt : s.next.rest.length < (c :: cs).length) :
    ∃ passed, passed ≠ [] ∧ c :: cs = passed ++ s.next.rest := by
  rcases passed_of_step h hlt with ⟨-, passed, hne, hcs, -⟩ | ⟨t, -, hne, hcs, -⟩
  · exact ⟨passed, hne, hcs⟩
  · exact ⟨t.text, hne, hcs⟩

/-- Every word that a step forward finds looks like one. -/
lemma wordShape_of_step (h : p.step c cs = .ok s) (hlt : s.next.rest.length < (c :: cs).length)
    {t : Token} (ht : t ∈ s.token) (hkind : t.kind = .word) : WordShape t.text := by
  have hfinds := finds_of_step h hlt
  generalize c :: cs = text at hfinds
  cases hfinds with
  | pass hpassed hne => cases ht
  | newline rest =>
    cases ht
    cases hkind
  | indent hstart hne =>
    cases ht
    cases hkind
  | space hstart hne =>
    cases ht
    cases hkind
  | found hspelled =>
    cases ht
    cases hkind
    exact hspelled.wordShape

end Cursor

/-! ## Places -/

/-- White space within a line. -/
def Gap (cs : List Char) : Prop :=
  ∀ c ∈ cs, isBlank c = true ∧ c ≠ '\n'

/-- A text without control characters other than white space. -/
def Clean (text : List Char) : Prop :=
  ∀ c ∈ text, isControl c = true → isBlank c = true

/-- The text without its white space. -/
def solid (text : List Char) : List Char :=
  text.filter fun c => !isBlank c

/-- There is nothing solid in a gap. -/
lemma Gap.solid_eq_nil {gap : List Char} (h : Gap gap) : solid gap = [] := by
  refine List.filter_eq_nil_iff.mpr fun c hc => ?_
  simp [(h c hc).1]

/-- There is no newline in a gap. -/
lemma Gap.count_newline {gap : List Char} (h : Gap gap) : gap.count '\n' = 0 :=
  List.count_eq_zero_of_not_mem fun hmem => (h _ hmem).2 rfl

/-- Two gaps make a gap. -/
lemma Gap.append {gap gap' : List Char} (h : Gap gap) (h' : Gap gap') : Gap (gap ++ gap') :=
  List.forall_mem_append.mpr ⟨h, h'⟩

/-- What is solid in two texts is what is solid in each. -/
lemma solid_append (cs ds : List Char) : solid (cs ++ ds) = solid cs ++ solid ds :=
  List.filter_append ..

/-- The tokens stand in the text, which starts at a line: one after the other, each at the line that
the text has reached, with nothing but white space of a line before, between and behind them. -/
inductive StandIn : ℕ → List Token → List Char → Prop
  | nil {line : ℕ} {gap : List Char} (hgap : Gap gap) : StandIn line [] gap
  | cons {t : Token} {ts : List Token} {gap rest : List Char} (hgap : Gap gap)
      (h : StandIn (t.line + t.text.count '\n') ts rest) :
      StandIn t.line (t :: ts) (gap ++ (t.text ++ rest))

namespace StandIn

variable {line : ℕ} {t : Token} {ts before after : List Token} {gap text : List Char}

/-- More white space in front changes nothing. -/
lemma append_left (h : StandIn line ts text) (hgap : Gap gap) : StandIn line ts (gap ++ text) := by
  cases h with
  | nil hgap' => exact .nil (hgap.append hgap')
  | cons hgap' h =>
    rw [← List.append_assoc]
    exact .cons (hgap.append hgap') h

/-- A token in front. -/
lemma token (h : StandIn (t.line + t.text.count '\n') ts text) :
    StandIn t.line (t :: ts) (t.text ++ text) := by
  have hgap : Gap [] := nofun
  exact .cons hgap h

/-- The tokens hold all of the text but white space. -/
theorem solid_eq (h : StandIn line ts text) : solid (ts.flatMap Token.text) = solid text := by
  induction h with
  | nil hgap => exact hgap.solid_eq_nil.symm
  | cons hgap _ ih =>
    rw [List.flatMap_cons, solid_append, solid_append, solid_append, hgap.solid_eq_nil, ih,
      List.nil_append]

/-- The line of a token is where the newlines before it lead. -/
theorem place (h : StandIn line ts text) (hts : ts = before ++ t :: after) :
    ∃ pre post, text = pre ++ (t.text ++ post) ∧ StandIn line before pre ∧
      t.line = line + pre.count '\n' := by
  induction h generalizing before with
  | nil hgap => exact absurd hts (by simp)
  | @cons u us gap rest hgap h ih =>
    cases before with
    | nil =>
      obtain ⟨rfl, rfl⟩ := List.cons.inj hts
      exact ⟨gap, rest, rfl, .nil hgap, by rw [hgap.count_newline, Nat.add_zero]⟩
    | cons b before =>
      obtain ⟨rfl, hus⟩ := List.cons.inj hts
      obtain ⟨pre, post, rfl, hbefore, hline⟩ := ih hus
      refine ⟨gap ++ (u.text ++ pre), post, ?_, .cons hgap hbefore, ?_⟩
      · simp only [List.append_assoc]
      rw [List.count_append, List.count_append, hgap.count_newline, hline]
      omega

end StandIn

namespace Cursor

variable {p q : Cursor} {ts : List Token}

/-- The tokens of a text stand in it. -/
theorem Lexes.standIn (h : Lexes p ts q) (hend : q.rest = []) : StandIn p.line ts p.rest := by
  induction h with
  | refl p =>
    rw [hend]
    exact .nil nofun
  | @step p q c cs s ts hr hs hlt _ ih =>
    rw [hr] at hlt ⊢
    rcases passed_of_step hs hlt with
      ⟨hnone, passed, -, hcs, hpassed, hline⟩ | ⟨t, hsome, -, hcs, htoken, hline⟩
    · rw [hcs, hnone, ← hline]
      exact (ih hend).append_left hpassed
    · have hrest := ih hend
      rw [hline, ← htoken] at hrest
      rw [hcs, hsome, ← htoken]
      exact hrest.token

/-- The words found on a way look like words. -/
lemma Lexes.wordShape (h : Lexes p ts q) : ∀ t ∈ ts, t.kind = .word → WordShape t.text := by
  induction h with
  | refl p => exact nofun
  | step hr hs hlt _ ih =>
    intro t ht
    rcases List.mem_append.mp ht with ht | ht
    · exact wordShape_of_step hs (hr ▸ hlt) (Option.mem_toList.mp ht)
    · exact ih t ht

/-- In a clean text, a step that finds no fault goes forward. -/
lemma length_step_lt (hclean : Clean p.rest) {c : Char} {cs : List Char} {s : Step}
    (hr : p.rest = c :: cs) (hs : p.step c cs = .ok s) :
    s.next.rest.length < (c :: cs).length :=
  (length_step_lt_iff hs).mpr (hclean c (hr ▸ List.mem_cons_self))

/-- In a clean text, the steps from any place lead to the end or to a fault. -/
theorem exists_lexes_of_clean (hclean : Clean p.rest) :
    ∃ ts q, Lexes p ts q ∧ (q.rest = [] ∧ p.tokens = .ok ts ∨
      ∃ c cs m, q.rest = c :: cs ∧ q.step c cs = .error (.at q.line (.malformed m)) ∧
        p.tokens = .error (.at q.line (.malformed m))) := by
  obtain ⟨ts, q, hq, hend | hfault | ⟨c, cs, hstuck, -⟩⟩ := p.exists_lexes
  · exact ⟨ts, q, hq, .inl hend⟩
  · exact ⟨ts, q, hq, .inr hfault⟩
  · have hmem : c ∈ p.rest := hq.suffix.subset (hstuck.rest_eq ▸ List.mem_cons_self)
    exact absurd (hstuck.blank.symm.trans (hclean c hmem hstuck.control)) (by decide)

end Cursor

/-! ## Nothing is lost -/

/-- In a text without control characters other than white space, every step goes forward or meets a
fault, so the steps from its start lead to its end or to a fault. The tokens hold all of the text
but white space, each at the line that the newlines before it lead to, and words look like words. -/
theorem tokenize_advances_and_loses_nothing {text : List Char} (hclean : Clean text) :
    (∀ (p : Cursor) (c : Char) (cs : List Char), p.rest = c :: cs → p.rest <:+ text →
      (∃ s passed, p.step c cs = .ok s ∧ passed ≠ [] ∧ p.rest = passed ++ s.next.rest) ∨
        ∃ m, p.step c cs = .error (.at p.line (.malformed m))) ∧
    (∃ ts q, Cursor.Lexes ⟨text, 1, true⟩ ts q ∧ (q.rest = [] ∧ tokenize text = .ok ts ∨
      ∃ c cs m, q.rest = c :: cs ∧ q.step c cs = .error (.at q.line (.malformed m)) ∧
        tokenize text = .error (.at q.line (.malformed m)))) ∧
    ∀ ts, tokenize text = .ok ts →
      solid (ts.flatMap Token.text) = solid text ∧
      (∀ before t after, ts = before ++ t :: after →
        ∃ pre post, text = pre ++ (t.text ++ post) ∧ StandIn 1 before pre ∧
          t.line = 1 + pre.count '\n') ∧
      ∀ t ∈ ts, t.kind = .word → WordShape t.text := by
  refine ⟨fun p c cs hr hsuffix => ?_, Cursor.exists_lexes_of_clean hclean, fun ts hts => ?_⟩
  · have hplace : Clean p.rest := fun d hd => hclean d (hsuffix.subset hd)
    cases hs : p.step c cs with
    | ok s =>
      obtain ⟨passed, hne, hcs⟩ :=
        Cursor.forward_of_step hs (Cursor.length_step_lt hplace hr hs)
      exact .inl ⟨s, passed, rfl, hne, hr.trans hcs⟩
    | error e =>
      obtain ⟨m, rfl⟩ := Cursor.of_step_eq_error hs
      exact .inr ⟨m, rfl⟩
  · obtain ⟨q, hq, hend⟩ := Cursor.tokens_eq_ok_iff.mp hts
    have hstand := hq.standIn hend
    exact ⟨hstand.solid_eq, fun before t after hsplit => hstand.place hsplit, hq.wordShape⟩

/-- A text of hyphens: one joins a word, one stands alone before an arrow, and one ends the text. -/
def hyphens : List Char :=
  "a-b\u00a0--> (-):\n\tc -".toList

/-- The last hyphen is a word of the second line. -/
theorem tokenize_advances_and_loses_nothing_hyphens :
    Clean hyphens ∧ ∃ before t, tokenize hyphens = .ok (before ++ [t]) ∧
      before.map Token.kind = [.word, .word, .arrow, .bracketed, .colon, .newline, .indent, .word] ∧
      solid ((before ++ [t]).flatMap Token.text) = "a-b-->(-):c-".toList ∧
      (∃ pre post, hyphens = pre ++ (t.text ++ post) ∧ StandIn 1 before pre ∧
        t.line = 1 + pre.count '\n') ∧
      WordShape t.text := by
  have hclean : Clean hyphens := by
    have hall : hyphens.all (fun c => !isControl c || isBlank c) = true := by decide
    intro c hc hcontrol
    simpa [hcontrol] using List.all_eq_true.mp hall c hc
  have htokens : tokenize hyphens = .ok ([⟨.word, "a-b".toList, 1, 0⟩, ⟨.word, ['-'], 1, 0⟩,
      ⟨.arrow, ['-', '>'], 1, 0⟩, ⟨.bracketed, "(-)".toList, 1, 0⟩, ⟨.colon, [':'], 1, 0⟩,
      ⟨.newline, ['\n'], 1, 0⟩, ⟨.indent, ['\t'], 2, 4⟩, ⟨.word, ['c'], 2, 0⟩] ++
      [⟨.word, ['-'], 2, 0⟩]) := by
    decide +kernel
  obtain ⟨hsolid, hplace, hwords⟩ := (tokenize_advances_and_loses_nothing hclean).2.2 _ htokens
  refine ⟨hclean, _, _, htokens, rfl, hsolid, hplace _ _ [] rfl, ?_⟩
  exact hwords _ (List.mem_append_right _ (.head _)) rfl

/-! ## Texts of bytes -/

/-- A text that is given by its bytes has the same tokens. -/
theorem tokenizeBytes_bytes (text : String) :
    tokenizeBytes (bytes text) = tokenize text.toList := by
  rw [tokenizeBytes, chars_bytes]

/-- Bytes that belong to no character are lost: the tokens hold replacement characters instead. -/
theorem tokens_lose_stray_bytes :
    ¬ ∀ (text : Bytes) (ts : List Token), Clean (chars text) → tokenizeBytes text = .ok ts →
      (runes (ts.flatMap fun t => bytes (.ofList t.text))).filter (fun r => !isBlank r.shown) =
        (runes text).filter fun r => !isBlank r.shown := by
  intro h
  have hclean : Clean (chars [0xff]) := by
    intro c hc hcontrol
    rw [List.mem_singleton.mp hc] at hcontrol
    exact absurd hcontrol (by decide)
  have htokens : tokenizeBytes [0xff] = .ok [⟨.word, [replacement], 1, 0⟩] := by decide +kernel
  have hsolid := h [0xff] _ hclean htokens
  revert hsolid
  decide

end TapeMachine.Program
