import TapeMachine.Proofs.Program.Faults

/-!
# Programs are read line by line

No token reaches over the end of a line and no statement does: where a newline follows, the
tokenizer finds what it would find at the end of the text, and the reader says what it would say
there. So the lines before a newline and the lines behind it can be cut into tokens apart
(`Cursor.tokens_append_newline`), and their tokens can be read apart, from a point that only the
lines before decide on (`exists_readFrom_append_newline`).
-/

namespace TapeMachine.Program

open Text

/-! ## Tokens -/

section Newline

variable {p : Char → Bool} (cs more : List Char)

/-- A run of characters other than newlines ends where a newline follows. -/
lemma takeWhile_append_newline (hp : p '\n' = false) :
    (cs ++ '\n' :: more).takeWhile p = cs.takeWhile p := by
  induction cs with
  | nil => exact List.takeWhile_cons_of_neg (by simp [hp])
  | cons c cs ih => rw [List.cons_append, List.takeWhile_cons, List.takeWhile_cons, ih]

/-- What ends at a newline is dropped in the line alone. -/
lemma dropWhile_append_newline (hp : p '\n' = false) :
    (cs ++ '\n' :: more).dropWhile p = cs.dropWhile p ++ '\n' :: more := by
  induction cs with
  | nil => exact List.dropWhile_cons_of_neg (by simp [hp])
  | cons c cs ih =>
    rw [List.cons_append, List.dropWhile_cons, List.dropWhile_cons, ih]
    split
    · rfl
    · rfl

/-- A hyphen joins what stands behind it in the line alone. -/
lemma hyphenJoins_append_newline : hyphenJoins (cs ++ '\n' :: more) = hyphenJoins cs := by
  cases cs with
  | nil => rfl
  | cons c cs => rfl

/-- A word ends where a newline follows. -/
lemma takeWord_append_newline :
    takeWord (cs ++ '\n' :: more) = ((takeWord cs).1, (takeWord cs).2 ++ '\n' :: more) := by
  induction cs with
  | nil => rfl
  | cons c cs ih =>
    rw [List.cons_append, takeWord, takeWord, hyphenJoins_append_newline, ih]
    split
    · rfl
    · rfl

end Newline

/-- The same step with more text behind it. -/
def Step.followedBy (more : List Char) (s : Step) : Step :=
  { s with next := { s.next with rest := s.next.rest ++ more } }

namespace Cursor

variable (p : Cursor) (c : Char) (cs more : List Char)

/-- Blanks are read in the line alone. -/
lemma blanks_append_newline :
    p.blanks c (cs ++ '\n' :: more) = (p.blanks c cs).followedBy ('\n' :: more) := by
  -- Blanks at the end of the text are spacing as little as blanks at the end of a line.
  have hend : ∀ rest : List Char, ((rest ++ '\n' :: more).isEmpty ||
      (rest ++ '\n' :: more).head? == some '\n' || (rest ++ '\n' :: more).head? == some '\r') =
      (rest.isEmpty || rest.head? == some '\n' || rest.head? == some '\r') := by
    intro rest
    cases rest with
    | nil => rfl
    | cons d rest => rfl
  unfold blanks
  simp only [takeWhile_append_newline cs more (p := isSpacing) rfl,
    dropWhile_append_newline cs more (p := isSpacing) rfl, hend,
    apply_ite (Step.followedBy ('\n' :: more))]
  rfl

/-- A symbol in parentheses is read in the line alone. -/
lemma bracket_append_newline :
    p.bracket (cs ++ '\n' :: more) = (p.bracket cs).map (Step.followedBy ('\n' :: more)) := by
  rcases p.bracket_eq_ok_or_error cs with ⟨s, hs⟩ | herror
  · obtain ⟨d, rest, rfl, hd, rfl⟩ := bracket_eq_ok_iff.mp hs
    rw [hs]
    exact bracket_eq_ok_iff.mpr ⟨d, rest ++ '\n' :: more, rfl, hd, rfl⟩
  · rcases p.bracket_eq_ok_or_error (cs ++ '\n' :: more) with ⟨s, hs⟩ | herror'
    · -- Neither character of a symbol in parentheses is a newline.
      obtain ⟨d, rest, hcs, hd, -⟩ := bracket_eq_ok_iff.mp hs
      exfalso
      match cs, herror with
      | [], _ =>
        cases hcs
        cases hd
      | [e], _ => cases hcs
      | e :: f :: cs, herror =>
        cases hcs
        rw [bracket_eq_ok_iff.mpr ⟨d, cs, rfl, hd, rfl⟩] at herror
        cases herror
    · rw [herror, herror']
      rfl

/-- A hyphen is read in the line alone. -/
lemma step_hyphen_append_newline :
    p.step '-' (cs ++ '\n' :: more) = (p.step '-' cs).map (Step.followedBy ('\n' :: more)) := by
  by_cases harrow : ∃ rest, cs = '>' :: rest
  · obtain ⟨rest, rfl⟩ := harrow
    rfl
  · have hno : ∀ rest, cs ≠ '>' :: rest := not_exists.mp harrow
    have hno' : ∀ rest, cs ++ '\n' :: more ≠ '>' :: rest := by
      intro rest hrest
      cases cs with
      | nil => cases hrest
      | cons d cs =>
        cases hrest
        exact hno cs rfl
    rw [step_hyphen hno, step_hyphen hno']
    rfl

/-- A step comes to the same where a newline follows as at the end of the text. -/
lemma step_append_newline :
    p.step c (cs ++ '\n' :: more) = (p.step c cs).map (Step.followedBy ('\n' :: more)) := by
  by_cases hc : c = '-'
  · subst hc
    exact step_hyphen_append_newline p cs more
  · have hword := takeWord_append_newline (c :: cs) more
    rw [List.cons_append] at hword
    unfold step
    simp only [apply_ite (Except.map (Step.followedBy ('\n' :: more))), beq_eq_false_iff_ne.mpr hc,
      Bool.false_eq_true, if_false, hword, bracket_append_newline, blanks_append_newline,
      takeWhile_append_newline cs more (p := fun d => d != '}' && d != '\n') rfl]
    rfl

/-- A newline is a token, and leads to the next line. -/
lemma tokens_newline (rest : List Char) (line : ℕ) (lineStart : Bool) :
    (Cursor.mk ('\n' :: rest) line lineStart).tokens =
      (Cursor.mk rest (line + 1) true).tokens.map (⟨.newline, ['\n'], line, 0⟩ :: ·) :=
  tokens_of_step (s := ⟨some ⟨.newline, ['\n'], line, 0⟩, ⟨rest, line + 1, true⟩⟩) rfl rfl
    (Nat.lt_succ_self _)

/-- The tokens of the lines before a newline come before those from the newline on. -/
theorem tokens_append_newline (l rest : List Char) (line : ℕ) (lineStart : Bool) :
    (Cursor.mk (l ++ '\n' :: rest) line lineStart).tokens =
      (Cursor.mk l line lineStart).tokens >>= fun ts =>
        (Cursor.mk ('\n' :: rest) (line + l.count '\n') true).tokens.map (ts ++ ·) := by
  induction hn : l.length using Nat.strong_induction_on generalizing l line lineStart with
  | _ n ih =>
    subst hn
    cases l with
    | nil =>
      rw [tokens_of_rest_eq_nil (p := ⟨[], line, lineStart⟩) rfl, List.nil_append, tokens_newline]
      change _ = Except.map _ (Cursor.mk ('\n' :: rest) line true).tokens
      rw [tokens_newline]
      cases (Cursor.mk rest (line + 1) true).tokens <;> rfl
    | cons c cs =>
      have hstep : (Cursor.mk (c :: cs ++ '\n' :: rest) line lineStart).step c
          (cs ++ '\n' :: rest) = _ := step_append_newline ⟨c :: cs, line, lineStart⟩ c cs rest
      cases hs : (Cursor.mk (c :: cs) line lineStart).step c cs with
      | error e =>
        rw [hs] at hstep
        rw [tokens_of_error rfl hs,
          tokens_of_error (p := ⟨c :: cs ++ '\n' :: rest, _, _⟩) rfl hstep]
        rfl
      | ok s =>
        rw [hs] at hstep
        obtain ⟨-, hcount, -⟩ := line_of_step hs
        -- What stands behind counts on both sides.
        have hlonger : (s.next.rest ++ '\n' :: rest).length < (c :: (cs ++ '\n' :: rest)).length ↔
            s.next.rest.length < (c :: cs).length := by
          rw [← List.cons_append, List.length_append, List.length_append]
          exact Nat.add_lt_add_iff_right
        by_cases hlt : s.next.rest.length < (c :: cs).length
        · have hnext := ih s.next.rest.length hlt s.next.rest s.next.line s.next.lineStart rfl
          rw [hcount] at hnext
          rw [tokens_of_step rfl hs hlt,
            tokens_of_step (p := ⟨c :: cs ++ '\n' :: rest, _, _⟩) rfl hstep (hlonger.mpr hlt)]
          change ((Cursor.mk (s.next.rest ++ '\n' :: rest) _ _).tokens).map _ = _
          rw [hnext]
          exact map_bind_append s.token.toList _ _
        · rw [tokens_of_not_lt rfl hs hlt, tokens_of_not_lt
            (p := ⟨c :: cs ++ '\n' :: rest, _, _⟩) rfl hstep (mt hlonger.mp hlt)]
          rfl

end Cursor

/-! ## Statements -/

section Statements

variable {t : Token} {n : Token} {front : List Token}

/-- Whether a token in the line comes next is told by the line alone. -/
lemma kind?_append_newline (hn : n.kind = .newline) {kind : Kind} (hkind : kind ≠ .newline)
    (front us : List Token) :
    (kind? (front ++ n :: us) == some kind) = (kind? front == some kind) := by
  cases front with
  | nil =>
    have hne : kind? (n :: us) ≠ some kind := by
      rw [kind?, hn]
      exact fun h => hkind (Option.some.inj h).symm
    exact beq_eq_false_iff_ne.mpr hne
  | cons t front => rfl

/-- An operand is looked for in the line alone. -/
lemma operand?_append_newline (hn : n.kind = .newline) (front us : List Token) :
    operand? (front ++ n :: us) = operand? front := by
  cases front with
  | nil => simp [operand?, Token.isOperand, hn]
  | cons t front => rfl

/-- A statement does not look behind a newline. -/
lemma readStatement_append_newline (hn : n.kind = .newline) (s : Scope) (t : Token)
    (front us : List Token) :
    readStatement s t (front ++ n :: us) = readStatement s t front := by
  have hkind : ∀ kind, kind ≠ .newline →
      (kind? (front ++ n :: us) == some kind) = (kind? front == some kind) := fun kind hkind =>
    kind?_append_newline hn hkind front us
  have hdirective : readDirective t (front ++ n :: us) = readDirective t front := by
    unfold readDirective
    rw [operand?_append_newline hn]
  -- Only behind a first token is there a second one to look at.
  have htail : front ≠ [] → ∀ kind, kind ≠ .newline →
      (kind? (front ++ n :: us).tail == some kind) = (kind? front.tail == some kind) := by
    intro hne kind hkind
    rw [List.tail_append_of_ne_nil hne]
    exact kind?_append_newline hn hkind front.tail us
  have hinState : ∀ state read,
      readInState state read t (front ++ n :: us) = readInState state read t front := by
    intro state read
    unfold readInState
    rw [operand?_append_newline hn, hdirective]
    cases front with
    | nil => rfl
    | cons u front =>
      simp only [htail (by simp) .colon (by decide), htail (by simp) .arrow (by decide)]
  unfold readStatement
  simp only [hkind .colon (by decide), hkind .arrow (by decide), hkind .bracketed (by decide),
    hinState]
  cases front with
  | nil => simp [kind?]
  | cons u front =>
    rw [htail (by simp) .colon (by decide), htail (by simp) .arrow (by decide)]
    rfl

/-- A statement takes no more tokens than there are. -/
lemma taken_le_of_readStatement {s : Scope} {rest : List Token} {st : Statement} {taken : ℕ}
    (h : readStatement s t rest = .ok (st, taken)) : taken ≤ rest.length := by
  have hfirst : ∀ {kind}, (kind? rest == some kind) = true → 1 ≤ rest.length := by
    intro kind hkind
    cases rest with
    | nil => cases hkind
    | cons u rest => simp
  have hsecond : ∀ {kind}, (kind? rest.tail == some kind) = true → 2 ≤ rest.length := by
    intro kind hkind
    match rest, hkind with
    | _ :: _ :: rest, _ => simp
  have hoperand : ∀ {o}, operand? rest = some o → 1 ≤ rest.length := by
    intro o ho
    cases rest with
    | nil => cases ho
    | cons u rest => simp
  have hdirective : ∀ {st taken}, readDirective t rest = .ok (st, taken) → taken ≤ rest.length := by
    intro st taken h
    unfold readDirective at h
    grind
  unfold readStatement readInState at h
  grind

end Statements

/-- The tokens of the lines before a newline are read before those from the newline on, and decide
on the point from which these are read. -/
theorem exists_readFrom_append_newline (p : Point) (front : List Token) :
    ∃ q : Point, ∀ (n : Token) (us : List Token), n.kind = .newline →
      readFrom p (front ++ n :: us) = readFrom p front >>= fun is =>
        (readFrom q (n :: us)).map (is ++ ·) := by
  induction hn : front.length using Nat.strong_induction_on generalizing p front with
  | _ m ih =>
    subst hn
    cases front with
    | nil =>
      refine ⟨p, fun n us hn => ?_⟩
      have hnil : readFrom p [] = .ok [] := by rw [readFrom]
      rw [hnil, List.nil_append]
      cases readFrom p (n :: us) <;> rfl
    | cons t front =>
      by_cases hnewline : t.kind = .newline
      · obtain ⟨q, hq⟩ := ih front.length (Nat.lt_succ_self _) p.nextLine front rfl
        refine ⟨q, fun n us hn => ?_⟩
        rw [List.cons_append, readFrom_of_newline hnewline, readFrom_of_newline hnewline,
          hq n us hn]
      by_cases hindent : t.kind = .indent
      · obtain ⟨q, hq⟩ := ih front.length (Nat.lt_succ_self _) { p with depth := t.width } front rfl
        refine ⟨q, fun n us hn => ?_⟩
        rw [List.cons_append, readFrom_of_indent hindent, readFrom_of_indent hindent, hq n us hn]
      cases hs : readStatement p.atStatement.scope t front with
      | error m =>
        refine ⟨p, fun n us hn => ?_⟩
        have hs' := (readStatement_append_newline hn p.atStatement.scope t front us).trans hs
        rw [List.cons_append, readFrom_of_fault hnewline hindent hs,
          readFrom_of_fault hnewline hindent hs']
        rfl
      | ok r =>
        obtain ⟨s, taken⟩ := r
        have htaken := taken_le_of_readStatement hs
        have hlength : (front.drop taken).length < (t :: front).length := by
          simp only [List.length_drop, List.length_cons]
          omega
        obtain ⟨q, hq⟩ := ih _ hlength (p.atStatement.enter s) (front.drop taken) rfl
        refine ⟨q, fun n us hn => ?_⟩
        have hs' := (readStatement_append_newline hn p.atStatement.scope t front us).trans hs
        rw [List.cons_append, readFrom_of_statement hnewline hindent hs,
          readFrom_of_statement hnewline hindent hs', List.drop_append_of_le_length htaken,
          hq n us hn]
        exact map_bind_append (p.atStatement.scope.instruction? t.line s).toList _ _

end TapeMachine.Program
