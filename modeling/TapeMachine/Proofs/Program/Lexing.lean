import Mathlib.Data.List.TakeWhile
import Mathlib.Tactic.Common
import TapeMachine.Program.Token

/-!
# Cutting a text into tokens, piece by piece

`Cursor.Lexes p ts q` says that the steps of the tokenizer lead from the place `p` to the place `q`
and find the tokens `ts` on the way. A piece of text is always read with what follows it at hand, so
putting two such statements together (`Lexes.trans`) cannot cut a word in two. The tokens of a text
are those found on the way to its end (`tokens_eq_ok_iff`).

The second half lists what the pieces of a printed line are read as: words, blanks, indentation,
arrows, colons, bracketed symbols and ends of lines. Then `StepOutcome` says once what a step can
come to, whatever the text: it passes over one character, ends a line, reads blanks, finds a token
within the line, meets a fault in it, or stays where it is.

At last, a step stays only at a control character that is no white space, and there it leads to
itself: the tokenizer is there after any number of steps. So `tokens` answers `endless` exactly for
the texts on which the steps go on for ever (`tokens_eq_endless_iff`).
-/

namespace TapeMachine.Program

open Text

namespace Cursor

/-! ## Steps in a row -/

/-- Steps forward lead from one place to another, and find some tokens on the way. -/
inductive Lexes : Cursor → List Token → Cursor → Prop
  | refl (p : Cursor) : Lexes p [] p
  | step {p q : Cursor} {c : Char} {cs : List Char} {s : Step} {ts : List Token}
      (hr : p.rest = c :: cs) (hs : p.step c cs = .ok s)
      (hlt : s.next.rest.length < p.rest.length) (h : Lexes s.next ts q) :
      Lexes p (s.token.toList ++ ts) q

/-- Ways can be put together. -/
theorem Lexes.trans {p q r : Cursor} {ts us : List Token} (h : Lexes p ts q) (h' : Lexes q us r) :
    Lexes p (ts ++ us) r := by
  induction h with
  | refl p => exact h'
  | step hr hs hlt _ ih =>
    rw [List.append_assoc]
    exact .step hr hs hlt (ih h')

/-- One step forward is a way. -/
lemma Lexes.single {p : Cursor} {c : Char} {cs : List Char} {s : Step} (hr : p.rest = c :: cs)
    (hs : p.step c cs = .ok s) (hlt : s.next.rest.length < p.rest.length) :
    Lexes p s.token.toList s.next := by
  have h := Lexes.step hr hs hlt (.refl s.next)
  rwa [List.append_nil] at h

/-- At the end of the text there are no more tokens. -/
lemma tokens_of_rest_eq_nil {p : Cursor} (h : p.rest = []) : p.tokens = .ok [] := by
  rw [tokens]
  split
  · rfl
  · rename_i c cs hr
    rw [h] at hr
    cases hr

/-- The tokens of a text are those of a step forward and those behind it. -/
lemma tokens_of_step {p : Cursor} {c : Char} {cs : List Char} {s : Step} (hr : p.rest = c :: cs)
    (hs : p.step c cs = .ok s) (hlt : s.next.rest.length < (c :: cs).length) :
    p.tokens = (s.next.tokens).map (fun ts => s.token.toList ++ ts) := by
  rw [← hr] at hlt
  rw [tokens]
  split
  · rename_i hnil
    rw [hr] at hnil
    cases hnil
  · rename_i c' cs' hcons
    rw [hr] at hcons
    cases hcons
    simp only [hs, if_pos hlt]
    cases s.next.tokens <;> rfl

/-- A text has no tokens if its first step does not go forward. -/
lemma tokens_of_not_lt {p : Cursor} {c : Char} {cs : List Char} {s : Step} (hr : p.rest = c :: cs)
    (hs : p.step c cs = .ok s) (hlt : ¬ s.next.rest.length < (c :: cs).length) :
    p.tokens = .error .endless := by
  rw [← hr] at hlt
  rw [tokens]
  split
  · rename_i hnil
    rw [hr] at hnil
    cases hnil
  · rename_i c' cs' hcons
    rw [hr] at hcons
    cases hcons
    simp only [hs, if_neg hlt]

/-- A text has no tokens if its first step meets a fault. -/
lemma tokens_of_error {p : Cursor} {c : Char} {cs : List Char} {e : Error} (hr : p.rest = c :: cs)
    (hs : p.step c cs = .error e) : p.tokens = .error e := by
  rw [tokens]
  split
  · rename_i hnil
    rw [hr] at hnil
    cases hnil
  · rename_i c' cs' hcons
    rw [hr] at hcons
    cases hcons
    rw [hs]

/-- The tokens found on a way come before the tokens at its end. -/
theorem Lexes.tokens_eq {p q : Cursor} {ts : List Token} (h : Lexes p ts q) :
    p.tokens = (q.tokens).map (fun us => ts ++ us) := by
  induction h with
  | refl p => cases p.tokens <;> rfl
  | step hr hs hlt _ ih =>
    rename_i q' _ _ _ ts' _
    rw [tokens_of_step hr hs (hr ▸ hlt), ih]
    cases q'.tokens with
    | error e => rfl
    | ok us =>
      change Except.ok (_ ++ (ts' ++ us)) = Except.ok ((_ ++ ts') ++ us)
      rw [List.append_assoc]

/-- A text has tokens exactly when steps forward lead to its end and find these tokens. -/
theorem tokens_eq_ok_iff {p : Cursor} {ts : List Token} :
    p.tokens = .ok ts ↔ ∃ q, Lexes p ts q ∧ q.rest = [] := by
  constructor
  · intro h
    fun_induction tokens p generalizing ts with
    | case1 p hr =>
      cases h
      exact ⟨p, .refl p, hr⟩
    | case2 => cases h
    | case3 => cases h
    | case4 p c cs hr s hs hlt us hus ih =>
      cases h
      obtain ⟨q, hq, hend⟩ := ih hus
      exact ⟨q, .step hr hs hlt hq, hend⟩
    | case5 => cases h
  · rintro ⟨q, hq, hend⟩
    rw [hq.tokens_eq, tokens_of_rest_eq_nil hend]
    change Except.ok (ts ++ []) = Except.ok ts
    rw [List.append_nil]

/-! ## Words -/

/-- A character of a word is none of those that the tokenizer treats apart. -/
lemma isWordChar_iff {c : Char} :
    isWordChar c = true ↔
      isBlank c = false ∧ isControl c = false ∧ c ≠ ':' ∧ c ≠ '(' ∧ c ≠ ')' ∧ c ≠ '{' ∧ c ≠ '}' ∧
        c ≠ '-' := by
  simp [isWordChar, and_assoc]

/-- A character that is not white space is not a particular white space. -/
lemma ne_of_isBlank {c d : Char} (hc : isBlank c = false) (hd : isBlank d = true) : c ≠ d := by
  rintro rfl
  rw [hc] at hd
  cases hd

/-- At a character of a word the tokenizer reads a word. -/
lemma step_of_isWordChar (p : Cursor) {c : Char} (hc : isWordChar c = true) (cs : List Char) :
    p.step c cs = p.found .word (c :: (takeWord cs).1) (takeWord cs).2 := by
  obtain ⟨hb, hk, h1, h2, h3, h4, h5, h6⟩ := isWordChar_iff.mp hc
  have hr : c ≠ '\r' := ne_of_isBlank hb (by decide)
  have hn : c ≠ '\n' := ne_of_isBlank hb (by decide)
  have hs : isSpacing c = false := by
    have hspace : c ≠ ' ' := ne_of_isBlank hb (by decide)
    have htab : c ≠ '\t' := ne_of_isBlank hb (by decide)
    simp [isSpacing, hspace, htab]
  simp [step, hr, hn, hs, h1, h2, h3, h4, h5, h6, hb, takeWord, hc]

/-- A word reaches as far as the characters of words do. -/
lemma takeWord_append {w rest : List Char} (hw : ∀ c ∈ w, isWordChar c = true)
    (hrest : takeWord rest = ([], rest)) : takeWord (w ++ rest) = (w, rest) := by
  induction w with
  | nil => exact hrest
  | cons c w ih =>
    have hc : isWordChar c = true := hw c List.mem_cons_self
    rw [List.cons_append, takeWord, hc, ih fun d hd => hw d (List.mem_cons_of_mem _ hd)]
    rfl

/-- A word of text is read as one token. -/
theorem lexes_word {w rest : List Char} (hne : w ≠ []) (hw : ∀ c ∈ w, isWordChar c = true)
    (hrest : takeWord rest = ([], rest)) (line : ℕ) (lineStart : Bool) :
    Lexes ⟨w ++ rest, line, lineStart⟩ [⟨.word, w, line, 0⟩] ⟨rest, line, false⟩ := by
  cases w with
  | nil => exact absurd rfl hne
  | cons c w =>
    have htake := takeWord_append (fun d hd => hw d (List.mem_cons_of_mem _ hd)) hrest
    have hstep := step_of_isWordChar ⟨c :: (w ++ rest), line, lineStart⟩
      (hw c List.mem_cons_self) (w ++ rest)
    rw [htake] at hstep
    refine Lexes.single rfl hstep ?_
    simp only [List.length_cons, List.length_append]
    omega

/-! ## Marks -/

/-- The end of a line. -/
lemma lexes_newline (rest : List Char) (line : ℕ) (lineStart : Bool) :
    Lexes ⟨'\n' :: rest, line, lineStart⟩ [⟨.newline, ['\n'], line, 0⟩] ⟨rest, line + 1, true⟩ := by
  have hstep : step ⟨'\n' :: rest, line, lineStart⟩ '\n' rest =
      .ok ⟨some ⟨.newline, ['\n'], line, 0⟩, ⟨rest, line + 1, true⟩⟩ := rfl
  exact Lexes.single rfl hstep (Nat.lt_succ_self _)

/-- A colon. -/
lemma lexes_colon (rest : List Char) (line : ℕ) (lineStart : Bool) :
    Lexes ⟨':' :: rest, line, lineStart⟩ [⟨.colon, [':'], line, 0⟩] ⟨rest, line, false⟩ := by
  have hstep : step ⟨':' :: rest, line, lineStart⟩ ':' rest =
      .ok ⟨some ⟨.colon, [':'], line, 0⟩, ⟨rest, line, false⟩⟩ := rfl
  exact Lexes.single rfl hstep (Nat.lt_succ_self _)

/-- An arrow. -/
lemma lexes_arrow (rest : List Char) (line : ℕ) (lineStart : Bool) :
    Lexes ⟨'-' :: '>' :: rest, line, lineStart⟩ [⟨.arrow, ['-', '>'], line, 0⟩]
      ⟨rest, line, false⟩ := by
  have hstep : step ⟨'-' :: '>' :: rest, line, lineStart⟩ '-' ('>' :: rest) =
      .ok ⟨some ⟨.arrow, ['-', '>'], line, 0⟩, ⟨rest, line, false⟩⟩ := rfl
  exact Lexes.single rfl hstep (Nat.lt_add_of_pos_right Nat.two_pos)

/-- A symbol in parentheses. -/
lemma lexes_bracketed {c : Char} (hc : isWordChar c = true) (rest : List Char) (line : ℕ)
    (lineStart : Bool) :
    Lexes ⟨'(' :: c :: ')' :: rest, line, lineStart⟩ [⟨.bracketed, ['(', c, ')'], line, 0⟩]
      ⟨rest, line, false⟩ := by
  obtain ⟨hb, hk, -, -, h3, -⟩ := isWordChar_iff.mp hc
  have hzero : c.toNat ≠ 0 := by
    intro h
    simp [isControl, h] at hk
  have hstep : step ⟨'(' :: c :: ')' :: rest, line, lineStart⟩ '(' (c :: ')' :: rest) =
      .ok ⟨some ⟨.bracketed, ['(', c, ')'], line, 0⟩, ⟨rest, line, false⟩⟩ := by
    change bracket _ (c :: ')' :: rest) = _
    simp [bracket, found, h3, hb, hzero]
  exact Lexes.single rfl hstep (Nat.lt_add_of_pos_right (Nat.succ_pos 2))

/-! ## Blanks -/

/-- A text that does not start with a space or a tab. -/
def NoSpacing (rest : List Char) : Prop :=
  ∀ c ∈ rest.head?, isSpacing c = false

/-- A run of blanks before such a text is taken as a whole. -/
lemma takeWhile_replicate_append {rest : List Char} (h : NoSpacing rest) (n : ℕ) :
    (List.replicate n ' ' ++ rest).takeWhile isSpacing = List.replicate n ' ' ∧
      (List.replicate n ' ' ++ rest).dropWhile isSpacing = rest := by
  have hall : ∀ c ∈ List.replicate n ' ', isSpacing c = true := by
    intro c hc
    rw [List.eq_of_mem_replicate hc]
    rfl
  have hrest : rest.takeWhile isSpacing = [] ∧ rest.dropWhile isSpacing = rest := by
    cases rest with
    | nil => exact ⟨rfl, rfl⟩
    | cons c cs =>
      have hc : isSpacing c = false := h c rfl
      simp [hc]
  rw [List.takeWhile_append_of_pos hall, List.dropWhile_append_of_pos hall, hrest.1, hrest.2,
    List.append_nil]
  exact ⟨rfl, rfl⟩

/-- The width of a run of spaces is its length. -/
lemma spacingWidth_replicate (n : ℕ) : spacingWidth (List.replicate n ' ') = n := by
  have hfold : ∀ m k : ℕ, (List.replicate m ' ').foldl
      (fun n c => n + if c == '\t' then 4 else 1) k = k + m := by
    intro m
    induction m with
    | zero => exact fun k => rfl
    | succ m ih =>
      intro k
      rw [List.replicate_succ, List.foldl_cons, ih]
      change k + 1 + m = k + (m + 1)
      omega
  rw [spacingWidth, hfold]
  exact Nat.zero_add n

/-- Blanks are read up to the first character that is none, and stay on their line. -/
lemma next_blanks (p : Cursor) (c : Char) (cs : List Char) :
    (p.blanks c cs).next.rest = cs.dropWhile isSpacing ∧ (p.blanks c cs).next.line = p.line ∧
      ∀ t ∈ (p.blanks c cs).token, t.line = p.line := by
  unfold blanks
  simp only
  split
  · exact ⟨rfl, rfl, by rintro t ⟨⟩; rfl⟩
  · split
    · exact ⟨rfl, rfl, by rintro t ⟨⟩; rfl⟩
    · exact ⟨rfl, rfl, nofun⟩

/-- Reading blanks goes forward. -/
lemma length_blanks_lt (p : Cursor) (c : Char) (cs : List Char) :
    (p.blanks c cs).next.rest.length < (c :: cs).length := by
  rw [(next_blanks p c cs).1]
  exact Nat.lt_succ_of_le (List.dropWhile_sublist _).length_le

/-- What a run of spaces is read as. -/
lemma blanks_replicate {rest : List Char} (h : NoSpacing rest) (p : Cursor) (n : ℕ) :
    p.blanks ' ' (List.replicate n ' ' ++ rest) =
      if p.lineStart then
        ⟨some ⟨.indent, List.replicate (n + 1) ' ', p.line, n + 1⟩, ⟨rest, p.line, false⟩⟩
      else if 2 ≤ n + 1 && !(rest.isEmpty || rest.head? == some '\n' || rest.head? == some '\r')
      then ⟨some ⟨.space, List.replicate (n + 1) ' ', p.line, n + 1⟩, ⟨rest, p.line, false⟩⟩
      else ⟨none, { p with rest }⟩ := by
  obtain ⟨htake, hdrop⟩ := takeWhile_replicate_append h n
  have hwidth := spacingWidth_replicate (n + 1)
  rw [List.replicate_succ] at hwidth ⊢
  simp only [blanks, htake, hdrop, hwidth]

/-- A run of spaces is read in one step. -/
lemma lexes_replicate (n line : ℕ) (lineStart : Bool) (rest : List Char) {s : Step}
    (h : blanks ⟨List.replicate (n + 1) ' ' ++ rest, line, lineStart⟩ ' '
      (List.replicate n ' ' ++ rest) = s) :
    Lexes ⟨List.replicate (n + 1) ' ' ++ rest, line, lineStart⟩ s.token.toList s.next := by
  have hstep : step ⟨List.replicate (n + 1) ' ' ++ rest, line, lineStart⟩ ' '
      (List.replicate n ' ' ++ rest) = .ok s := by
    rw [← h]
    rfl
  exact Lexes.single rfl hstep (h ▸ length_blanks_lt _ _ _)

/-- Indentation. -/
lemma lexes_indent {rest : List Char} (h : NoSpacing rest) (n line : ℕ) :
    Lexes ⟨List.replicate (n + 1) ' ' ++ rest, line, true⟩
      [⟨.indent, List.replicate (n + 1) ' ', line, n + 1⟩] ⟨rest, line, false⟩ :=
  lexes_replicate n line true rest (blanks_replicate h _ n)

/-- A single space within a line is no token. -/
lemma lexes_gap {rest : List Char} (h : NoSpacing rest) (line : ℕ) :
    Lexes ⟨' ' :: rest, line, false⟩ [] ⟨rest, line, false⟩ :=
  lexes_replicate 0 line false rest (blanks_replicate h _ 0)

/-- Spaces before the end of a line are no token. -/
lemma lexes_trailing (n line : ℕ) (rest : List Char) :
    Lexes ⟨List.replicate n ' ' ++ '\n' :: rest, line, false⟩ [] ⟨'\n' :: rest, line, false⟩ := by
  cases n with
  | zero => exact .refl _
  | succ n =>
    have hnone : NoSpacing ('\n' :: rest) := by
      rintro c ⟨⟩
      rfl
    have hblanks := blanks_replicate hnone
      ⟨List.replicate (n + 1) ' ' ++ '\n' :: rest, line, false⟩ n
    simp only [List.head?_cons, beq_self_eq_true, Bool.or_true, Bool.true_or, Bool.not_true,
      Bool.and_false, Bool.false_eq_true, if_false] at hblanks
    exact lexes_replicate n line false _ hblanks

/-! ## What a step can come to -/

section Outcomes

variable {p q : Cursor} {c : Char} {cs : List Char} {s : Step}

/-- No white space is taken into a word. -/
lemma isBlank_of_mem_takeWord (h : c ∈ (takeWord cs).1) : isBlank c = false := by
  induction cs with
  | nil => cases h
  | cons d cs ih =>
    rw [takeWord] at h
    split at h
    · rename_i hd
      rcases List.mem_cons.mp h with rfl | h
      · simp only [Bool.or_eq_true, Bool.and_eq_true, beq_iff_eq] at hd
        rcases hd with hd | ⟨rfl, -⟩
        · exact (isWordChar_iff.mp hd).1
        · decide
      · exact ih h
    · cases h

/-- A text is its first word and what is left behind it. -/
lemma takeWord_append_eq (cs : List Char) : (takeWord cs).1 ++ (takeWord cs).2 = cs := by
  induction cs with
  | nil => rfl
  | cons c cs ih =>
    rw [takeWord]
    split
    · exact congrArg (c :: ·) ih
    · rfl

/-- What is left behind a word is no longer than the text. -/
lemma length_takeWord_le (cs : List Char) : (takeWord cs).2.length ≤ cs.length := by
  have hsum := congrArg List.length (takeWord_append_eq cs)
  rw [List.length_append] at hsum
  omega

/-- A word goes on with a character of words, or with a hyphen that joins. -/
lemma takeWord_cons_of_pos (h : (isWordChar c || (c == '-' && hyphenJoins cs)) = true) :
    takeWord (c :: cs) = (c :: (takeWord cs).1, (takeWord cs).2) := by
  rw [takeWord, if_pos h]

/-- No other character starts a word. -/
lemma takeWord_cons_of_neg (h : ¬ (isWordChar c || (c == '-' && hyphenJoins cs)) = true) :
    takeWord (c :: cs) = ([], c :: cs) := by
  rw [takeWord, if_neg h]

/-- The word at a control character is empty. -/
lemma takeWord_of_isControl (h : isControl c = true) : takeWord (c :: cs) = ([], c :: cs) := by
  refine takeWord_cons_of_neg ?_
  have hhyphen : c ≠ '-' := by
    rintro rfl
    exact absurd h (by decide)
  simp [isWordChar, h, hhyphen]

/-- A symbol in parentheses is one character that is no white space, between the two. -/
lemma bracket_eq_ok_iff :
    p.bracket cs = .ok s ↔ ∃ d rest, cs = d :: ')' :: rest ∧
      (d == ')' || isBlank d || d.toNat == 0) = false ∧
      s = ⟨some ⟨.bracketed, ['(', d, ')'], p.line, 0⟩, ⟨rest, p.line, false⟩⟩ := by
  unfold bracket
  split
  · rename_i d rest
    by_cases hd : (d == ')' || isBlank d || d.toNat == 0) = true
    · rw [if_pos hd]
      refine iff_of_false nofun ?_
      rintro ⟨d', rest', hcs, hd', -⟩
      cases hcs
      rw [hd] at hd'
      cases hd'
    · rw [if_neg hd]
      constructor
      · intro h
        cases h
        exact ⟨d, rest, rfl, Bool.eq_false_iff.mpr hd, rfl⟩
      · rintro ⟨d', rest', hcs, -, rfl⟩
        cases hcs
        rfl
  · rename_i hno
    refine iff_of_false nofun ?_
    rintro ⟨d, rest, rfl, -⟩
    exact hno d rest rfl

/-- What is no symbol in parentheses is an opening parenthesis that has no place. -/
lemma bracket_eq_ok_or_error (p : Cursor) (cs : List Char) :
    (∃ s, p.bracket cs = .ok s) ∨
      p.bracket cs = .error (.at p.line (.malformed .strayOpening)) := by
  unfold bracket
  split
  · split
    · exact .inr rfl
    · exact .inl ⟨_, rfl⟩
  · exact .inr rfl

/-- A hyphen that begins no arrow is a word. -/
lemma step_hyphen (h : ∀ rest, cs ≠ '>' :: rest) : p.step '-' cs = p.found .word ['-'] cs := by
  rw [step, if_neg (by decide), if_neg (by decide), if_neg (by decide), if_pos (by decide)]
  exact h

/-- What a step over the text `c :: cs` can come to. -/
inductive StepOutcome (p : Cursor) (c : Char) (cs : List Char) : Except Error Step → Prop
  | skip (hblank : isBlank c = true) (hc : c ≠ '\n') : StepOutcome p c cs (p.skip cs)
  | newline (hc : c = '\n') :
      StepOutcome p c cs (.ok ⟨some ⟨.newline, ['\n'], p.line, 0⟩, ⟨cs, p.line + 1, true⟩⟩)
  | blanks (hc : isSpacing c = true) : StepOutcome p c cs (.ok (p.blanks c cs))
  | found (kind : Kind) {text rest : List Char} (hcontrol : isControl c = false)
      (htext : c :: cs = text ++ rest) (hne : text ≠ []) (hnewline : '\n' ∉ text) :
      StepOutcome p c cs (p.found kind text rest)
  | stays (hblank : isBlank c = false) (hcontrol : isControl c = true) :
      StepOutcome p c cs (p.found .word [] (c :: cs))
  | fault (m : Malformed) : StepOutcome p c cs (.error (.at p.line (.malformed m)))

/-- A symbol in parentheses is found within its line, or the parenthesis is a fault. -/
lemma stepOutcome_bracket (p : Cursor) (cs : List Char) : StepOutcome p '(' cs (p.bracket cs) := by
  rcases p.bracket_eq_ok_or_error cs with ⟨s, hs⟩ | herror
  · obtain ⟨d, rest, rfl, hd, rfl⟩ := bracket_eq_ok_iff.mp hs
    have hne : d ≠ '\n' := by
      rintro rfl
      exact absurd hd (by decide)
    have hnewline : '\n' ∉ ['(', d, ')'] := by simp [Ne.symm hne]
    rw [hs]
    exact .found .bracketed (by decide) rfl (by simp) hnewline
  · rw [herror]
    exact .fault _

/-- Every step comes to one of these. -/
theorem stepOutcome_step (p : Cursor) (c : Char) (cs : List Char) :
    StepOutcome p c cs (p.step c cs) := by
  unfold step
  split
  · rename_i hc
    obtain rfl := beq_iff_eq.mp hc
    exact .skip (by decide) (by decide)
  split
  · rename_i hc
    exact .newline (beq_iff_eq.mp hc)
  rename_i hnewline
  have hc : c ≠ '\n' := fun hc => hnewline (beq_iff_eq.mpr hc)
  have hone : '\n' ∉ [c] := by simpa using Ne.symm hc
  split
  · exact .blanks ‹_›
  split
  · rename_i hhyphen
    obtain rfl := beq_iff_eq.mp hhyphen
    split
    · exact .found .arrow (by decide) rfl (by simp) (by decide)
    · exact .found .word (by decide) rfl (by simp) (by decide)
  rename_i hhyphen
  split
  · rename_i hcolon
    obtain rfl := beq_iff_eq.mp hcolon
    exact .found .colon (by decide) rfl (by simp) hone
  rename_i hcolon
  split
  · rename_i hopening
    obtain rfl := beq_iff_eq.mp hopening
    exact stepOutcome_bracket p cs
  rename_i hopening
  split
  · exact .fault _
  rename_i hbrace
  split
  · exact .fault _
  rename_i hclosing
  split
  · exact .skip ‹_› hc
  rename_i hblank
  rw [Bool.not_eq_true] at hblank
  by_cases hcontrol : isControl c = true
  · rw [takeWord_of_isControl hcontrol]
    exact .stays hblank hcontrol
  · rw [Bool.not_eq_true] at hcontrol
    have hword : isWordChar c = true := by
      rw [Bool.or_eq_true, not_or] at hclosing
      simp only [beq_iff_eq] at hhyphen hcolon hopening hbrace hclosing
      exact isWordChar_iff.mpr ⟨hblank, hcontrol, hcolon, hopening, hclosing.1, hbrace,
        hclosing.2, hhyphen⟩
    refine .found .word hcontrol (takeWord_append_eq _).symm ?_ fun hmem => ?_
    · rw [takeWord_cons_of_pos (by simp [hword])]
      exact List.cons_ne_nil _ _
    · exact absurd (isBlank_of_mem_takeWord hmem) (by decide)

/-- A step forward passes over characters of one line. -/
lemma exists_passed_of_step (h : p.step c cs = .ok s)
    (hlt : s.next.rest.length < (c :: cs).length) :
    ∃ passed, cs = passed ++ s.next.rest ∧ '\n' ∉ passed := by
  have houtcome := stepOutcome_step p c cs
  rw [h] at houtcome
  generalize hx : Except.ok s = x at houtcome
  cases houtcome with
  | skip hblank hc =>
    cases hx
    exact ⟨[], rfl, List.not_mem_nil⟩
  | newline hc =>
    cases hx
    exact ⟨[], rfl, List.not_mem_nil⟩
  | blanks hc =>
    cases hx
    refine ⟨cs.takeWhile isSpacing, ?_, fun hmem => ?_⟩
    · rw [(next_blanks p c cs).1, List.takeWhile_append_dropWhile]
    · exact absurd (List.mem_takeWhile_imp hmem) (by decide)
  | @found kind text rest hcontrol htext hne hnewline =>
    cases hx
    obtain ⟨d, passed, rfl⟩ := List.exists_cons_of_ne_nil hne
    rw [List.cons_append] at htext
    exact ⟨passed, (List.cons.inj htext).2, fun hmem => hnewline (.tail _ hmem)⟩
  | stays hblank hcontrol =>
    cases hx
    exact absurd hlt (Nat.lt_irrefl _)
  | fault m => cases hx

/-- A step finds its token in the line it starts from, and counts the line that it ends. -/
lemma line_of_step (h : p.step c cs = .ok s) :
    p.line ≤ s.next.line ∧
      s.next.line + s.next.rest.count '\n' = p.line + (c :: cs).count '\n' ∧
      ∀ t ∈ s.token, t.line = p.line := by
  have hcons : ∀ {d : Char}, d ≠ '\n' → (d :: cs).count '\n' = cs.count '\n' :=
    fun hd => List.count_cons_of_ne hd
  have houtcome := stepOutcome_step p c cs
  rw [h] at houtcome
  generalize hx : Except.ok s = x at houtcome
  cases houtcome with
  | skip hblank hc =>
    cases hx
    exact ⟨le_refl _, by rw [hcons hc], nofun⟩
  | newline hc =>
    cases hx
    subst hc
    refine ⟨Nat.le_succ _, ?_, by rintro t ⟨⟩; rfl⟩
    rw [List.count_cons_self]
    simp only
    omega
  | blanks hc =>
    cases hx
    obtain ⟨-, hline, htoken⟩ := next_blanks p c cs
    obtain ⟨passed, hcs, hpassed⟩ := exists_passed_of_step h (length_blanks_lt p c cs)
    have hne : c ≠ '\n' := by
      rintro rfl
      cases hc
    refine ⟨hline.ge, ?_, htoken⟩
    conv_rhs => rw [hcons hne, hcs, List.count_append, List.count_eq_zero_of_not_mem hpassed,
      Nat.zero_add]
    rw [hline]
  | @found kind text rest hcontrol htext hne hnewline =>
    cases hx
    refine ⟨le_refl _, ?_, by rintro t ⟨⟩; rfl⟩
    rw [htext, List.count_append, List.count_eq_zero_of_not_mem hnewline, Nat.zero_add]
  | stays hblank hcontrol =>
    cases hx
    exact ⟨le_refl _, rfl, by rintro t ⟨⟩; rfl⟩
  | fault m => cases hx

/-- A step that fails meets malformed text in the line it starts from. -/
lemma of_step_eq_error {e : Error} (h : p.step c cs = .error e) :
    ∃ m, e = .at p.line (.malformed m) := by
  have houtcome := stepOutcome_step p c cs
  rw [h] at houtcome
  generalize hx : Except.error e = x at houtcome
  cases houtcome with
  | skip hblank hc => cases hx
  | newline hc => cases hx
  | blanks hc => cases hx
  | found kind hcontrol htext hne hnewline => cases hx
  | stays hblank hcontrol => cases hx
  | fault m =>
    cases hx
    exact ⟨m, rfl⟩

/-- A step goes forward unless it meets a control character that is no white space. -/
theorem length_step_lt_iff (h : p.step c cs = .ok s) :
    s.next.rest.length < (c :: cs).length ↔ (isControl c = true → isBlank c = true) := by
  have houtcome := stepOutcome_step p c cs
  rw [h] at houtcome
  generalize hx : Except.ok s = x at houtcome
  cases houtcome with
  | skip hblank hc =>
    cases hx
    exact iff_of_true (Nat.lt_succ_self _) fun _ => hblank
  | newline hc =>
    cases hx
    subst hc
    exact iff_of_true (Nat.lt_succ_self _) (by decide)
  | blanks hc =>
    cases hx
    refine iff_of_true (length_blanks_lt p c cs) fun hcontrol => ?_
    simp only [isSpacing, Bool.or_eq_true, beq_iff_eq] at hc
    rcases hc with rfl | rfl
    · decide
    · decide
  | @found kind text rest hcontrol htext hne hnewline =>
    cases hx
    refine iff_of_true ?_ fun h => absurd (h.symm.trans hcontrol) (by decide)
    rw [htext, List.length_append]
    exact Nat.lt_add_of_pos_left (List.length_pos_iff.mpr hne)
  | stays hblank hcontrol =>
    cases hx
    refine iff_of_false (Nat.lt_irrefl _) fun h => ?_
    rw [h hcontrol] at hblank
    cases hblank
  | fault m => cases hx

/-- A way leads on in the text. -/
lemma Lexes.suffix {ts : List Token} (h : Lexes p ts q) : q.rest <:+ p.rest := by
  induction h with
  | refl p => exact List.suffix_refl _
  | step hr hs hlt _ ih =>
    obtain ⟨passed, hcs, -⟩ := exists_passed_of_step hs (hr ▸ hlt)
    rw [hr, hcs]
    exact ih.trans ⟨_ :: passed, rfl⟩

/-- Reading never makes the rest of the text longer. -/
lemma Lexes.length_le {ts : List Token} (h : Lexes p ts q) : q.rest.length ≤ p.rest.length :=
  h.suffix.length_le

/-! ## Where the steps lead -/

/-- At a control character that is no white space, a step finds an empty word and stays. -/
lemma step_of_isControl (p : Cursor) (hblank : isBlank c = false) (hcontrol : isControl c = true)
    (cs : List Char) : p.step c cs = p.found .word [] (c :: cs) := by
  have hne : ∀ d, isControl d = false → c ≠ d := by
    rintro d hd rfl
    exact absurd (hd.symm.trans hcontrol) (by decide)
  have hr : c ≠ '\r' := ne_of_isBlank hblank (by decide)
  have hn : c ≠ '\n' := ne_of_isBlank hblank (by decide)
  have htab : c ≠ '\t' := ne_of_isBlank hblank (by decide)
  simp [step, hr, hn, isSpacing, htab, hne ' ' (by decide), hne '-' (by decide),
    hne ':' (by decide), hne '(' (by decide), hne '{' (by decide), hne ')' (by decide),
    hne '}' (by decide), hblank, takeWord_of_isControl hcontrol]

/-- A place where the tokenizer stays: a control character that is no white space. -/
structure Stuck (p : Cursor) (c : Char) (cs : List Char) : Prop where
  rest_eq : p.rest = c :: cs
  blank : isBlank c = false
  control : isControl c = true

/-- The steps from any place lead to the end of the text, to a fault, or to a place where the
tokenizer stays. -/
theorem exists_lexes (p : Cursor) :
    ∃ ts q, Lexes p ts q ∧ (q.rest = [] ∧ p.tokens = .ok ts ∨
      (∃ c cs m, q.rest = c :: cs ∧ q.step c cs = .error (.at q.line (.malformed m)) ∧
        p.tokens = .error (.at q.line (.malformed m))) ∨
      ∃ c cs, q.Stuck c cs ∧ p.tokens = .error .endless) := by
  fun_induction tokens p with
  | case1 p hr => exact ⟨[], p, .refl p, .inl ⟨hr, rfl⟩⟩
  | case2 p c cs hr e hs =>
    obtain ⟨m, rfl⟩ := of_step_eq_error hs
    exact ⟨[], p, .refl p, .inr (.inl ⟨c, cs, m, hr, hs, rfl⟩)⟩
  | case3 p c cs hr s hs hlt e he ih =>
    obtain ⟨ts, q, hq, hend | ⟨c', cs', m, hrest, hfault, herror⟩ | ⟨c', cs', hstuck, herror⟩⟩ := ih
    · rw [he] at hend
      cases hend.2
    · rw [he] at herror
      exact ⟨_, q, .step hr hs hlt hq, .inr (.inl ⟨c', cs', m, hrest, hfault, herror⟩)⟩
    · rw [he] at herror
      exact ⟨_, q, .step hr hs hlt hq, .inr (.inr ⟨c', cs', hstuck, herror⟩)⟩
  | case4 p c cs hr s hs hlt us hus ih =>
    obtain ⟨ts, q, hq, hend | ⟨c', cs', m, -, -, herror⟩ | ⟨c', cs', -, herror⟩⟩ := ih
    · rw [hus] at hend
      cases hend.2
      exact ⟨_, q, .step hr hs hlt hq, .inl ⟨hend.1, rfl⟩⟩
    · rw [hus] at herror
      cases herror
    · rw [hus] at herror
      cases herror
  | case5 p c cs hr s hs hlt =>
    rw [hr, length_step_lt_iff hs, Classical.not_imp, Bool.not_eq_true] at hlt
    exact ⟨[], p, .refl p, .inr (.inr ⟨c, cs, ⟨hr, hlt.2, hlt.1⟩, rfl⟩)⟩

/-- The place after a number of steps, if so many steps can be taken. -/
def after (p : Cursor) : ℕ → Option Cursor
  | 0 => some p
  | n + 1 =>
    match p.rest with
    | [] => none
    | c :: cs =>
      match p.step c cs with
      | .error _ => none
      | .ok s => s.next.after n

/-- Reading `n + 1` tokens takes one step and then reads `n` tokens. -/
lemma after_of_step (hr : p.rest = c :: cs) (hs : p.step c cs = .ok s) (n : ℕ) :
    p.after (n + 1) = s.next.after n := by
  rw [after, hr]
  simp only [hs]

/-- The steps from the start of a way go on for ever if those from its end do. -/
lemma Lexes.forall_isSome_after_iff {ts : List Token} (h : Lexes p ts q) :
    (∀ n, (p.after n).isSome) ↔ ∀ n, (q.after n).isSome := by
  induction h with
  | refl p => rfl
  | step hr hs _ _ ih =>
    rw [← ih]
    constructor
    · intro hall n
      rw [← after_of_step hr hs]
      exact hall (n + 1)
    · rintro hall (_ | n)
      · rfl
      · rw [after_of_step hr hs]
        exact hall n

/-- Where the tokenizer stays, any number of steps can be taken. -/
lemma Stuck.isSome_after (h : p.Stuck c cs) (n : ℕ) : (p.after n).isSome := by
  induction n generalizing p with
  | zero => rfl
  | succ n ih =>
    rw [after_of_step h.rest_eq (step_of_isControl p h.blank h.control cs)]
    exact ih ⟨rfl, h.blank, h.control⟩

/-- The tokenizer has no answer exactly when its steps go on for ever. -/
theorem tokens_eq_endless_iff (p : Cursor) :
    p.tokens = .error .endless ↔ ∀ n, (p.after n).isSome := by
  obtain ⟨ts, q, hq, ⟨hend, htokens⟩ | ⟨c, cs, m, hr, hs, htokens⟩ | ⟨c, cs, hstuck, htokens⟩⟩ :=
    exists_lexes p
  · rw [htokens, hq.forall_isSome_after_iff]
    refine iff_of_false nofun fun hall => ?_
    have hone := hall 1
    rw [after, hend] at hone
    cases hone
  · rw [htokens, hq.forall_isSome_after_iff]
    refine iff_of_false nofun fun hall => ?_
    have hone := hall 1
    rw [after, hr] at hone
    simp only [hs] at hone
    cases hone
  · rw [hq.forall_isSome_after_iff]
    exact iff_of_true htokens hstuck.isSome_after

/-- It has none exactly when its steps lead to a place where it stays. -/
theorem tokens_eq_endless_iff_stuck (p : Cursor) :
    p.tokens = .error .endless ↔ ∃ ts q c cs, Lexes p ts q ∧ q.Stuck c cs := by
  constructor
  · intro h
    obtain ⟨ts, q, hq, ⟨-, htokens⟩ | ⟨c, cs, m, -, -, htokens⟩ | ⟨c, cs, hstuck, -⟩⟩ :=
      exists_lexes p
    · rw [h] at htokens
      cases htokens
    · rw [h] at htokens
      cases htokens
    · exact ⟨ts, q, c, cs, hq, hstuck⟩
  · rintro ⟨ts, q, c, cs, hq, hstuck⟩
    rw [tokens_eq_endless_iff, hq.forall_isSome_after_iff]
    exact hstuck.isSome_after

end Outcomes

end Cursor

/-! ## Normal forms -/

/-- What a keyword stands for is of its kind and at its line. -/
lemma Token.of_mem_normal {t u : Token} (h : u ∈ t.normal) :
    u.kind = t.kind ∧ u.line = t.line := by
  unfold normal at h
  split at h
  · split at h
    · simp only [List.mem_cons, List.not_mem_nil, or_false] at h
      rcases h with rfl | rfl
      · exact ⟨rfl, rfl⟩
      · exact ⟨rfl, rfl⟩
    split at h
    · rw [List.mem_singleton.mp h]
      exact ⟨rfl, rfl⟩
    split at h
    · rw [List.mem_singleton.mp h]
      exact ⟨rfl, rfl⟩
    · rw [List.mem_singleton.mp h]
      exact ⟨rfl, rfl⟩
  · rw [List.mem_singleton.mp h]
    exact ⟨rfl, rfl⟩

end TapeMachine.Program
