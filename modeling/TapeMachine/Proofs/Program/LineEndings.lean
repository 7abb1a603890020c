import TapeMachine.Proofs.Program.Pasting

/-!
# Line endings

A carriage return means nothing to the tokenizer, but it ends the token before it. So a program with
carriage returns at the ends of its lines is read as the program without them, unless one of them
comes to stand within a token (`Cursor.Cuts`). At the end of a line there is no such place
(`Cursor.not_cuts_of_lineEnd`). There may be one behind a call, where the end of the last line of a
template is pasted into the middle of a line.

The main statement, `compile_withReturns_agree`, says that compiling comes to the same answer as
long as no token is cut behind a call. `compile_withReturns_differs` is a program of which this is
not true.
-/

namespace TapeMachine.Program

open Text

namespace Cursor

/-! ## Tokens that are cut -/

/-- On the way from a place to the end of the text, some token other than spacing begins before the
place at which `n` characters are left, and ends behind it. -/
inductive Cuts (n : ℕ) : Cursor → Prop
  | here {p : Cursor} {c : Char} {cs : List Char} {t : Token} {q : Cursor} (hr : p.rest = c :: cs)
      (hs : p.step c cs = .ok ⟨some t, q⟩) (hkind : t.kind ≠ .space) (before : n < p.rest.length)
      (after : q.rest.length < n) : Cuts n p
  | later {p : Cursor} {c : Char} {cs : List Char} {s : Step} (hr : p.rest = c :: cs)
      (hs : p.step c cs = .ok s) (hlt : s.next.rest.length < p.rest.length)
      (h : Cuts n s.next) : Cuts n p

variable {p q : Cursor} {c : Char} {cs cs' : List Char} {s : Step} {n line : ℕ}

/-- A place at which a token is cut is yet to come. -/
lemma Cuts.lt_length (h : Cuts n p) : n < p.rest.length := by
  induction h with
  | here hr hs hkind before after => exact before
  | later hr hs hlt h ih => exact Nat.lt_trans ih hlt

/-- No token reaches over the end of a line. -/
theorem not_cuts_of_lineEnd {u : List Char} (hu : u <:+ p.rest) (hend : LineEnd u) :
    ¬ Cuts u.length p := by
  intro h
  induction h with
  | @here p c cs t q hr hs hkind before after =>
    obtain ⟨passed, hcs, hpassed⟩ := exists_passed_of_step hs (hr ▸ Nat.lt_trans after before)
    rw [hr, List.length_cons] at before
    rw [hr] at hu
    -- The end of the line would be one of the characters that the step passes over.
    have hcs' : u <:+ cs :=
      List.suffix_of_suffix_length_le hu (List.suffix_cons c cs) (Nat.le_of_lt_succ before)
    obtain ⟨inside, rfl⟩ : q.rest <:+ u :=
      List.suffix_of_suffix_length_le ⟨passed, hcs.symm⟩ hcs' after.le
    obtain ⟨front, hfront⟩ := hcs'
    have hpassed' : front ++ inside = passed := by
      rw [hcs, ← List.append_assoc] at hfront
      exact List.append_cancel_right hfront
    cases inside with
    | nil => exact Nat.lt_irrefl _ after
    | cons d inside =>
      obtain rfl : d = '\n' := by simpa [LineEnd] using hend
      exact hpassed (by simp [← hpassed'])
  | @later p c cs s hr hs hlt h ih =>
    obtain ⟨passed, rfl, -⟩ := exists_passed_of_step hs (hr ▸ hlt)
    refine ih ?_
    rw [hr] at hu
    exact List.suffix_of_suffix_length_le hu (List.suffix_append (c :: passed) _) h.lt_length.le

/-- No token is cut at a place to which steps lead. -/
lemma Lexes.not_cuts {ts : List Token} (h : Lexes p ts q) : ¬ Cuts q.rest.length p := by
  induction h with
  | refl p => exact fun hcuts => Nat.lt_irrefl _ hcuts.lt_length
  | step hr hs hlt h ih =>
    intro hcuts
    cases hcuts with
    | here hr' hs' _ _ after =>
      rw [hr] at hr'
      cases hr'
      rw [hs] at hs'
      cases hs'
      exact Nat.not_lt.mpr h.length_le after
    | later hr' hs' _ hcuts =>
      rw [hr] at hr'
      cases hr'
      rw [hs] at hs'
      cases hs'
      exact ih hcuts

end Cursor

/-! ## Pieces of text with carriage returns -/

section Pieces

variable {site : List Char → Prop} {t t' cs cs' u : List Char} {c d : Char}

/-- Where no carriage return is put in, the next character is the same. -/
lemma Returns.cons_left (h : Returns site (d :: u) t') (hsite : ¬ site (d :: u)) :
    ∃ u', t' = d :: u' ∧ Returns site u u' := by
  cases h with
  | cons _ h => exact ⟨_, rfl, h⟩
  | ret hs _ => exact absurd hs hsite

/-- A character that is no carriage return is one of the text. -/
lemma Returns.cons_right {u' : List Char} (h : Returns site t (d :: u')) (hd : d ≠ '\r') :
    ∃ u, t = d :: u ∧ Returns site u u' := by
  cases h with
  | cons _ h => exact ⟨_, rfl, h⟩
  | ret hs _ => exact absurd rfl hd

/-- A run of characters into which no carriage return is put. -/
lemma Returns.dropWhile {p : Char → Bool} (hp : p '\r' = false) (h : Returns site cs cs')
    (hin : ∀ u, u <:+ cs → site u → u.length ≤ (cs.dropWhile p).length) :
    cs'.takeWhile p = cs.takeWhile p ∧ Returns site (cs.dropWhile p) (cs'.dropWhile p) := by
  induction h with
  | nil => exact ⟨rfl, .nil⟩
  | @cons t t' c h ih =>
    by_cases hc : p c = true
    · rw [List.dropWhile_cons_of_pos hc] at hin ⊢
      obtain ⟨htake, hdrop⟩ := ih fun u hu => hin u (hu.trans (List.suffix_cons c t))
      rw [List.takeWhile_cons_of_pos hc, List.takeWhile_cons_of_pos hc,
        List.dropWhile_cons_of_pos hc, htake]
      exact ⟨rfl, hdrop⟩
    · rw [List.takeWhile_cons_of_neg hc, List.takeWhile_cons_of_neg hc,
        List.dropWhile_cons_of_neg hc, List.dropWhile_cons_of_neg hc]
      exact ⟨rfl, .cons c h⟩
  | @ret t t' hs h ih =>
    -- The run is empty, since a carriage return is put in before its first character.
    have hlength := hin t (List.suffix_refl t) hs
    have hdrop : t.dropWhile p = t :=
      (List.dropWhile_suffix p).eq_of_length_le hlength
    have htake : t.takeWhile p = [] := by
      have happend := List.takeWhile_append_dropWhile (p := p) (l := t)
      rw [hdrop] at happend
      exact List.append_left_eq_self.mp happend
    have hreturn : ¬ p '\r' = true := by simp [hp]
    rw [hdrop, htake, List.takeWhile_cons_of_neg hreturn, List.dropWhile_cons_of_neg hreturn]
    exact ⟨rfl, .ret hs h⟩

/-- A hyphen joins in the text where it joins with carriage returns. -/
lemma Returns.hyphenJoins_of_right (h : Returns site cs cs') (hjoins : hyphenJoins cs' = true) :
    hyphenJoins cs = true := by
  cases cs' with
  | nil => cases hjoins
  | cons d cs' =>
    have hd : d ≠ '\r' := by
      rintro rfl
      cases hjoins
    obtain ⟨cs, rfl, -⟩ := h.cons_right hd
    exact hjoins

/-- A word into which no carriage return is put. -/
lemma Returns.takeWord (h : Returns site cs cs')
    (hin : ∀ u, u <:+ cs → site u → u.length ≤ (takeWord cs).2.length) :
    (takeWord cs').1 = (takeWord cs).1 ∧ Returns site (takeWord cs).2 (takeWord cs').2 := by
  induction h with
  | nil => exact ⟨rfl, .nil⟩
  | @cons t t' c h ih =>
    by_cases hc : (isWordChar c || (c == '-' && hyphenJoins t)) = true
    · rw [Cursor.takeWord_cons_of_pos hc] at hin ⊢
      have hc' : (isWordChar c || (c == '-' && hyphenJoins t')) = true := by
        simp only [Bool.or_eq_true, Bool.and_eq_true, beq_iff_eq] at hc ⊢
        refine hc.imp_right fun ⟨hhyphen, hjoins⟩ => ⟨hhyphen, ?_⟩
        -- The character that the hyphen joins is within the word.
        cases t with
        | nil => cases hjoins
        | cons d t =>
          have hd : isWordChar d = true := by
            simp only [hyphenJoins, Bool.and_eq_true] at hjoins
            exact hjoins.2
          have hsite : ¬ site (d :: t) := by
            intro hs
            have hle := hin (d :: t) (List.suffix_cons c _) hs
            rw [Cursor.takeWord_cons_of_pos (by simp [hd])] at hle
            exact absurd hle (Nat.not_le.mpr (Nat.lt_succ_of_le (Cursor.length_takeWord_le t)))
          obtain ⟨u, rfl, -⟩ := h.cons_left hsite
          exact hjoins
      obtain ⟨hword, hrest⟩ := ih fun u hu => hin u (hu.trans (List.suffix_cons c t))
      rw [Cursor.takeWord_cons_of_pos hc', hword]
      exact ⟨rfl, hrest⟩
    · have hc' : ¬ (isWordChar c || (c == '-' && hyphenJoins t')) = true := by
        simp only [Bool.or_eq_true, Bool.and_eq_true, beq_iff_eq] at hc ⊢
        exact fun hor => hc (hor.imp_right fun ⟨hhyphen, hjoins⟩ =>
          ⟨hhyphen, h.hyphenJoins_of_right hjoins⟩)
      rw [Cursor.takeWord_cons_of_neg hc, Cursor.takeWord_cons_of_neg hc']
      exact ⟨rfl, .cons c h⟩
  | @ret t t' hs h ih =>
    -- The word is empty, since a carriage return is put in before its first character.
    have hlength := hin t (List.suffix_refl t) hs
    have happend := Cursor.takeWord_append_eq t
    have hword : (Program.takeWord t).1 = [] := by
      have hsum := congrArg List.length happend
      rw [List.length_append] at hsum
      exact List.eq_nil_of_length_eq_zero (by omega)
    rw [hword, List.nil_append] at happend
    rw [Cursor.takeWord_cons_of_neg (c := '\r') (by simp [isWordChar, isBlank]), hword, happend]
    exact ⟨rfl, .ret hs h⟩

end Pieces

namespace Cursor

variable {site : List Char → Prop} {p : Cursor} {c : Char} {cs cs' : List Char} {s : Step}
  {e : Error} {n line : ℕ}

/-! ## Steps with carriage returns -/

/-- Two steps are alike, the first of them over the text `cs`: both come to a fault, or both find
the same, provided that the first passes over no place at which carriage returns are put in. -/
inductive StepsAlike (site : List Char → Prop) (cs : List Char) :
    Except Error Step → Except Error Step → Prop
  | error {e e' : Error} (h : e.Alike e') : StepsAlike site cs (.error e) (.error e')
  | skip {q q' : Cursor} (hrest : q.rest = cs) (hq : q' = { q with rest := q'.rest })
      (h : Returns site q.rest q'.rest) : StepsAlike site cs (.ok ⟨none, q⟩) (.ok ⟨none, q'⟩)
  | found {t : Token} {q : Cursor} {y : Except Error Step} (hkind : t.kind ≠ .space)
      (h : (∀ u, u <:+ cs → site u → u.length ≤ q.rest.length) →
        ∃ rest', y = .ok ⟨some t, { q with rest := rest' }⟩ ∧ Returns site q.rest rest') :
      StepsAlike site cs (.ok ⟨some t, q⟩) y

/-- A symbol in parentheses is found with carriage returns too, unless one is put into it. -/
lemma bracket_alike (h : Returns site cs cs') :
    StepsAlike site cs (p.bracket cs) (p.bracket cs') := by
  rcases p.bracket_eq_ok_or_error cs with ⟨s, hs⟩ | herror
  · obtain ⟨d, rest, rfl, hd, rfl⟩ := bracket_eq_ok_iff.mp hs
    rw [hs]
    refine .found (by simp) fun hin => ?_
    have hfirst : ¬ site (d :: ')' :: rest) := fun hsite => by
      have hle := hin _ (List.suffix_refl _) hsite
      simp only [List.length_cons] at hle
      omega
    have hsecond : ¬ site (')' :: rest) := fun hsite => by
      have hle := hin _ (List.suffix_cons _ _) hsite
      simp only [List.length_cons] at hle
      omega
    obtain ⟨u, rfl, hu⟩ := h.cons_left hfirst
    obtain ⟨rest', rfl, hrest⟩ := hu.cons_left hsecond
    exact ⟨rest', bracket_eq_ok_iff.mpr ⟨d, rest', rfl, hd, rfl⟩, hrest⟩
  · rcases p.bracket_eq_ok_or_error cs' with ⟨s', hs'⟩ | herror'
    · -- Neither character of a symbol in parentheses is a carriage return.
      obtain ⟨d, rest', rfl, hd, rfl⟩ := bracket_eq_ok_iff.mp hs'
      have hne : d ≠ '\r' := by
        rintro rfl
        exact absurd hd (by decide)
      obtain ⟨u, rfl, hu⟩ := h.cons_right hne
      obtain ⟨rest, rfl, -⟩ := hu.cons_right (by decide)
      rw [bracket_eq_ok_iff.mpr ⟨d, rest, rfl, hd, rfl⟩] at herror
      cases herror
    · rw [herror, herror']
      exact .error (.refl _)

/-- Indentation is found with carriage returns too, unless one is put into it. -/
lemma blanks_alike (hstart : p.lineStart = true) (h : Returns site cs cs') :
    StepsAlike site cs (.ok (p.blanks c cs)) (.ok (p.blanks c cs')) := by
  have hblanks : ∀ cs, p.blanks c cs =
      ⟨some ⟨.indent, c :: cs.takeWhile isSpacing, p.line,
        spacingWidth (c :: cs.takeWhile isSpacing)⟩, ⟨cs.dropWhile isSpacing, p.line, false⟩⟩ := by
    intro cs
    simp [blanks, hstart]
  rw [hblanks, hblanks]
  refine .found (by simp) fun hin => ?_
  obtain ⟨hrun, hrest⟩ := h.dropWhile (by decide) hin
  rw [hrun]
  exact ⟨_, rfl, hrest⟩

/-- Steps that are chosen by the same condition are alike, if they are so in both cases. -/
lemma StepsAlike.ite {b : Prop} [Decidable b] {x x' y y' : Except Error Step}
    (hpos : b → StepsAlike site cs x x') (hneg : ¬ b → StepsAlike site cs y y') :
    StepsAlike site cs (if b then x else y) (if b then x' else y') := by
  by_cases hb : b
  · rw [if_pos hb, if_pos hb]
    exact hpos hb
  · rw [if_neg hb, if_neg hb]
    exact hneg hb

/-- A hyphen is a word or begins an arrow, unless a carriage return is put between. -/
lemma hyphen_alike (h : Returns site cs cs') :
    StepsAlike site cs (p.step '-' cs) (p.step '-' cs') := by
  by_cases harrow : ∃ rest, cs = '>' :: rest
  · obtain ⟨rest, rfl⟩ := harrow
    change StepsAlike site _ (p.found .arrow ['-', '>'] rest) _
    refine .found (by simp) fun hin => ?_
    have hsite : ¬ site ('>' :: rest) := fun hsite =>
      Nat.not_succ_le_self _ (hin _ (List.suffix_refl _) hsite)
    obtain ⟨rest', rfl, hrest⟩ := h.cons_left hsite
    exact ⟨rest', rfl, hrest⟩
  · have hno : ∀ rest, cs ≠ '>' :: rest := not_exists.mp harrow
    have hno' : ∀ rest', cs' ≠ '>' :: rest' := by
      rintro rest' rfl
      obtain ⟨rest, rfl, -⟩ := h.cons_right (by decide)
      exact hno rest rfl
    rw [step_hyphen hno, step_hyphen hno']
    exact .found (by simp) fun _ => ⟨cs', rfl, h⟩

/-- A step over a text, and the step over the text with carriage returns. Spacing between tokens is
left out: a carriage return may stand within it. -/
theorem step_alike (hspacing : isSpacing c = true → p.lineStart = true) (h : Returns site cs cs') :
    StepsAlike site cs (p.step c cs) (p.step c cs') := by
  unfold step
  refine .ite (fun _ => ?ret) fun _ => .ite (fun _ => ?newline) fun _ => .ite ?blanks fun _ =>
    .ite (fun _ => ?hyphen) fun hc => .ite (fun _ => ?colon) fun _ => .ite (fun _ => ?bracket)
      fun _ => .ite (fun _ => ?call) fun _ => .ite (fun _ => ?closing) fun _ =>
        .ite (fun _ => ?blank) fun _ => ?word
  case ret => exact .skip rfl rfl h
  case newline => exact .found (by simp) fun _ => ⟨cs', rfl, h⟩
  case blanks => exact fun hc => blanks_alike (hspacing hc) h
  case hyphen => exact hyphen_alike h
  case colon => exact .found (by simp) fun _ => ⟨cs', rfl, h⟩
  case bracket => exact bracket_alike h
  case call => exact .error (.malformed _ _ _)
  case closing => exact .error (.refl _)
  case blank => exact .skip rfl rfl h
  case word =>
    refine .found (by simp) fun hin => ?_
    rw [Bool.not_eq_true] at hc
    by_cases hword : isWordChar c = true
    · rw [takeWord_cons_of_pos (by simp [hword])] at hin ⊢
      obtain ⟨hrun, hrest⟩ := h.takeWord hin
      rw [takeWord_cons_of_pos (by simp [hword]), hrun]
      exact ⟨_, rfl, hrest⟩
    · have hnone : ∀ cs, takeWord (c :: cs) = ([], c :: cs) := fun cs =>
        takeWord_cons_of_neg (by simp [hword, hc])
      rw [hnone, hnone]
      exact ⟨_, rfl, .cons c h⟩

/-! ## Tokens with carriage returns -/

/-- The tokens from a place on, without spacing. -/
def solidTokens (p : Cursor) : Except Error (List Token) :=
  p.tokens.map (·.filter (·.kind != .space))

/-- There are no tokens in no text. -/
lemma solidTokens_nil (line : ℕ) (lineStart : Bool) :
    solidTokens ⟨[], line, lineStart⟩ = .ok [] := by
  rw [solidTokens, tokens_of_rest_eq_nil rfl]
  rfl

/-- The tokens that are no spaces are those of one step and of the rest. -/
lemma solidTokens_of_step (hr : p.rest = c :: cs) (hs : p.step c cs = .ok s)
    (hlt : s.next.rest.length < (c :: cs).length) :
    p.solidTokens = s.next.solidTokens.map (s.token.toList.filter (·.kind != .space) ++ ·) := by
  rw [solidTokens, solidTokens, tokens_of_step hr hs hlt]
  cases s.next.tokens with
  | error e => rfl
  | ok ts => exact congrArg Except.ok (List.filter_append _ _)

/-- Where a step does not go forward, there are no tokens. -/
lemma solidTokens_of_not_lt (hr : p.rest = c :: cs) (hs : p.step c cs = .ok s)
    (hlt : ¬ s.next.rest.length < (c :: cs).length) : p.solidTokens = .error .endless := by
  rw [solidTokens, tokens_of_not_lt hr hs hlt]
  rfl

/-- A step that finds spacing or nothing goes forward. -/
lemma length_lt_of_skip {tok : Option Token} {q : Cursor} (hs : p.step c cs = .ok ⟨tok, q⟩)
    (htok : ∀ t ∈ tok, t.kind = .space) : q.rest.length < (c :: cs).length := by
  refine (length_step_lt_iff hs).mpr fun hcontrol => ?_
  by_contra hblank
  rw [step_of_isControl p (Bool.eq_false_iff.mpr hblank) hcontrol cs] at hs
  cases hs
  cases htok _ rfl

/-- A step that finds spacing or nothing makes no difference. -/
lemma solidTokens_of_skip {tok : Option Token} {q : Cursor} (hr : p.rest = c :: cs)
    (hs : p.step c cs = .ok ⟨tok, q⟩) (htok : ∀ t ∈ tok, t.kind = .space) :
    p.solidTokens = q.solidTokens := by
  have hnone : tok.toList.filter (·.kind != .space) = [] := by
    cases tok with
    | none => rfl
    | some t => simp [htok t rfl]
  rw [solidTokens_of_step hr hs (length_lt_of_skip hs htok), hnone]
  cases q.solidTokens <;> rfl

/-- The fault of a step is the fault of the whole text. -/
lemma solidTokens_of_error (hr : p.rest = c :: cs) (hs : p.step c cs = .error e) :
    p.solidTokens = .error e := by
  rw [solidTokens, tokens_of_error hr hs]
  rfl

/-- Within a line, blanks lead behind them, and find spacing or nothing. -/
lemma exists_step_of_isSpacing (hc : isSpacing c = true) (cs : List Char) (line : ℕ) :
    ∃ tok, (Cursor.mk (c :: cs) line false).step c cs =
        .ok ⟨tok, ⟨cs.dropWhile isSpacing, line, false⟩⟩ ∧ ∀ t ∈ tok, t.kind = .space := by
  have hr : (c == '\r') = false := by
    rw [beq_eq_false_iff_ne]
    rintro rfl
    cases hc
  have hn : (c == '\n') = false := by
    rw [beq_eq_false_iff_ne]
    rintro rfl
    cases hc
  simp only [step, hr, hn, hc, Bool.false_eq_true, if_false, if_true, blanks]
  split
  · exact ⟨_, rfl, by rintro t ⟨⟩; rfl⟩
  · exact ⟨none, rfl, fun t ht => by cases ht⟩

/-- Blanks within a line can be passed over. -/
lemma solidTokens_dropWhile (cs : List Char) (line : ℕ) :
    solidTokens ⟨cs.dropWhile isSpacing, line, false⟩ = solidTokens ⟨cs, line, false⟩ := by
  cases cs with
  | nil => rfl
  | cons c cs =>
    by_cases hc : isSpacing c = true
    · obtain ⟨tok, hs, htok⟩ := exists_step_of_isSpacing hc cs line
      rw [List.dropWhile_cons_of_pos hc, solidTokens_of_skip rfl hs htok]
    · rw [List.dropWhile_cons_of_neg hc]

/-- No token is cut within blanks. -/
lemma cuts_dropWhile_iff (cs : List Char) (line : ℕ) :
    Cuts n ⟨cs.dropWhile isSpacing, line, false⟩ ↔ Cuts n ⟨cs, line, false⟩ := by
  cases cs with
  | nil => exact Iff.rfl
  | cons c cs =>
    by_cases hc : isSpacing c = true
    · obtain ⟨tok, hs, htok⟩ := exists_step_of_isSpacing hc cs line
      rw [List.dropWhile_cons_of_pos hc]
      refine ⟨fun h => .later rfl hs (length_lt_of_skip hs htok) h, fun h => ?_⟩
      cases h with
      | here hr hs' hkind _ _ =>
        cases hr
        rw [hs] at hs'
        cases hs'
        exact absurd (htok _ rfl) hkind
      | later hr hs' _ h =>
        cases hr
        rw [hs] at hs'
        cases hs'
        exact h
    · rw [List.dropWhile_cons_of_neg hc]

/-- A blank within a line makes no difference. -/
lemma solidTokens_cons_of_isSpacing (hc : isSpacing c = true) (cs : List Char) (line : ℕ) :
    solidTokens ⟨c :: cs, line, false⟩ = solidTokens ⟨cs, line, false⟩ := by
  rw [← solidTokens_dropWhile, List.dropWhile_cons_of_pos hc, solidTokens_dropWhile]

/-- A blank within a line makes no difference to where tokens are cut. -/
lemma cuts_cons_of_isSpacing (hc : isSpacing c = true) (cs : List Char) (line : ℕ) :
    Cuts n ⟨c :: cs, line, false⟩ ↔ Cuts n ⟨cs, line, false⟩ := by
  rw [← cuts_dropWhile_iff, List.dropWhile_cons_of_pos hc, cuts_dropWhile_iff]

/-- A text is cut into the same tokens with carriage returns as without, if none is put in where it
cuts a token. -/
theorem agree_solidTokens {t t' : List Char} (h : Returns site t t') (line : ℕ) (lineStart : Bool)
    (huncut : ∀ u, u <:+ t → site u → ¬ Cuts u.length ⟨t, line, lineStart⟩) :
    Agree Eq (solidTokens ⟨t, line, lineStart⟩) (solidTokens ⟨t', line, lineStart⟩) := by
  -- The induction is on the length of the longer text: a token is passed as a whole.
  induction hn : t'.length using Nat.strong_induction_on generalizing t t' line lineStart with
  | _ n ih =>
    subst hn
    cases h with
    | nil =>
      rw [solidTokens_nil]
      exact .ok rfl
    | @ret _ t' hsite h =>
      have hskip : (Cursor.mk ('\r' :: t') line lineStart).step '\r' t' =
          .ok ⟨none, ⟨t', line, lineStart⟩⟩ := rfl
      rw [solidTokens_of_skip rfl hskip nofun]
      exact ih _ (Nat.lt_succ_self _) h line lineStart huncut rfl
    | @cons cs cs' c h =>
      by_cases hblank : isSpacing c = true ∧ lineStart = false
      · obtain ⟨hc, rfl⟩ := hblank
        rw [solidTokens_cons_of_isSpacing hc, solidTokens_cons_of_isSpacing hc]
        refine ih _ (Nat.lt_succ_self _) h line false (fun u hu hsite hcuts => ?_) rfl
        exact huncut u (hu.trans (List.suffix_cons c cs)) hsite
          ((cuts_cons_of_isSpacing hc cs line).mpr hcuts)
      · have hspacing : isSpacing c = true → lineStart = true := by
          intro hc
          rw [← Bool.not_eq_false]
          exact fun hstart => hblank ⟨hc, hstart⟩
        have halike := step_alike (p := ⟨c :: cs, line, lineStart⟩) hspacing h
        generalize hx : (Cursor.mk (c :: cs) line lineStart).step c cs = x at halike
        generalize hy : (Cursor.mk (c :: cs) line lineStart).step c cs' = y at halike
        change (Cursor.mk (c :: cs') line lineStart).step c cs' = y at hy
        cases halike with
        | error halike =>
          rw [solidTokens_of_error rfl hx, solidTokens_of_error rfl hy]
          exact .error halike
        | @skip q q' hrest hq hreturns =>
          rw [solidTokens_of_skip rfl hx nofun, solidTokens_of_skip rfl hy nofun, hq]
          refine ih _ (length_lt_of_skip hy nofun) hreturns q.line q.lineStart
            (fun u hu hsite hcuts => ?_) rfl
          rw [hrest] at hu
          exact huncut u (hu.trans (List.suffix_cons c cs)) hsite
            (.later rfl hx (length_lt_of_skip hx nofun) hcuts)
        | @found t q y hkind hfound =>
          obtain ⟨rest', rfl, hreturns⟩ := hfound fun u hu hsite => by
            by_contra hlt
            refine huncut u (hu.trans (List.suffix_cons c cs)) hsite (.here rfl hx hkind ?_ ?_)
            · exact Nat.lt_succ_of_le hu.length_le
            · exact Nat.not_le.mp hlt
          -- Whether a step goes forward is decided by the character, the same in both texts.
          by_cases hforward : isControl c = true → isBlank c = true
          · have hlt := (length_step_lt_iff hx).mpr hforward
            have hlt' := (length_step_lt_iff hy).mpr hforward
            rw [solidTokens_of_step rfl hx hlt, solidTokens_of_step rfl hy hlt']
            have hrest := ih _ hlt' hreturns q.line q.lineStart (fun u hu hsite hcuts => ?_) rfl
            · exact hrest.map fun ts ts' _ hts => by rw [hts]
            · obtain ⟨passed, hcs, -⟩ := exists_passed_of_step hx hlt
              have hsuffix : q.rest <:+ c :: cs := ⟨c :: passed, by rw [hcs]; rfl⟩
              exact huncut u (hu.trans hsuffix) hsite (.later rfl hx hlt hcuts)
          · rw [solidTokens_of_not_lt rfl hx (mt (length_step_lt_iff hx).mp hforward),
              solidTokens_of_not_lt rfl hy (mt (length_step_lt_iff hy).mp hforward)]
            exact .error (.refl _)

end Cursor

/-! ## Programs with carriage returns -/

/-- Replacing keywords leaves spacing alone. -/
lemma filter_normalize (ts : List Token) :
    (normalize ts).filter (·.kind != .space) = normalize (ts.filter (·.kind != .space)) := by
  have hkind : ∀ t : Token, ∀ u ∈ t.normal, u.kind = t.kind :=
    fun t u hu => (Token.of_mem_normal hu).1
  induction ts with
  | nil => rfl
  | cons t ts ih =>
    have hcons : ∀ us, normalize (t :: us) = t.normal ++ normalize us := fun us => rfl
    rw [hcons, List.filter_append, ih]
    by_cases ht : t.kind = .space
    · have hnone : t.normal.filter (·.kind != .space) = [] := by
        rw [List.filter_eq_nil_iff]
        intro u hu
        simp [hkind t u hu, ht]
      rw [hnone, List.filter_cons_of_neg (by simp [ht]), List.nil_append]
    · have hall : t.normal.filter (·.kind != .space) = t.normal := by
        rw [List.filter_eq_self]
        intro u hu
        simp [hkind t u hu, ht]
      rw [hall, List.filter_cons_of_pos (by simp [ht]), hcons]

/-- The draft of a program depends on its tokens other than spacing. -/
lemma draft_eq (text : List Char) :
    draft text = expanded text >>= fun v => (Cursor.mk v 1 true).solidTokens >>= fun ts =>
      (readFrom {} (normalize ts)).map Draft.ofInstructions := by
  rw [draft, programTokens]
  cases expanded text with
  | error e => rfl
  | ok v =>
    change ((tokenize v >>= fun ts => pure (normalize ts)) >>= _) =
      (Cursor.mk v 1 true).solidTokens >>= _
    rw [Cursor.solidTokens, tokenize]
    cases (Cursor.mk v 1 true).tokens with
    | error e => rfl
    | ok ts =>
      change (instructions (normalize ts) >>= _) = (readFrom {} (normalize (ts.filter _))).map _
      rw [instructions, filter_normalize]
      cases readFrom {} (normalize (ts.filter (·.kind != .space))) <;> rfl

/-- Behind some call of a program, the end of the last line of a template is pasted into a token. -/
def PastesIntoToken (text : List Char) : Prop :=
  ∃ rest ts rest' ts' v u, extractTemplates (stripComments text) = .ok (rest, ts) ∧
    extractTemplates (stripComments (withReturns text)) = .ok (rest', ts') ∧
    expandTemplates ts rest = .ok v ∧ Seam ts ts' rest u ∧ Cursor.Cuts u.length ⟨v, 1, true⟩

/-- Where no end of a line is pasted into a token, no carriage return cuts one. -/
lemma agree_expanded {text : List Char} (h : ¬ PastesIntoToken text) :
    Agree (fun v v' => ∃ site, Returns site v v' ∧
        ∀ u, u <:+ v → site u → ¬ Cursor.Cuts u.length ⟨v, 1, true⟩)
      (expanded text) (expanded (withReturns text)) := by
  refine (agree_extractTemplates text).bind fun x x' hextract hextract' hx => ?_
  obtain ⟨hreturns, hts⟩ := hx
  have hexpand : Agree (Returns fun u => LineEnd u ∨ Seam x.2 x'.2 x.1 u)
      (expandFrom x.2 1 0 x.1) (expandFrom x'.2 1 0 x'.1) :=
    agree_expandFrom (fun _ => .inl) hts hreturns (fun _ => .inr) 1
  refine hexpand.imp fun v v' hv hreturns => ⟨_, hreturns, fun u hu hsite => ?_⟩
  rcases hsite with hend | hseam
  · exact Cursor.not_cuts_of_lineEnd hu hend
  · exact fun hcuts => h ⟨_, _, _, _, v, u, hextract, hextract', hv, hseam, hcuts⟩

/-- Carriage returns at the ends of lines do not matter: a program compiles with them to the same
table as without, or both have a fault of the same kind at the same line. The exception is a program
in which the end of the last line of a template is pasted into the middle of a token. -/
theorem compile_withReturns_agree (source start : String)
    (h : ¬ PastesIntoToken source.toList) :
    (∃ t, compile source start = .ok t ∧
      compile (String.ofList (withReturns source.toList)) start = .ok t) ∨
    ∃ e e', compile source start = .error e ∧
      compile (String.ofList (withReturns source.toList)) start = .error e' ∧ e.Alike e' := by
  have hdraft : Agree Eq (draft source.toList) (draft (withReturns source.toList)) := by
    rw [draft_eq, draft_eq]
    refine (agree_expanded h).bind fun v v' _ _ hv => ?_
    obtain ⟨site, hreturns, huncut⟩ := hv
    refine (Cursor.agree_solidTokens hreturns 1 true huncut).bind fun ts ts' _ _ hts => ?_
    rw [hts]
    exact .refl _
  rw [← Agree.eq_iff, compile, compile, String.toList_ofList]
  refine hdraft.bind fun d d' _ _ hd => ?_
  rw [hd]
  exact .refl _

/-- A call in the middle of a line, where the end of the template's line falls between two words. -/
theorem compile_withReturns_agree_midLine :
    let source := "#define M\nwrite 1\n#enifed\na -> \x7bM\x7d move r\n"
    ¬ PastesIntoToken source.toList ∧
      ((∃ t, compile source "" = .ok t ∧
        compile (String.ofList (withReturns source.toList)) "" = .ok t) ∨
      ∃ e e', compile source "" = .error e ∧
        compile (String.ofList (withReturns source.toList)) "" = .error e' ∧ e.Alike e') := by
  intro source
  have hsource : ¬ PastesIntoToken source.toList := by
    rintro ⟨rest, ts, -, ts', v, u, hextract, -, hv, hseam, hcuts⟩
    obtain ⟨before, inner, after, line, -, -, -, -, hrest, -, -, -, -, -, hu⟩ := hseam
    have hknown : extractTemplates (stripComments source.toList) =
        .ok ("\n\n\na -> \x7bM\x7d move r\n".toList, [⟨['M'], [], ["write 1".toList]⟩]) := by
      decide +kernel
    rw [hknown] at hextract
    cases hextract
    have hopening : "\n\n\na -> ".toList ++ '{' :: "M\x7d move r\n".toList =
      before ++ '{' :: (inner ++ '}' :: after) := hrest
    obtain ⟨-, -, hinner⟩ := (List.append_cons_inj_of_notMem (by decide) (by decide)).mp hopening
    have hclosing : ['M'] ++ '}' :: " move r\n".toList = inner ++ '}' :: after := hinner
    obtain ⟨-, -, rfl⟩ := (List.append_cons_inj_of_notMem (by decide) (by decide)).mp hclosing
    have hafter : u = " move r\n".toList := by
      cases hu
      rfl
    obtain ⟨us, hbefore⟩ : ∃ us, Cursor.Lexes ⟨v, 1, true⟩ us ⟨u, 4, false⟩ := by
      have hexpanded : v = "\n\n\na -> write 1 move r\n".toList := by
        cases hv
        rfl
      rw [hexpanded, hafter]
      exact ⟨_, .step rfl rfl (by decide) (.step rfl rfl (by decide) (.step rfl rfl (by decide)
        (.step rfl rfl (by decide) (.step rfl rfl (by decide) (.step rfl rfl (by decide)
          (.step rfl rfl (by decide) (.step rfl rfl (by decide) (.step rfl rfl (by decide)
            (.step rfl rfl (by decide) (.refl _))))))))))⟩
    exact hbefore.not_cuts hcuts
  exact ⟨hsource, compile_withReturns_agree source "" hsource⟩

/-- The end of the template's line comes to stand within the word `foobar`. -/
theorem compile_withReturns_differs :
    let source := "#define M\nfoo\n#enifed\n\x7bM\x7dbar -> write 1\n"
    (∀ c ∈ source.toList, c ≠ '\r' ∧ (isControl c = true → isBlank c = true)) ∧
      (∃ t, compile source = .ok t ∧ t.transitions = [⟨"foobar", "*", "1", "*", "foobar"⟩]) ∧
      compile (String.ofList (withReturns source.toList)) =
        .error (.at 4 (.malformed (.outsideState "foo".toList))) := by
  intro source
  have hplain : source.toList.all (fun c => c != '\r' && (!isControl c || isBlank c)) = true := by
    decide +kernel
  refine ⟨fun c hc => ?_, ?_, ?_⟩
  · have hc := List.all_eq_true.mp hplain c hc
    simp only [Bool.and_eq_true, bne_iff_ne, Bool.or_eq_true, Bool.not_eq_true'] at hc
    exact ⟨hc.1, fun hcontrol => hc.2.resolve_left (by simp [hcontrol])⟩
  · have hsome : ((compile source).map Table.transitions).toOption =
        some [⟨"foobar", "*", "1", "*", "foobar"⟩] := by decide +kernel
    cases hcompile : compile source with
    | error e =>
      rw [hcompile] at hsome
      cases hsome
    | ok t =>
      rw [hcompile] at hsome
      exact ⟨t, rfl, Option.some.inj hsome⟩
  · have herror : (compile (String.ofList (withReturns source.toList))).map Table.transitions =
        .error (.at 4 (.malformed (.outsideState "foo".toList))) := by decide +kernel
    exact map_eq_error_iff.mp herror

end TapeMachine.Program
