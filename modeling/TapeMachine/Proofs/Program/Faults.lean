import TapeMachine.Proofs.Program.Characters

/-!
# Faults of a program

A program compiles to a frozen table or has a fault at a line, with two exceptions: a call that
names nothing, and a control character that the tokenizer does not pass. A call is recognised by the
first character between its braces, which must not be one of the five blanks that end a name
(`callBody?_eq_some_iff`), and is then cut into words at any white space. White space that ends no
name, such as the no-break space, falls between the two.

Calls are replaced from left to right, and no call reaches over an opening brace, so what stands
before one is replaced by itself (`expandFrom_append`). This says when the exception is met:
when the text before a call of white space only is replaced without a fault
(`expandTemplates_eq_namelessCall_iff`). The second is met when the tokenizer comes to such a
character of the expanded text, which clean programs do not have. No other stage of the compiler can
meet either: each of them has a lemma that says of which kind its faults are and at which lines they
can be.
-/

namespace TapeMachine.Program

open Text

/-! ## Calls -/

/-- What can stand between the braces of a call: no brace, and first of all a character that does
not end a name. -/
structure IsCall (inner : List Char) : Prop where
  braceless : ∀ c ∈ inner, isBrace c = false
  named : ∃ c ∈ inner.head?, endsName c = false

/-- A call is what stands up to the next brace, if this is a closing one. -/
theorem callBody?_eq_some_iff {cs inner : List Char} :
    callBody? cs = some inner ↔ IsCall inner ∧ ∃ post, cs = inner ++ '}' :: post := by
  constructor
  · intro h
    have hcut := List.takeWhile_append_dropWhile (p := fun c => !isBrace c) (l := cs)
    have hdrop : cs.drop (cs.takeWhile fun c => !isBrace c).length =
        cs.dropWhile fun c => !isBrace c := by
      have hleft : ((cs.takeWhile fun c => !isBrace c) ++ cs.dropWhile fun c => !isBrace c).drop
          (cs.takeWhile fun c => !isBrace c).length = cs.dropWhile fun c => !isBrace c :=
        List.drop_left
      rwa [hcut] at hleft
    unfold callBody? at h
    simp only [hdrop] at h
    split at h
    · rename_i post hpost
      split at h
      · cases h
      · rename_i hname
        cases h
        rw [hpost] at hcut
        refine ⟨⟨?_, ?_⟩, post, hcut.symm⟩
        · intro c hc
          simpa using List.mem_takeWhile_imp hc
        · cases cs with
          | nil => simp at hname
          | cons c cs =>
            have hc : endsName c = false ∧ isBrace c = false := by
              by_contra hno
              apply hname
              rw [List.takeWhile_cons_of_neg (by simpa using hno)]
              rfl
            refine ⟨c, ?_, hc.1⟩
            rw [List.takeWhile_cons_of_pos (by simp [hc.2])]
            rfl
    · cases h
  · rintro ⟨⟨hbrace, c, hc, hname⟩, post, rfl⟩
    have htake : (inner ++ '}' :: post).takeWhile (fun c => !isBrace c) = inner := by
      rw [List.takeWhile_append_of_pos (by simpa using hbrace)]
      simp [isBrace]
    obtain ⟨cs, rfl⟩ : ∃ cs, inner = c :: cs := by
      cases inner with
      | nil => cases hc
      | cons d cs =>
        cases hc
        exact ⟨cs, rfl⟩
    have hfirst : isBrace c = false := hbrace c List.mem_cons_self
    unfold callBody?
    simp only [htake, List.drop_left]
    simp [hname, hfirst]

/-- A call is one in the front of a text, or reaches over all of the front. -/
lemma callBody?_append_eq_some_iff {pre rest inner : List Char} :
    callBody? (pre ++ rest) = some inner ↔ callBody? pre = some inner ∨
      ∃ beyond post, inner = pre ++ beyond ∧ rest = beyond ++ '}' :: post ∧ IsCall inner := by
  rw [callBody?_eq_some_iff, callBody?_eq_some_iff]
  constructor
  · rintro ⟨hcall, post, hpost⟩
    rcases List.append_eq_append_iff.mp hpost with ⟨beyond, hinner, hrest⟩ | ⟨left, hpre, hrest⟩
    · exact .inr ⟨beyond, post, hinner, hrest, hcall⟩
    · cases left with
      | nil =>
        rw [List.append_nil] at hpre
        exact .inr ⟨[], post, by simp [hpre], hrest.symm, hcall⟩
      | cons c left =>
        cases hrest
        exact .inl ⟨hcall, left, hpre⟩
  · rintro (⟨hcall, post, rfl⟩ | ⟨beyond, post, rfl, rfl, hcall⟩)
    · exact ⟨hcall, post ++ rest, by simp⟩
    · exact ⟨hcall, post, by simp⟩

/-- No call reaches over a text in which a closing brace is not the first one. -/
lemma callBody?_append {rest : List Char} (h : rest.find? isBrace ≠ some '}') (pre : List Char) :
    callBody? (pre ++ rest) = callBody? pre := by
  refine Option.ext fun inner => ?_
  rw [callBody?_append_eq_some_iff, or_iff_left]
  rintro ⟨beyond, post, rfl, rfl, hcall⟩
  refine h ?_
  have hbeyond : beyond.find? isBrace = none := by
    refine List.find?_eq_none.mpr fun c hc => ?_
    simp [hcall.braceless c (List.mem_append_right pre hc)]
  rw [List.find?_append, hbeyond]
  rfl

/-- A call does not reach beyond an opening brace. -/
lemma callBody?_append_brace (pre rest : List Char) :
    callBody? (pre ++ '{' :: rest) = callBody? pre :=
  callBody?_append (by simp [isBrace]) pre

/-! ## Replacing calls -/

section Replacing

variable {ts : List Template} {line skip : ℕ} {c : Char} {pre cs inner : List Char}

/-- A character opens a call, or it is kept. -/
lemma call_or_kept (c : Char) (cs : List Char) :
    (∃ inner, c = '{' ∧ callBody? cs = some inner) ∨ (c = '{' → callBody? cs = none) := by
  cases hbody : callBody? cs with
  | none => exact .inr fun _ => rfl
  | some inner =>
    by_cases hc : c = '{'
    · exact .inl ⟨inner, hc, rfl⟩
    · exact .inr fun h => absurd h hc

/-- Induction on a text in which calls are replaced: it is passed character by character, and at
each of them a call may start. -/
@[elab_as_elim]
lemma replacing_induction {motive : ℕ → ℕ → List Char → Prop}
    (nil : ∀ line skip, motive line skip [])
    (skipped : ∀ line skip c cs, motive (if c == '\n' then line + 1 else line) skip cs →
      motive line (skip + 1) (c :: cs))
    (kept : ∀ line c cs, (c = '{' → callBody? cs = none) →
      motive (if c == '\n' then line + 1 else line) 0 cs → motive line 0 (c :: cs))
    (call : ∀ line cs inner, callBody? cs = some inner → motive line (inner.length + 1) cs →
      motive line 0 ('{' :: cs))
    (line skip : ℕ) (text : List Char) : motive line skip text := by
  induction text generalizing line skip with
  | nil => exact nil line skip
  | cons c cs ih =>
    cases skip with
    | succ skip => exact skipped line skip c cs (ih _ _)
    | zero =>
      rcases call_or_kept c cs with ⟨inner, rfl, hbody⟩ | hnone
      · exact call line cs inner hbody (ih _ _)
      · exact kept line c cs hnone (ih _ _)

/-- A character that opens no call is kept. -/
lemma expandFrom_kept (h : c = '{' → callBody? cs = none) :
    expandFrom ts line 0 (c :: cs) =
      (expandFrom ts (if c == '\n' then line + 1 else line) 0 cs).map (c :: ·) := by
  rw [expandFrom]
  split
  · rename_i hc
    rw [h (beq_iff_eq.mp hc)]
  · rfl

/-- A call is replaced as a whole by the lines of its template. -/
lemma expandFrom_call (h : callBody? cs = some inner) :
    expandFrom ts line 0 ('{' :: cs) =
      match words inner with
      | [] => .error .namelessCall
      | name :: args =>
        match findTemplate? ts name with
        | none => .error (.at line (.undefinedTemplate name))
        | some t => (expandFrom ts line (inner.length + 1) cs).map (t.expand args ++ ·) := by
  rw [expandFrom, h]
  rfl

/-- Work on a result keeps the fault of a failure. -/
lemma map_eq_error_iff {α β : Type} {f : α → β} {x : Except Error α} {e : Error} :
    x.map f = .error e ↔ x = .error e := by
  cases x with
  | error e' => simp [Except.map]
  | ok a => simp [Except.map]

/-- What is put in front of a part is put in front of the whole. -/
lemma map_bind_append {α : Type} (as : List α) (x y : Except Error (List α)) :
    (x.bind fun done => y.map (done ++ ·)).map (as ++ ·) =
      (x.map (as ++ ·)).bind fun done => y.map (done ++ ·) := by
  cases x with
  | error e => rfl
  | ok done =>
    cases y with
    | error e => rfl
    | ok rest => exact congrArg Except.ok (List.append_assoc as done rest).symm

/-- The newlines of a text are counted from the front. -/
lemma line_add_count (line : ℕ) (c : Char) (cs : List Char) :
    (if c == '\n' then line + 1 else line) + cs.count '\n' = line + (c :: cs).count '\n' := by
  rw [List.count_cons]
  split
  · omega
  · omega

/-- What stands before a text over which no call reaches is replaced by itself. -/
theorem expandFrom_append {rest : List Char} (hrest : rest.find? isBrace ≠ some '}')
    (hskip : skip ≤ pre.length) :
    expandFrom ts line skip (pre ++ rest) = (expandFrom ts line skip pre).bind fun done =>
      (expandFrom ts (line + pre.count '\n') 0 rest).map (done ++ ·) := by
  induction line, skip, pre using replacing_induction with
  | nil line skip =>
    obtain rfl : skip = 0 := by simpa using hskip
    have hnil : expandFrom ts line 0 [] = .ok [] := by rw [expandFrom]
    rw [hnil, List.nil_append, List.count_nil, Nat.add_zero]
    cases expandFrom ts line 0 rest <;> rfl
  | skipped line skip c cs ih =>
    rw [List.cons_append, expandFrom, expandFrom, ih (by simpa using hskip), line_add_count]
  | kept line c cs hnone ih =>
    have hnone' : c = '{' → callBody? (cs ++ rest) = none := by
      rwa [callBody?_append hrest]
    rw [List.cons_append, expandFrom_kept hnone', expandFrom_kept hnone, ih (Nat.zero_le _),
      line_add_count]
    exact map_bind_append [c] _ _
  | call line cs inner hsome ih =>
    have hsome' : callBody? (cs ++ rest) = some inner := by
      rwa [callBody?_append hrest]
    have hlength : inner.length + 1 ≤ cs.length := by
      obtain ⟨-, post, rfl⟩ := callBody?_eq_some_iff.mp hsome
      simp only [List.length_append, List.length_cons]
      omega
    rw [List.cons_append, expandFrom_call hsome', expandFrom_call hsome]
    cases words inner with
    | nil => rfl
    | cons name args =>
      simp only
      cases findTemplate? ts name with
      | none => rfl
      | some t =>
        simp only
        rw [ih hlength, ← line_add_count]
        exact map_bind_append (t.expand args) _ _

/-- A call that names nothing stands behind text that is replaced without a fault. -/
lemma exists_of_expandFrom_eq_namelessCall {text : List Char}
    (h : expandFrom ts line skip text = .error .namelessCall) :
    ∃ pre inner post done, text = pre ++ '{' :: (inner ++ '}' :: post) ∧ IsCall inner ∧
      (∀ c ∈ inner, isBlank c = true) ∧ expandFrom ts line skip pre = .ok done := by
  -- The text before the call takes the steps that led to the call.
  induction line, skip, text using replacing_induction with
  | nil line skip =>
    rw [expandFrom] at h
    cases h
  | skipped line skip c cs ih =>
    rw [expandFrom] at h
    obtain ⟨pre, inner, post, done, rfl, hcall, hblank, hdone⟩ := ih h
    refine ⟨c :: pre, inner, post, done, rfl, hcall, hblank, ?_⟩
    rw [expandFrom]
    exact hdone
  | kept line c cs hnone ih =>
    rw [expandFrom_kept hnone] at h
    obtain ⟨pre, inner, post, done, rfl, hcall, hblank, hdone⟩ := ih (map_eq_error_iff.mp h)
    rw [callBody?_append_brace] at hnone
    refine ⟨c :: pre, inner, post, c :: done, rfl, hcall, hblank, ?_⟩
    rw [expandFrom_kept hnone, hdone]
    rfl
  | call line cs inner hsome ih =>
    rw [expandFrom_call hsome] at h
    cases hwords : words inner with
    | nil =>
      obtain ⟨hcall, post, rfl⟩ := callBody?_eq_some_iff.mp hsome
      refine ⟨[], inner, post, [], rfl, hcall, words_eq_nil_iff.mp hwords, ?_⟩
      rw [expandFrom]
    | cons name args =>
      simp only [hwords] at h
      cases hfind : findTemplate? ts name with
      | none =>
        simp only [hfind] at h
        cases h
      | some t =>
        simp only [hfind] at h
        obtain ⟨pre, blank, post, done, rfl, hcall, hblank, hdone⟩ := ih (map_eq_error_iff.mp h)
        rw [callBody?_append_brace] at hsome
        refine ⟨'{' :: pre, blank, post, t.expand args ++ done, rfl, hcall, hblank, ?_⟩
        rw [expandFrom_call hsome, hwords]
        simp only [hfind, hdone]
        rfl

/-- The replacement of calls comes to one that names nothing exactly when there is one of white
space only and the text before it is replaced without a fault. -/
theorem expandTemplates_eq_namelessCall_iff {text : List Char} :
    expandTemplates ts text = .error .namelessCall ↔
      ∃ pre inner post done, text = pre ++ '{' :: (inner ++ '}' :: post) ∧ IsCall inner ∧
        (∀ c ∈ inner, isBlank c = true) ∧ expandTemplates ts pre = .ok done := by
  constructor
  · intro h
    exact exists_of_expandFrom_eq_namelessCall h
  · rintro ⟨pre, inner, post, done, rfl, hcall, hblank, hdone⟩
    have hsome : callBody? (inner ++ '}' :: post) = some inner :=
      callBody?_eq_some_iff.mpr ⟨hcall, post, rfl⟩
    rw [expandTemplates] at hdone ⊢
    rw [expandFrom_append (by simp [isBrace]) (Nat.zero_le _), hdone, expandFrom_call hsome,
      words_eq_nil_iff.mpr hblank]
    rfl

/-- What cannot be replaced is a call, of white space only or at the line of its opening brace. -/
lemma of_expandFrom_eq_error {text : List Char} {e : Error}
    (h : expandFrom ts line skip text = .error e) :
    e = .namelessCall ∨ ∃ (n : ℕ) (name : List Char), e = .at n (.undefinedTemplate name) ∧
      line ≤ n ∧ n ≤ line + text.count '\n' := by
  have hnext : ∀ {line n : ℕ} {c : Char} {cs : List Char},
      (if c == '\n' then line + 1 else line) ≤ n ∧
        n ≤ (if c == '\n' then line + 1 else line) + cs.count '\n' →
      line ≤ n ∧ n ≤ line + (c :: cs).count '\n' := by
    intro line n c cs hn
    rw [line_add_count] at hn
    refine ⟨?_, hn.2⟩
    have hle : line ≤ if c == '\n' then line + 1 else line := by
      split
      · omega
      · omega
    exact le_trans hle hn.1
  induction line, skip, text using replacing_induction with
  | nil line skip =>
    rw [expandFrom] at h
    cases h
  | skipped line skip c cs ih =>
    rw [expandFrom] at h
    refine (ih h).imp_right ?_
    rintro ⟨n, name, he, hn⟩
    exact ⟨n, name, he, hnext hn⟩
  | kept line c cs hnone ih =>
    rw [expandFrom_kept hnone] at h
    refine (ih (map_eq_error_iff.mp h)).imp_right ?_
    rintro ⟨n, name, he, hn⟩
    exact ⟨n, name, he, hnext hn⟩
  | call line cs inner hsome ih =>
    rw [expandFrom_call hsome] at h
    split at h
    · exact .inl (Except.error.inj h).symm
    · split at h
      · exact .inr ⟨line, _, (Except.error.inj h).symm, le_refl _, Nat.le_add_right _ _⟩
      · refine (ih (map_eq_error_iff.mp h)).imp_right ?_
        rintro ⟨n, name, he, hn⟩
        exact ⟨n, name, he, hnext hn⟩

end Replacing

/-! ## Faults of the other stages -/

section Stages

variable {e : Error}

/-- What is wrong with definitions is malformed text, at one of the lines or where a definition was
opened. -/
lemma of_extractLines_eq_error {ts : List Template} {number : ℕ} {opened : Option Definition}
    {ls : List (List Char)} (hnumber : 1 ≤ number)
    (hopened : ∀ d ∈ opened, 1 ≤ d.start ∧ d.start < number)
    (h : extractLines ts number opened ls = .error e) :
    ∃ (line : ℕ) (m : Malformed), e = .at line (.malformed m) ∧ 1 ≤ line ∧
      line < number + ls.length := by
  induction ls generalizing ts number opened with
  | nil =>
    unfold extractLines at h
    split at h
    · rename_i d
      have hstart := hopened d rfl
      exact ⟨d.start, _, (Except.error.inj h).symm, hstart.1, hstart.2⟩
    · cases h
  | cons l ls ih =>
    have hlength : number < number + (l :: ls).length := by
      rw [List.length_cons]
      omega
    -- The lines behind this one start with the next number.
    have hnext : ∀ {ts : List Template} {opened : Option Definition} {kept : List Char},
        (∀ d ∈ opened, 1 ≤ d.start ∧ d.start < number + 1) →
        (extractLines ts (number + 1) opened ls).map
          (fun x => { x with lines := kept :: x.lines }) = .error e →
        ∃ (line : ℕ) (m : Malformed), e = .at line (.malformed m) ∧ 1 ≤ line ∧
          line < number + (l :: ls).length := by
      intro ts opened kept hopened h
      obtain ⟨line, m, he, hpos, hlt⟩ :=
        ih (Nat.le_succ_of_le hnumber) hopened (map_eq_error_iff.mp h)
      refine ⟨line, m, he, hpos, ?_⟩
      rw [List.length_cons]
      omega
    unfold extractLines at h
    split at h
    · exact ⟨number, _, (Except.error.inj h).symm, hnumber, hlength⟩
    · split at h
      · exact ⟨number, _, (Except.error.inj h).symm, hnumber, hlength⟩
      · apply hnext _ h
        rintro d ⟨⟩
        exact ⟨hnumber, Nat.lt_succ_self number⟩
    · rename_i d _
      have hstart := hopened d rfl
      split at h
      · exact hnext (by simp) h
      · apply hnext _ h
        rintro d' ⟨⟩
        exact ⟨hstart.1, Nat.lt_succ_of_lt hstart.2⟩
    · exact hnext (by simp) h

/-- What cannot be cut into tokens is malformed text, at a line between the first and the last,
unless the tokenizer comes to no end. -/
lemma Cursor.of_tokens_eq_error {p : Cursor} (h : p.tokens = .error e) :
    e = .endless ∨ ∃ (line : ℕ) (m : Malformed), e = .at line (.malformed m) ∧ p.line ≤ line ∧
      line ≤ p.line + p.rest.count '\n' := by
  fun_induction tokens p with
  | case1 => cases h
  | case2 p c cs hr e' hs =>
    cases h
    obtain ⟨m, rfl⟩ := of_step_eq_error hs
    exact .inr ⟨p.line, m, rfl, le_refl _, Nat.le_add_right _ _⟩
  | case3 p c cs hr s hs hlt e' he ih =>
    cases h
    refine (ih he).imp_right ?_
    rintro ⟨line, m, rfl, hfirst, hlast⟩
    obtain ⟨hline, hcount, -⟩ := line_of_step hs
    refine ⟨line, m, rfl, le_trans hline hfirst, ?_⟩
    rw [hr, ← hcount]
    exact hlast
  | case4 => cases h
  | case5 =>
    cases h
    exact .inl rfl

/-- Tokens that say nothing are malformed text, at the line of one of them. -/
lemma of_readFrom_eq_error {p : Point} {ts : List Token} (h : readFrom p ts = .error e) :
    ∃ t ∈ ts, ∃ m, e = .at t.line (.malformed m) := by
  fun_induction readFrom p ts with
  | case1 => cases h
  | case2 p t ts ht ih =>
    obtain ⟨u, hu, m, he⟩ := ih h
    exact ⟨u, List.mem_cons_of_mem t hu, m, he⟩
  | case3 p t ts ht ih =>
    obtain ⟨u, hu, m, he⟩ := ih h
    exact ⟨u, List.mem_cons_of_mem t hu, m, he⟩
  | case4 p t ts _ m hs hn hi =>
    cases h
    exact ⟨t, List.mem_cons_self, m, rfl⟩
  | case5 p t ts _ s taken hs e' he hn hi =>
    rename_i ih
    cases h
    obtain ⟨u, hu, m, rfl⟩ := ih he
    exact ⟨u, List.mem_cons_of_mem t (List.mem_of_mem_drop hu), m, rfl⟩
  | case6 => cases h

/-- A transition that is refused is so at the line of its entry. -/
lemma Draft.exists_of_addEntries_eq_error {t : Table} {es : List Entry}
    (h : addEntries t es = .error e) :
    ∃ entry ∈ es, ∃ refusal, e = .at entry.line (.refused refusal) := by
  induction es generalizing t with
  | nil => cases h
  | cons entry es ih =>
    rw [addEntries] at h
    split at h
    · obtain ⟨o, ho, refusal, he⟩ := ih h
      exact ⟨o, List.mem_cons_of_mem entry ho, refusal, he⟩
    · exact ⟨entry, List.mem_cons_self, _, (Except.error.inj h).symm⟩

/-- An error that no later stage can meet is met exactly when it is met by then. -/
lemma bind_eq_error_iff_of_ne {α β : Type} {x : Except Error α} {f : α → Except Error β}
    (hf : ∀ a, f a ≠ .error e) : (x >>= f) = .error e ↔ x = .error e := by
  rw [bind_eq_error_iff]
  exact or_iff_left fun ⟨a, _, h⟩ => hf a h

/-- Errors without a line are not met behind the tokenizer. -/
lemma compile_eq_error_iff {source start : String} (hline : e.line? = none) :
    compile source start = .error e ↔ programTokens source.toList = .error e := by
  have htable : compile source start = .error e ↔ draft source.toList = .error e := by
    refine bind_eq_error_iff_of_ne fun d h => ?_
    rcases bind_eq_error_iff.mp h with h | ⟨t, -, h⟩
    · obtain ⟨entry, -, refusal, rfl⟩ := Draft.exists_of_addEntries_eq_error h
      cases hline
    · cases h
  rw [htable]
  refine bind_eq_error_iff_of_ne fun ts h => ?_
  rcases bind_eq_error_iff.mp h with h | ⟨is, -, h⟩
  · obtain ⟨t, -, m, rfl⟩ := of_readFrom_eq_error h
    cases hline
  · cases h

/-- Only the replacement of calls can come to a call that names nothing. -/
theorem compile_eq_namelessCall_iff {source start : String} :
    compile source start = .error .namelessCall ↔
      ∃ rest ts, extractTemplates (stripComments source.toList) = .ok (rest, ts) ∧
        expandTemplates ts rest = .error .namelessCall := by
  have htokens : programTokens source.toList = .error .namelessCall ↔
      expanded source.toList = .error .namelessCall := by
    refine bind_eq_error_iff_of_ne fun text h => ?_
    rcases bind_eq_error_iff.mp h with h | ⟨ts, -, h⟩
    · rcases Cursor.of_tokens_eq_error h with hendless | ⟨line, m, hline, -⟩
      · cases hendless
      · cases hline
    · cases h
  rw [compile_eq_error_iff rfl, htokens, expanded, bind_eq_error_iff]
  constructor
  · rintro (h | ⟨⟨rest, ts⟩, hextract, h⟩)
    · obtain ⟨line, m, hline, -⟩ :=
        of_extractLines_eq_error (le_refl 1) (by simp) (map_eq_error_iff.mp h)
      cases hline
    · exact ⟨rest, ts, hextract, h⟩
  · rintro ⟨rest, ts, hextract, h⟩
    exact Or.inr ⟨(rest, ts), hextract, h⟩

/-- Expansion comes to an end. -/
lemma expanded_ne_endless (text : List Char) : expanded text ≠ .error .endless := by
  intro h
  rcases bind_eq_error_iff.mp h with h | ⟨⟨rest, ts⟩, -, h⟩
  · obtain ⟨line, m, hline, -⟩ :=
      of_extractLines_eq_error (le_refl 1) (by simp) (map_eq_error_iff.mp h)
    cases hline
  · rcases of_expandFrom_eq_error h with hcall | ⟨n, name, hline, -⟩
    · cases hcall
    · cases hline

/-- Only the tokenizer can come to no end. -/
theorem compile_eq_endless_iff {source start : String} :
    compile source start = .error .endless ↔
      ∃ out, expanded source.toList = .ok out ∧ tokenize out = .error .endless := by
  rw [compile_eq_error_iff rfl, programTokens, bind_eq_error_iff,
    or_iff_right (expanded_ne_endless _)]
  refine exists_congr fun out => and_congr_right fun _ => ?_
  refine bind_eq_error_iff_of_ne fun ts h => ?_
  cases h

end Stages

/-! ## What compiling answers -/

/-- A token in parentheses is long enough to hold a symbol between them. -/
lemma Token.Sound.three_le_length_text {t : Token} (h : t.Sound) (hk : t.kind = .bracketed) :
    3 ≤ t.text.length := by
  have hword := h (by simp [isOperand, hk])
  have hne : t.text.tail.dropLast ≠ [] := by
    have hvalue : t.value = t.text.tail.dropLast := by simp [value, hk]
    rw [← hvalue]
    exact (isWord_ofList.mp hword).1
  have hlength := List.length_pos_of_ne_nil hne
  rw [List.length_dropLast, List.length_tail] at hlength
  omega

/-- Compiling comes to a call of white space only: the text before it is replaced without a
fault. -/
def ReachesBlankCall (text : List Char) : Prop :=
  ∃ rest ts pre inner post done, extractTemplates (stripComments text) = .ok (rest, ts) ∧
    rest = pre ++ '{' :: (inner ++ '}' :: post) ∧ IsCall inner ∧
    (∀ c ∈ inner, isBlank c = true) ∧ expandTemplates ts pre = .ok done

/-- Compiling ends at once exactly when it comes to a call of white space only. -/
lemma compile_eq_namelessCall_iff_reachesBlankCall (source start : String) :
    compile source start = .error .namelessCall ↔ ReachesBlankCall source.toList := by
  rw [compile_eq_namelessCall_iff]
  constructor
  · rintro ⟨rest, ts, hextract, h⟩
    obtain ⟨pre, inner, post, done, hrest, hcall, hblank, hdone⟩ :=
      expandTemplates_eq_namelessCall_iff.mp h
    exact ⟨rest, ts, pre, inner, post, done, hextract, hrest, hcall, hblank, hdone⟩
  · rintro ⟨rest, ts, pre, inner, post, done, hextract, hrest, hcall, hblank, hdone⟩
    exact ⟨rest, ts, hextract,
      expandTemplates_eq_namelessCall_iff.mpr ⟨pre, inner, post, done, hrest, hcall, hblank, hdone⟩⟩

/-- Compiling comes to a control character that is no white space: the text is expanded without a
fault, and the steps of the tokenizer lead to such a character of what comes out. -/
def ReachesControl (text : List Char) : Prop :=
  ∃ out ts q c cs, expanded text = .ok out ∧ Cursor.Lexes ⟨out, 1, true⟩ ts q ∧ q.Stuck c cs

/-- Compiling comes to no end exactly when it comes to such a character. -/
lemma compile_eq_endless_iff_reachesControl (source start : String) :
    compile source start = .error .endless ↔ ReachesControl source.toList := by
  rw [compile_eq_endless_iff]
  constructor
  · rintro ⟨out, hout, h⟩
    obtain ⟨ts, q, c, cs, hq, hstuck⟩ := (Cursor.tokens_eq_endless_iff_stuck _).mp h
    exact ⟨out, ts, q, c, cs, hout, hq, hstuck⟩
  · rintro ⟨out, ts, q, c, cs, hout, hq, hstuck⟩
    exact ⟨out, hout, (Cursor.tokens_eq_endless_iff_stuck _).mpr ⟨ts, q, c, cs, hq, hstuck⟩⟩

/-- A clean program has no such character, nor does what it expands to. -/
lemma not_reachesControl_of_clean {text : List Char} (h : Clean text) : ¬ ReachesControl text := by
  rintro ⟨out, ts, q, c, cs, hout, hq, hstuck⟩
  have hmem : c ∈ out := hq.suffix.subset (hstuck.rest_eq ▸ List.mem_cons_self)
  have hblank := h.of_expanded hout c hmem hstuck.control
  exact absurd (hstuck.blank.symm.trans hblank) (by decide)

/-- Compiling a clean program comes to an end. -/
lemma compile_ne_endless_of_clean {source : String} (h : Clean source.toList) (start : String) :
    compile source start ≠ .error .endless := fun hendless =>
  not_reachesControl_of_clean h ((compile_eq_endless_iff_reachesControl source start).mp hendless)

/-- Compiling gives a frozen table or a fault at a line, unless it comes to a call of white space
only, or to a control character, and a clean program has none of the latter. Such calls are the ones
without a word in them. Every token in parentheses is long enough to hold a symbol between them. -/
theorem compile_answers_iff_no_blank_call (source start : String) :
    (((∃ t, compile source start = .ok t ∧ t.frozen = true) ∨
        ∃ line cause, compile source start = .error (.at line cause)) ↔
      ¬ ReachesBlankCall source.toList ∧ ¬ ReachesControl source.toList) ∧
    (Clean source.toList → ¬ ReachesControl source.toList) ∧
    (∀ text inner, callBody? text = some inner →
      (words inner = [] ↔ ∀ c ∈ inner, isBlank c = true)) ∧
    ∀ ts, programTokens source.toList = .ok ts → ∀ t ∈ ts, t.kind = .bracketed →
      3 ≤ t.text.length := by
  refine ⟨?_, not_reachesControl_of_clean, fun _ _ _ => words_eq_nil_iff, ?_⟩
  · rw [← compile_eq_namelessCall_iff_reachesBlankCall source start,
      ← compile_eq_endless_iff_reachesControl source start]
    cases h : compile source start with
    | ok t =>
      obtain ⟨is, -, -, rfl⟩ := compile_eq_ok_iff.mp h
      simp
    | error e =>
      cases e with
      | «at» line cause => simp
      | namelessCall => simp
      | endless => simp
  · intro ts hts t ht hk
    exact (sound_of_programTokens hts t ht).three_le_length_text hk

/-- A no-break space between braces is a call by its first character, and no word. -/
theorem compile_ends_at_blank_call :
    (∀ c ∈ "\x7b\u00a0\x7d".toList, isControl c = false) ∧
      compile "\x7b\u00a0\x7d" = .error .namelessCall ∧
      ¬ ((∃ t, compile "\x7b\u00a0\x7d" = .ok t ∧ t.frozen = true) ∨
        ∃ line cause, compile "\x7b\u00a0\x7d" = .error (.at line cause)) := by
  have hcompile : compile "\x7b\u00a0\x7d" = .error .namelessCall :=
    compile_eq_namelessCall_iff.mpr ⟨['{', '\u00a0', '}'], [], by decide, by decide⟩
  refine ⟨by simp [isControl], hcompile, ?_⟩
  rw [hcompile]
  simp

end TapeMachine.Program
