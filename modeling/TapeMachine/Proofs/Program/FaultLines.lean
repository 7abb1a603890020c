import TapeMachine.Proofs.Program.Faults
import TapeMachine.Proofs.Program.Returns

/-!
# The lines of faults

A fault of a program is at a line, and this line is there. Lines are counted when definitions are
looked for, when calls are replaced and when the text is cut into tokens; tokens hand their lines on
to instructions, and instructions to the entries of a draft. Up to the replacement of calls the
lines are those of the source: removing comments keeps every line in its place, and so does taking
out definitions, which leaves their lines empty (`extracted_lines`). Behind it they are those of the
expanded text. So every fault is at one of the lines that `lineCount` counts
(`of_compile_eq_error`).
-/

namespace TapeMachine.Program

open Text

/-- A text has one line more than newlines. -/
lemma length_lines (text : List Char) : (lines text).length = text.count '\n' + 1 :=
  length_pieces _ text

/-! ## Lines that are kept -/

section Kept

variable {ts : List Template} {text rest : List Char}

/-- Taking out definitions leaves each line as it is or empty. -/
lemma lines_of_extractLines {number : ℕ} {opened : Option Definition} {ls : List (List Char)}
    {x : Extracted} (h : extractLines ts number opened ls = .ok x) :
    List.Forall₂ (fun l l' => l' = l ∨ l' = []) ls x.lines := by
  have hleave : ∀ {l kept : List Char} {ls : List (List Char)} {y : Except Error Extracted},
      (∀ x, y = .ok x → List.Forall₂ (fun l l' => l' = l ∨ l' = []) ls x.lines) →
      (kept = l ∨ kept = []) →
      ∀ x, y.map (fun x => { x with lines := kept :: x.lines }) = .ok x →
        List.Forall₂ (fun l l' => l' = l ∨ l' = []) (l :: ls) x.lines := by
    intro l kept ls y hy hkept x hx
    cases y with
    | error e => cases hx
    | ok y =>
      cases hx
      exact .cons hkept (hy y rfl)
  induction ls generalizing ts number opened x with
  | nil =>
    unfold extractLines at h
    split at h
    · cases h
    · cases h
      exact .nil
  | cons l ls ih =>
    unfold extractLines at h
    split at h
    · cases h
    · split at h
      · cases h
      · exact hleave (fun y hy => ih hy) (.inr rfl) x h
    · split at h
      · exact hleave (fun y hy => ih hy) (.inr rfl) x h
      · exact hleave (fun y hy => ih hy) (.inr rfl) x h
    · exact hleave (fun y hy => ih hy) (.inl rfl) x h

/-- The lines of a text without its definitions are those of the text, as they are or empty. -/
theorem lines_of_extractTemplates (h : extractTemplates text = .ok (rest, ts)) :
    List.Forall₂ (fun l l' => l' = l ∨ l' = []) (lines text) (lines rest) := by
  unfold extractTemplates at h
  cases hx : extractLines [] 1 none (lines text) with
  | error e =>
    rw [hx] at h
    cases h
  | ok x =>
    rw [hx] at h
    cases h
    have hlines := lines_of_extractLines hx
    have hne : x.lines ≠ [] := by
      intro hnil
      have hlength := hlines.length_eq
      rw [hnil, length_lines] at hlength
      cases hlength
    have hnewline : ∀ l ∈ x.lines, '\n' ∉ l := by
      intro l hl
      obtain ⟨⟨i, hi⟩, rfl⟩ := List.get_of_mem hl
      have hi' : i < (lines text).length := by rwa [hlines.length_eq]
      rcases hlines.get hi' hi with hsame | hempty
      · rw [hsame]
        exact newline_notMem_of_mem_lines (List.get_mem _ _)
      · rw [hempty]
        exact List.not_mem_nil
    rwa [lines_unlines hne hnewline]

/-- Without comments and definitions, each line of a text has lost its comments or is empty. -/
theorem extracted_lines (h : extractTemplates (stripComments text) = .ok (rest, ts)) :
    List.Forall₂ (fun l l' => l' = stripLine l ∨ l' = []) (lines text) (lines rest) := by
  have hlines := lines_of_extractTemplates h
  rw [lines_stripComments] at hlines
  exact List.forall₂_map_left_iff.mp hlines

/-- No call is left in a text. -/
def Callless (text : List Char) : Prop :=
  ∀ before inner after, text = before ++ '{' :: (inner ++ '}' :: after) → ¬ IsCall inner

/-- A text without calls stays as it is when calls are replaced. -/
lemma expandFrom_of_callless (ts : List Template) (h : Callless text) (line : ℕ) :
    expandFrom ts line 0 text = .ok text := by
  induction text generalizing line with
  | nil => rw [expandFrom]
  | cons c cs ih =>
    have hnone : c = '{' → callBody? cs = none := by
      rintro rfl
      rw [Option.eq_none_iff_forall_ne_some]
      intro inner hbody
      obtain ⟨hcall, after, rfl⟩ := callBody?_eq_some_iff.mp hbody
      exact h [] inner after rfl hcall
    have hcs : Callless cs := by
      rintro before inner after rfl
      exact h (c :: before) inner after rfl
    rw [expandFrom_kept hnone, ih hcs]
    rfl

end Kept

/-! ## Lines that are handed on -/

/-- Every token is at a line of the text. -/
lemma Cursor.line_of_mem_tokens {p : Cursor} {ts : List Token} (h : p.tokens = .ok ts) :
    ∀ t ∈ ts, p.line ≤ t.line ∧ t.line ≤ p.line + p.rest.count '\n' := by
  fun_induction tokens p generalizing ts with
  | case1 p hr =>
    cases h
    exact fun t ht => absurd ht List.not_mem_nil
  | case2 => cases h
  | case3 => cases h
  | case5 => cases h
  | case4 p c cs hr s hs hlt us hus ih =>
    cases h
    obtain ⟨hline, hcount, htoken⟩ := line_of_step hs
    intro t ht
    rcases List.mem_append.mp ht with ht | ht
    · have hfirst : t.line = p.line := htoken t (Option.mem_toList.mp ht)
      rw [hfirst]
      exact ⟨le_refl _, Nat.le_add_right _ _⟩
    · have hrest := ih hus t ht
      rw [hcount, ← hr] at hrest
      exact ⟨le_trans hline hrest.1, hrest.2⟩

/-- Every instruction is at the line of a token. -/
lemma Reads.exists_line {p q : Point} {ts us : List Token} {is : List Instruction}
    (h : Reads p ts is q us) : ∀ i ∈ is, ∃ t ∈ ts, i.line = t.line := by
  induction h with
  | refl p ts => exact fun i hi => absurd hi List.not_mem_nil
  | newline ht _ ih =>
    intro i hi
    obtain ⟨t, ht, hline⟩ := ih i hi
    exact ⟨t, List.mem_cons_of_mem _ ht, hline⟩
  | indent ht _ ih =>
    intro i hi
    obtain ⟨t, ht, hline⟩ := ih i hi
    exact ⟨t, List.mem_cons_of_mem _ ht, hline⟩
  | @statement p q t ts us s taken is hn hi hs _ ih =>
    intro i hmem
    rcases List.mem_append.mp hmem with hmem | hmem
    · refine ⟨t, List.mem_cons_self, ?_⟩
      have hinstruction := Option.mem_toList.mp hmem
      unfold Scope.instruction? at hinstruction
      split at hinstruction
      · split at hinstruction
        · cases hinstruction
          rfl
        · cases hinstruction
      · cases hinstruction
    · obtain ⟨u, hu, hline⟩ := ih i hmem
      exact ⟨u, List.mem_cons_of_mem _ (List.mem_of_mem_drop hu), hline⟩

/-! ## Where faults are -/

/-- The number of lines at which a program can have faults: those of the expanded text, if there is
one, and otherwise those of the text. -/
def lineCount (text : List Char) : ℕ :=
  match expanded text with
  | .ok v => (lines v).length
  | .error _ => (lines text).length

/-- A fault at one of so many lines. -/
def Error.Within (count : ℕ) (e : Error) : Prop :=
  ∃ line cause, e = .at line cause ∧ 1 ≤ line ∧ line ≤ count

variable {text : List Char} {e : Error}

/-- A fault of the expansion is at a line of the text, or a call that names nothing. -/
lemma of_expanded_eq_error (h : expanded text = .error e) :
    e = .namelessCall ∨ (∀ line refusal, e ≠ .at line (.refused refusal)) ∧
      e.Within (lines text).length := by
  rcases bind_eq_error_iff.mp h with h | ⟨⟨rest, ts⟩, hextract, h⟩
  · obtain ⟨line, m, rfl, hfirst, hlast⟩ :=
      of_extractLines_eq_error (le_refl 1) (by simp) (map_eq_error_iff.mp h)
    rw [lines_stripComments, List.length_map] at hlast
    refine .inr ⟨by simp, line, _, rfl, ?_, ?_⟩
    · omega
    · omega
  · refine (of_expandFrom_eq_error h).imp_right ?_
    rintro ⟨n, name, rfl, hfirst, hlast⟩
    have hcount := (extracted_lines hextract).length_eq
    rw [length_lines rest] at hcount
    refine ⟨by simp, n, _, rfl, ?_, ?_⟩
    · omega
    · omega

/-- The tokens of a program are at lines of its expanded text. -/
lemma line_of_mem_programTokens {v : List Char} {ts : List Token} (hv : expanded text = .ok v)
    (h : programTokens text = .ok ts) : ∀ t ∈ ts, 1 ≤ t.line ∧ t.line ≤ (lines v).length := by
  simp only [programTokens, bind_eq_ok_iff] at h
  obtain ⟨v', hv', us, hus, ⟨⟩⟩ := h
  obtain rfl : v = v' := by
    rw [hv] at hv'
    exact Except.ok.inj hv'
  intro t ht
  obtain ⟨u, hu, ht⟩ := List.mem_flatMap.mp ht
  have hline : 1 ≤ u.line ∧ u.line ≤ 1 + v.count '\n' := Cursor.line_of_mem_tokens hus u hu
  rw [(Token.of_mem_normal ht).2, length_lines]
  omega

/-- A fault found before there is a table is at one of the lines of the program, or an error without
a line. It is no refusal. -/
lemma of_draft_eq_error (h : draft text = .error e) :
    e.line? = none ∨ (∀ line refusal, e ≠ .at line (.refused refusal)) ∧
      e.Within (lineCount text) := by
  unfold lineCount
  cases hv : expanded text with
  | error e' =>
    have he : e' = e := by
      rw [draft, programTokens, hv] at h
      exact Except.error.inj h
    rw [← he]
    refine (of_expanded_eq_error hv).imp_left ?_
    rintro rfl
    rfl
  | ok v =>
    change _ ∨ _ ∧ e.Within (lines v).length
    rcases bind_eq_error_iff.mp h with h | ⟨ts, hts, h⟩
    · have htokens : tokenize v = .error e := by
        rw [programTokens, hv] at h
        change (tokenize v >>= fun us => pure (normalize us)) = _ at h
        rcases bind_eq_error_iff.mp h with h | ⟨us, -, ⟨⟩⟩
        exact h
      rcases Cursor.of_tokens_eq_error htokens with rfl | ⟨line, m, rfl, hfirst, hlast⟩
      · exact .inl rfl
      · have hline : 1 ≤ line ∧ line ≤ 1 + v.count '\n' := ⟨hfirst, hlast⟩
        have hcount := length_lines v
        exact .inr ⟨by simp, line, _, rfl, by omega, by omega⟩
    · rcases bind_eq_error_iff.mp h with h | ⟨is, -, ⟨⟩⟩
      obtain ⟨t, ht, m, rfl⟩ := of_readFrom_eq_error h
      have hline := line_of_mem_programTokens hv hts t (List.mem_of_mem_filter ht)
      exact .inr ⟨by simp, t.line, _, rfl, by omega, by omega⟩

/-- A fault of a program is at one of its lines, or an error without a line. -/
theorem of_compile_eq_error {source start : String} (h : compile source start = .error e) :
    e.line? = none ∨ e.Within (lineCount source.toList) := by
  rcases bind_eq_error_iff.mp h with h | ⟨d, hd, h⟩
  · exact (of_draft_eq_error h).imp_right And.right
  · obtain ⟨ts, is, hts, his, rfl⟩ := draft_eq_ok_iff.mp hd
    rcases bind_eq_error_iff.mp h with h | ⟨t, -, h⟩
    · right
      obtain ⟨v, hv, -⟩ := bind_eq_ok_iff.mp hts
      obtain ⟨entry, hentry, refusal, rfl⟩ := Draft.exists_of_addEntries_eq_error h
      obtain ⟨i, hi, hline⟩ := Draft.exists_line_of_mem_entries hentry
      obtain ⟨q, hreads⟩ := readFrom_eq_ok_iff.mp his
      obtain ⟨t, ht, hline'⟩ := hreads.exists_line i hi
      have htoken := line_of_mem_programTokens hv hts t (List.mem_of_mem_filter ht)
      have hcount : lineCount source.toList = (lines v).length := by rw [lineCount, hv]
      refine ⟨entry.line, _, rfl, ?_, ?_⟩
      · omega
      · omega
    · cases h

/-- Outside its definitions a program has no call. -/
def CallsNothing (text : List Char) : Prop :=
  ∀ rest ts, extractTemplates (stripComments text) = .ok (rest, ts) → Callless rest

/-- Without calls the lines of faults are those of the source. -/
lemma lineCount_of_callsNothing (h : CallsNothing text) : lineCount text = (lines text).length := by
  unfold lineCount
  cases hv : expanded text with
  | error e => rfl
  | ok v =>
    obtain ⟨⟨rest, ts⟩, hextract, hexpand⟩ := bind_eq_ok_iff.mp hv
    have hkept : expandTemplates ts rest = .ok rest :=
      expandFrom_of_callless ts (h rest ts hextract) 1
    have hrest : rest = v := Except.ok.inj (hkept.symm.trans hexpand)
    rw [← hrest]
    exact (extracted_lines hextract).length_eq.symm

/-- Faults point into the text. An error that is returned is at a line: one of the expanded text, or
of the source if calls could not be replaced; and compiling a clean text comes to an end. Removing
comments and taking out definitions keep all lines in their places, where each loses its comments or
becomes empty; so in a program that calls nothing outside its definitions, the line is one of the
source. -/
theorem faults_point_into_text (source start : String) :
    (∀ e, compile source start = .error e → e.isCrash = false → e ≠ .endless →
      ∃ line cause, e = .at line cause ∧ 1 ≤ line ∧
        (∀ v, expanded source.toList = .ok v → line ≤ (lines v).length) ∧
        (∀ e', expanded source.toList = .error e' → line ≤ (lines source.toList).length) ∧
        (CallsNothing source.toList → line ≤ (lines source.toList).length)) ∧
    (Clean source.toList → compile source start ≠ .error .endless) ∧
    lines (stripComments source.toList) = (lines source.toList).map stripLine ∧
    ∀ rest ts, extractTemplates (stripComments source.toList) = .ok (rest, ts) →
      List.Forall₂ (fun l l' => l' = stripLine l ∨ l' = []) (lines source.toList)
        (lines rest) := by
  refine ⟨fun e he hcrash hendless => ?_, fun h => compile_ne_endless_of_clean h start,
    lines_stripComments _, fun rest ts => extracted_lines⟩
  rcases of_compile_eq_error he with hnone | ⟨line, cause, rfl, hfirst, hlast⟩
  · cases e with
    | «at» line cause => cases hnone
    | namelessCall => cases hcrash
    | endless => exact absurd rfl hendless
  · refine ⟨line, cause, rfl, hfirst, ?_, ?_, ?_⟩
    · intro v hv
      rwa [lineCount, hv] at hlast
    · intro e' he'
      rwa [lineCount, he'] at hlast
    · intro hcalls
      rwa [lineCount_of_callsNothing hcalls] at hlast

/-- A fault behind a call, at a line of the expanded text that the source does not have. -/
theorem faults_point_into_text_pasted :
    let source := "#define M\na -> write 1\nb -> write 22\n#enifed\n\x7bM\x7d (twice)"
    let v := "\n\n\n\na -> write 1\nb -> write 22 ".toList
    compile source = .error (.at 6 (.refused (.badWrite "22" "b" "*"))) ∧
      expanded source.toList = .ok v ∧ (lines source.toList).length = 5 ∧
      ∃ line : ℤ, line = 6 ∧ 1 ≤ line ∧ line ≤ (lines v).length := by
  intro source v
  have hcompile : compile source = .error (.at 6 (.refused (.badWrite "22" "b" "*"))) := by
    have hmap : (compile source).map Table.transitions =
        .error (.at 6 (.refused (.badWrite "22" "b" "*"))) := by decide +kernel
    exact map_eq_error_iff.mp hmap
  have hexpanded : expanded source.toList = .ok v := by decide +kernel
  obtain ⟨line, cause, hline, hfirst, hlast, -⟩ :=
    (faults_point_into_text source "").1 _ hcompile rfl (by simp)
  have hsix : line = 6 := by
    cases hline
    rfl
  exact ⟨hcompile, hexpanded, by decide +kernel, line, hsix, hfirst, hlast v hexpanded⟩

end TapeMachine.Program
