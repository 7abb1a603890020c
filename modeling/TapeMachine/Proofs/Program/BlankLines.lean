import TapeMachine.Proofs.Program.LineByLine
import TapeMachine.Proofs.Program.Renumbering
import TapeMachine.Proofs.Program.Rows

/-!
# Blank lines

A line that holds nothing but blanks and comments can be put into a program anywhere: the program
compiles as before, and its faults have moved with the lines behind the new one
(`compile_insertLine`). This is said of programs that define no templates, since a line put into a
definition becomes part of the template.

Every stage is compared with itself on the two texts. A call may reach over the new line, but its
words stay the same. The tokens have a `BlankRow` put in, indentation and a newline, which leads
from the start of a line to the start of a line. All later lines have other numbers, which the
stages hand on.
-/

namespace TapeMachine.Program

open Text

/-! ## Texts without definitions -/

/-- A mark that does not occur in a line is not found there. -/
lemma after?_eq_none {mark l : List Char} (hne : mark ≠ []) (h : ¬ mark <:+: l) :
    after? mark l = none := by
  induction l with
  | nil => simp [after?, hne]
  | cons c cs ih =>
    rw [List.infix_cons_iff, not_or] at h
    have hhere : ¬ mark.isPrefixOf (c :: cs) = true := by
      rw [List.isPrefixOf_iff_prefix]
      exact h.1
    rw [after?, if_neg hhere, ih h.2]

section Marks

variable {mark l : List Char} (hmark : ∀ c ∈ mark, opensAfter c = false)

include hmark

/-- No comment is removed from within a mark. -/
lemma isPrefix_of_stripFrom (h : mark <+: stripFrom false false l) : mark <+: l := by
  induction l generalizing mark with
  | nil => exact h
  | cons c cs ih =>
    cases mark with
    | nil => exact List.nil_prefix
    | cons m ms =>
      have hkept : stripFrom false false (c :: cs) = c :: stripFrom false (opensAfter c) cs := by
        simp [stripFrom]
      rw [hkept, List.cons_prefix_cons] at h
      obtain ⟨rfl, h⟩ := h
      rw [hmark m List.mem_cons_self] at h
      have hms := ih (fun c hc => hmark c (List.mem_cons_of_mem _ hc)) h
      exact List.cons_prefix_cons.mpr ⟨rfl, hms⟩

/-- Removing comments makes no mark. -/
lemma isInfix_of_stripFrom {inside opens : Bool} (h : mark <:+: stripFrom inside opens l) :
    mark <:+: l := by
  induction l generalizing inside opens with
  | nil => exact h
  | cons c cs ih =>
    rw [stripFrom] at h
    split at h
    · exact List.infix_cons (ih h)
    split at h
    · exact List.infix_cons (ih h)
    rcases List.infix_cons_iff.mp h with h | h
    · cases mark with
      | nil => exact List.nil_infix
      | cons m ms =>
        obtain ⟨rfl, h⟩ := List.cons_prefix_cons.mp h
        rw [hmark m List.mem_cons_self] at h
        have hms := isPrefix_of_stripFrom (fun c hc => hmark c (List.mem_cons_of_mem _ hc)) h
        exact (List.cons_prefix_cons.mpr ⟨rfl, hms⟩).isInfix
    · exact List.infix_cons (ih h)

end Marks

/-- Each of some lines occurs in the text they make. -/
lemma isInfix_unlines {l : List Char} {ls : List (List Char)} (h : l ∈ ls) : l <:+: unlines ls := by
  induction ls with
  | nil => cases h
  | cons m ls ih =>
    cases ls with
    | nil =>
      rw [List.mem_singleton.mp h]
      exact List.infix_rfl
    | cons k ls =>
      rw [unlines]
      rcases List.mem_cons.mp h with rfl | h
      · exact (List.prefix_append _ _).isInfix
      · exact (ih h).trans ((List.suffix_cons _ _).trans (List.suffix_append _ _)).isInfix

/-- A program without the mark of definitions opens none. -/
lemma after?_stripLine_eq_none {text : List Char} (h : ¬ defineMark <:+: text) :
    ∀ l ∈ lines text, after? defineMark (stripLine l) = none := by
  intro l hl
  refine after?_eq_none (by decide) fun hmark => h ?_
  have hopens : (defineMark.all fun c => opensAfter c == false) = true := by decide
  rw [stripLine_eq_stripFrom] at hmark
  have hline := isInfix_of_stripFrom (by simpa using hopens) hmark
  have htext := isInfix_unlines hl
  rw [unlines_lines] at htext
  exact hline.trans htext

/-- The draft of a text whose calls have been replaced. -/
def readText (text : List Char) : Except Error Draft :=
  tokenize text >>= fun ts => (instructions (normalize ts)).map Draft.ofInstructions

/-- The draft of a program that opens no definition. -/
lemma draft_of_forall {text : List Char}
    (h : ∀ l ∈ lines text, after? defineMark (stripLine l) = none) :
    draft text = expandTemplates [] (stripComments text) >>= readText := by
  have hextract : extractTemplates (stripComments text) = .ok (stripComments text, []) := by
    refine extractTemplates_eq_self fun l hl => ?_
    rw [lines_stripComments] at hl
    obtain ⟨k, hk, rfl⟩ := List.mem_map.mp hl
    exact h k hk
  rw [draft, programTokens, expanded, hextract]
  change ((expandTemplates [] (stripComments text) >>= _) >>= _) = _
  cases expandTemplates [] (stripComments text) with
  | error e => rfl
  | ok v =>
    change ((tokenize v >>= _) >>= _) = tokenize v >>= _
    cases tokenize v with
    | error e => rfl
    | ok ts =>
      change (instructions (normalize ts) >>= _) = (instructions (normalize ts)).map _
      cases instructions (normalize ts) <;> rfl

/-! ## Calls -/

/-- Where a line has its place once another has been put in before the line `number`. -/
def movedLine (number : ℕ) (line : ℤ) : ℤ :=
  if number ≤ line then line + 1 else line

/-- Every line of the text is ended. -/
def Whole (text : List Char) : Prop :=
  text = [] ∨ ∃ l, text = l ++ ['\n']

/-- Lines from the new one on are moved down by one. -/
lemma movedLine_of_le {number n : ℕ} (h : number ≤ n) : movedLine number n = n + 1 :=
  if_pos (Int.ofNat_le.mpr h)

/-- Lines above the new one stay where they are. -/
lemma movedLine_of_lt {number n : ℕ} (h : n < number) : movedLine number n = n :=
  if_neg (Int.not_le.mpr (Int.ofNat_lt.mpr h))

/-- Behind its first character a whole text is whole, and goes on unless that was a newline. -/
lemma Whole.of_cons {c : Char} {text : List Char} (h : Whole (c :: text)) :
    Whole text ∧ (c ≠ '\n' → ∃ l, text = l ++ ['\n']) := by
  rcases h with h | ⟨l, hl⟩
  · cases h
  · cases l with
    | nil =>
      cases hl
      exact ⟨.inl rfl, fun hc => absurd rfl hc⟩
    | cons d l =>
      obtain ⟨-, rfl⟩ := List.cons.inj hl
      exact ⟨.inr ⟨l, rfl⟩, fun _ => ⟨l, rfl⟩⟩

section Calls

variable {front gap rest blank text v : List Char} {line : ℕ}

/-- A blank within a line is no brace and no newline. -/
lemma of_isSpacing {c : Char} (h : isSpacing c = true) :
    isBlank c = true ∧ isBrace c = false ∧ c ≠ '\n' := by
  simp only [isSpacing, Bool.or_eq_true, beq_iff_eq] at h
  rcases h with rfl | rfl
  · decide
  · decide

/-- White space between the braces of a call means nothing behind the end of a line. -/
lemma isCall_append_gap_iff (hgap : ∀ c ∈ gap, isBrace c = false) (l beyond : List Char) :
    IsCall (l ++ ['\n'] ++ (gap ++ beyond)) ↔ IsCall (l ++ ['\n'] ++ beyond) := by
  have hhead : ∀ xs : List Char, (l ++ ['\n'] ++ xs).head? = (l ++ ['\n']).head? := by
    intro xs
    cases l <;> rfl
  constructor
  · rintro ⟨hbraceless, hnamed⟩
    rw [hhead] at hnamed
    refine ⟨fun c hc => hbraceless c ?_, by rwa [hhead]⟩
    rcases List.mem_append.mp hc with hc | hc
    · exact List.mem_append_left _ hc
    · exact List.mem_append_right _ (List.mem_append_right _ hc)
  · rintro ⟨hbraceless, hnamed⟩
    rw [hhead] at hnamed
    refine ⟨fun c hc => ?_, by rwa [hhead]⟩
    rcases List.mem_append.mp hc with hc | hc
    · exact hbraceless c (List.mem_append_left _ hc)
    · rcases List.mem_append.mp hc with hc | hc
      · exact hgap c hc
      · exact hbraceless c (List.mem_append_right _ hc)

/-- Blanks behind a newline make no difference to the words. -/
lemma words_append_gap (hgap : ∀ c ∈ gap, isBlank c = true) (l beyond : List Char) :
    words (l ++ ['\n'] ++ (gap ++ beyond)) = words (l ++ ['\n'] ++ beyond) := by
  have hskip : words (gap ++ beyond) = words beyond := by
    induction gap with
    | nil => rfl
    | cons c gap ih =>
      have hcons : words (c :: (gap ++ beyond)) = words [] ++ words (gap ++ beyond) :=
        words_append_cons [] (hgap c List.mem_cons_self) _
      rw [List.cons_append, hcons, ih fun d hd => hgap d (List.mem_cons_of_mem _ hd)]
      rfl
  rw [List.append_assoc, List.append_assoc, List.singleton_append, List.singleton_append,
    words_append_cons l (by decide), words_append_cons l (by decide), hskip]

/-- A call that reaches over the end of a line may have more white space there, and has the same
words. -/
lemma map_words_callBody? (hgap : ∀ c ∈ gap, isBlank c = true ∧ isBrace c = false)
    (l rest : List Char) :
    (callBody? (l ++ ['\n'] ++ (gap ++ rest))).map words =
      (callBody? (l ++ ['\n'] ++ rest)).map words := by
  have hcall := isCall_append_gap_iff (fun c hc => (hgap c hc).2) l
  have hwords := words_append_gap (fun c hc => (hgap c hc).1) l
  refine Option.ext fun ws => ?_
  simp only [Option.map_eq_some_iff, callBody?_append_eq_some_iff]
  constructor
  · rintro ⟨inner, hinner | ⟨beyond, post, rfl, hrest, hbeyond⟩, rfl⟩
    · exact ⟨inner, .inl hinner, rfl⟩
    · rcases List.append_eq_append_iff.mp hrest with ⟨beyond', rfl, rfl⟩ | ⟨left, rfl, hleft⟩
      · exact ⟨_, .inr ⟨beyond', post, rfl, rfl, (hcall beyond').mp hbeyond⟩, (hwords beyond').symm⟩
      · -- The closing brace is not in the white space.
        cases left with
        | nil =>
          have hcall' := (hcall []).mp (by simpa using hbeyond)
          exact ⟨_, .inr ⟨[], post, rfl, hleft.symm, hcall'⟩, by simpa using (hwords []).symm⟩
        | cons c left =>
          cases hleft
          exact absurd (hgap '}' (by simp)).2 (by decide)
  · rintro ⟨inner, hinner | ⟨beyond, post, rfl, rfl, hbeyond⟩, rfl⟩
    · exact ⟨inner, .inl hinner, rfl⟩
    · have hbeyond' := (hcall beyond).mpr hbeyond
      exact ⟨_, .inr ⟨gap ++ beyond, post, rfl, by simp, hbeyond'⟩, hwords beyond⟩

/-- Without templates, calls are not replaced. -/
lemma eq_of_expandFrom_nil (h : expandFrom [] line 0 text = .ok v) : v = text := by
  induction text generalizing line v with
  | nil =>
    rw [expandFrom] at h
    exact (Except.ok.inj h).symm
  | cons c cs ih =>
    rcases call_or_kept c cs with ⟨inner, rfl, hbody⟩ | hnone
    · rw [expandFrom_call hbody] at h
      split at h
      · cases h
      · cases h
    · rw [expandFrom_kept hnone] at h
      cases hw : expandFrom [] (if c == '\n' then line + 1 else line) 0 cs with
      | error e =>
        rw [hw] at h
        cases h
      | ok w =>
        rw [hw] at h
        cases h
        rw [ih hw]

/-- A line of blanks is passed over when calls are replaced. -/
lemma expandFrom_blank (ts : List Template) (hblank : ∀ c ∈ blank, isSpacing c = true) :
    expandFrom ts line 0 (blank ++ '\n' :: rest) =
      (expandFrom ts (line + 1) 0 rest).map (blank ++ '\n' :: ·) := by
  induction blank with
  | nil => exact expandFrom_kept fun hc => absurd hc (by decide)
  | cons c blank ih =>
    obtain ⟨-, hbrace, hnewline⟩ := of_isSpacing (hblank c List.mem_cons_self)
    have hkept : c = '{' → callBody? (blank ++ '\n' :: rest) = none := by
      rintro rfl
      cases hbrace
    rw [List.cons_append, expandFrom_kept hkept, if_neg (by simpa using hnewline),
      ih fun d hd => hblank d (List.mem_cons_of_mem _ hd)]
    cases expandFrom ts (line + 1) 0 rest <;> rfl

/-- Without templates, both texts are left as they are, or a call is at the line to which it has
moved. -/
lemma moves_expandFrom_insert (hfront : Whole front) (hblank : ∀ c ∈ blank, isSpacing c = true)
    (rest : List Char) (line : ℕ) :
    Moves (movedLine (line + front.count '\n')) (fun _ _ => True)
      (expandFrom [] line 0 (front ++ rest))
      (expandFrom [] line 0 (front ++ (blank ++ '\n' :: rest))) := by
  induction front generalizing line with
  | nil =>
    rw [List.nil_append, List.nil_append, expandFrom_blank [] hblank]
    have hmoves := moves_expandFrom [] 1 line 0 rest
    refine (hmoves.congr_move fun e he => ?_).map_right fun _ _ _ _ => trivial
    rcases of_expandFrom_eq_error he with rfl | ⟨n, name, rfl, hn, -⟩
    · rfl
    · exact congrArg (Error.at · _) (movedLine_of_le hn).symm
  | cons c front ih =>
    obtain ⟨hwhole, hlast⟩ := hfront.of_cons
    have hsame : c = '{' → (callBody? (front ++ (blank ++ '\n' :: rest))).map words =
        (callBody? (front ++ rest)).map words := by
      rintro rfl
      obtain ⟨l, rfl⟩ := hlast (by decide)
      have hgap : ∀ d ∈ blank ++ ['\n'], isBlank d = true ∧ isBrace d = false := by
        intro d hd
        rcases List.mem_append.mp hd with hd | hd
        · exact ⟨(of_isSpacing (hblank d hd)).1, (of_isSpacing (hblank d hd)).2.1⟩
        · rw [List.mem_singleton.mp hd]
          decide
      rw [List.append_cons blank]
      exact map_words_callBody? hgap l rest
    rcases call_or_kept c (front ++ rest) with ⟨inner, rfl, hbody⟩ | hnone
    · have hwords := hsame rfl
      rw [hbody, Option.map_some, Option.map_eq_some_iff] at hwords
      obtain ⟨inner', hbody', hwords⟩ := hwords
      rw [List.cons_append, List.cons_append, expandFrom_call hbody, expandFrom_call hbody', hwords]
      cases words inner with
      | nil => exact .error .namelessCall
      | cons name args =>
        obtain ⟨l, rfl⟩ := hlast (by decide)
        have hline : movedLine (line + ('{' :: (l ++ ['\n'])).count '\n') line = line := by
          refine movedLine_of_lt ?_
          rw [List.count_cons_of_ne (by decide), List.count_append, List.count_singleton_self]
          omega
        refine .error_of_relined_eq ?_
        rw [Error.relined, hline]
    · have hnone' : c = '{' → callBody? (front ++ (blank ++ '\n' :: rest)) = none := by
        intro hc
        have hwords := hsame hc
        rwa [hnone hc, Option.map_none, Option.map_eq_none_iff] at hwords
      rw [List.cons_append, List.cons_append, expandFrom_kept hnone, expandFrom_kept hnone',
        ← line_add_count]
      exact (ih hwhole _).map fun _ _ _ _ => trivial

end Calls

/-! ## Rows of indentation -/

/-- Tokens with a row put in that holds indentation only. -/
inductive BlankRow : List Token → List Token → Prop
  | first {row ts : List Token} {n : Token} (hrow : ∀ t ∈ row, t.kind = .indent)
      (hn : n.kind = .newline) : BlankRow ts (row ++ n :: ts)
  | later {us us' : List Token} {n : Token} (ts : List Token) (hn : n.kind = .newline)
      (h : BlankRow us us') : BlankRow (ts ++ n :: us) (ts ++ n :: us')

/-- Indentation changes the depth of a point and nothing else. -/
lemma exists_readFrom_indents {row : List Token} (hrow : ∀ t ∈ row, t.kind = .indent) (p : Point)
    (us : List Token) : ∃ depth, readFrom p (row ++ us) = readFrom { p with depth } us := by
  induction row generalizing p with
  | nil => exact ⟨p.depth, rfl⟩
  | cons t row ih =>
    rw [List.cons_append, readFrom_of_indent (hrow t List.mem_cons_self)]
    exact ih (fun t ht => hrow t (List.mem_cons_of_mem _ ht)) _

/-- A row of indentation leads from the start of a line to the start of a line. -/
theorem readFrom_blankRow {ts us : List Token} (h : BlankRow ts us) (p : Point) :
    readFrom p.nextLine us = readFrom p.nextLine ts := by
  induction h generalizing p with
  | @first row ts n hrow hn =>
    obtain ⟨depth, hdepth⟩ := exists_readFrom_indents hrow p.nextLine (n :: ts)
    rw [hdepth, readFrom_of_newline hn]
    rfl
  | @later us us' n ts hn h ih =>
    obtain ⟨q, hq⟩ := exists_readFrom_append_newline p.nextLine ts
    rw [hq n us hn, hq n us' hn, readFrom_of_newline hn, readFrom_of_newline hn, ih]

/-- Only words are rewritten to their short forms. -/
lemma normal_of_kind {t : Token} (h : t.kind ≠ .word) : t.normal = [t] := by
  unfold Token.normal
  rw [if_neg (by simpa using h)]

/-- Only words are replaced. -/
lemma normalize_of_kind {ts : List Token} (h : ∀ t ∈ ts, t.kind ≠ .word) : normalize ts = ts := by
  induction ts with
  | nil => rfl
  | cons t ts ih =>
    have ht : t.normal = [t] := normal_of_kind (h t List.mem_cons_self)
    change t.normal ++ normalize ts = t :: ts
    rw [ht, ih fun t ht => h t (List.mem_cons_of_mem _ ht)]
    rfl

/-- The end of a line stays when keywords are replaced and spacing is left out. -/
lemma filter_normalize_append_newline {n : Token} (hn : n.kind = .newline) (ts us : List Token) :
    (normalize (ts ++ n :: us)).filter (·.kind != .space) =
      (normalize ts).filter (·.kind != .space) ++
        n :: (normalize us).filter (·.kind != .space) := by
  have hnormal : n.normal = [n] := normal_of_kind (by simp [hn])
  unfold normalize
  rw [List.flatMap_append, List.flatMap_cons, hnormal, List.filter_append, List.singleton_append,
    List.filter_cons_of_pos (by simp [hn])]

/-- A row of indentation stays one when keywords are replaced and spacing is left out. -/
lemma BlankRow.filter_normalize {ts us : List Token} (h : BlankRow ts us) :
    BlankRow ((normalize ts).filter (·.kind != .space))
      ((normalize us).filter (·.kind != .space)) := by
  induction h with
  | @first row ts n hrow hn =>
    have hkept : (normalize row).filter (·.kind != .space) = row := by
      rw [normalize_of_kind fun t ht => by simp [hrow t ht], List.filter_eq_self]
      exact fun t ht => by simp [hrow t ht]
    rw [filter_normalize_append_newline hn, hkept]
    exact .first hrow hn
  | later ts hn _ ih =>
    rw [filter_normalize_append_newline hn, filter_normalize_append_newline hn]
    exact .later _ hn ih

/-- Tokens whose lines do not move can stand before a row of indentation. -/
lemma BlankRow.append_of_relined {move : ℤ → ℤ} {ts us us' : List Token} {n : Token}
    (h : BlankRow (us.map (Token.relined move)) us') (hts : ∀ t ∈ ts, t.relined move = t)
    (hn : n.relined move = n) (hkind : n.kind = .newline) :
    BlankRow ((ts ++ n :: us).map (Token.relined move)) (ts ++ n :: us') := by
  have hfront : ts.map (Token.relined move) = ts :=
    (List.map_congr_left hts).trans (List.map_id ts)
  rw [List.map_append, hfront, List.map_cons, hn]
  exact .later ts hkind h

/-- A line of blanks is cut into indentation. -/
lemma exists_tokens_blank {blank : List Char} (hblank : ∀ c ∈ blank, isSpacing c = true)
    (line : ℕ) :
    ∃ row, (∀ t ∈ row, t.kind = .indent) ∧ (Cursor.mk blank line true).tokens = .ok row := by
  cases blank with
  | nil => exact ⟨[], by simp, Cursor.tokens_of_rest_eq_nil rfl⟩
  | cons c cs =>
    have hdrop : cs.dropWhile isSpacing = [] :=
      List.dropWhile_eq_nil_iff.mpr fun d hd => hblank d (List.mem_cons_of_mem _ hd)
    obtain ⟨t, ht, hstep⟩ : ∃ t : Token, t.kind = .indent ∧
        (Cursor.mk (c :: cs) line true).step c cs = .ok ⟨some t, ⟨[], line, false⟩⟩ := by
      have hc := hblank c List.mem_cons_self
      rw [← hdrop]
      simp only [isSpacing, Bool.or_eq_true, beq_iff_eq] at hc
      rcases hc with rfl | rfl
      · exact ⟨_, rfl, rfl⟩
      · exact ⟨_, rfl, rfl⟩
    have htokens : (Cursor.mk (c :: cs) line true).tokens = .ok [t] := by
      rw [Cursor.tokens_of_step rfl hstep (Nat.succ_pos _), Cursor.tokens_of_rest_eq_nil rfl]
      rfl
    exact ⟨[t], by simpa using ht, htokens⟩

/-- The text behind a line of blanks is cut into the same tokens, one line further down. -/
lemma moves_tokens_blank {blank : List Char} (hblank : ∀ c ∈ blank, isSpacing c = true)
    (rest : List Char) (line : ℕ) :
    Moves (movedLine line) (fun ts us => BlankRow (ts.map (Token.relined (movedLine line))) us)
      (Cursor.mk rest line true).tokens (Cursor.mk (blank ++ '\n' :: rest) line true).tokens := by
  obtain ⟨row, hrow, htokens⟩ := exists_tokens_blank hblank line
  have hcount : blank.count '\n' = 0 :=
    List.count_eq_zero_of_not_mem fun hmem => (of_isSpacing (hblank _ hmem)).2.2 rfl
  rw [Cursor.tokens_append_newline, htokens, hcount, Nat.add_zero, Cursor.tokens_newline]
  have hmoves := Cursor.moves_tokens ⟨rest, line, true⟩ 1
  refine ((hmoves.congr_move fun e he => ?_).map_right fun ts us hts hus => ?_).map_right
    fun ts us _ hus => hus
  · rcases Cursor.of_tokens_eq_error he with rfl | ⟨n, m, rfl, hn, -⟩
    · rfl
    · exact congrArg (Error.at · _) (movedLine_of_le hn).symm
  · have hlines : us = ts.map (Token.relined (movedLine line)) := by
      rw [hus]
      refine List.map_congr_left fun t ht => ?_
      obtain ⟨hline, -⟩ := Cursor.line_of_mem_tokens hts t ht
      rw [Token.relined, Token.relined, movedLine_of_le hline]
      rfl
    rw [← hlines]
    exact .first hrow rfl

/-- A text with a line of blanks put in has a row of indentation more, and all later tokens one line
further down. -/
lemma moves_tokens_insert {front blank : List Char} (hfront : Whole front)
    (hblank : ∀ c ∈ blank, isSpacing c = true) (rest : List Char) (line : ℕ) :
    Moves (movedLine (line + front.count '\n'))
      (fun ts us => BlankRow (ts.map (Token.relined (movedLine (line + front.count '\n')))) us)
      (Cursor.mk (front ++ rest) line true).tokens
      (Cursor.mk (front ++ (blank ++ '\n' :: rest)) line true).tokens := by
  rcases hfront with rfl | ⟨l, rfl⟩
  · exact moves_tokens_blank hblank rest line
  · have hcount : line + (l ++ ['\n']).count '\n' = line + l.count '\n' + 1 := by
      rw [List.count_append, List.count_singleton_self, Nat.add_assoc]
    have hstays : ∀ t : Token, t.line ≤ line + l.count '\n' →
        t.relined (movedLine (line + l.count '\n' + 1)) = t := by
      intro t ht
      rw [Token.relined, movedLine_of_lt (Nat.lt_succ_of_le ht)]
      rfl
    rw [hcount, List.append_assoc, List.append_assoc, List.singleton_append, List.singleton_append,
      Cursor.tokens_append_newline, Cursor.tokens_append_newline, Cursor.tokens_newline,
      Cursor.tokens_newline]
    refine (Moves.refl fun e he => ?_).bind fun ts us hts _ hus => ?_
    · rcases Cursor.of_tokens_eq_error he with rfl | ⟨n, m, rfl, -, hn⟩
      · rfl
      · exact congrArg (Error.at · _) (movedLine_of_lt (Nat.lt_succ_of_le hn))
    · subst hus
      have hrest := moves_tokens_blank hblank rest (line + l.count '\n' + 1)
      refine (hrest.map fun us us' _ h => ?_).map fun _ _ _ h => h
      refine h.append_of_relined (fun t ht => ?_) (hstays _ (le_refl _)) rfl
      exact hstays t (Cursor.line_of_mem_tokens hts t ht).2

/-! ## Programs with a blank line put in -/

/-- The draft of a text with a line of blanks put in is that of the text, with other lines. -/
lemma moves_readText_insert {front blank : List Char} (hfront : Whole front)
    (hblank : ∀ c ∈ blank, isSpacing c = true) (rest : List Char) :
    Moves (movedLine (1 + front.count '\n'))
      (fun d d' => d' = d.relined (movedLine (1 + front.count '\n')))
      (readText (front ++ rest)) (readText (front ++ (blank ++ '\n' :: rest))) := by
  refine (moves_tokens_insert hfront hblank rest 1).bind fun ts us _ _ hrow => ?_
  have hnonneg : ∀ n : ℕ, 0 ≤ movedLine (1 + front.count '\n') n := by
    intro n
    unfold movedLine
    split
    · omega
    · omega
  have hfilter : ((normalize ts).map (Token.relined (movedLine (1 + front.count '\n')))).filter
      (·.kind != .space) = ((normalize ts).filter (·.kind != .space)).map
        (Token.relined (movedLine (1 + front.count '\n'))) := List.filter_map
  have hread : instructions (normalize us) = readFrom {} (((normalize ts).filter
      (·.kind != .space)).map (Token.relined (movedLine (1 + front.count '\n')))) := by
    rw [← hfilter, ← normalize_map_relined]
    exact readFrom_blankRow hrow.filter_normalize {}
  have hmoves := moves_readFrom hnonneg {} ((normalize ts).filter (·.kind != .space))
  rw [← hread] at hmoves
  refine hmoves.map fun is js _ hjs => ?_
  rw [hjs, Draft.ofInstructions_map_relined]

/-- A newline at the end of a text says nothing. -/
lemma readText_append_newline (text : List Char) : readText (text ++ ['\n']) = readText text := by
  have htokens : tokenize (text ++ ['\n']) = (tokenize text).map
      (· ++ [⟨.newline, ['\n'], 1 + text.count '\n', 0⟩]) := by
    unfold tokenize
    have hnil : ∀ line, (Cursor.mk [] line true).tokens = .ok [] := fun line =>
      Cursor.tokens_of_rest_eq_nil rfl
    rw [Cursor.tokens_append_newline, Cursor.tokens_newline, hnil]
    cases (Cursor.mk text 1 true).tokens <;> rfl
  unfold readText
  rw [htokens]
  cases tokenize text with
  | error e => rfl
  | ok ts =>
    obtain ⟨q, hq⟩ := exists_readFrom_append_newline {} ((normalize ts).filter (·.kind != .space))
    have hread := hq ⟨.newline, ['\n'], 1 + text.count '\n', 0⟩ [] rfl
    rw [readFrom_of_newline rfl, readFrom] at hread
    change (readFrom {} ((normalize (ts ++ _)).filter _)).map _ = _
    rw [filter_normalize_append_newline rfl]
    change (readFrom {} (_ ++ [_])).map _ = _
    rw [hread]
    change _ = (readFrom {} _).map _
    cases readFrom {} ((normalize ts).filter (·.kind != .space)) with
    | error e => rfl
    | ok is =>
      change Except.ok (Draft.ofInstructions (is ++ [])) = Except.ok (Draft.ofInstructions is)
      rw [List.append_nil]

/-- A newline at the end of a program without templates says nothing. -/
lemma expandTemplates_bind_append_newline (text : List Char) :
    (expandTemplates [] (text ++ ['\n']) >>= readText) = expandTemplates [] text >>= readText := by
  have hexpand : expandTemplates [] (text ++ ['\n']) =
      (expandTemplates [] text).map (· ++ ['\n']) := by
    unfold expandTemplates
    rw [expandFrom_append (by decide) (Nat.zero_le _)]
    cases expandFrom [] 1 0 text <;> rfl
  rw [hexpand]
  cases expandTemplates [] text with
  | error e => rfl
  | ok v => exact readText_append_newline v

/-- Lines, each with its newline. -/
def endedLines (ls : List (List Char)) : List Char :=
  ls.flatMap (· ++ ['\n'])

section EndedLines

variable {ls : List (List Char)}

/-- Lines put together, with a newline at the end, are lines that each have their own. -/
lemma unlines_append_newline (hne : ls ≠ []) : unlines ls ++ ['\n'] = endedLines ls := by
  induction ls with
  | nil => exact absurd rfl hne
  | cons l ls ih =>
    cases ls with
    | nil => simp [unlines, endedLines]
    | cons m ls =>
      have hcons : endedLines (l :: m :: ls) = l ++ '\n' :: endedLines (m :: ls) := by
        simp [endedLines]
      rw [hcons, ← ih (by simp), unlines, List.append_assoc, List.cons_append]

/-- A text of lines that each have their newline is whole. -/
lemma whole_endedLines (ls : List (List Char)) : Whole (endedLines ls) := by
  rcases List.eq_nil_or_concat ls with rfl | ⟨ms, l, rfl⟩
  · exact .inl rfl
  · refine .inr ⟨endedLines ms ++ l, ?_⟩
    simp [endedLines]

/-- There is one newline for each line. -/
lemma count_endedLines (h : ∀ l ∈ ls, '\n' ∉ l) : (endedLines ls).count '\n' = ls.length := by
  induction ls with
  | nil => rfl
  | cons l ls ih =>
    have hcons : endedLines (l :: ls) = l ++ '\n' :: endedLines ls := by simp [endedLines]
    rw [hcons, List.count_append, List.count_cons_self,
      List.count_eq_zero_of_not_mem (h l List.mem_cons_self),
      ih fun m hm => h m (List.mem_cons_of_mem _ hm), List.length_cons, Nat.zero_add]

end EndedLines

/-- A text with a line put in before the line `number`, counted from one. -/
def insertLine (number : ℕ) (line text : List Char) : List Char :=
  unlines ((lines text).take (number - 1) ++ line :: (lines text).drop (number - 1))

section InsertLine

variable {text line : List Char} {number : ℕ}

/-- Inserting a line inserts it among the lines of the text. -/
lemma lines_insertLine (hline : '\n' ∉ line) :
    lines (insertLine number line text) =
      (lines text).take (number - 1) ++ line :: (lines text).drop (number - 1) := by
  refine lines_unlines (by simp) fun l hl => ?_
  rcases List.mem_append.mp hl with hl | hl
  · exact newline_notMem_of_mem_lines (List.mem_of_mem_take hl)
  · rcases List.mem_cons.mp hl with rfl | hl
    · exact hline
    · exact newline_notMem_of_mem_lines (List.mem_of_mem_drop hl)

/-- Without comments, the two texts are the same lines before the new one and the same behind it. -/
lemma exists_endedLines (hfirst : 1 ≤ number) (hlast : number ≤ (lines text).length + 1)
    (hline : '\n' ∉ line) :
    ∃ before after, stripComments text ++ ['\n'] = endedLines before ++ endedLines after ∧
      stripComments (insertLine number line text) ++ ['\n'] =
        endedLines before ++ (stripLine line ++ '\n' :: endedLines after) ∧
      1 + (endedLines before).count '\n' = number := by
  refine ⟨((lines text).take (number - 1)).map stripLine,
    ((lines text).drop (number - 1)).map stripLine, ?_, ?_, ?_⟩
  · rw [stripComments, unlines_append_newline (by simp [lines, pieces_ne_nil]), endedLines,
      endedLines, endedLines, ← List.flatMap_append, ← List.map_append, List.take_append_drop]
  · rw [stripComments, lines_insertLine hline, unlines_append_newline (by simp)]
    simp [endedLines]
  · have hnewline : ∀ l ∈ ((lines text).take (number - 1)).map stripLine, '\n' ∉ l := by
      intro l hl
      obtain ⟨k, hk, rfl⟩ := List.mem_map.mp hl
      have hnone := newline_notMem_of_mem_lines (List.mem_of_mem_take hk)
      exact fun hmem => hnone ((stripLine_sublist _).subset hmem)
    rw [count_endedLines hnewline, List.length_map, List.length_take]
    omega

/-- The draft of a program with a blank line put in is that of the program, with other lines. -/
theorem moves_draft_insertLine (hdefine : ¬ defineMark <:+: text) (hfirst : 1 ≤ number)
    (hlast : number ≤ (lines text).length + 1) (hline : '\n' ∉ line)
    (hblank : ∀ c ∈ stripLine line, isSpacing c = true) :
    Moves (movedLine number) (fun d d' => d' = d.relined (movedLine number)) (draft text)
      (draft (insertLine number line text)) := by
  have hnone := after?_stripLine_eq_none hdefine
  have hnone' : ∀ l ∈ lines (insertLine number line text),
      after? defineMark (stripLine l) = none := by
    intro l hl
    rw [lines_insertLine hline] at hl
    rcases List.mem_append.mp hl with hl | hl
    · exact hnone l (List.mem_of_mem_take hl)
    · rcases List.mem_cons.mp hl with rfl | hl
      · rw [defineMark_eq]
        exact after?_cons_of_notMem fun hmem => absurd (hblank _ hmem) (by decide)
      · exact hnone l (List.mem_of_mem_drop hl)
  obtain ⟨before, after, htext, hinsert, rfl⟩ := exists_endedLines hfirst hlast hline
  rw [draft_of_forall hnone, draft_of_forall hnone', ← expandTemplates_bind_append_newline, htext,
    ← expandTemplates_bind_append_newline (stripComments (insertLine _ _ _)), hinsert]
  have hmoves := moves_expandFrom_insert (whole_endedLines before) hblank (endedLines after) 1
  refine hmoves.bind fun v v' hv hv' _ => ?_
  rw [eq_of_expandFrom_nil hv, eq_of_expandFrom_nil hv']
  exact moves_readText_insert (whole_endedLines before) hblank (endedLines after)

end InsertLine

/-- Blank lines mean nothing. A program that defines no templates is compiled with a line of blanks
and comments put in as without: to the same table, or to the same fault, which has moved with the
lines behind the new one. -/
theorem compile_insertLine (source start : String) (number : ℕ) (line : List Char)
    (hdefine : ¬ defineMark <:+: source.toList) (hfirst : 1 ≤ number)
    (hlast : number ≤ (lines source.toList).length + 1) (hline : '\n' ∉ line)
    (hblank : ∀ c ∈ stripLine line, isSpacing c = true) :
    compile (String.ofList (insertLine number line source.toList)) start =
      (compile source start).mapError (Error.relined (movedLine number)) := by
  refine Moves.eq_mapError ?_
  rw [compile, compile, String.toList_ofList]
  refine (moves_draft_insertLine hdefine hfirst hlast hline hblank).bind fun d d' _ _ hd => ?_
  rw [hd, Draft.table_relined]
  refine (Moves.mapError d.table).bind fun t t' _ _ ht => ?_
  rw [ht]
  exact .ok rfl

/-- A remark within a block, less deep than the block and before the line of a fault. -/
theorem compile_insertLine_remark :
    let source := "a:\n  1:\n    write 0\nb -> write 22\n"
    let remark := " (say why) \t".toList
    String.ofList (insertLine 3 remark source.toList) =
      "a:\n  1:\n (say why) \t\n    write 0\nb -> write 22\n" ∧
    compile source = .error (.at 4 (.refused (.badWrite "22" "b" "*"))) ∧
    compile (String.ofList (insertLine 3 remark source.toList)) =
      .error (.at 5 (.refused (.badWrite "22" "b" "*"))) := by
  intro source remark
  have hcompile : compile source = .error (.at 4 (.refused (.badWrite "22" "b" "*"))) := by
    have hmap : (compile source).map Table.transitions =
        .error (.at 4 (.refused (.badWrite "22" "b" "*"))) := by decide +kernel
    exact map_eq_error_iff.mp hmap
  have hblank : (stripLine remark).all isSpacing = true := by decide +kernel
  refine ⟨by decide +kernel, hcompile, ?_⟩
  rw [compile_insertLine source "" 3 remark (by decide +kernel) (by decide) (by decide +kernel)
    (by decide +kernel) (List.all_eq_true.mp hblank), hcompile]
  rfl

end TapeMachine.Program
