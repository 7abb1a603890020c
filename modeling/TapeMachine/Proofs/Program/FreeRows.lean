import TapeMachine.Proofs.Program.BlankLines
import TapeMachine.Proofs.Program.Printing
import TapeMachine.Proofs.Program.Rows

/-!
# Rows of any words

The words of a plain row have neither a number sign nor a hyphen in them. A row is free
(`Row.Free`) if its words are any words that the lexer takes whole, also a hyphen by itself, as long
as none of them holds the mark of a definition; in return it has no parentheses and no arrows.

A mark that would go across two words would hold what parts them, so there is none in the whole row
(`Row.Free.not_isInfix_text`), and the tokens of a text of free rows are the normal forms of the
tokens of its rows (`programTokens_textAll`).
-/

namespace TapeMachine.Program

open Text

/-! ## Words -/

/-- A word that opens no definition of a template. -/
structure FreeWord (w : List Char) : Prop where
  spelled : Spelled .word w
  unmarked : ¬ defineMark <:+: w

/-- A lexeme of such a word, or a colon. -/
def Lexeme.Free : Lexeme → Prop
  | .word w => FreeWord w
  | .colon => True
  | .arrow => False

/-- A row of such lexemes, without a symbol in parentheses and without spaces at its end. -/
structure Row.Free (r : Row) : Prop where
  first : FreeWord r.first
  symbol : r.symbol = none
  rest : ∀ l ∈ r.rest, l.Free
  trail : r.trail = 0

/-- A plain word opens no definition. -/
lemma PlainWord.free {w : List Char} (h : PlainWord w) : FreeWord w := by
  obtain ⟨hne, hw⟩ := h
  constructor
  · cases w with
    | nil => exact absurd rfl hne
    | cons c w =>
      obtain ⟨hc, hw⟩ := List.forall_mem_cons.mp fun c hc => isWordChar_of_isPlainChar (hw c hc)
      have hword : takeWord (w ++ []) = (w, []) := Cursor.takeWord_append hw rfl
      rw [List.append_nil] at hword
      exact .word hc hword
  · intro hmark
    exact absurd (hw '#' (hmark.subset (by decide))) (by decide)

/-- A free word has only word characters and hyphens in it. -/
lemma FreeWord.of_mem {w : List Char} (h : FreeWord w) {c : Char} (hc : c ∈ w) :
    isWordChar c = true ∨ c = '-' := by
  cases h.spelled with
  | hyphen => exact .inr (List.mem_singleton.mp hc)
  | word hd hw =>
    rcases List.mem_cons.mp hc with rfl | hc
    · exact .inl hd
    · exact isWordChar_or_eq_hyphen hw hc

/-- The text of a free row: its indentation, its first word and what follows. -/
lemma Row.Free.text_eq {r : Row} (h : r.Free) :
    r.text = List.replicate r.indent ' ' ++ (r.first ++ r.rest.flatMap Lexeme.text) := by
  simp [text, tailText, h.symbol, h.trail, bracketText]

/-- The characters of a row: those of its words, and those that part them. -/
lemma Row.Free.mem_text {r : Row} (h : r.Free) {c : Char} (hc : c ∈ r.text) :
    isWordChar c = true ∨ c ∈ [' ', ':', '-'] := by
  have hword : ∀ {w : List Char}, FreeWord w → c ∈ w → isWordChar c = true ∨ c ∈ [' ', ':', '-'] :=
    fun hw hc => (hw.of_mem hc).imp_right (by rintro rfl; decide)
  rw [h.text_eq, List.mem_append, List.mem_append, List.mem_flatMap] at hc
  rcases hc with hc | hc | ⟨l, hl, hc⟩
  · rw [List.eq_of_mem_replicate hc]
    exact .inr (by decide)
  · exact hword h.first hc
  · have hfree := h.rest l hl
    cases l with
    | word w =>
      rcases List.mem_cons.mp hc with rfl | hc
      · exact .inr (by decide)
      · exact hword hfree hc
    | colon =>
      rw [List.mem_singleton.mp hc]
      exact .inr (by decide)
    | arrow => exact hfree.elim

/-- A free row has only word characters, blanks, colons and hyphens in it. -/
lemma Row.Free.notMem_text {r : Row} (h : r.Free) {c : Char} (hc : isWordChar c = false)
    (hc' : c ∉ [' ', ':', '-']) : c ∉ r.text := by
  intro hmem
  rcases h.mem_text hmem with hword | hpart
  · rw [hc] at hword
    cases hword
  · exact hc' hpart

/-! ## No definition is opened -/

/-- A list that begins before an element which it does not have ends before it. -/
lemma isPrefix_of_append_cons {mark u v : List Char} {c : Char} (hc : c ∉ mark)
    (h : mark <+: u ++ c :: v) : mark <+: u := by
  induction mark generalizing u with
  | nil => exact List.nil_prefix
  | cons m ms ih =>
    cases u with
    | nil =>
      obtain ⟨rfl, -⟩ := List.cons_prefix_cons.mp h
      exact absurd List.mem_cons_self hc
    | cons d u =>
      obtain ⟨rfl, htail⟩ := List.cons_prefix_cons.mp h
      have hms : c ∉ ms := fun hmem => hc (List.mem_cons_of_mem _ hmem)
      exact List.cons_prefix_cons.mpr ⟨rfl, ih hms htail⟩

/-- A list does not go across an element which it does not have. -/
lemma isInfix_of_append_cons {mark u v : List Char} {c : Char} (hc : c ∉ mark)
    (h : mark <:+: u ++ c :: v) : mark <:+: u ∨ mark <:+: v := by
  induction u with
  | nil =>
    rcases List.infix_cons_iff.mp h with h | h
    · exact .inl (isPrefix_of_append_cons (u := []) hc h).isInfix
    · exact .inr h
  | cons d u ih =>
    rcases List.infix_cons_iff.mp h with h | h
    · exact .inl (isPrefix_of_append_cons (u := d :: u) hc h).isInfix
    · exact (ih h).imp_left List.infix_cons

/-- What opens a definition would have to stand in one of the words. -/
lemma not_isInfix_lexemes {w : List Char} (hw : ¬ defineMark <:+: w) {ls : List Lexeme}
    (h : ∀ l ∈ ls, l.Free) : ¬ defineMark <:+: w ++ ls.flatMap Lexeme.text := by
  induction ls generalizing w with
  | nil => simpa using hw
  | cons l ls ih =>
    obtain ⟨hl, hls⟩ := List.forall_mem_cons.mp h
    rw [List.flatMap_cons]
    intro hmark
    cases l with
    | word v =>
      rcases isInfix_of_append_cons (by decide) hmark with hmark | hmark
      · exact hw hmark
      · exact ih hl.unmarked hls hmark
    | colon =>
      rcases isInfix_of_append_cons (by decide) hmark with hmark | hmark
      · exact hw hmark
      · exact ih (w := []) (by decide) hls hmark
    | arrow => exact hl.elim

/-- No definition starts within a free row. -/
lemma Row.Free.not_isInfix_text {r : Row} (h : r.Free) : ¬ defineMark <:+: r.text := by
  rw [h.text_eq]
  induction r.indent with
  | zero => exact not_isInfix_lexemes h.first.unmarked h.rest
  | succ n ih =>
    intro hmark
    rcases isInfix_of_append_cons (u := []) (by decide) hmark with hmark | hmark
    · exact absurd hmark (by decide)
    · exact ih hmark

/-- Nothing happens to such rows before they are cut into tokens. -/
lemma Row.expanded_textAll_of_free {rs : List Row} (h : ∀ r ∈ rs, r.Free) :
    expanded (textAll rs) = .ok (textAll rs) := by
  refine expanded_of_forall (fun r hr => ?_) fun r hr => ⟨?_, ?_⟩
  · exact ⟨(h r hr).notMem_text (by decide) (by decide),
      (h r hr).notMem_text (by decide) (by decide)⟩
  · exact if_neg ((h r hr).notMem_text (by decide) (by decide))
  · exact after?_eq_none (by decide) (h r hr).not_isInfix_text

/-! ## Tokens -/

/-- The lexemes of a free row are read as tokens, one by one. -/
lemma lexes_free_lexemes {ls : List Lexeme} (h : ∀ l ∈ ls, l.Free) {rest : List Char}
    (hrest : takeWord rest = ([], rest)) (line : ℕ) :
    Cursor.Lexes ⟨ls.flatMap Lexeme.text ++ rest, line, false⟩ (ls.map (Lexeme.token line))
      ⟨rest, line, false⟩ := by
  induction ls with
  | nil => exact .refl _
  | cons l ls ih =>
    obtain ⟨hl, hls⟩ := List.forall_mem_cons.mp h
    have hend := takeWord_lexemes ls hrest
    rw [List.flatMap_cons, List.append_assoc]
    cases l with
    | word w =>
      have hword := (Cursor.lexes_gap (hl.spelled.noSpacing _) line).trans
        (hl.spelled.lexes hend line false)
      exact hword.trans (ih hls)
    | colon => exact (Cursor.lexes_colon _ line false).trans (ih hls)
    | arrow => exact hl.elim

/-- A free row is read as its tokens, and a newline. -/
lemma Row.Free.lexes_text {r : Row} (h : r.Free) (rest : List Char) (line : ℕ) :
    Cursor.Lexes ⟨r.text ++ '\n' :: rest, line, true⟩ (r.tokens line) ⟨rest, line + 1, true⟩ := by
  have hend : takeWord ('\n' :: rest) = ([], '\n' :: rest) := rfl
  have hindent : ∃ lineStart, Cursor.Lexes ⟨r.text ++ '\n' :: rest, line, true⟩
      (indentTokens line r.indent)
      ⟨r.first ++ (r.rest.flatMap Lexeme.text ++ '\n' :: rest), line, lineStart⟩ := by
    rw [h.text_eq, List.append_assoc, List.append_assoc]
    cases r.indent with
    | zero => exact ⟨true, .refl _⟩
    | succ n => exact ⟨false, Cursor.lexes_indent (h.first.spelled.noSpacing _) n line⟩
  obtain ⟨lineStart, hindent⟩ := hindent
  have hfirst := h.first.spelled.lexes (takeWord_lexemes r.rest hend) line lineStart
  have hline := (hfirst.trans (lexes_free_lexemes h.rest hend line)).trans
    (Cursor.lexes_newline rest line false)
  simpa [tokens, h.symbol, bracketTokens] using hindent.trans hline

/-- The tokens of a text of such rows are the normal forms of the tokens of its rows. -/
theorem programTokens_textAll {rs : List Row} (h : ∀ r ∈ rs, r.Free) :
    programTokens (Row.textAll rs) = .ok (normalize (Row.tokensAll 1 rs)) := by
  have htokens : tokenize (Row.textAll rs) = .ok (Row.tokensAll 1 rs) :=
    Row.tokenize_of_lexes fun r hr => (h r hr).lexes_text
  rw [programTokens, Row.expanded_textAll_of_free h]
  change (do return normalize (← tokenize _)) = _
  rw [htokens]
  rfl

end TapeMachine.Program
