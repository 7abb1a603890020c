import Mathlib.Tactic.Common
import TapeMachine.Program.Compile
import TapeMachine.Proofs.Program.Lexing
import TapeMachine.Proofs.Text.Cutting

/-!
# Rows of program text

A `Row` is a line of a program laid out with single spaces: indentation, a first word, possibly a
symbol in parentheses right behind it, then words and arrows with a space before each and colons
with none, and spaces at the end of the line.

Nothing happens to such lines before they are cut into tokens (`Row.expanded_textAll`): the only
parentheses stand right behind a word and so open no comment, and there is nothing that defines or
calls a template. The tokens of the text are then the tokens of the rows, line by line
(`Row.tokenize_textAll`).
-/

namespace TapeMachine.Program

open Text

/-! ## Rows -/

/-- What stands on a line behind its first word and symbol. -/
inductive Lexeme where
  | word (w : List Char)
  | colon
  | arrow
deriving DecidableEq

/-- A line of a program. -/
structure Row where
  /-- The number of spaces at the start of the line. -/
  indent : ℕ
  first : List Char
  /-- The symbol in parentheses behind the first word. -/
  symbol : Option Char := none
  rest : List Lexeme
  /-- The number of spaces at the end of the line. -/
  trail : ℕ
deriving DecidableEq

/-- The text of a lexeme, with the space before it. -/
def Lexeme.text : Lexeme → List Char
  | .word w => ' ' :: w
  | .colon => [':']
  | .arrow => [' ', '-', '>']

/-- The token of a lexeme. -/
def Lexeme.token (line : ℕ) : Lexeme → Token
  | .word w => ⟨.word, w, line, 0⟩
  | .colon => ⟨.colon, [':'], line, 0⟩
  | .arrow => ⟨.arrow, ['-', '>'], line, 0⟩

namespace Row

/-- A symbol in parentheses, or nothing. -/
def bracketText : Option Char → List Char
  | none => []
  | some c => ['(', c, ')']

/-- The tokens of a symbol in parentheses. -/
def bracketTokens (line : ℕ) : Option Char → List Token
  | none => []
  | some c => [⟨.bracketed, ['(', c, ')'], line, 0⟩]

/-- The tokens of the indentation of a line: there is none without spaces. -/
def indentTokens (line : ℕ) : ℕ → List Token
  | 0 => []
  | n + 1 => [⟨.indent, List.replicate (n + 1) ' ', line, n + 1⟩]

/-- The text of a line behind its first word, without the newline. -/
def tailText (r : Row) : List Char :=
  bracketText r.symbol ++ r.rest.flatMap Lexeme.text ++ List.replicate r.trail ' '

/-- The text of a line without the newline. -/
def text (r : Row) : List Char :=
  List.replicate r.indent ' ' ++ (r.first ++ r.tailText)

/-- The tokens of a line. -/
def tokens (line : ℕ) (r : Row) : List Token :=
  indentTokens line r.indent ++
    (⟨.word, r.first, line, 0⟩ ::
      (bracketTokens line r.symbol ++ r.rest.map (Lexeme.token line))) ++
    [⟨.newline, ['\n'], line, 0⟩]

/-- The text of lines, each with its newline. -/
def textAll (rs : List Row) : List Char :=
  rs.flatMap fun r => r.text ++ ['\n']

/-- The tokens of lines, the first of which is the line `line` of the text. -/
def tokensAll : ℕ → List Row → List Token
  | _, [] => []
  | line, r :: rs => r.tokens line ++ tokensAll (line + 1) rs

/-- The text of rows is that of the first, a newline and that of the others. -/
lemma textAll_cons (r : Row) (rs : List Row) :
    textAll (r :: rs) = r.text ++ '\n' :: textAll rs := by
  simp [textAll]

/-- The tokens of rows are counted on from line to line. -/
lemma tokensAll_append (line : ℕ) (rs ss : List Row) :
    tokensAll line (rs ++ ss) = tokensAll line rs ++ tokensAll (line + rs.length) ss := by
  induction rs generalizing line with
  | nil => rfl
  | cons r rs ih =>
    rw [List.cons_append, tokensAll, tokensAll, ih, List.append_assoc, List.length_cons,
      Nat.add_assoc, Nat.add_comm 1]

end Row

/-! ## Words that mean nothing to the stages before the tokens -/

/-- A character of a word that starts no definition of a template. -/
def isPlainChar (c : Char) : Bool :=
  isWordChar c && c != '#'

/-- A word of such characters. -/
def PlainWord (w : List Char) : Prop :=
  w ≠ [] ∧ ∀ c ∈ w, isPlainChar c = true

instance (w : List Char) : Decidable (PlainWord w) :=
  decidable_of_iff (w ≠ [] ∧ w.all isPlainChar = true) (by rw [PlainWord, List.all_eq_true])

/-- Whether a lexeme is made of such a word, if of any. -/
def Lexeme.Plain : Lexeme → Prop
  | .word w => PlainWord w
  | .colon => True
  | .arrow => True

/-- All words of the row are plain, and so is its symbol. -/
structure Row.Plain (r : Row) : Prop where
  first : PlainWord r.first
  symbol : ∀ c ∈ r.symbol, isPlainChar c = true
  rest : ∀ l ∈ r.rest, l.Plain

/-- Plain characters are word characters. -/
lemma isWordChar_of_isPlainChar {c : Char} (h : isPlainChar c = true) : isWordChar c = true := by
  simp only [isPlainChar, Bool.and_eq_true] at h
  exact h.1

/-- A plain word has only word characters in it. -/
lemma PlainWord.isWordChar {w : List Char} (h : PlainWord w) : ∀ c ∈ w, isWordChar c = true :=
  fun c hc => isWordChar_of_isPlainChar (h.2 c hc)

/-- A lexeme has plain characters and those that part them. -/
lemma Lexeme.mem_text {l : Lexeme} (h : l.Plain) {c : Char} (hc : c ∈ l.text) :
    isPlainChar c = true ∨ c ∈ [' ', ':', '-', '>'] := by
  cases l with
  | word w =>
    rcases List.mem_cons.mp hc with rfl | hc
    · exact .inr (by decide)
    · exact .inl (h.2 c hc)
  | colon =>
    rw [List.mem_singleton.mp hc]
    exact .inr (by decide)
  | arrow =>
    simp only [text, List.mem_cons, List.not_mem_nil, or_false] at hc
    rcases hc with rfl | rfl | rfl <;> exact .inr (by decide)

/-- A row has plain characters and those that part them. -/
lemma Row.mem_text {r : Row} (h : r.Plain) {c : Char} (hc : c ∈ r.text) :
    isPlainChar c = true ∨ c ∈ [' ', ':', '-', '>', '(', ')'] := by
  simp only [text, tailText, List.mem_append, List.mem_flatMap] at hc
  rcases hc with hc | hc | (hc | ⟨l, hl, hc⟩) | hc
  · rw [List.eq_of_mem_replicate hc]
    exact .inr (by decide)
  · exact .inl (h.first.2 c hc)
  · cases hs : r.symbol with
    | none =>
      rw [hs] at hc
      exact absurd hc List.not_mem_nil
    | some d =>
      rw [hs] at hc
      simp only [bracketText, List.mem_cons, List.not_mem_nil, or_false] at hc
      rcases hc with rfl | rfl | rfl
      · exact .inr (by decide)
      · exact .inl (h.symbol c hs)
      · exact .inr (by decide)
  · exact (Lexeme.mem_text (h.rest l hl) hc).imp_right fun hpart => List.mem_append_left _ hpart
  · rw [List.eq_of_mem_replicate hc]
    exact .inr (by decide)

/-- A character that is neither plain nor parts anything is not in a row. -/
lemma Row.notMem_text {r : Row} (h : r.Plain) {c : Char} (hc : isPlainChar c = false)
    (hc' : c ∉ [' ', ':', '-', '>', '(', ')']) : c ∉ r.text := by
  intro hmem
  rcases Row.mem_text h hmem with hplain | hpart
  · rw [hc] at hplain
    cases hplain
  · exact hc' hpart

/-- The lines of the text of rows are the texts of the rows, and the empty line at the end. -/
lemma Row.lines_textAll {rs : List Row} (h : ∀ r ∈ rs, '\n' ∉ r.text) :
    lines (Row.textAll rs) = rs.map Row.text ++ [[]] := by
  induction rs with
  | nil => rfl
  | cons r rs ih =>
    obtain ⟨hr, hrs⟩ := List.forall_mem_cons.mp h
    rw [Row.textAll_cons, lines_append_newline hr, ih hrs]
    rfl

/-! ## Comments -/

/-- Removing comments leaves indentation alone. -/
lemma stripFrom_replicate (n : ℕ) (opens : Bool) (cs : List Char) :
    ∃ opens', stripFrom false opens (List.replicate n ' ' ++ cs) =
      List.replicate n ' ' ++ stripFrom false opens' cs := by
  induction n generalizing opens with
  | zero => exact ⟨opens, rfl⟩
  | succ n ih =>
    obtain ⟨opens', h⟩ := ih (opensAfter ' ')
    refine ⟨opens', ?_⟩
    rw [List.replicate_succ, List.cons_append, List.cons_append, ← h]
    rfl

/-- Removing comments leaves a word alone, and no comment opens right behind it. -/
lemma stripFrom_word {w : List Char} (hne : w ≠ []) (hw : ∀ c ∈ w, isWordChar c = true)
    (opens : Bool) (cs : List Char) :
    stripFrom false opens (w ++ cs) = w ++ stripFrom false false cs := by
  induction w generalizing opens with
  | nil => exact absurd rfl hne
  | cons c w ih =>
    obtain ⟨hb, -, hcolon, hparen, -⟩ := Cursor.isWordChar_iff.mp (hw c List.mem_cons_self)
    have hopens : opensAfter c = false := by simp [opensAfter, hb, hcolon]
    have hstrip : stripFrom false opens (c :: (w ++ cs)) =
        c :: stripFrom false false (w ++ cs) := by
      simp [stripFrom, hparen, hopens]
    rw [List.cons_append, List.cons_append, hstrip]
    cases w with
    | nil => rfl
    | cons d w => rw [ih (by simp) (fun e he => hw e (List.mem_cons_of_mem _ he))]

/-- There is no comment in a row. -/
lemma Row.stripLine_text {r : Row} (h : r.Plain) : stripLine r.text = r.text := by
  -- Only the symbol brings a parenthesis with it, and that stands behind a word.
  have hrest : '(' ∉ r.rest.flatMap Lexeme.text ++ List.replicate r.trail ' ' := by
    rw [List.mem_append, List.mem_flatMap]
    rintro (⟨l, hl, hc⟩ | hc)
    · rcases Lexeme.mem_text (h.rest l hl) hc with hplain | hpart
      · exact absurd hplain (by decide)
      · exact absurd hpart (by decide)
    · exact absurd (List.eq_of_mem_replicate hc) (by decide)
  have htail : stripFrom false false r.tailText = r.tailText := by
    rw [tailText, List.append_assoc]
    cases hs : r.symbol with
    | none => exact stripFrom_of_notMem hrest false
    | some c =>
      obtain ⟨-, -, -, hparen, -⟩ :=
        Cursor.isWordChar_iff.mp (isWordChar_of_isPlainChar (h.symbol c hs))
      have hbehind : '(' ∉ [c, ')'] ++
          (r.rest.flatMap Lexeme.text ++ List.replicate r.trail ' ') := by
        rw [List.mem_append]
        exact not_or.mpr ⟨by simp [hparen.symm], hrest⟩
      change '(' :: stripFrom false false ([c, ')'] ++ _) = '(' :: ([c, ')'] ++ _)
      rw [stripFrom_of_notMem hbehind]
  obtain ⟨opens, hindent⟩ := stripFrom_replicate r.indent true (r.first ++ r.tailText)
  rw [stripLine_eq_stripFrom, text, hindent, stripFrom_word h.first.1 h.first.isWordChar, htail]

/-- Removing comments leaves a text alone whose lines have none. -/
lemma stripComments_eq_self {text : List Char} (h : ∀ l ∈ lines text, stripLine l = l) :
    stripComments text = text := by
  have hmap : (lines text).map stripLine = lines text := by
    rw [List.map_congr_left h, List.map_id']
  rw [stripComments, hmap, unlines_lines]

/-! ## Templates -/

/-- Where its first character is missing a mark is missing. -/
lemma after?_cons_of_notMem {m : Char} {ms cs : List Char} (h : m ∉ cs) :
    after? (m :: ms) cs = none := by
  induction cs with
  | nil => rfl
  | cons c cs ih =>
    have hc : m ≠ c := fun hc => h (hc ▸ List.mem_cons_self)
    simp [after?, List.isPrefixOf, hc, ih fun hmem => h (List.mem_cons_of_mem _ hmem)]

/-- The mark that opens a definition starts with a number sign. -/
lemma defineMark_eq : defineMark = '#' :: ['d', 'e', 'f', 'i', 'n', 'e'] := by decide

/-- A text that opens no definition is left as it is when definitions are taken out. -/
lemma extractTemplates_eq_self {text : List Char}
    (h : ∀ l ∈ lines text, after? defineMark l = none) :
    extractTemplates text = .ok (text, []) := by
  have hlines : ∀ (ls : List (List Char)) (number : ℕ), (∀ l ∈ ls, after? defineMark l = none) →
      extractLines [] number none ls = .ok ⟨ls, []⟩ := by
    intro ls number h
    induction ls generalizing number with
    | nil => rfl
    | cons l ls ih =>
      have hls := ih (number + 1) fun k hk => h k (List.mem_cons_of_mem _ hk)
      simp [extractLines, h l List.mem_cons_self, hls, Except.map]
  rw [extractTemplates, hlines _ 1 h]
  change Except.ok (unlines (lines text), []) = _
  rw [unlines_lines]

/-- A text without an opening brace is left as it is when calls are replaced. -/
lemma expandFrom_of_notMem {text : List Char} (h : '{' ∉ text) (ts : List Template) (line : ℕ) :
    expandFrom ts line 0 text = .ok text := by
  induction text generalizing line with
  | nil => rfl
  | cons c cs ih =>
    have hc : c ≠ '{' := fun hc => h (hc ▸ List.mem_cons_self)
    have hcs := ih fun hmem => h (List.mem_cons_of_mem _ hmem)
    simp [expandFrom, hc, hcs, Except.map]

/-- Nothing happens to rows before they are cut into tokens if no comment, definition or call of a
template opens in them. -/
lemma Row.expanded_of_forall {rs : List Row} (h : ∀ r ∈ rs, '\n' ∉ r.text ∧ '{' ∉ r.text)
    (hline : ∀ r ∈ rs, stripLine r.text = r.text ∧ after? defineMark r.text = none) :
    expanded (textAll rs) = .ok (textAll rs) := by
  have hlines : ∀ l ∈ lines (textAll rs), stripLine l = l ∧ after? defineMark l = none := by
    rw [lines_textAll fun r hr => (h r hr).1]
    intro l hl
    rcases List.mem_append.mp hl with hl | hl
    · obtain ⟨r, hr, rfl⟩ := List.mem_map.mp hl
      exact hline r hr
    · rw [List.mem_singleton.mp hl]
      exact ⟨rfl, rfl⟩
  have hbrace : '{' ∉ textAll rs := by
    rw [textAll, List.mem_flatMap]
    rintro ⟨r, hr, hc⟩
    rcases List.mem_append.mp hc with hc | hc
    · exact (h r hr).2 hc
    · exact absurd hc (by decide)
  rw [expanded, stripComments_eq_self fun l hl => (hlines l hl).1,
    extractTemplates_eq_self fun l hl => (hlines l hl).2]
  exact expandFrom_of_notMem hbrace [] 1

/-- Nothing happens to plain rows before they are cut into tokens. -/
theorem Row.expanded_textAll {rs : List Row} (h : ∀ r ∈ rs, r.Plain) :
    expanded (textAll rs) = .ok (textAll rs) := by
  refine expanded_of_forall (fun r hr => ?_) fun r hr => ⟨stripLine_text (h r hr), ?_⟩
  · exact ⟨notMem_text (h r hr) (by decide) (by decide),
      notMem_text (h r hr) (by decide) (by decide)⟩
  · rw [defineMark_eq]
    exact after?_cons_of_notMem (notMem_text (h r hr) (by decide) (by decide))

/-! ## Tokens -/

/-- A word ends where a lexeme starts. -/
lemma takeWord_lexemes (ls : List Lexeme) {rest : List Char} (hrest : takeWord rest = ([], rest)) :
    takeWord (ls.flatMap Lexeme.text ++ rest) = ([], ls.flatMap Lexeme.text ++ rest) := by
  cases ls with
  | nil => exact hrest
  | cons l ls => cases l <;> rfl

/-- A word ends where spaces before the end of a line start. -/
lemma takeWord_trailing (n : ℕ) (rest : List Char) :
    takeWord (List.replicate n ' ' ++ '\n' :: rest) =
      ([], List.replicate n ' ' ++ '\n' :: rest) := by
  cases n <;> rfl

/-- A word does not start with a space. -/
lemma noSpacing_word {w : List Char} (h : PlainWord w) (rest : List Char) :
    Cursor.NoSpacing (w ++ rest) := by
  obtain ⟨hne, hw⟩ := h
  cases w with
  | nil => exact absurd rfl hne
  | cons c w =>
    rintro d ⟨⟩
    obtain ⟨hb, -⟩ := Cursor.isWordChar_iff.mp (isWordChar_of_isPlainChar (hw c List.mem_cons_self))
    have hspace : c ≠ ' ' := Cursor.ne_of_isBlank hb (by decide)
    have htab : c ≠ '\t' := Cursor.ne_of_isBlank hb (by decide)
    simp [isSpacing, hspace, htab]

/-- Lexemes are read as their tokens. -/
lemma lexes_lexemes {ls : List Lexeme} (h : ∀ l ∈ ls, l.Plain) {rest : List Char}
    (hrest : takeWord rest = ([], rest)) (line : ℕ) :
    Cursor.Lexes ⟨ls.flatMap Lexeme.text ++ rest, line, false⟩ (ls.map (Lexeme.token line))
      ⟨rest, line, false⟩ := by
  induction ls with
  | nil => exact .refl _
  | cons l ls ih =>
    have hls := ih fun k hk => h k (List.mem_cons_of_mem _ hk)
    have hend := takeWord_lexemes ls hrest
    have hl : l.Plain := h l List.mem_cons_self
    rw [List.flatMap_cons, List.append_assoc]
    cases l with
    | word w =>
      have hgap := Cursor.lexes_gap (noSpacing_word hl (ls.flatMap Lexeme.text ++ rest)) line
      exact (hgap.trans (Cursor.lexes_word hl.1 hl.isWordChar hend line false)).trans hls
    | colon => exact (Cursor.lexes_colon _ line false).trans hls
    | arrow =>
      have hnone : Cursor.NoSpacing ('-' :: '>' :: (ls.flatMap Lexeme.text ++ rest)) := by
        rintro c ⟨⟩
        rfl
      exact ((Cursor.lexes_gap hnone line).trans (Cursor.lexes_arrow _ line false)).trans hls

/-- A symbol in parentheses is read as its token. -/
lemma lexes_bracketText {symbol : Option Char} (h : ∀ c ∈ symbol, isPlainChar c = true)
    (rest : List Char) (line : ℕ) :
    Cursor.Lexes ⟨Row.bracketText symbol ++ rest, line, false⟩ (Row.bracketTokens line symbol)
      ⟨rest, line, false⟩ := by
  cases symbol with
  | none => exact .refl _
  | some c => exact Cursor.lexes_bracketed (isWordChar_of_isPlainChar (h c rfl)) rest line false

/-- A row is read as its tokens. -/
theorem Row.lexes_text {r : Row} (h : r.Plain) (rest : List Char) (line : ℕ) :
    Cursor.Lexes ⟨r.text ++ '\n' :: rest, line, true⟩ (r.tokens line) ⟨rest, line + 1, true⟩ := by
  have htrail := takeWord_trailing r.trail rest
  have hlexemes := takeWord_lexemes r.rest htrail
  have hbracket : takeWord (bracketText r.symbol ++ (r.rest.flatMap Lexeme.text ++
      (List.replicate r.trail ' ' ++ '\n' :: rest))) = ([], bracketText r.symbol ++
        (r.rest.flatMap Lexeme.text ++ (List.replicate r.trail ' ' ++ '\n' :: rest))) := by
    cases r.symbol with
    | none => exact hlexemes
    | some c => rfl
  have hindent : ∃ lineStart, Cursor.Lexes ⟨r.text ++ '\n' :: rest, line, true⟩
      (indentTokens line r.indent) ⟨r.first ++ r.tailText ++ '\n' :: rest, line, lineStart⟩ := by
    rw [text, List.append_assoc]
    cases r.indent with
    | zero => exact ⟨true, .refl _⟩
    | succ n =>
      refine ⟨false, Cursor.lexes_indent ?_ n line⟩
      rw [List.append_assoc]
      exact noSpacing_word h.first _
  obtain ⟨lineStart, hindent⟩ := hindent
  have hword := Cursor.lexes_word h.first.1 h.first.isWordChar hbracket line lineStart
  have hbehind := (lexes_bracketText h.symbol _ line).trans (lexes_lexemes h.rest htrail line)
  have hend := (Cursor.lexes_trailing r.trail line rest).trans
    (Cursor.lexes_newline rest line false)
  have hline := (hword.trans hbehind).trans hend
  simp only [tailText, List.append_assoc] at hindent
  simpa [tokens] using hindent.trans hline

/-- The tokens of a text of rows are the tokens of the rows if each row is read as its tokens. -/
lemma Row.tokenize_of_lexes {rs : List Row}
    (h : ∀ r ∈ rs, ∀ rest line, Cursor.Lexes ⟨r.text ++ '\n' :: rest, line, true⟩ (r.tokens line)
      ⟨rest, line + 1, true⟩) :
    tokenize (textAll rs) = .ok (tokensAll 1 rs) := by
  have hlexes : ∀ line, ∃ line', Cursor.Lexes ⟨textAll rs, line, true⟩ (tokensAll line rs)
      ⟨[], line', true⟩ := by
    induction rs with
    | nil => exact fun line => ⟨line, .refl _⟩
    | cons r rs ih =>
      intro line
      obtain ⟨hr, hrs⟩ := List.forall_mem_cons.mp h
      obtain ⟨line', hlexes⟩ := ih hrs (line + 1)
      rw [textAll_cons]
      exact ⟨line', (hr _ line).trans hlexes⟩
  obtain ⟨line', hlexes⟩ := hlexes 1
  exact Cursor.tokens_eq_ok_iff.mpr ⟨_, hlexes, rfl⟩

/-- The tokens of a text of plain rows are the tokens of the rows. -/
theorem Row.tokenize_textAll {rs : List Row} (h : ∀ r ∈ rs, r.Plain) :
    tokenize (textAll rs) = .ok (tokensAll 1 rs) :=
  tokenize_of_lexes fun r hr => lexes_text (h r hr)

end TapeMachine.Program
