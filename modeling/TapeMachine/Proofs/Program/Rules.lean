import Mathlib.Tactic.Common
import TapeMachine.Proofs.Program.Rows

/-!
# Rules and the styles they are written in

A `Rule` gives, for one state and one symbol, directives in any order and with repetitions. There
are several ways to lay a rule out as text (`Style`): with a block for the state and one within it
for the symbol, with the directives behind the header of their block, with an arrow in place of the
words, or with the state and the symbol in one header; the wildcard can also be left out or be
written `else`. `StyledRule.rows` are the lines of a rule in its style, and `render` is the text of
rules one after the other, each in a style of its own.

Whatever the styles, such a text goes through the stages before reading unchanged but for the normal
forms of keywords (`programTokens_render`).
-/

namespace TapeMachine.Program

/-! ## Names and symbols -/

/-- A character of a name or a symbol: not white space, a control character, a hyphen, a colon, a
parenthesis, a brace, a number sign or an exclamation mark. -/
def isNameChar (c : Char) : Bool :=
  isPlainChar c && c != '!'

/-- The words that mean something to the reader. -/
def keywords : List (List Char) :=
  ["read".toList, "write".toList, "move".toList, "goto".toList, "else".toList, "left".toList,
    "right".toList]

/-- A name of a state: a word that is no keyword. -/
structure Name where
  text : List Char
  ne_nil : text ≠ []
  chars : text.all isNameChar = true
  notKeyword : text ∉ keywords
deriving DecidableEq

/-- A symbol of the tape, or the wildcard. -/
structure Symbol where
  char : Char
  isNameChar : isNameChar char = true
deriving DecidableEq

/-- The state a name stands for. -/
def Name.value (q : Name) : String := String.ofList q.text

/-- The string of a symbol. -/
def Symbol.value (c : Symbol) : String := String.ofList [c.char]

/-- The accepted spellings of the directions. -/
inductive Spelling where
  | left
  | l
  | right
  | r
  | stay
  | star
deriving DecidableEq

/-- A direction as it is written. -/
def Spelling.text : Spelling → List Char
  | .left => "left".toList
  | .l => ['l']
  | .right => "right".toList
  | .r => ['r']
  | .stay => "stay".toList
  | .star => ['*']

/-- A direction with the long spellings replaced by their letters. -/
def Spelling.short : Spelling → List Char
  | .left => ['l']
  | .right => ['r']
  | d => d.text

/-! ## Rules -/

/-- A directive as it is written. -/
inductive Command where
  | write (w : Symbol)
  | move (d : Spelling)
  | goto (q : Name)
  /-- A jump to `q!`. -/
  | halt (q : Name)
deriving DecidableEq

namespace Command

/-- The word a directive starts with. -/
def keyword : Command → List Char
  | .write _ => "write".toList
  | .move _ => "move".toList
  | .goto _ => "goto".toList
  | .halt _ => "goto".toList

/-- The word behind it. -/
def operand : Command → List Char
  | .write w => [w.char]
  | .move d => d.text
  | .goto q => q.text
  | .halt q => q.text ++ ['!']

/-- The word behind it in its normal form. -/
def short : Command → List Char
  | .move d => d.short
  | c => c.operand

/-- What a directive says: a jump to `q!` leads to a halting state. -/
def directive : Command → Directive
  | .write w => .write w.value
  | .move d => .move (String.ofList d.short)
  | .goto q => .goto q.value
  | .halt q => .goto (haltingState q.value)

/-- A directive within a line. -/
def lexemes (c : Command) : List Lexeme :=
  [.word c.keyword, .word c.operand]

end Command

/-- What is to be done in a state when a symbol is read. -/
structure Rule where
  state : Name
  symbol : Symbol
  commands : List Command
deriving DecidableEq

/-- The instructions of a rule, one for each of its directives. -/
def Rule.instructions (line : ℤ) (r : Rule) : List Instruction :=
  r.commands.map fun c => ⟨r.state.value, r.symbol.value, c.directive, line⟩

/-! ## Styles -/

/-- The ways to lay out a rule with the state `s`, the symbol `c` and the directives `d`. -/
inductive Style where
  /-- Lines `s:`, `read c:` and a line for each directive. -/
  | nested
  /-- Lines `s:` and `read c: d d`. -/
  | inline
  /-- Lines `s:` and `c -> d d`. -/
  | arrow
  /-- A line `s(c) -> d d`. -/
  | call
  /-- A line `s -> d d`, for the wildcard. -/
  | bare
  /-- Lines `s:`, `else:` and a line for each directive, for the wildcard. -/
  | otherwise
  /-- Lines `s:`, `else:` and `d d`, for the wildcard. -/
  | otherwiseTogether
deriving DecidableEq

/-- Whether a style has no place for a symbol and so stands for the wildcard. -/
def Style.impliesWildcard : Style → Bool
  | .bare => true
  | .otherwise => true
  | .otherwiseTogether => true
  | _ => false

/-- A rule in one of the styles it can be written in. -/
structure StyledRule where
  rule : Rule
  style : Style
  /-- The number of spaces at the end of each line. -/
  trail : ℕ := 0
  wildcard : style.impliesWildcard = true → rule.symbol.char = '*'
deriving DecidableEq

namespace StyledRule

/-- A line for directives in a block; without directives there is no line. -/
def blockLine (trail : ℕ) : List Command → List Row
  | [] => []
  | c :: cs =>
    [⟨8, c.keyword, none, .word c.operand :: cs.flatMap Command.lexemes, trail⟩]

/-- A line for each directive. -/
def block (trail : ℕ) (cs : List Command) : List Row :=
  cs.flatMap fun c => blockLine trail [c]

/-- The lines of a rule. -/
def rows (x : StyledRule) : List Row :=
  let name := x.rule.state.text
  let symbol := x.rule.symbol.char
  let body := x.rule.commands.flatMap Command.lexemes
  let header : Row := ⟨0, name, none, [.colon], x.trail⟩
  match x.style with
  | .nested =>
    header :: ⟨4, "read".toList, none, [.word [symbol], .colon], x.trail⟩ ::
      block x.trail x.rule.commands
  | .inline => [header, ⟨4, "read".toList, none, .word [symbol] :: .colon :: body, x.trail⟩]
  | .arrow => [header, ⟨4, [symbol], none, .arrow :: body, x.trail⟩]
  | .call => [⟨0, name, some symbol, .arrow :: body, x.trail⟩]
  | .bare => [⟨0, name, none, .arrow :: body, x.trail⟩]
  | .otherwise =>
    header :: ⟨4, "else".toList, none, [.colon], x.trail⟩ :: block x.trail x.rule.commands
  | .otherwiseTogether =>
    header :: ⟨4, "else".toList, none, [.colon], x.trail⟩ :: blockLine x.trail x.rule.commands

end StyledRule

/-- The text of rules, one after the other. -/
def render (xs : List StyledRule) : List Char :=
  Row.textAll (xs.flatMap StyledRule.rows)

/-! ## The words of rules are plain -/

/-- The characters of names are plain. -/
lemma isPlainChar_of_isNameChar {c : Char} (h : isNameChar c = true) : isPlainChar c = true := by
  simp only [isNameChar, Bool.and_eq_true] at h
  exact h.1

/-- A name is a plain word. -/
lemma Name.plainWord (q : Name) : PlainWord q.text :=
  ⟨q.ne_nil, fun c hc => isPlainChar_of_isNameChar (List.all_eq_true.mp q.chars c hc)⟩

/-- A symbol is a plain word. -/
lemma Symbol.plainWord (c : Symbol) : PlainWord [c.char] := by
  refine ⟨by simp, fun d hd => ?_⟩
  rw [List.mem_singleton.mp hd]
  exact isPlainChar_of_isNameChar c.isNameChar

/-- A direction is a plain word, in whatever way it is spelled. -/
lemma Spelling.plainWord (d : Spelling) : PlainWord d.text := by
  cases d <;> decide

/-- The keyword of a command is a plain word. -/
lemma Command.plainWord_keyword (c : Command) : PlainWord c.keyword := by
  cases c <;> change PlainWord (String.toList _) <;> decide

/-- The operand of a command is a plain word. -/
lemma Command.plainWord_operand (c : Command) : PlainWord c.operand := by
  cases c with
  | write w => exact w.plainWord
  | move d => exact d.plainWord
  | goto q => exact q.plainWord
  | halt q =>
    refine ⟨by simp [operand], fun c hc => ?_⟩
    rcases List.mem_append.mp hc with hc | hc
    · exact q.plainWord.2 c hc
    · rw [List.mem_singleton.mp hc]
      decide

/-- Commands in a row are plain. -/
lemma Command.plain_of_mem_lexemes {cs : List Command} {l : Lexeme}
    (h : l ∈ cs.flatMap Command.lexemes) : l.Plain := by
  obtain ⟨c, -, hl⟩ := List.mem_flatMap.mp h
  simp only [lexemes, List.mem_cons, List.not_mem_nil, or_false] at hl
  rcases hl with rfl | rfl
  · exact c.plainWord_keyword
  · exact c.plainWord_operand

/-- The commands of a block in one row are plain. -/
lemma StyledRule.plain_of_mem_blockLine {trail : ℕ} {cs : List Command} {r : Row}
    (h : r ∈ blockLine trail cs) : r.Plain := by
  cases cs with
  | nil => cases h
  | cons c cs =>
    rw [blockLine, List.mem_singleton] at h
    subst h
    refine ⟨c.plainWord_keyword, by simp, fun l hl => ?_⟩
    rcases List.mem_cons.mp hl with rfl | hl
    · exact c.plainWord_operand
    · exact Command.plain_of_mem_lexemes hl

/-- The rows of a block are plain. -/
lemma StyledRule.plain_of_mem_block {trail : ℕ} {cs : List Command} {r : Row}
    (h : r ∈ block trail cs) : r.Plain := by
  obtain ⟨c, -, hr⟩ := List.mem_flatMap.mp h
  exact plain_of_mem_blockLine hr

/-- Every line of a rule is plain. -/
lemma StyledRule.plain_of_mem_rows {x : StyledRule} {r : Row} (h : r ∈ x.rows) : r.Plain := by
  have hname := x.rule.state.plainWord
  have hsymbol := x.rule.symbol.plainWord
  have hread : PlainWord "read".toList := by decide
  have helse : PlainWord "else".toList := by decide
  have hbody : ∀ l ∈ x.rule.commands.flatMap Command.lexemes, l.Plain :=
    fun l hl => Command.plain_of_mem_lexemes hl
  have hcolon : ∀ l ∈ [Lexeme.colon], l.Plain := by simp [Lexeme.Plain]
  have harrow : ∀ l ∈ Lexeme.arrow :: x.rule.commands.flatMap Command.lexemes, l.Plain :=
    List.forall_mem_cons.mpr ⟨trivial, hbody⟩
  rw [rows] at h
  cases hs : x.style with
  | nested =>
    rw [hs] at h
    rcases List.mem_cons.mp h with rfl | h
    · exact ⟨hname, by simp, hcolon⟩
    rcases List.mem_cons.mp h with rfl | h
    · exact ⟨hread, by simp, List.forall_mem_cons.mpr ⟨hsymbol, hcolon⟩⟩
    · exact plain_of_mem_block h
  | inline =>
    rw [hs] at h
    rcases List.mem_cons.mp h with rfl | h
    · exact ⟨hname, by simp, hcolon⟩
    rw [List.mem_singleton.mp h]
    exact ⟨hread, by simp,
      List.forall_mem_cons.mpr ⟨hsymbol, List.forall_mem_cons.mpr ⟨trivial, hbody⟩⟩⟩
  | arrow =>
    rw [hs] at h
    rcases List.mem_cons.mp h with rfl | h
    · exact ⟨hname, by simp, hcolon⟩
    rw [List.mem_singleton.mp h]
    exact ⟨hsymbol, by simp, harrow⟩
  | call =>
    rw [hs] at h
    rw [List.mem_singleton.mp h]
    refine ⟨hname, ?_, harrow⟩
    rintro c ⟨⟩
    exact isPlainChar_of_isNameChar x.rule.symbol.isNameChar
  | bare =>
    rw [hs] at h
    rw [List.mem_singleton.mp h]
    exact ⟨hname, by simp, harrow⟩
  | otherwise =>
    rw [hs] at h
    rcases List.mem_cons.mp h with rfl | h
    · exact ⟨hname, by simp, hcolon⟩
    rcases List.mem_cons.mp h with rfl | h
    · exact ⟨helse, by simp, hcolon⟩
    · exact plain_of_mem_block h
  | otherwiseTogether =>
    rw [hs] at h
    rcases List.mem_cons.mp h with rfl | h
    · exact ⟨hname, by simp, hcolon⟩
    rcases List.mem_cons.mp h with rfl | h
    · exact ⟨helse, by simp, hcolon⟩
    · exact plain_of_mem_blockLine h

/-- The tokens of a text of rules are the normal forms of the tokens of its lines. -/
theorem programTokens_render (xs : List StyledRule) :
    programTokens (render xs) = .ok (normalize (Row.tokensAll 1 (xs.flatMap StyledRule.rows))) := by
  have hplain : ∀ r ∈ xs.flatMap StyledRule.rows, r.Plain := by
    intro r hr
    obtain ⟨x, -, hr⟩ := List.mem_flatMap.mp hr
    exact StyledRule.plain_of_mem_rows hr
  rw [programTokens, render, Row.expanded_textAll hplain]
  change (do return normalize (← tokenize _)) = _
  rw [Row.tokenize_textAll hplain]
  rfl

end TapeMachine.Program
