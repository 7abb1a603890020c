import Mathlib.Data.List.Forall2
import TapeMachine.Proofs.Program.Placing

/-!
# Printing tokens back

`printed ts` writes tokens as a text again, with indentation of the same width and one space between
the other tokens of a line. Reading this text gives the same tokens, but for spacing
(`tokenize_printed`): so the spacing inside a line, tabs and the white space of Unicode do not
matter.

The argument has two halves. `Laid` is what is known of the tokens of any text: how they are
spelled, and that indentation comes first in its line (`Lexes.laid`). And tokens laid out in this
way are read back from what is printed, since each of them is followed by a character that no word
goes on with (`Laid.exists_lexes`).
-/

namespace TapeMachine.Program

open Text

/-! ## The printer -/

/-- The text of tokens from some place of a line on; the flag says that the last token printed wants
a space before the next. -/
def printFrom : Bool → List Token → List Char
  | _, [] => []
  | joined, t :: ts =>
    match t.kind with
    | .newline => '\n' :: printFrom false ts
    | .indent => List.replicate t.width ' ' ++ printFrom false ts
    | .space => printFrom joined ts
    | _ => (if joined then [' '] else []) ++ (t.text ++ printFrom true ts)

/-- The text of tokens: newlines and indentation where they stand, and one space between any two
other tokens of a line. -/
def printed (ts : List Token) : List Char :=
  printFrom false ts

/-- The token with its indentation written as spaces. -/
def Token.evened (t : Token) : Token :=
  if t.kind = .indent then { t with text := List.replicate t.width ' ' } else t

/-- Tokens of one kind and line that differ in nothing else but how an indentation is written. -/
structure Token.Alike (t u : Token) : Prop where
  kind : u.kind = t.kind
  line : u.line = t.line
  width : t.kind = .indent → u.width = t.width
  text : t.kind ≠ .indent → u.text = t.text
  value : t.kind ≠ .indent → u.value = t.value

/-- A token is like itself with its indentation evened. -/
lemma Token.alike_evened (t : Token) : t.Alike t.evened := by
  unfold Token.evened
  split
  · rename_i h
    exact ⟨rfl, rfl, fun _ => rfl, fun hne => absurd h hne, fun hne => absurd h hne⟩
  · exact ⟨rfl, rfl, fun _ => rfl, fun _ => rfl, fun _ => rfl⟩

/-! ## Spellings read again -/

section Spellings

variable {kind : Kind} {text w rest : List Char}

/-- A word goes on to the end of what is one word, hyphens included. -/
lemma takeWord_append_of_takeWord (hw : takeWord w = (w, [])) (hrest : takeWord rest = ([], rest)) :
    takeWord (w ++ rest) = (w, rest) := by
  induction w with
  | nil => exact hrest
  | cons c w ih =>
    obtain ⟨hc, hw⟩ := of_takeWord_cons hw
    have hgoes : (isWordChar c || (c == '-' && hyphenJoins (w ++ rest))) = true := by
      rcases hc with hc | ⟨rfl, hjoins⟩
      · rw [hc, Bool.true_or]
      · cases w with
        | nil => cases hjoins
        | cons d w => simpa [hyphenJoins] using Or.inr hjoins
    rw [List.cons_append, Cursor.takeWord_cons_of_pos hgoes, ih hw]

/-- A spelling does not start with a space. -/
lemma Spelled.noSpacing (h : Spelled kind text) (rest : List Char) :
    Cursor.NoSpacing (text ++ rest) := by
  cases h with
  | arrow => rintro c ⟨⟩; rfl
  | colon => rintro c ⟨⟩; rfl
  | bracketed hd => rintro c ⟨⟩; rfl
  | hyphen => rintro c ⟨⟩; rfl
  | word hd hw =>
    rintro c ⟨⟩
    have hblank := (Cursor.isWordChar_iff.mp hd).1
    have hspace := Cursor.ne_of_isBlank hblank (d := ' ') (by decide)
    have htab := Cursor.ne_of_isBlank hblank (d := '\t') (by decide)
    simp [isSpacing, hspace, htab]

/-- What is spelled as a token is read as this token wherever no word goes on behind it. -/
theorem Spelled.lexes (h : Spelled kind text) (hrest : takeWord rest = ([], rest)) (line : ℕ)
    (lineStart : Bool) :
    Cursor.Lexes ⟨text ++ rest, line, lineStart⟩ [⟨kind, text, line, 0⟩] ⟨rest, line, false⟩ := by
  cases h with
  | arrow => exact Cursor.lexes_arrow rest line lineStart
  | colon => exact Cursor.lexes_colon rest line lineStart
  | @bracketed d hd =>
    have hstep : Cursor.step ⟨'(' :: d :: ')' :: rest, line, lineStart⟩ '(' (d :: ')' :: rest) =
        .ok ⟨some ⟨.bracketed, ['(', d, ')'], line, 0⟩, ⟨rest, line, false⟩⟩ :=
      Cursor.bracket_eq_ok_iff.mpr ⟨d, rest, rfl, hd, rfl⟩
    exact Cursor.Lexes.single rfl hstep (Nat.lt_add_of_pos_right (Nat.succ_pos 2))
  | hyphen =>
    -- A word would go on with the head of an arrow.
    have harrow : ∀ rest', rest ≠ '>' :: rest' := by
      rintro rest' rfl
      rw [Cursor.takeWord_cons_of_pos rfl] at hrest
      cases hrest
    exact Cursor.Lexes.single rfl (Cursor.step_hyphen harrow) (Nat.lt_succ_self _)
  | @word d w hd hw =>
    have hstep := Cursor.step_of_isWordChar ⟨d :: (w ++ rest), line, lineStart⟩ hd (w ++ rest)
    rw [takeWord_append_of_takeWord hw hrest] at hstep
    refine Cursor.Lexes.single rfl hstep ?_
    simp only [List.length_cons, List.length_append]
    omega

/-- A spelling is printed as it is, behind a space if one is due. -/
lemma Spelled.printFrom_cons (h : Spelled kind text) (line : ℕ) (joined : Bool) (ts : List Token) :
    printFrom joined (⟨kind, text, line, 0⟩ :: ts) =
      (if joined then [' '] else []) ++ (text ++ printFrom true ts) := by
  cases h <;> rfl

/-- Tokens that are spelled are no spaces and no indents. -/
lemma Spelled.kind_ne (h : Spelled kind text) : kind ≠ .space ∧ kind ≠ .indent := by
  cases h <;> decide

end Spellings

/-! ## Layouts -/

/-- How the tokens of a text are laid out from a place on: each is at the line that has been
reached, and indentation is there only at the start of a line. -/
inductive Laid : ℕ → Bool → List Token → Prop
  | nil {line : ℕ} {lineStart : Bool} : Laid line lineStart []
  | newline {line : ℕ} {lineStart : Bool} {ts : List Token} (h : Laid (line + 1) true ts) :
      Laid line lineStart (⟨.newline, ['\n'], line, 0⟩ :: ts)
  | indent {line width : ℕ} {run : List Char} {ts : List Token} (hwidth : 0 < width)
      (h : Laid line false ts) : Laid line true (⟨.indent, run, line, width⟩ :: ts)
  | space {line width : ℕ} {run : List Char} {ts : List Token} (h : Laid line false ts) :
      Laid line false (⟨.space, run, line, width⟩ :: ts)
  | found {line : ℕ} {lineStart : Bool} {kind : Kind} {text : List Char} {ts : List Token}
      (hspelled : Spelled kind text) (h : Laid line false ts) :
      Laid line lineStart (⟨kind, text, line, 0⟩ :: ts)

/-- A run of blanks has a width. -/
lemma spacingWidth_pos {run : List Char} (h : run ≠ []) : 0 < spacingWidth run := by
  have hle : ∀ (cs : List Char) (n : ℕ),
      n ≤ cs.foldl (fun n c => n + if c == '\t' then 4 else 1) n := by
    intro cs
    induction cs with
    | nil => exact fun n => le_refl n
    | cons c cs ih => exact fun n => le_trans (Nat.le_add_right _ _) (ih _)
  cases run with
  | nil => exact absurd rfl h
  | cons c cs =>
    have hfirst : 0 < 0 + if (c == '\t') = true then 4 else 1 := by split <;> decide
    exact Nat.lt_of_lt_of_le hfirst (hle cs _)

/-- The tokens of any text are laid out in this way. -/
theorem Cursor.Lexes.laid {p q : Cursor} {ts : List Token} (h : Lexes p ts q) :
    Laid p.line p.lineStart ts := by
  induction h with
  | refl p => exact .nil
  | @step p q c cs s ts hr hs hlt _ ih =>
    have hfinds := finds_of_step hs (hr ▸ hlt)
    generalize c :: cs = text at hfinds
    cases hfinds with
    | pass hpassed hne => exact ih
    | newline rest => exact .newline ih
    | indent hstart hne =>
      rw [hstart]
      exact .indent (spacingWidth_pos hne) ih
    | space hstart hne =>
      rw [hstart]
      exact .space ih
    | found hspelled => exact .found hspelled ih

namespace Laid

variable {line : ℕ} {lineStart joined : Bool} {ts : List Token}

/-- Within a line, what is printed next is no blank unless a space is due. -/
lemma noSpacing (h : Laid line lineStart ts) (hstart : lineStart = false) :
    Cursor.NoSpacing (printFrom false ts) := by
  induction h with
  | nil => exact nofun
  | newline _ _ =>
    rintro c ⟨⟩
    rfl
  | indent _ _ _ => cases hstart
  | space _ ih => exact ih rfl
  | found hspelled _ _ =>
    rw [hspelled.printFrom_cons]
    exact hspelled.noSpacing _

/-- No word goes on with what is printed behind a token. -/
lemma takeWord_printFrom (h : Laid line lineStart ts) (hstart : lineStart = false) :
    takeWord (printFrom true ts) = ([], printFrom true ts) := by
  induction h with
  | nil => rfl
  | newline _ _ => rfl
  | indent _ _ _ => cases hstart
  | space _ ih => exact ih rfl
  | found hspelled _ _ =>
    rw [hspelled.printFrom_cons]
    rfl

/-- What is printed is read as the tokens that it was printed from, but for spacing. -/
theorem exists_lexes (h : Laid line lineStart ts) (hjoined : lineStart = true → joined = false) :
    ∃ q, Cursor.Lexes ⟨printFrom joined ts, line, lineStart⟩
      ((ts.filter fun t => t.kind != .space).map Token.evened) q ∧ q.rest = [] := by
  induction h generalizing joined with
  | nil => exact ⟨_, .refl _, rfl⟩
  | @newline line lineStart ts _ ih =>
    obtain ⟨q, hq, hend⟩ := ih fun _ => rfl
    exact ⟨q, (Cursor.lexes_newline _ line lineStart).trans hq, hend⟩
  | @indent line width run ts hwidth h ih =>
    obtain ⟨q, hq, hend⟩ := @ih false nofun
    obtain ⟨n, rfl⟩ := Nat.exists_eq_add_one_of_ne_zero hwidth.ne'
    exact ⟨q, (Cursor.lexes_indent (h.noSpacing rfl) n line).trans hq, hend⟩
  | space _ ih => exact ih hjoined
  | @found line lineStart kind text ts hspelled h ih =>
    obtain ⟨q, hq, hend⟩ := @ih true nofun
    have htoken := fun lineStart =>
      (hspelled.lexes (h.takeWord_printFrom rfl) line lineStart).trans hq
    have hfilter : (((⟨kind, text, line, 0⟩ : Token) :: ts).filter fun t => t.kind != .space).map
        Token.evened = ⟨kind, text, line, 0⟩ :: (ts.filter fun t => t.kind != .space).map
        Token.evened := by
      simp [Token.evened, hspelled.kind_ne.1, hspelled.kind_ne.2]
    rw [hspelled.printFrom_cons, hfilter]
    cases joined with
    | true =>
      have hstart : lineStart = false := Bool.eq_false_iff.mpr fun hstart => by
        cases hjoined hstart
      rw [hstart]
      exact ⟨q, (Cursor.lexes_gap (hspelled.noSpacing _) line).trans (htoken false), hend⟩
    | false => exact ⟨q, htoken lineStart, hend⟩

end Laid

/-- Spacing inside a line does not matter: the tokens of a text are read again from what they are
printed as, but for spacing and for how indentation is written. -/
theorem tokenize_printed {text : List Char} {ts : List Token} (h : tokenize text = .ok ts) :
    ∃ us, tokenize (printed ts) = .ok us ∧
      List.Forall₂ Token.Alike (ts.filter fun t => t.kind != .space)
        (us.filter fun u => u.kind != .space) := by
  obtain ⟨p, hp, -⟩ := Cursor.tokens_eq_ok_iff.mp h
  obtain ⟨q, hq, hend⟩ := hp.laid.exists_lexes fun _ => rfl
  refine ⟨_, Cursor.tokens_eq_ok_iff.mpr ⟨q, hq, hend⟩, ?_⟩
  have hfilter : ((ts.filter fun t => t.kind != .space).map Token.evened).filter
      (fun u => u.kind != .space) = (ts.filter fun t => t.kind != .space).map Token.evened := by
    refine List.filter_eq_self.mpr fun u hu => ?_
    obtain ⟨t, ht, rfl⟩ := List.mem_map.mp hu
    rw [t.alike_evened.kind]
    exact (List.mem_filter.mp ht).2
  rw [hfilter, List.forall₂_map_right_iff]
  exact List.forall₂_same.mpr fun t _ => t.alike_evened

/-- A text with a tab, a run of blanks, a no-break space and a hyphen right before an arrow. -/
def tabbed : List Char :=
  "a :\n\t(x)  --> \u00a0b-c".toList

/-- The tab becomes four spaces, and the hyphen is printed apart from the arrow. -/
theorem tokenize_printed_tabbed :
    ∃ ts us, tokenize tabbed = .ok ts ∧ printed ts = "a :\n    (x) - -> b-c".toList ∧
      tokenize "a :\n    (x) - -> b-c".toList = .ok us ∧
      List.Forall₂ Token.Alike (ts.filter fun t => t.kind != .space)
        (us.filter fun u => u.kind != .space) := by
  have htokens : tokenize tabbed = .ok [⟨.word, ['a'], 1, 0⟩, ⟨.colon, [':'], 1, 0⟩,
      ⟨.newline, ['\n'], 1, 0⟩, ⟨.indent, ['\t'], 2, 4⟩, ⟨.bracketed, "(x)".toList, 2, 0⟩,
      ⟨.space, [' ', ' '], 2, 2⟩, ⟨.word, ['-'], 2, 0⟩, ⟨.arrow, ['-', '>'], 2, 0⟩,
      ⟨.word, "b-c".toList, 2, 0⟩] := by
    decide +kernel
  obtain ⟨us, hus, halike⟩ := tokenize_printed htokens
  exact ⟨_, us, htokens, rfl, hus, halike⟩

end TapeMachine.Program
