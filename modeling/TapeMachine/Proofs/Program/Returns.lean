import Mathlib.Data.List.Forall2
import TapeMachine.Program.Comment
import TapeMachine.Program.Error
import TapeMachine.Program.Template
import TapeMachine.Proofs.Text.Cutting

/-!
# Texts with carriage returns

What becomes of a text when every newline is a carriage return and a newline. `Returns site t t'`
says that `t'` is `t` with carriage returns put in, each at a place where `site` holds of what
follows. Line by line this means that a line may have a carriage return at its end (`Ended`), and
neither words nor comments nor marks change by that.

`Agree` compares two answers: the results are related, or the faults are alike, which means that
they are of the same kind and at the same line.
-/

namespace TapeMachine.Program

open Text

/-! ## Answers that agree -/

/-- Faults of the same kind and at the same line; the wording of a malformed text may differ. -/
inductive Error.Alike : Error → Error → Prop
  | refl (e : Error) : Alike e e
  | malformed (line : Int) (m m' : Malformed) :
      Alike (.at line (.malformed m)) (.at line (.malformed m'))

/-- Two answers are related results or faults alike. -/
inductive Agree {α β : Type} (R : α → β → Prop) : Except Error α → Except Error β → Prop
  | ok {a : α} {b : β} (h : R a b) : Agree R (.ok a) (.ok b)
  | error {e e' : Error} (h : e.Alike e') : Agree R (.error e) (.error e')

namespace Agree

variable {α β γ δ : Type} {R : α → β → Prop} {S : γ → δ → Prop} {x : Except Error α}
  {y : Except Error β}

/-- A stage that keeps related results related keeps answers that agree in agreement. -/
lemma bind (h : Agree R x y) {f : α → Except Error γ} {g : β → Except Error δ}
    (hfg : ∀ a b, x = .ok a → y = .ok b → R a b → Agree S (f a) (g b)) :
    Agree S (x >>= f) (y >>= g) := by
  cases h with
  | ok h => exact hfg _ _ rfl rfl h
  | error h => exact .error h

/-- Functions that keep the relation can be applied to both sides. -/
lemma map (h : Agree R x y) {f : α → γ} {g : β → δ}
    (hfg : ∀ a b, x = .ok a → R a b → S (f a) (g b)) : Agree S (x.map f) (y.map g) := by
  cases h with
  | ok h => exact .ok (hfg _ _ rfl h)
  | error h => exact .error h

/-- Answers that agree in one way agree in every way that follows from it. -/
lemma imp (h : Agree R x y) {S : α → β → Prop} (hS : ∀ a b, x = .ok a → R a b → S a b) :
    Agree S x y := by
  cases h with
  | ok h => exact .ok (hS _ _ rfl h)
  | error h => exact .error h

/-- An answer agrees with itself. -/
lemma refl (x : Except Error α) : Agree Eq x x := by
  cases x with
  | error e => exact .error (.refl e)
  | ok a => exact .ok rfl

/-- A function that fits the relation can be applied to one side. -/
lemma map_right (h : Agree R x y) {S : α → δ → Prop} {g : β → δ}
    (hg : ∀ a b, x = .ok a → R a b → S a (g b)) : Agree S x (y.map g) := by
  cases h with
  | ok h => exact .ok (hg _ _ rfl h)
  | error h => exact .error h

/-- What agrees up to equality is one result, or two faults alike. -/
lemma eq_iff {x y : Except Error α} :
    Agree Eq x y ↔
      (∃ a, x = .ok a ∧ y = .ok a) ∨ ∃ e e', x = .error e ∧ y = .error e' ∧ e.Alike e' := by
  constructor
  · rintro (⟨rfl⟩ | ⟨h⟩)
    · exact .inl ⟨_, rfl, rfl⟩
    · exact .inr ⟨_, _, rfl, rfl, h⟩
  · rintro (⟨a, rfl, rfl⟩ | ⟨e, e', rfl, rfl, h⟩)
    · exact .ok rfl
    · exact .error h

end Agree

/-! ## Carriage returns put in -/

/-- A text with carriage returns put in, where `site` holds of what follows. -/
inductive Returns (site : List Char → Prop) : List Char → List Char → Prop
  | nil : Returns site [] []
  | cons {t t' : List Char} (c : Char) (h : Returns site t t') : Returns site (c :: t) (c :: t')
  | ret {t t' : List Char} (hsite : site t) (h : Returns site t t') : Returns site t ('\r' :: t')

/-- The end of a line, or of the text, comes next. -/
def LineEnd (t : List Char) : Prop := t.head? = none ∨ t.head? = some '\n'

namespace Returns

variable {site : List Char → Prop} {t t' a b : List Char} {c d : Char}

/-- Carriage returns are no newlines. -/
lemma count_newline (h : Returns site t t') : t'.count '\n' = t.count '\n' := by
  induction h with
  | nil => rfl
  | cons c _ ih => rw [List.count_cons, List.count_cons, ih]
  | ret _ _ ih => rw [List.count_cons_of_ne (by decide), ih]

/-- Every character is one of the text or a carriage return. -/
lemma mem_or_eq (h : Returns site t t') (hc : c ∈ t') : c ∈ t ∨ c = '\r' := by
  induction h with
  | nil => cases hc
  | cons d _ ih =>
    rcases List.mem_cons.mp hc with rfl | hc
    · exact .inl (.head _)
    · exact (ih hc).imp_left (.tail _)
  | ret _ _ ih =>
    rcases List.mem_cons.mp hc with rfl | hc
    · exact .inr rfl
    · exact ih hc

/-- No character of the text is lost. -/
lemma mem_of_mem (h : Returns site t t') (hc : c ∈ t) : c ∈ t' := by
  induction h with
  | nil => cases hc
  | cons d _ ih =>
    rcases List.mem_cons.mp hc with rfl | hc
    · exact .head _
    · exact .tail _ (ih hc)
  | ret _ _ ih => exact .tail _ (ih hc)

/-- The text before a character and the text after it, on the side of the text. -/
lemma split (h : Returns site t t') (ht : t = a ++ d :: b) :
    ∃ a' b', t' = a' ++ d :: b' ∧ Returns (fun u => site (u ++ d :: b)) a a' ∧
      Returns site b b' := by
  induction h generalizing a with
  | nil => simp at ht
  | @cons t t' c h ih =>
    cases a with
    | nil =>
      cases ht
      exact ⟨[], t', rfl, .nil, h⟩
    | cons e a =>
      cases ht
      obtain ⟨a', b', rfl, ha, hb⟩ := ih rfl
      exact ⟨c :: a', b', rfl, .cons c ha, hb⟩
  | ret hs _ ih =>
    obtain ⟨a', b', rfl, ha, hb⟩ := ih ht
    exact ⟨'\r' :: a', b', rfl, .ret (ht ▸ hs) ha, hb⟩

/-- The text before a character and the text after it, on the side with carriage returns. -/
lemma split_right {a' b' : List Char} (h : Returns site t t') (ht : t' = a' ++ d :: b')
    (hd : d ≠ '\r') :
    ∃ a b, t = a ++ d :: b ∧ Returns (fun u => site (u ++ d :: b)) a a' ∧ Returns site b b' := by
  induction h generalizing a' with
  | nil => simp at ht
  | @cons t t' c h ih =>
    cases a' with
    | nil =>
      cases ht
      exact ⟨[], t, rfl, .nil, h⟩
    | cons e a' =>
      cases ht
      obtain ⟨a, b, rfl, ha, hb⟩ := ih rfl
      exact ⟨c :: a, b, rfl, .cons c ha, hb⟩
  | ret hs _ ih =>
    cases a' with
    | nil =>
      cases ht
      exact absurd rfl hd
    | cons e a' =>
      cases ht
      obtain ⟨a, b, rfl, ha, hb⟩ := ih rfl
      exact ⟨a, b, rfl, .ret hs ha, hb⟩

/-- Carriage returns before white space, or at the end, do not change the words. -/
lemma words_eq (h : Returns site t t')
    (hsite : ∀ u, site u → ∀ c ∈ u.head?, isBlank c = true) : words t' = words t := by
  suffices hfront : ∀ front, words (front ++ t') = words (front ++ t) from hfront []
  induction h with
  | nil => exact fun _ => rfl
  | @cons t t' c _ ih =>
    intro front
    have hassoc : ∀ u : List Char, front ++ c :: u = (front ++ [c]) ++ u := by simp
    rw [hassoc t', hassoc t]
    exact ih _
  | @ret t t' hs _ ih =>
    intro front
    have hrest : words t' = words t := ih []
    rw [words_append_cons front (by decide), hrest]
    cases t with
    | nil =>
      have hnil : words [] = [] := rfl
      rw [hnil, List.append_nil, List.append_nil]
    | cons c t =>
      have hc : isBlank c = true := hsite _ hs c rfl
      have hcons : words (c :: t) = words t := words_append_cons [] hc t
      rw [words_append_cons front hc, hcons]

/-- The same text put in front. -/
lemma append_left (h : Returns site t t') (front : List Char) :
    Returns site (front ++ t) (front ++ t') := by
  induction front with
  | nil => exact h
  | cons c front ih => exact .cons c ih

end Returns

/-! ## Lines -/

/-- A text in which every newline is a carriage return and a newline. -/
def withReturns (text : List Char) : List Char :=
  text.flatMap fun c => if c = '\n' then ['\r', '\n'] else [c]

/-- A line that may have a carriage return at its end. -/
def Ended (l l' : List Char) : Prop := l' = l ∨ l' = l ++ ['\r']

/-- The ends of lines do not depend on what stands in front. -/
lemma Ended.cons {l l' : List Char} (h : Ended l l') (c : Char) : Ended (c :: l) (c :: l') := by
  rcases h with rfl | rfl
  · exact .inl rfl
  · exact .inr rfl

/-- The lines of a text with carriage returns end with them, but for the last. -/
lemma ended_lines_withReturns (text : List Char) :
    List.Forall₂ Ended (lines text) (lines (withReturns text)) := by
  -- The induction is on what follows the part of the first line that was passed.
  suffices hfront : ∀ front, '\n' ∉ front →
      List.Forall₂ Ended (lines (front ++ text)) (lines (front ++ withReturns text)) from
    hfront [] List.not_mem_nil
  induction text with
  | nil =>
    intro front _
    exact List.forall₂_same.mpr fun _ _ => .inl rfl
  | cons c text ih =>
    intro front hfront
    by_cases hc : c = '\n'
    · subst hc
      have hreturn : '\n' ∉ front ++ ['\r'] := by simpa using hfront
      have hlines := lines_append_newline hreturn (withReturns text)
      rw [List.append_assoc] at hlines
      rw [lines_append_newline hfront]
      change List.Forall₂ Ended _ (lines (front ++ (['\r'] ++ '\n' :: withReturns text)))
      rw [hlines]
      exact .cons (.inr rfl) (ih [] List.not_mem_nil)
    · have hcons : front ++ withReturns (c :: text) = (front ++ [c]) ++ withReturns text := by
        simp [withReturns, hc]
      have hassoc : front ++ c :: text = (front ++ [c]) ++ text := by simp
      rw [hcons, hassoc]
      exact ih _ (by simpa [Ne.symm hc] using hfront)

/-- Removing comments keeps the end of a line, or takes it away with an open comment. -/
lemma ended_stripFrom (inside opens : Bool) (l : List Char) :
    Ended (stripFrom inside opens l) (stripFrom inside opens (l ++ ['\r'])) := by
  induction l generalizing inside opens with
  | nil =>
    cases inside with
    | true => exact .inl rfl
    | false => exact .inr rfl
  | cons c l ih =>
    rw [List.cons_append, stripFrom, stripFrom]
    split
    · exact ih _ _
    · split
      · exact ih _ _
      · exact (ih _ _).cons c

/-- Stripping keeps the ends of lines. -/
lemma Ended.stripLine {l l' : List Char} (h : Ended l l') :
    Ended (stripLine l) (stripLine l') := by
  rcases h with rfl | rfl
  · exact .inl rfl
  · rw [stripLine_eq_stripFrom, stripLine_eq_stripFrom]
    exact ended_stripFrom false true l

/-- What stands before a carriage return holds the same marks as with it. -/
lemma isPrefix_append_return {m l : List Char} (hm : '\r' ∉ m) :
    m <+: l ++ ['\r'] ↔ m <+: l := by
  rw [List.prefix_concat_iff]
  refine or_iff_right fun h => hm ?_
  simp [h]

/-- A mark is found before the end of a line or not at all. -/
lemma after?_append_return {mark : List Char} (hmark : '\r' ∉ mark) (hne : mark ≠ [])
    (l : List Char) : after? mark (l ++ ['\r']) = (after? mark l).map (· ++ ['\r']) := by
  induction l with
  | nil =>
    have hno : mark.isPrefixOf ['\r'] = false := by
      rw [Bool.eq_false_iff, ne_eq, List.isPrefixOf_iff_prefix]
      intro hprefix
      exact hne (List.prefix_nil.mp ((isPrefix_append_return (l := []) hmark).mp hprefix))
    simp [after?, hno, hne]
  | cons c l ih =>
    have hsame : mark.isPrefixOf (c :: (l ++ ['\r'])) = mark.isPrefixOf (c :: l) := by
      rw [Bool.eq_iff_iff, List.isPrefixOf_iff_prefix, List.isPrefixOf_iff_prefix]
      exact isPrefix_append_return (l := c :: l) hmark
    rw [List.cons_append, after?, after?, hsame]
    split
    · rename_i hprefix
      have hle := (List.isPrefixOf_iff_prefix.mp hprefix).length_le
      rw [Option.map_some, ← List.cons_append, List.drop_append_of_le_length hle]
    · exact ih

/-- The words of a line do not depend on its end. -/
lemma Ended.words_eq {l l' : List Char} (h : Ended l l') : words l' = words l := by
  rcases h with rfl | rfl
  · rfl
  · have hnil : words [] = [] := rfl
    rw [words_append_cons l (by decide), hnil, List.append_nil]

/-- A mark is found in both lines or in neither, and what follows has the same words. -/
lemma Ended.after? {l l' mark : List Char} (h : Ended l l') (hmark : '\r' ∉ mark)
    (hne : mark ≠ []) : Option.Rel Ended (after? mark l) (after? mark l') := by
  rcases h with rfl | rfl
  · cases Program.after? mark l' with
    | none => exact .none
    | some rest => exact .some (.inl rfl)
  · rw [after?_append_return hmark hne]
    cases Program.after? mark l with
    | none => exact .none
    | some rest => exact .some (.inr rfl)

/-- Lines with carriage returns, put together in front of a text with carriage returns. That the
text is a place for one is needed if the last line has one at its end. -/
lemma Returns.unlines_append {site : List Char → Prop} (hends : ∀ u, LineEnd u → site u)
    {t t' : List Char} (h : Returns site t t') {ls ls' : List (List Char)}
    (hls : List.Forall₂ Ended ls ls') (hlast : ls'.getLast? ≠ ls.getLast? → site t) :
    Returns site (unlines ls ++ t) (unlines ls' ++ t') := by
  have hline : ∀ {l l' u u' : List Char}, Ended l l' → Returns site u u' → (l' ≠ l → site u) →
      Returns site (l ++ u) (l' ++ u') := by
    rintro l l' u u' (rfl | rfl) hu hsite
    · exact hu.append_left l'
    · rw [List.append_assoc]
      exact (Returns.ret (hsite (by simp)) hu).append_left l
  induction hls with
  | nil => exact h
  | @cons l l' ls ls' hl hls ih =>
    cases hls with
    | nil => exact hline hl h fun hne => hlast fun hsame => hne (Option.some.inj hsame)
    | cons hm hls =>
      rw [List.getLast?_cons_cons, List.getLast?_cons_cons] at hlast
      rw [unlines, unlines, List.append_assoc, List.append_assoc]
      exact hline hl (.cons '\n' (ih hlast)) fun _ => hends _ (.inr rfl)

/-- Lines without newlines are the lines of the text they make. -/
lemma lines_unlines {ls : List (List Char)} (hne : ls ≠ []) (h : ∀ l ∈ ls, '\n' ∉ l) :
    lines (unlines ls) = ls := by
  induction ls with
  | nil => exact absurd rfl hne
  | cons l ls ih =>
    have hl : '\n' ∉ l := h l List.mem_cons_self
    cases ls with
    | nil => exact pieces_of_forall fun c hc => beq_eq_false_iff_ne.mpr fun heq => hl (heq ▸ hc)
    | cons m ls =>
      rw [unlines, lines_append_newline hl, ih (by simp) fun l hmem => h l (.tail _ hmem)]

/-- The lines of a text without comments. -/
lemma lines_stripComments (text : List Char) :
    lines (stripComments text) = (lines text).map stripLine := by
  refine lines_unlines (by simp [lines, pieces_ne_nil]) fun l hl => ?_
  obtain ⟨l, hmem, rfl⟩ := List.mem_map.mp hl
  exact fun hn => newline_notMem_of_mem_lines hmem ((stripLine_sublist _).subset hn)

end TapeMachine.Program
