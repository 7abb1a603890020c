import Mathlib.Data.List.Basic
import Mathlib.Tactic.Common
import TapeMachine.Text.Blank

/-!
# Lines, words and trimming

Lines and words are both pieces of a text between characters that satisfy a test. Everything about
them follows from one equation, `pieces_append_cons`: a cut at a separator is a cut of what stands
before it, followed by a cut of what stands after it.

Trimming takes white space from the two ends of a text. It leaves a text alone exactly when the text
neither starts nor ends with white space, and trimming twice is trimming once (`trim_trim`).
-/

namespace TapeMachine.Text

/-! ## Pieces -/

section Pieces

variable {α : Type} {p : α → Bool}

/-- A cut at a separator is a cut of the two sides. -/
theorem pieces_append_cons (as : List α) {s : α} (hs : p s = true) (bs : List α) :
    pieces p (as ++ s :: bs) = pieces p as ++ pieces p bs := by
  induction as with
  | nil => simp [pieces, hs]
  | cons a as ih =>
    obtain ⟨q, qs, hq⟩ := List.exists_cons_of_ne_nil (pieces_ne_nil p as)
    by_cases ha : p a = true
    · simp [pieces, ha, ih]
    · simp [pieces, ha, ih, hq]

/-- Without a separator there is one piece. -/
lemma pieces_of_forall {as : List α} (h : ∀ a ∈ as, p a = false) : pieces p as = [as] := by
  induction as with
  | nil => rfl
  | cons a as ih =>
    have ha : p a = false := h a List.mem_cons_self
    rw [pieces, ha, ih fun b hb => h b (List.mem_cons_of_mem _ hb)]
    rfl

/-- No piece holds a separator. -/
lemma eq_false_of_mem_pieces {as q : List α} (hq : q ∈ pieces p as) : ∀ a ∈ q, p a = false := by
  induction as generalizing q with
  | nil =>
    intro a ha
    rw [pieces, List.mem_singleton] at hq
    rw [hq] at ha
    cases ha
  | cons b as ih =>
    obtain ⟨r, rs, hr⟩ := List.exists_cons_of_ne_nil (pieces_ne_nil p as)
    by_cases hb : p b = true
    · rw [pieces, if_pos hb] at hq
      rcases List.mem_cons.mp hq with rfl | hq
      · intro a ha
        cases ha
      · exact ih hq
    · rw [pieces, if_neg hb, hr] at hq
      rcases List.mem_cons.mp hq with rfl | hq
      · intro a ha
        rcases List.mem_cons.mp ha with rfl | ha
        · exact Bool.eq_false_iff.mpr hb
        · exact ih (hr ▸ List.mem_cons_self) a ha
      · exact ih (hr ▸ List.mem_cons_of_mem _ hq)

/-- What is in a piece is in the list. -/
lemma mem_of_mem_pieces {as q : List α} (hq : q ∈ pieces p as) {a : α} (ha : a ∈ q) : a ∈ as := by
  induction as generalizing q with
  | nil =>
    rw [pieces, List.mem_singleton] at hq
    rwa [hq] at ha
  | cons b as ih =>
    obtain ⟨r, rs, hr⟩ := List.exists_cons_of_ne_nil (pieces_ne_nil p as)
    rw [pieces, hr] at hq
    split at hq
    · rcases List.mem_cons.mp hq with rfl | hq
      · cases ha
      · exact .tail _ (ih (hr ▸ hq) ha)
    · rcases List.mem_cons.mp hq with rfl | hq
      · rcases List.mem_cons.mp ha with rfl | ha
        · exact .head _
        · exact .tail _ (ih (hr ▸ .head _) ha)
      · exact .tail _ (ih (hr ▸ .tail _ hq) ha)

end Pieces

/-! ## Lines -/

/-- A text without a newline is one line. -/
lemma lines_of_notMem {l : List Char} (hl : '\n' ∉ l) : lines l = [l] :=
  pieces_of_forall fun _ hc => beq_eq_false_iff_ne.mpr fun h => hl (h ▸ hc)

/-- Lines without newlines in them are cut no further. -/
lemma flatMap_lines_of_notMem {ls : List (List Char)} (hls : ∀ l ∈ ls, '\n' ∉ l) :
    ls.flatMap lines = ls := by
  induction ls with
  | nil => rfl
  | cons l ls ih =>
    rw [List.flatMap_cons, lines_of_notMem (hls l (.head _)), ih fun k hk => hls k (.tail _ hk)]
    rfl

/-- The first line of a text ends at its first newline. -/
lemma lines_append_newline {l : List Char} (hl : '\n' ∉ l) (rest : List Char) :
    lines (l ++ '\n' :: rest) = l :: lines rest := by
  have hone : pieces (· == '\n') l = [l] := lines_of_notMem hl
  rw [lines, pieces_append_cons l rfl, hone]
  rfl

/-- Texts that each end with a newline have their lines one after the other. -/
lemma lines_flatMap_append (ls : List (List Char)) (rest : List Char) :
    lines (ls.flatMap (· ++ ['\n']) ++ rest) = ls.flatMap lines ++ lines rest := by
  induction ls with
  | nil => rfl
  | cons l ls ih =>
    rw [lines] at ih ⊢
    rw [List.flatMap_cons, List.append_assoc, List.append_assoc, List.singleton_append,
      pieces_append_cons l rfl, ih, List.flatMap_cons, List.append_assoc]
    rfl

/-- Texts put together that are a line and a newline each. -/
lemma toList_join_map {ι : Type*} {f : ι → String} {line : ι → List Char} {xs : List ι}
    (h : ∀ x ∈ xs, (f x).toList = line x ++ ['\n']) :
    (String.join (xs.map f)).toList = (xs.map line).flatMap (· ++ ['\n']) := by
  rw [String.toList_join, List.flatMap_map, List.flatMap_map]
  exact List.flatMap_congr h

/-- The lines of a text hold no newline. -/
lemma newline_notMem_of_mem_lines {text l : List Char} (hl : l ∈ lines text) : '\n' ∉ l := by
  intro h
  have hf := eq_false_of_mem_pieces hl '\n' h
  simp at hf

/-- Lines that are put together are separated by newlines. -/
lemma of_mem_unlines {ls : List (List Char)} {c : Char} (h : c ∈ unlines ls) :
    c = '\n' ∨ ∃ l ∈ ls, c ∈ l := by
  fun_induction unlines ls with
  | case1 => cases h
  | case2 l => exact .inr ⟨l, .head _, h⟩
  | case3 l m ls ih =>
    rcases List.mem_append.mp h with h | h
    · exact .inr ⟨l, .head _, h⟩
    rcases List.mem_cons.mp h with rfl | h
    · exact .inl rfl
    · refine (ih h).imp_right ?_
      rintro ⟨k, hk, hc⟩
      exact ⟨k, .tail _ hk, hc⟩

/-! ## Words -/

/-- The words on the two sides of white space are apart. -/
lemma words_append_cons (as : List Char) {c : Char} (hc : isBlank c = true) (bs : List Char) :
    words (as ++ c :: bs) = words as ++ words bs := by
  rw [words, pieces_append_cons as hc, List.filter_append]
  rfl

/-- A text that is not empty and holds no white space is one word. -/
lemma words_of_forall {w : List Char} (hne : w ≠ []) (h : ∀ c ∈ w, isBlank c = false) :
    words w = [w] := by
  rw [words, pieces_of_forall h]
  simp [hne]

/-- A word is not empty and holds no white space. -/
lemma of_mem_words {text w : List Char} (h : w ∈ words text) :
    w ≠ [] ∧ ∀ c ∈ w, isBlank c = false := by
  obtain ⟨hw, hne⟩ := List.mem_filter.mp h
  exact ⟨by simpa using hne, eq_false_of_mem_pieces hw⟩

/-- What is in a word is in the text. -/
lemma mem_of_mem_words {text w : List Char} (h : w ∈ words text) {c : Char} (hc : c ∈ w) :
    c ∈ text :=
  mem_of_mem_pieces (List.mem_filter.mp h).1 hc

/-- A text without words is white space. -/
lemma words_eq_nil_iff {text : List Char} : words text = [] ↔ ∀ c ∈ text, isBlank c = true := by
  induction text with
  | nil => simp [words, pieces]
  | cons c cs ih =>
    by_cases hc : isBlank c = true
    · have hcut : words (c :: cs) = words [] ++ words cs := words_append_cons [] hc cs
      have hnil : words [] = [] := rfl
      rw [hcut, hnil, List.nil_append, ih, List.forall_mem_cons]
      exact ⟨fun h => ⟨hc, h⟩, fun h => h.2⟩
    · obtain ⟨q, qs, hq⟩ := List.exists_cons_of_ne_nil (pieces_ne_nil isBlank cs)
      constructor
      · intro h
        rw [words, pieces, if_neg hc, hq] at h
        simp at h
      · intro h
        exact absurd (h c List.mem_cons_self) hc

/-- A text that starts with a character that is not white space starts with its first word. -/
lemma head?_of_words_eq_cons {c : Char} {cs w : List Char} {ws : List (List Char)}
    (hc : isBlank c = false) (h : words (c :: cs) = w :: ws) : w.head? = some c := by
  obtain ⟨q, qs, hq⟩ := List.exists_cons_of_ne_nil (pieces_ne_nil isBlank cs)
  rw [words, pieces, hc, if_neg Bool.false_ne_true, hq] at h
  simp only [List.filter_cons, List.isEmpty_cons, Bool.not_false, if_true, List.cons.injEq] at h
  rw [← h.1]
  rfl

/-- One word: not empty and without white space. -/
def IsWord (name : String) : Prop :=
  name ≠ "" ∧ ∀ c ∈ name.toList, isBlank c = false

instance (name : String) : Decidable (IsWord name) :=
  decidable_of_iff (name ≠ "" ∧ name.toList.all (fun c => !isBlank c) = true) (by simp [IsWord])

/-- A text of characters is a word if there is one and none is white space. -/
lemma isWord_ofList {cs : List Char} :
    IsWord (String.ofList cs) ↔ cs ≠ [] ∧ ∀ c ∈ cs, isBlank c = false := by
  rw [IsWord, String.toList_ofList, ne_eq, ne_eq, ← String.toList_eq_nil_iff, String.toList_ofList]

/-! ## Trimming -/

/-- A text that is empty or starts with a character that is not white space. -/
def Tight (text : List Char) : Prop :=
  ∀ c ∈ text.head?, isBlank c = false

/-- What a text starts with decides what it starts with when something is put behind it. -/
lemma Tight.append {as : List Char} (h : Tight as) (hne : as ≠ []) (bs : List Char) :
    Tight (as ++ bs) := by
  cases as with
  | nil => exact absurd rfl hne
  | cons a as => exact h

/-- A text without white space does not start with white space. -/
lemma tight_of_forall {text : List Char} (h : ∀ c ∈ text, isBlank c = false) : Tight text :=
  fun c hc => h c (List.mem_of_mem_head? hc)

/-- Dropping white space leaves a text that does not start with white space. -/
lemma tight_dropWhile (text : List Char) : Tight (text.dropWhile isBlank) := by
  intro c hc
  exact Bool.eq_false_iff.mpr fun hb => by
    have h := List.head?_dropWhile_not isBlank text
    rw [Option.mem_def.mp hc] at h
    simp [hb] at h

/-- White space is dropped from a text only if the text starts with some. -/
lemma dropWhile_eq_self_iff_tight {text : List Char} :
    text.dropWhile isBlank = text ↔ Tight text := by
  constructor
  · intro h
    rw [← h]
    exact tight_dropWhile text
  · intro h
    cases text with
    | nil => rfl
    | cons c cs =>
      have hc : isBlank c = false := h c rfl
      rw [List.dropWhile_cons_of_neg (by simp [hc])]

/-- White space in front of a text does not survive trimming. -/
lemma trim_cons {c : Char} (hc : isBlank c = true) (cs : List Char) : trim (c :: cs) = trim cs := by
  rw [trim, List.dropWhile_cons_of_pos hc, trim]

/-- A trimmed text is a part of the text. -/
lemma trim_sublist (text : List Char) : List.Sublist (trim text) text := by
  have h := (List.dropWhile_sublist (p := isBlank) (l := (text.dropWhile isBlank).reverse)).reverse
  rw [List.reverse_reverse] at h
  exact h.trans (List.dropWhile_sublist _)

/-- A trimmed text does not start with white space. -/
lemma tight_trim (text : List Char) : Tight (trim text) := by
  have hpre : List.IsPrefix (trim text) (text.dropWhile isBlank) := by
    have h := List.dropWhile_suffix (l := (text.dropWhile isBlank).reverse) isBlank
    rw [← List.reverse_reverse (text.dropWhile isBlank)]
    exact List.reverse_prefix.mpr h
  intro c hc
  have hhead : (text.dropWhile isBlank).head? = some c := by
    obtain ⟨rest, hrest⟩ := hpre
    rw [← hrest, List.head?_append, Option.mem_def.mp hc]
    rfl
  exact tight_dropWhile text c hhead

/-- A trimmed text does not end with white space. -/
lemma tight_reverse_trim (text : List Char) : Tight (trim text).reverse := by
  rw [trim, List.reverse_reverse]
  exact tight_dropWhile _

/-- A text that neither starts nor ends with white space is left alone. -/
lemma trim_eq_self {text : List Char} (h : Tight text) (h' : Tight text.reverse) :
    trim text = text := by
  rw [trim, dropWhile_eq_self_iff_tight.mpr h, dropWhile_eq_self_iff_tight.mpr h',
    List.reverse_reverse]

/-- Trimming twice is trimming once. -/
theorem trim_trim (text : List Char) : trim (trim text) = trim text :=
  trim_eq_self (tight_trim text) (tight_reverse_trim text)

/-- A text without white space is left alone. -/
lemma trim_of_forall {text : List Char} (h : ∀ c ∈ text, isBlank c = false) : trim text = text :=
  trim_eq_self (tight_of_forall h) (tight_of_forall fun c hc => h c (List.mem_reverse.mp hc))

end TapeMachine.Text
