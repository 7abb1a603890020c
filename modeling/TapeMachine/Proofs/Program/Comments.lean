import Mathlib.Data.List.Forall2
import Mathlib.Logic.Relation
import TapeMachine.Program.Compile
import TapeMachine.Proofs.Text.Bytes

/-!
# Comments can be taken out

Whoever removes comments walks along a line and keeps two things in mind: whether a comment is open
and whether one may open next. `scanFrom` is what is kept in mind, and what is removed behind a
piece of a line depends on the piece through this alone (`stripFrom_append`).

A comment that has been passed leaves its closing parenthesis in mind, behind which no comment
opens. So taking a comment out of a line changes nothing (`stripLine_comment`) unless an opening
parenthesis stands right behind it: that one would open a comment as soon as the first is gone.
`Uncommented` is one such removal. Any number of them in any lines of a program leave the text
without its comments as it is, and with it all that comes of it (`comments_do_not_count`).
-/

namespace TapeMachine.Program

open Text

/-! ## What is kept in mind along a line -/

/-- Whether a comment is open behind a piece of a line, and whether one may open there. -/
def scanFrom (inside opens : Bool) : List Char → Bool × Bool
  | [] => (inside, opens)
  | c :: cs => scanFrom (if inside then c != ')' else c == '(' && opens) (opensAfter c) cs

/-- Removing comments goes on behind a piece of a line with what is kept in mind there. -/
lemma stripFrom_append (inside opens : Bool) (u v : List Char) :
    stripFrom inside opens (u ++ v) = stripFrom inside opens u ++
      stripFrom (scanFrom inside opens u).1 (scanFrom inside opens u).2 v := by
  induction u generalizing inside opens with
  | nil => rfl
  | cons c u ih =>
    rw [List.cons_append, stripFrom, stripFrom, scanFrom]
    cases inside with
    | true => exact ih _ _
    | false =>
      cases hopen : c == '(' && opens with
      | true => exact ih _ _
      | false => exact congrArg (c :: ·) (ih _ _)

/-- Whether a comment may open behind a piece of a line depends on its last character only. -/
lemma scanFrom_snd (inside opens : Bool) (u : List Char) :
    (scanFrom inside opens u).2 = (u.getLast?.map opensAfter).getD opens := by
  induction u generalizing inside opens with
  | nil => rfl
  | cons c u ih =>
    rw [scanFrom, ih, List.getLast?_cons]
    cases u.getLast? <;> rfl

/-! ## One comment -/

/-- A parenthesis behind this start of a line opens a comment: none is open there, and the start is
empty or ends in white space or a colon. -/
structure OpensBehind (u : List Char) : Prop where
  outside : (scanFrom false true u).1 = false
  last : ∀ c ∈ u.getLast?, isBlank c = true ∨ c = ':'

/-- Scanning such a text leaves a comment open. -/
lemma OpensBehind.scanFrom_eq {u : List Char} (h : OpensBehind u) :
    scanFrom false true u = (false, true) := by
  refine Prod.ext h.outside ?_
  rw [scanFrom_snd]
  cases hlast : u.getLast? with
  | none => rfl
  | some c =>
    have hc : isBlank c = true ∨ c = ':' := h.last c hlast
    simpa [opensAfter] using hc

/-- What stands in an open comment is removed, up to its closing parenthesis. -/
lemma stripFrom_closed {c : List Char} (hc : ')' ∉ c) (opens : Bool) (v : List Char) :
    stripFrom true opens (c ++ ')' :: v) = stripFrom false false v := by
  induction c generalizing opens with
  | nil => rfl
  | cons d c ih =>
    have hd : (d != ')') = true := bne_iff_ne.mpr fun hd => hc (hd ▸ List.mem_cons_self)
    rw [List.cons_append, stripFrom, if_pos rfl, hd]
    exact ih (fun hmem => hc (List.mem_cons_of_mem _ hmem)) _

/-- A comment that is not closed runs to the end of its line. -/
lemma stripFrom_unclosed {c : List Char} (hc : ')' ∉ c) (opens : Bool) :
    stripFrom true opens c = [] := by
  induction c generalizing opens with
  | nil => rfl
  | cons d c ih =>
    have hd : (d != ')') = true := bne_iff_ne.mpr fun hd => hc (hd ▸ List.mem_cons_self)
    rw [stripFrom, if_pos rfl, hd]
    exact ih (fun hmem => hc (List.mem_cons_of_mem _ hmem)) _

/-- Whether a comment may open matters only where there is an opening parenthesis. -/
lemma stripFrom_of_head? {v : List Char} (hv : v.head? ≠ some '(') (opens opens' : Bool) :
    stripFrom false opens v = stripFrom false opens' v := by
  cases v with
  | nil => rfl
  | cons c v =>
    have hc : (c == '(') = false := beq_eq_false_iff_ne.mpr fun hc => hv (congrArg some hc)
    simp only [stripFrom, hc, Bool.false_and]

/-- A comment that is closed is as if it were not there, unless a parenthesis that would open one
stands right behind it. -/
lemma stripLine_comment {u c v : List Char} (hu : OpensBehind u) (hc : ')' ∉ c)
    (hv : v.head? ≠ some '(') :
    stripLine (u ++ '(' :: c ++ ')' :: v) = stripLine (u ++ v) := by
  simp only [stripLine_eq_stripFrom]
  calc
    stripFrom false true (u ++ '(' :: c ++ ')' :: v) =
        stripFrom false true u ++ stripFrom false true ('(' :: (c ++ ')' :: v)) := by
      rw [List.append_assoc, stripFrom_append, hu.scanFrom_eq]
      rfl
    _ = stripFrom false true u ++ stripFrom false false v := congrArg _ (stripFrom_closed hc _ v)
    _ = stripFrom false true u ++ stripFrom false true v := by rw [stripFrom_of_head? hv]
    _ = stripFrom false true (u ++ v) := by
      rw [stripFrom_append false true u v, hu.scanFrom_eq]

/-- So is a comment that runs to the end of its line. -/
lemma stripLine_unclosed {u c : List Char} (hu : OpensBehind u) (hc : ')' ∉ c) :
    stripLine (u ++ '(' :: c) = stripLine u := by
  simp only [stripLine_eq_stripFrom]
  calc
    stripFrom false true (u ++ '(' :: c) =
        stripFrom false true u ++ stripFrom false true ('(' :: c) := by
      rw [stripFrom_append, hu.scanFrom_eq]
    _ = stripFrom false true u ++ [] := congrArg _ (stripFrom_unclosed hc _)
    _ = stripFrom false true u := List.append_nil _

example : stripLine "a (x)(y)".toList = "a (y)".toList ∧
    stripLine "a (y)".toList = "a ".toList := by
  decide

/-! ## Any number of comments -/

/-- A line, and the same line with one comment taken out. -/
inductive Uncommented : List Char → List Char → Prop
  | closed {u c v : List Char} (hu : OpensBehind u) (hc : ')' ∉ c) (hv : v.head? ≠ some '(') :
      Uncommented (u ++ '(' :: c ++ ')' :: v) (u ++ v)
  | unclosed {u c : List Char} (hu : OpensBehind u) (hc : ')' ∉ c) :
      Uncommented (u ++ '(' :: c) u

/-- A line and the line without its comment are stripped alike. -/
lemma Uncommented.stripLine_eq {l l' : List Char} (h : Uncommented l l') :
    stripLine l = stripLine l' := by
  cases h with
  | closed hu hc hv => exact stripLine_comment hu hc hv
  | unclosed hu hc => exact stripLine_unclosed hu hc

/-- A line from which any number of comments was taken, one after the other, is the same line
without comments. -/
lemma stripLine_eq_of_reflTransGen {l l' : List Char}
    (h : Relation.ReflTransGen Uncommented l l') : stripLine l = stripLine l' := by
  induction h with
  | refl => rfl
  | tail _ hstep ih => exact ih.trans hstep.stripLine_eq

/-- Taking comments out of lines leaves the text without its comments as it is. -/
lemma stripComments_eq_of_forall₂ {p q : List Char}
    (h : List.Forall₂ (Relation.ReflTransGen Uncommented) (lines p) (lines q)) :
    stripComments p = stripComments q := by
  have hmap : (lines p).map stripLine = (lines q).map stripLine := by
    rw [← List.forall₂_eq_eq_eq, List.forall₂_map_left_iff, List.forall₂_map_right_iff]
    exact h.imp fun l l' hl => stripLine_eq_of_reflTransGen hl
  rw [stripComments, stripComments, hmap]

/-- The tokens of a program depend on its text without comments only. -/
lemma programTokens_congr {p q : List Char} (h : stripComments p = stripComments q) :
    programTokens p = programTokens q := by
  rw [programTokens, programTokens, expanded, expanded, h]

/-- So does what it compiles to. -/
lemma compile_congr {p q : String} (h : stripComments p.toList = stripComments q.toList)
    (start : String) : compile p start = compile q start := by
  rw [compile, compile, draft, draft, programTokens_congr h]

/-- A comment is as if it were not there. It may be closed, with no parenthesis right behind it, or
run to the end of its line; and any number of such comments can be taken out of any lines of a
program: the program has the same tokens at the same lines, and compiles to the same table or fails
with the same error at the same line. -/
theorem comments_do_not_count :
    (∀ u c v : List Char, OpensBehind u → ')' ∉ c → v.head? ≠ some '(' →
      stripLine (u ++ '(' :: c ++ ')' :: v) = stripLine (u ++ v)) ∧
    (∀ u c : List Char, OpensBehind u → ')' ∉ c → stripLine (u ++ '(' :: c) = stripLine u) ∧
    ∀ p q : String,
      List.Forall₂ (Relation.ReflTransGen Uncommented) (lines p.toList) (lines q.toList) →
      stripComments p.toList = stripComments q.toList ∧
      programTokens p.toList = programTokens q.toList ∧
      ∀ start, compile p start = compile q start := by
  refine ⟨fun u c v => stripLine_comment, fun u c => stripLine_unclosed, ?_⟩
  intro p q h
  have hstrip := stripComments_eq_of_forall₂ h
  exact ⟨hstrip, programTokens_congr hstrip, compile_congr hstrip⟩

/-- Two comments of one line are taken out, and an open one that is all of its line; the symbol in
parentheses stays. -/
theorem comments_do_not_count_call :
    List.Forall₂ (Relation.ReflTransGen Uncommented)
      (lines "(go) a(1) -> (on) goto b!\n(the (end".toList) (lines " a(1) ->  goto b!\n".toList) ∧
    compile "(go) a(1) -> (on) goto b!\n(the (end" = compile " a(1) ->  goto b!\n" := by
  have hgo : Uncommented "(go) a(1) -> (on) goto b!".toList " a(1) -> (on) goto b!".toList :=
    .closed (u := []) (c := "go".toList) (v := " a(1) -> (on) goto b!".toList)
      ⟨by decide, by simp⟩ (by decide) (by decide)
  have hon : Uncommented " a(1) -> (on) goto b!".toList " a(1) ->  goto b!".toList :=
    .closed (u := " a(1) -> ".toList) (c := "on".toList) (v := " goto b!".toList)
      ⟨by decide, by simp [isBlank]⟩ (by decide) (by decide)
  have hend : Uncommented "(the (end".toList [] :=
    .unclosed (u := []) (c := "the (end".toList) ⟨by decide, by simp⟩ (by decide)
  have hlines : List.Forall₂ (Relation.ReflTransGen Uncommented)
      (lines "(go) a(1) -> (on) goto b!\n(the (end".toList)
      (lines " a(1) ->  goto b!\n".toList) :=
    .cons (.tail (.single hgo) hon) (.cons (.single hend) .nil)
  exact ⟨hlines, (comments_do_not_count.2.2 _ _ hlines).2.2 ""⟩

/-! ## Lines of bytes -/

/-- A line that is given by the bytes of a text loses the same comments. -/
theorem stripBytes_bytes (line : String) :
    stripBytes (bytes line) = bytes (.ofList (stripLine line.toList)) := by
  rw [stripBytes, stripLine, chars_bytes]
  split
  · rfl
  · rw [String.ofList_toList]

/-- Among bytes that belong to no character a comment does count: a line that has one is looked
through, and then they become replacement characters. -/
theorem comment_counts_among_stray_bytes :
    ¬ ∀ u c v : Bytes, 0x0a ∉ u ++ c ++ v → OpensBehind (chars u) → 0x29 ∉ c →
      v.head? ≠ some 0x28 →
      stripBytes (u ++ (("(" : Bytes) ++ c ++ ((")" : Bytes) ++ v))) = stripBytes (u ++ v) := by
  intro h
  have hchars : chars [0xff, 0x20] = [replacement, ' '] := by decide +kernel
  have hopens : OpensBehind (chars [0xff, 0x20]) := by
    rw [hchars]
    exact ⟨by decide, by simp [isBlank]⟩
  have hstrip := h [0xff, 0x20] [] [] (by decide) hopens (by decide) (by decide)
  have hcomment : stripBytes [0xff, 0x20, 0x28, 0x29] = [0xef, 0xbf, 0xbd, 0x20] := by
    decide +kernel
  have hnone : stripBytes [0xff, 0x20] = [0xff, 0x20] := by decide +kernel
  exact absurd (hcomment.symm.trans (hstrip.trans hnone)) (by decide)

end TapeMachine.Program
