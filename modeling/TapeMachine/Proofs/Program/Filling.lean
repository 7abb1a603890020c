import TapeMachine.Proofs.Program.Pasting

/-!
# Filled in texts

Where braces stand only around what is meant to be replaced, replacing leaves none. `Braced ok text`
says that the braces of a text stand in pairs, with something that `ok` allows between the two, and
`Filled new text out` says that `out` is the text with each such pair replaced by a piece that `new`
gives for what stands between, and with everything else as it is.

Both stages of expansion are of this kind. In a line of a template the pairs hold parameters, and
each is replaced by the argument at the first place of its parameter (`filled_substitute`); in the
rest of the text they hold calls, and each is replaced by the lines of a template, filled in
(`exists_filled_expandFrom`). The words of a call hold no brace, so neither does what comes out
(`Filled.braceless`).
-/

namespace TapeMachine.Program

open Text

/-! ## Texts with braces -/

/-- Braces stand in a text in pairs, each around something that is allowed and holds no brace. -/
inductive Braced (ok : List Char → Prop) : List Char → Prop
  | nil : Braced ok []
  | plain {c : Char} {text : List Char} (hc : isBrace c = false) (h : Braced ok text) :
      Braced ok (c :: text)
  | pair {inner text : List Char} (hinner : ∀ c ∈ inner, isBrace c = false) (hok : ok inner)
      (h : Braced ok text) : Braced ok ('{' :: (inner ++ '}' :: text))

/-- The second text is the first with each pair of braces replaced by something new for what stands
between them. -/
inductive Filled (new : List Char → List Char → Prop) : List Char → List Char → Prop
  | nil : Filled new [] []
  | plain {c : Char} {text out : List Char} (hc : isBrace c = false) (h : Filled new text out) :
      Filled new (c :: text) (c :: out)
  | pair {inner piece text out : List Char} (hinner : ∀ c ∈ inner, isBrace c = false)
      (hnew : new inner piece) (h : Filled new text out) :
      Filled new ('{' :: (inner ++ '}' :: text)) (piece ++ out)

/-- Text without braces can stand in front. -/
lemma Braced.append_left {ok : List Char → Prop} {text : List Char} (h : Braced ok text) :
    ∀ {front : List Char}, (∀ c ∈ front, isBrace c = false) → Braced ok (front ++ text)
  | [], _ => h
  | _ :: _, hfront => .plain (hfront _ (.head _))
      (h.append_left fun c hc => hfront c (.tail _ hc))

/-- What is new without braces leaves none. -/
lemma Filled.braceless {new : List Char → List Char → Prop} {text out : List Char}
    (h : Filled new text out) (hnew : ∀ inner piece, (∀ c ∈ inner, isBrace c = false) →
      new inner piece → ∀ c ∈ piece, isBrace c = false) : ∀ c ∈ out, isBrace c = false := by
  induction h with
  | nil => exact nofun
  | plain hc _ ih => exact List.forall_mem_cons.mpr ⟨hc, ih⟩
  | pair hinner hpiece _ ih =>
    exact List.forall_mem_append.mpr ⟨hnew _ _ hinner hpiece, ih⟩

/-- What is no brace differs from what is one. -/
lemma ne_of_isBrace {c d : Char} (hc : isBrace c = false) (hd : isBrace d = true) : c ≠ d := by
  rintro rfl
  rw [hc] at hd
  cases hd

/-! ## Lines of templates -/

namespace Template

/-- The argument at the first place of a parameter, empty if it is missing. -/
def argument (params args : List (List Char)) (param : List Char) : List Char :=
  args[params.idxOf param]?.getD []

section Lines

variable {params args : List (List Char)} {p inner text : List Char}

/-- A placeholder starts a text only if its parameter stands between the braces there. -/
lemma isPrefix_placeholder_iff (hp : ∀ c ∈ p, isBrace c = false)
    (hinner : ∀ c ∈ inner, isBrace c = false) :
    placeholder p <+: '{' :: (inner ++ '}' :: text) ↔ p = inner := by
  -- What stands before the closing brace is what stands before the first brace.
  have hbefore : ∀ {w : List Char}, (∀ c ∈ w, isBrace c = false) → ∀ rest,
      (w ++ '}' :: rest).takeWhile (fun c => !isBrace c) = w := by
    intro w hw rest
    rw [List.takeWhile_append_of_pos (by simpa using hw), List.takeWhile_cons_of_neg (by decide),
      List.append_nil]
  constructor
  · rintro ⟨rest, hrest⟩
    have heq : p ++ '}' :: rest = inner ++ '}' :: text := by
      simpa [placeholder] using hrest
    have htake := congrArg (List.takeWhile fun c => !isBrace c) heq
    rwa [hbefore hp, hbefore hinner] at htake
  · rintro rfl
    exact ⟨text, by simp [placeholder]⟩

/-- No placeholder starts at a character that is no brace. -/
lemma bindingAt?_plain {c : Char} (hc : isBrace c = false) (params args : List (List Char))
    (text : List Char) : bindingAt? (bindings params args) (c :: text) = none := by
  have hp : ∀ p, (placeholder p).isPrefixOf (c :: text) = false := by
    intro p
    have hne : '{' ≠ c := (ne_of_isBrace hc (by decide)).symm
    simp [placeholder, List.isPrefixOf, hne]
  unfold bindingAt?
  fun_induction bindings params args with
  | case1 => rfl
  | case2 p ps ih => rw [List.find?_cons_of_neg (by simp [hp]), ih]
  | case3 p ps a as ih => rw [List.find?_cons_of_neg (by simp [hp]), ih]

/-- The first place of a parameter binds it. -/
lemma bindingAt?_pair (hparams : ∀ p ∈ params, ∀ c ∈ p, isBrace c = false)
    (hinner : ∀ c ∈ inner, isBrace c = false) (hmem : inner ∈ params) :
    bindingAt? (bindings params args) ('{' :: (inner ++ '}' :: text)) =
      some (placeholder inner, argument params args inner) := by
  have hbindings : ∀ p ps as, bindings (p :: ps) as =
      (placeholder p, as.head?.getD []) :: bindings ps as.tail := by
    intro p ps as
    cases as <;> rfl
  unfold bindingAt?
  induction params generalizing args with
  | nil => cases hmem
  | cons p ps ih =>
    have hprefix :
        (placeholder p).isPrefixOf ('{' :: (inner ++ '}' :: text)) = decide (p = inner) := by
      rw [Bool.eq_iff_iff, List.isPrefixOf_iff_prefix, decide_eq_true_iff]
      exact isPrefix_placeholder_iff (hparams p (.head _)) hinner
    rw [hbindings, List.find?_cons, hprefix]
    by_cases hp : p = inner
    · simp [hp, argument, List.head?_eq_getElem?]
    · have hrest := @ih args.tail (fun q hq => hparams q (.tail _ hq))
        ((List.mem_cons.mp hmem).resolve_left (Ne.symm hp))
      simp only [hp, decide_false, hrest, argument, List.idxOf_cons_ne _ hp, List.getElem?_tail]

/-- A placeholder that has been replaced is passed over. -/
lemma substitute_length_append (bs : List (List Char × List Char)) (front rest : List Char) :
    substitute bs front.length (front ++ rest) = substitute bs 0 rest := by
  induction front with
  | nil => rfl
  | cons c front ih => exact ih

/-- Filling in a line replaces each parameter in braces by its argument. -/
theorem filled_substitute (hparams : ∀ p ∈ params, ∀ c ∈ p, isBrace c = false)
    (h : Braced (· ∈ params) text) (args : List (List Char)) :
    Filled (fun p piece => p ∈ params ∧ piece = argument params args p) text
      (substitute (bindings params args) 0 text) := by
  induction h with
  | nil => exact .nil
  | @plain c text hc _ ih =>
    rw [substitute, bindingAt?_plain hc]
    exact .plain hc ih
  | @pair inner text hinner hmem _ ih =>
    have hpassed := substitute_length_append (bindings params args) (inner ++ ['}']) text
    rw [List.append_assoc, List.singleton_append] at hpassed
    rw [substitute, bindingAt?_pair hparams hinner hmem]
    change Filled _ _ (_ ++ substitute _ (inner ++ ['}']).length _)
    rw [hpassed]
    exact .pair hinner ⟨hmem, rfl⟩ ih

end Lines

end Template

/-! ## Calls -/

/-- What stands between braces is a call of one of the templates: it does not start with white space
that ends a name, and its first word is the name of a template. -/
def CallsOneOf (ts : List Template) (inner : List Char) : Prop :=
  (∃ c ∈ inner.head?, endsName c = false) ∧ ∃ t ∈ ts, ∃ args, words inner = t.name :: args

/-- A piece of text is what a call stands for: the lines of the template with the name that is
called, with arguments for parameters. -/
def StandsFor (ts : List Template) (inner piece : List Char) : Prop :=
  ∃ name args t ls, words inner = name :: args ∧ findTemplate? ts name = some t ∧
    List.Forall₂ (Filled fun p arg => p ∈ t.params ∧ arg = Template.argument t.params args p)
      t.body ls ∧ piece = unlines ls

section Calls

variable {ts : List Template} {text : List Char}

/-- Every call of one of the templates is replaced. -/
theorem exists_filled_expandFrom (hparams : ∀ t ∈ ts, ∀ p ∈ t.params, ∀ c ∈ p, isBrace c = false)
    (hbodies : ∀ t ∈ ts, ∀ l ∈ t.body, Braced (· ∈ t.params) l) (h : Braced (CallsOneOf ts) text)
    (line : ℕ) :
    ∃ out, expandFrom ts line 0 text = .ok out ∧ Filled (StandsFor ts) text out := by
  induction h generalizing line with
  | nil => exact ⟨[], by rw [expandFrom], .nil⟩
  | @plain c text hc _ ih =>
    obtain ⟨out, hout, hfilled⟩ := ih (if c == '\n' then line + 1 else line)
    refine ⟨c :: out, ?_, .plain hc hfilled⟩
    rw [expandFrom_kept fun hbrace => absurd hbrace (ne_of_isBrace hc (by decide)), hout]
    rfl
  | @pair inner text hinner hcall _ ih =>
    obtain ⟨hnamed, t₀, ht₀, args, hwords⟩ := hcall
    obtain ⟨t, hfind⟩ : ∃ t, findTemplate? ts t₀.name = some t := by
      rw [← Option.isSome_iff_exists, findTemplate?, List.find?_isSome]
      exact ⟨t₀, ht₀, beq_self_eq_true _⟩
    have ht : t ∈ ts := List.mem_of_find?_eq_some hfind
    obtain ⟨out, hout, hfilled⟩ := ih (line + (inner ++ ['}']).count '\n')
    have hbody : callBody? (inner ++ '}' :: text) = some inner :=
      callBody?_eq_some_iff.mpr ⟨⟨hinner, hnamed⟩, text, rfl⟩
    have hpassed := expandFrom_length_append ts line (inner ++ ['}']) text
    rw [List.append_assoc, List.singleton_append, List.length_append,
      List.length_singleton] at hpassed
    refine ⟨t.expand args ++ out, ?_, .pair hinner ?_ hfilled⟩
    · rw [expandFrom_call hbody, hwords]
      simp only [hfind]
      rw [hpassed, hout]
      rfl
    · refine ⟨t₀.name, args, t, _, hwords, hfind, ?_, rfl⟩
      rw [List.forall₂_map_right_iff, List.forall₂_same]
      exact fun l hl => Template.filled_substitute (hparams t ht) (hbodies t ht l hl) args

/-- What a call stands for holds no brace. -/
lemma StandsFor.braceless {inner piece : List Char} (h : StandsFor ts inner piece)
    (hinner : ∀ c ∈ inner, isBrace c = false) : ∀ c ∈ piece, isBrace c = false := by
  obtain ⟨name, args, t, ls, hwords, -, hlines, rfl⟩ := h
  have hargs : ∀ arg ∈ args, ∀ c ∈ arg, isBrace c = false := fun arg harg c hc =>
    hinner c (mem_of_mem_words (hwords ▸ .tail _ harg) hc)
  have hargument : ∀ p, ∀ c ∈ Template.argument t.params args p, isBrace c = false := by
    intro p c hc
    unfold Template.argument at hc
    cases harg : args[t.params.idxOf p]? with
    | none =>
      rw [harg] at hc
      cases hc
    | some arg =>
      rw [harg] at hc
      exact hargs arg (List.mem_of_getElem? harg) c hc
  have hls : ∀ l ∈ ls, ∀ c ∈ l, isBrace c = false := by
    generalize t.body = body at hlines
    induction hlines with
    | nil => exact nofun
    | cons hfilled _ ih =>
      refine List.forall_mem_cons.mpr ⟨hfilled.braceless fun p arg _ harg => ?_, ih⟩
      rw [harg.2]
      exact hargument p
  intro c hc
  rcases of_mem_unlines hc with rfl | ⟨l, hl, hc⟩
  · decide
  · exact hls l hl c hc

end Calls

/-! ## Tokens -/

namespace Cursor

variable {p : Cursor} {c : Char} {cs call : List Char} {line : ℤ}

/-- Only an opening brace is a call that is left. -/
lemma eq_brace_of_step_eq_error
    (h : p.step c cs = .error (.at line (.malformed (.unexpandedCall call)))) : c = '{' := by
  unfold step at h
  split at h
  · cases h
  split at h
  · cases h
  split at h
  · cases h
  split at h
  · split at h
    · cases h
    · cases h
  split at h
  · cases h
  split at h
  · rcases p.bracket_eq_ok_or_error cs with ⟨s, hs⟩ | herror
    · rw [hs] at h
      cases h
    · rw [herror] at h
      cases h
  split at h
  · exact beq_iff_eq.mp ‹_›
  split at h
  · cases h
  split at h
  · cases h
  · cases h

/-- A text without braces has no call that is left. -/
theorem brace_mem_of_tokens_eq_error
    (h : p.tokens = .error (.at line (.malformed (.unexpandedCall call)))) : '{' ∈ p.rest := by
  fun_induction tokens p with
  | case1 => cases h
  | case2 p c cs hr e hs =>
    cases h
    rw [hr, eq_brace_of_step_eq_error hs]
    exact .head _
  | case3 p c cs hr s hs hlt e he ih =>
    cases h
    obtain ⟨passed, rfl, -⟩ := exists_passed_of_step hs (hr ▸ hlt)
    rw [hr]
    exact .tail _ (List.mem_append_right _ (ih he))
  | case4 => cases h
  | case5 => cases h

end Cursor

/-! ## Expansion -/

/-- Expansion leaves no braces. Let the parameters of the templates of a program hold no braces, let
braces stand in the lines of a template only around its parameters, and in the rest of the program
only around calls of these templates. Then expansion succeeds: it replaces each call by the lines
of its template, in which each parameter in braces is replaced by the argument at its first place,
and leaves everything else as it is. What comes out holds no brace, so the tokenizer meets no call
that is left. -/
theorem expansion_leaves_no_braces {text rest : List Char} {ts : List Template}
    (hextract : extractTemplates (stripComments text) = .ok (rest, ts))
    (hparams : ∀ t ∈ ts, ∀ p ∈ t.params, ∀ c ∈ p, isBrace c = false)
    (hbodies : ∀ t ∈ ts, ∀ l ∈ t.body, Braced (· ∈ t.params) l)
    (hrest : Braced (CallsOneOf ts) rest) :
    ∃ out, expanded text = .ok out ∧ expandTemplates ts rest = .ok out ∧
      Filled (StandsFor ts) rest out ∧ (∀ c ∈ out, isBrace c = false) ∧
      ∀ line call, tokenize out ≠ .error (.at line (.malformed (.unexpandedCall call))) := by
  obtain ⟨out, hout, hfilled⟩ := exists_filled_expandFrom hparams hbodies hrest 1
  have hbraceless : ∀ c ∈ out, isBrace c = false :=
    hfilled.braceless fun inner piece hinner h => h.braceless hinner
  refine ⟨out, ?_, hout, hfilled, hbraceless, fun line call herror => ?_⟩
  · rw [expanded, hextract]
    exact hout
  · have hbrace := hbraceless _ (Cursor.brace_mem_of_tokens_eq_error herror)
    exact absurd hbrace (by decide)

/-- A program that defines a template with two parameters and calls it twice, the second time with
one argument. -/
def twoCalls : List Char :=
  ("#define W s q\nwrite \x7bs\x7d goto \x7bq\x7d\n#enifed\n" ++
    "a -> \x7bW 1 b\x7d\nb -> \x7bW 0\x7d").toList

/-- The template of this program. -/
def writeAndGo : Template where
  name := ['W']
  params := [['s'], ['q']]
  body := ["write ".toList ++ '{' :: (['s'] ++ '}' :: (" goto ".toList ++ '{' :: (['q'] ++ ['}'])))]

/-- The second call leaves the target out. -/
theorem expansion_leaves_no_braces_twoCalls :
    extractTemplates (stripComments twoCalls) = .ok
        ("\n\n\na -> ".toList ++ '{' :: ("W 1 b".toList ++ '}' :: ("\nb -> ".toList ++
          '{' :: ("W 0".toList ++ ['}']))), [writeAndGo]) ∧
      expanded twoCalls = .ok "\n\n\na -> write 1 goto b\nb -> write 0 goto ".toList ∧
      ∀ line call, tokenize "\n\n\na -> write 1 goto b\nb -> write 0 goto ".toList ≠
        .error (.at line (.malformed (.unexpandedCall call))) := by
  have hextract : extractTemplates (stripComments twoCalls) = .ok
      ("\n\n\na -> ".toList ++ '{' :: ("W 1 b".toList ++ '}' :: ("\nb -> ".toList ++
        '{' :: ("W 0".toList ++ ['}']))), [writeAndGo]) := by decide +kernel
  have hexpanded : expanded twoCalls =
      .ok "\n\n\na -> write 1 goto b\nb -> write 0 goto ".toList := by decide +kernel
  have hplain : ∀ cs : List Char, cs.any isBrace = false → ∀ c ∈ cs, isBrace c = false :=
    fun cs h c hc => Bool.eq_false_iff.mpr (List.any_eq_false.mp h c hc)
  have hline : Braced (· ∈ [['s'], ['q']]) ("write ".toList ++ '{' :: (['s'] ++ '}' ::
      (" goto ".toList ++ '{' :: (['q'] ++ ['}'])))) :=
    .append_left (.pair (hplain _ rfl) (by decide)
      (.append_left (.pair (hplain _ rfl) (by decide) .nil) (hplain _ rfl))) (hplain _ rfl)
  have hcall : ∀ inner : List Char, (∃ c ∈ inner.head?, endsName c = false) →
      (∃ args, words inner = ['W'] :: args) → CallsOneOf [writeAndGo] inner :=
    fun _ hnamed hwords => ⟨hnamed, writeAndGo, .head _, hwords⟩
  have hfirst := hcall "W 1 b".toList ⟨'W', rfl, rfl⟩ ⟨[['1'], ['b']], by decide⟩
  have hsecond := hcall "W 0".toList ⟨'W', rfl, rfl⟩ ⟨[['0']], by decide⟩
  have hbody : ∀ t ∈ [writeAndGo], ∀ l ∈ t.body, Braced (· ∈ t.params) l := by
    intro t ht l hl
    rw [List.mem_singleton.mp ht] at hl ⊢
    rw [List.mem_singleton.mp hl]
    exact hline
  have hparams : ∀ t ∈ [writeAndGo], ∀ p ∈ t.params, p.any isBrace = false := by decide
  obtain ⟨out, hout, -, -, -, htokens⟩ := expansion_leaves_no_braces hextract
    (fun t ht p hp => hplain p (hparams t ht p hp)) hbody
    (.append_left (.pair (hplain _ rfl) hfirst
      (.append_left (.pair (hplain _ rfl) hsecond .nil) (hplain _ rfl))) (hplain _ rfl))
  refine ⟨hextract, hexpanded, ?_⟩
  rw [hexpanded] at hout
  cases hout
  exact htokens

end TapeMachine.Program
