import TapeMachine.Proofs.Program.Faults
import TapeMachine.Proofs.Program.Returns

/-!
# Templates with carriage returns

Definitions and calls are found in a text with carriage returns as in the text without them. At
first all the carriage returns are at the ends of lines. The lines of a template have theirs too,
and the last one of them comes to stand behind the call: when calls are replaced, such places are
added (`Seam`). `agree_extractTemplates` and `agree_expandFrom` say so of the two stages.
-/

namespace TapeMachine.Program

open Text

/-! ## Templates -/

/-- Templates with the same name and parameters, and lines that differ in their ends. -/
structure Template.Alike (t t' : Template) : Prop where
  name : t'.name = t.name
  params : t'.params = t.params
  body : List.Forall₂ Ended t.body t'.body
  solid : ∀ p ∈ t.params, '\r' ∉ p

/-- Open definitions with the same name and parameters, and lines that differ in their ends. -/
structure Definition.Alike (d d' : Definition) : Prop where
  name : d'.name = d.name
  params : d'.params = d.params
  start : d'.start = d.start
  taken : List.Forall₂ Ended d.taken d'.taken
  solid : ∀ p ∈ d.params, '\r' ∉ p

/-- What is left of two texts, and what they define, differs in the ends of lines. -/
structure Extracted.Alike (x x' : Extracted) : Prop where
  lines : List.Forall₂ Ended x.lines x'.lines
  templates : List.Forall₂ Template.Alike x.templates x'.templates

variable {ts ts' : List Template}

/-- Entering templates alike keeps them alike. -/
lemma Template.Alike.define {t t' : Template} (ht : t.Alike t')
    (h : List.Forall₂ Template.Alike ts ts') :
    List.Forall₂ Template.Alike (defineTemplate ts t) (defineTemplate ts' t') := by
  refine .cons ht (List.rel_filter (fun u u' hu => ?_) h)
  simp only [hu.name, ht.name]

/-- A name finds templates alike or none. -/
lemma findTemplate?_alike (h : List.Forall₂ Template.Alike ts ts') (name : List Char) :
    Option.Rel Template.Alike (findTemplate? ts name) (findTemplate? ts' name) := by
  unfold findTemplate?
  induction h with
  | nil => exact .none
  | @cons t t' ts ts' ht _ ih =>
    rw [List.find?_cons, List.find?_cons, ht.name]
    split
    · exact .some ht
    · exact ih

/-- A definition that is closed is a template. -/
lemma Definition.Alike.template {d d' : Definition} (h : d.Alike d') :
    Template.Alike ⟨d.name, d.params, d.taken.reverse⟩ ⟨d'.name, d'.params, d'.taken.reverse⟩ where
  name := h.name
  params := h.params
  body := List.rel_reverse h.taken
  solid := h.solid

/-- Definitions are found in both texts alike. -/
theorem agree_extractLines {ls ls' : List (List Char)} (hls : List.Forall₂ Ended ls ls')
    (hts : List.Forall₂ Template.Alike ts ts') (number : ℕ) {opened opened' : Option Definition}
    (hopened : Option.Rel Definition.Alike opened opened') :
    Agree Extracted.Alike (extractLines ts number opened ls)
      (extractLines ts' number opened' ls') := by
  induction hls generalizing ts ts' number opened opened' with
  | nil =>
    cases hopened with
    | none => exact .ok ⟨.nil, hts⟩
    | some hd =>
      simp only [extractLines, hd.name, hd.start]
      exact .error (.refl _)
  | @cons l l' ls ls' hl _ ih =>
    have hleave : ∀ {x x' : Except Error Extracted} {kept kept' : List Char},
        Agree Extracted.Alike x x' → Ended kept kept' →
        Agree Extracted.Alike (x.map fun x => { x with lines := kept :: x.lines })
          (x'.map fun x => { x with lines := kept' :: x.lines }) := fun hx hkept =>
      hx.map fun _ _ _ h => ⟨.cons hkept h.lines, h.templates⟩
    have hdefine : Option.Rel Ended (after? defineMark l) (after? defineMark l') :=
      hl.after? (by decide) (by decide)
    have hend : (after? endMark l').isSome = (after? endMark l).isSome := by
      rcases hl with rfl | rfl
      · rfl
      · rw [after?_append_return (by decide) (by decide), Option.isSome_map]
    unfold extractLines
    generalize after? defineMark l = found at hdefine ⊢
    generalize after? defineMark l' = found' at hdefine ⊢
    cases hdefine with
    | @some rest rest' hrest =>
      cases hopened with
      | some hd =>
        simp only
        exact .error (.malformed _ _ _)
      | none =>
        simp only [hrest.words_eq]
        cases hwords : words rest with
        | nil => exact .error (.refl _)
        | cons name params =>
          refine hleave (ih hts _ (.some ⟨rfl, rfl, rfl, .nil, fun p hp hreturn => ?_⟩)) (.inl rfl)
          have hsolid := (of_mem_words (hwords ▸ List.mem_cons_of_mem _ hp)).2 _ hreturn
          exact absurd hsolid (by decide)
    | none =>
      cases hopened with
      | @some d d' hd =>
        simp only [hend]
        split
        · exact hleave (ih (hd.template.define hts) _ .none) (.inl rfl)
        · refine hleave (ih hts _ (.some ?_)) (.inl rfl)
          exact ⟨hd.name, hd.params, hd.start, .cons hl hd.taken, hd.solid⟩
      | none => exact hleave (ih hts _ .none) hl

/-- The definitions of a text are those of the text with carriage returns. -/
theorem agree_extractTemplates (text : List Char) :
    Agree (fun x x' => Returns LineEnd x.1 x'.1 ∧ List.Forall₂ Template.Alike x.2 x'.2)
      (extractTemplates (stripComments text))
      (extractTemplates (stripComments (withReturns text))) := by
  have hlines : List.Forall₂ Ended (lines (stripComments text))
      (lines (stripComments (withReturns text))) := by
    rw [lines_stripComments, lines_stripComments]
    exact List.rel_map (fun _ _ h => h.stripLine) (ended_lines_withReturns text)
  refine (agree_extractLines hlines .nil 1 .none).map fun x x' _ hx => ⟨?_, hx.templates⟩
  have h := Returns.unlines_append (fun _ hu => hu) .nil hx.lines fun _ => .inl rfl
  rwa [List.append_nil, List.append_nil] at h

/-! ## Filling in templates -/

/-- Placeholders are not empty and hold no carriage return, if the parameters hold none. -/
lemma of_mem_bindings {params args : List (List Char)} (h : ∀ p ∈ params, '\r' ∉ p)
    {b : List Char × List Char} (hb : b ∈ Template.bindings params args) :
    b.1 ≠ [] ∧ '\r' ∉ b.1 := by
  have hplaceholder : ∀ p ∈ params,
      Template.placeholder p ≠ [] ∧ '\r' ∉ Template.placeholder p := by
    intro p hp
    simpa [Template.placeholder] using h p hp
  induction params generalizing args with
  | nil => cases hb
  | cons p params ih =>
    have hrest : ∀ {args}, b ∈ Template.bindings params args → b.1 ≠ [] ∧ '\r' ∉ b.1 := fun hb =>
      ih (fun q hq => h q (.tail _ hq)) hb fun q hq => hplaceholder q (.tail _ hq)
    cases args with
    | nil =>
      rcases List.mem_cons.mp hb with rfl | hb
      · exact hplaceholder p (.head _)
      · exact hrest hb
    | cons a args =>
      rcases List.mem_cons.mp hb with rfl | hb
      · exact hplaceholder p (.head _)
      · exact hrest hb

/-- No placeholder reaches over the end of a line. -/
lemma bindingAt?_append_return {bs : List (List Char × List Char)}
    (hbs : ∀ b ∈ bs, b.1 ≠ [] ∧ '\r' ∉ b.1) (l : List Char) :
    Template.bindingAt? bs (l ++ ['\r']) = Template.bindingAt? bs l := by
  unfold Template.bindingAt?
  induction bs with
  | nil => rfl
  | cons b bs ih =>
    have hsame : b.1.isPrefixOf (l ++ ['\r']) = b.1.isPrefixOf l := by
      rw [Bool.eq_iff_iff, List.isPrefixOf_iff_prefix, List.isPrefixOf_iff_prefix]
      exact isPrefix_append_return (hbs b (.head _)).2
    rw [List.find?_cons, List.find?_cons, hsame, ih fun b hb => hbs b (.tail _ hb)]

/-- Filling in a line keeps its end. -/
lemma substitute_append_return {bs : List (List Char × List Char)}
    (hbs : ∀ b ∈ bs, b.1 ≠ [] ∧ '\r' ∉ b.1) {skip : ℕ} {l : List Char} (hskip : skip ≤ l.length) :
    Template.substitute bs skip (l ++ ['\r']) = Template.substitute bs skip l ++ ['\r'] := by
  induction l generalizing skip with
  | nil =>
    obtain rfl : skip = 0 := by simpa using hskip
    have hnone : Template.bindingAt? bs ['\r'] = none := by
      have hnil : Template.bindingAt? bs [] = none := by
        refine List.find?_eq_none.mpr fun b hb => ?_
        rw [List.isPrefixOf_iff_prefix, List.prefix_nil]
        exact (hbs b hb).1
      rw [← hnil]
      exact bindingAt?_append_return hbs []
    rw [List.nil_append, Template.substitute.eq_def]
    simp only [hnone]
    rfl
  | cons c l ih =>
    rw [List.cons_append]
    cases skip with
    | succ skip =>
      rw [Template.substitute, Template.substitute]
      exact ih (by simpa using hskip)
    | zero =>
      rw [Template.substitute, Template.substitute, ← List.cons_append,
        bindingAt?_append_return hbs]
      cases hfind : Template.bindingAt? bs (c :: l) with
      | none =>
        simp only
        rw [ih (Nat.zero_le _), List.cons_append]
      | some b =>
        have hprefix : b.1.isPrefixOf (c :: l) = true := by
          simpa using List.find?_some hfind
        have hle := (List.isPrefixOf_iff_prefix.mp hprefix).length_le
        rw [List.length_cons] at hle
        simp only
        rw [ih (by omega), List.append_assoc]

/-- Templates alike are filled in alike. -/
lemma Template.Alike.ended_body {t t' : Template} (h : t.Alike t') (args : List (List Char)) :
    List.Forall₂ Ended (t.body.map (substitute (bindings t.params args) 0))
      (t'.body.map (substitute (bindings t'.params args) 0)) := by
  rw [h.params]
  refine List.rel_map (fun l l' hl => ?_) h.body
  rcases hl with rfl | rfl
  · exact .inl rfl
  · exact .inr (substitute_append_return (fun b hb => of_mem_bindings h.solid hb) (Nat.zero_le _))

/-! ## Replacing calls -/

/-- What follows a call is the rest of the text. -/
lemma expandFrom_length_append (ts : List Template) (line : ℕ) (front rest : List Char) :
    expandFrom ts line front.length (front ++ rest) =
      expandFrom ts (line + front.count '\n') 0 rest := by
  induction front generalizing line with
  | nil => simp
  | cons c front ih =>
    rw [List.length_cons, List.cons_append, expandFrom, ih, line_add_count]

/-- Before a closing brace a line ends with a newline. -/
lemma LineEnd.head?_eq {u after : List Char} (h : LineEnd (u ++ '}' :: after)) :
    u.head? = some '\n' := by
  cases u with
  | nil => rcases h with h | h <;> cases h
  | cons c u => exact h.resolve_left nofun

/-- What stands between the braces of a call does so with carriage returns too. -/
lemma Returns.isCall_iff {site : List Char → Prop} {inner inner' : List Char}
    (h : Returns site inner inner') (hsite : ∀ u, site u → u.head? = some '\n') :
    IsCall inner' ↔ IsCall inner := by
  have hbraceless : (∀ c ∈ inner', isBrace c = false) ↔ ∀ c ∈ inner, isBrace c = false := by
    refine ⟨fun hall c hc => hall c (h.mem_of_mem hc), fun hall c hc => ?_⟩
    rcases h.mem_or_eq hc with hc | rfl
    · exact hall c hc
    · decide
  have hnamed : (∃ c ∈ inner'.head?, endsName c = false) ↔
      ∃ c ∈ inner.head?, endsName c = false := by
    cases h with
    | nil => exact Iff.rfl
    | cons c h => exact Iff.rfl
    | ret hs h =>
      -- A carriage return in front means a newline, and neither starts a name.
      rw [hsite _ hs]
      refine iff_of_false ?_ ?_
      · rintro ⟨c, hmem, hc⟩
        cases hmem
        exact absurd hc (by decide)
      · rintro ⟨c, hmem, hc⟩
        cases hmem
        exact absurd hc (by decide)
  exact ⟨fun ⟨hb, hn⟩ => ⟨hbraceless.mp hb, hnamed.mp hn⟩,
    fun ⟨hb, hn⟩ => ⟨hbraceless.mpr hb, hnamed.mpr hn⟩⟩

/-- A call is a call with carriage returns too, with the same words. -/
lemma Returns.exists_call {cs cs' inner : List Char} (h : Returns LineEnd cs cs')
    (hbody : callBody? cs = some inner) :
    ∃ inner' after after', cs = inner ++ '}' :: after ∧ cs' = inner' ++ '}' :: after' ∧
      callBody? cs' = some inner' ∧ words inner' = words inner ∧
      inner'.count '\n' = inner.count '\n' ∧ Returns LineEnd after after' := by
  obtain ⟨hcall, after, rfl⟩ := callBody?_eq_some_iff.mp hbody
  obtain ⟨inner', after', rfl, hinner, hafter⟩ := h.split rfl
  refine ⟨inner', after, after', rfl, rfl, ?_, ?_, hinner.count_newline, hafter⟩
  · have hcall' := (hinner.isCall_iff fun u hu => hu.head?_eq).mpr hcall
    exact callBody?_eq_some_iff.mpr ⟨hcall', after', rfl⟩
  · refine hinner.words_eq fun u hu c hc => ?_
    rw [hu.head?_eq] at hc
    cases hc
    decide

/-- What is no call is none with carriage returns. -/
lemma Returns.callBody?_eq_none {cs cs' : List Char} (h : Returns LineEnd cs cs')
    (hnone : callBody? cs = none) : callBody? cs' = none := by
  rw [Option.eq_none_iff_forall_ne_some]
  intro inner' hbody
  obtain ⟨hcall', after', rfl⟩ := callBody?_eq_some_iff.mp hbody
  obtain ⟨inner, after, rfl, hinner, -⟩ := h.split_right rfl (by decide)
  have hcall := (hinner.isCall_iff fun u hu => hu.head?_eq).mp hcall'
  rw [callBody?_eq_some_iff.mpr ⟨hcall, after, rfl⟩] at hnone
  cases hnone

/-- What follows a call of a text, after calls have been replaced, is `u`, and the last line of the
template that is called has a carriage return at its end in `ts'` that it does not have in `ts`. -/
def Seam (ts ts' : List Template) (text u : List Char) : Prop :=
  ∃ before inner after line name args t t', text = before ++ '{' :: (inner ++ '}' :: after) ∧
    IsCall inner ∧ words inner = name :: args ∧ findTemplate? ts name = some t ∧
    findTemplate? ts' name = some t' ∧ t'.body.getLast? ≠ t.body.getLast? ∧
    expandFrom ts line 0 after = .ok u

/-- A seam is left as it is by what stands in front. -/
lemma Seam.append_left {text u : List Char} (h : Seam ts ts' text u) (front : List Char) :
    Seam ts ts' (front ++ text) u := by
  obtain ⟨before, inner, after, line, name, args, t, t', rfl, hrest⟩ := h
  exact ⟨front ++ before, inner, after, line, name, args, t, t', (List.append_assoc ..).symm, hrest⟩

/-- The end of a line stays one when calls are replaced. -/
lemma LineEnd.of_expandFrom {line : ℕ} {text v : List Char} (h : LineEnd text)
    (hv : expandFrom ts line 0 text = .ok v) : LineEnd v := by
  cases text with
  | nil =>
    rw [expandFrom] at hv
    cases hv
    exact .inl rfl
  | cons c text =>
    obtain rfl : c = '\n' := by simpa [LineEnd] using h
    rw [expandFrom_kept fun hbrace => absurd hbrace (by decide)] at hv
    cases hrest : expandFrom ts (if '\n' == '\n' then line + 1 else line) 0 text with
    | error e =>
      rw [hrest] at hv
      cases hv
    | ok rest =>
      rw [hrest] at hv
      cases hv
      exact .inr rfl

/-- Calls are replaced in both texts alike. The carriage returns are then at the ends of lines and
behind calls. -/
theorem agree_expandFrom {site : List Char → Prop} (hends : ∀ u, LineEnd u → site u)
    (hts : List.Forall₂ Template.Alike ts ts') {text text' : List Char}
    (h : Returns LineEnd text text') (hseams : ∀ u, Seam ts ts' text u → site u) (line : ℕ) :
    Agree (Returns site) (expandFrom ts line 0 text) (expandFrom ts' line 0 text') := by
  -- The induction is on the length of the longer text: a call is passed as a whole.
  induction hn : text'.length using Nat.strong_induction_on generalizing text text' line with
  | _ n ih =>
    subst hn
    cases h with
    | nil =>
      rw [expandFrom, expandFrom]
      exact .ok .nil
    | @ret _ text' hend h =>
      rw [expandFrom_kept (c := '\r') fun hbrace => absurd hbrace (by decide)]
      refine (ih _ (Nat.lt_succ_self _) h hseams line rfl).map_right fun v v' hv hreturns => ?_
      exact .ret (hends v (hend.of_expandFrom hv)) hreturns
    | @cons text text' c h =>
      by_cases hcall : ∃ inner, c = '{' ∧ callBody? text = some inner
      · obtain ⟨inner, rfl, hbody⟩ := hcall
        obtain ⟨inner', after, after', rfl, rfl, hbody', hwords, hcount, hafter⟩ :=
          h.exists_call hbody
        have hskip := expandFrom_length_append ts line (inner ++ ['}']) after
        have hskip' := expandFrom_length_append ts' line (inner' ++ ['}']) after'
        simp only [List.length_append, List.length_singleton, List.append_assoc,
          List.singleton_append, List.count_append, hcount] at hskip hskip'
        rw [expandFrom_call hbody, expandFrom_call hbody', hwords, hskip, hskip']
        cases hinner : words inner with
        | nil => exact .error (.refl _)
        | cons name args =>
          have hfind := findTemplate?_alike hts name
          simp only
          generalize hfound : findTemplate? ts name = found at hfind ⊢
          generalize hfound' : findTemplate? ts' name = found' at hfind ⊢
          cases hfind with
          | none => exact .error (.refl _)
          | @some t t' ht =>
            have hlt : after'.length < ('{' :: (inner' ++ '}' :: after')).length := by
              simp only [List.length_cons, List.length_append]
              omega
            have hrest := ih _ hlt hafter (fun u hu => hseams u ?_)
              (line + (inner.count '\n' + List.count '\n' ['}'])) rfl
            · refine hrest.map fun v v' hv hreturns => ?_
              refine hreturns.unlines_append hends (ht.ended_body args) fun hlast => hseams v ?_
              refine ⟨[], inner, after, _, name, args, t, t', rfl,
                (callBody?_eq_some_iff.mp hbody).1, hinner, hfound, hfound', fun hsame => ?_, hv⟩
              rw [List.getLast?_map, List.getLast?_map, hsame, ht.params] at hlast
              exact hlast rfl
            · have hseam := hu.append_left ('{' :: (inner ++ ['}']))
              simpa using hseam
      · have hnone : c = '{' → callBody? text = none := by
          intro hc
          rw [Option.eq_none_iff_forall_ne_some]
          exact fun inner hbody => hcall ⟨inner, hc, hbody⟩
        rw [expandFrom_kept hnone, expandFrom_kept fun hc => h.callBody?_eq_none (hnone hc)]
        have hrest := ih _ (Nat.lt_succ_self _) h (fun u hu => hseams u (hu.append_left [c]))
          (if c == '\n' then line + 1 else line) rfl
        exact hrest.map fun v v' _ hreturns => .cons c hreturns

end TapeMachine.Program
