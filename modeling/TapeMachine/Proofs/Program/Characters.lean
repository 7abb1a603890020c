import TapeMachine.Proofs.Program.Compiled

/-!
# Where characters come from

Removing comments, taking out definitions and replacing calls bring no character into a program but
newlines: whatever holds of the characters of a text and of the newline holds of the characters of
the expanded text (`of_mem_expanded`). So a clean text is clean after expansion
(`Clean.of_expanded`).
-/

namespace TapeMachine.Program

open Text

variable {P : Char → Prop}

/-! ## Comments and definitions -/

/-- The characters of joined lines are those of the lines, and newlines. -/
lemma forall_mem_unlines {ls : List (List Char)} (hnewline : P '\n')
    (h : ∀ l ∈ ls, ∀ c ∈ l, P c) : ∀ c ∈ unlines ls, P c := by
  intro c hc
  rcases of_mem_unlines hc with rfl | ⟨l, hl, hc⟩
  · exact hnewline
  · exact h l hl c hc

/-- Taking out comments brings in no character but newlines. -/
lemma forall_mem_stripComments {text : List Char} (hnewline : P '\n') (h : ∀ c ∈ text, P c) :
    ∀ c ∈ stripComments text, P c := by
  refine forall_mem_unlines hnewline fun l hl c hc => ?_
  obtain ⟨l', hl', rfl⟩ := List.mem_map.mp hl
  exact h c (mem_of_mem_pieces hl' ((stripLine_sublist l').subset hc))

/-- The lines of every template hold only such characters. -/
def Template.All (P : Char → Prop) (ts : List Template) : Prop :=
  ∀ t ∈ ts, ∀ l ∈ t.body, ∀ c ∈ l, P c

/-- Defining a template brings in no character but those of its body. -/
lemma Template.All.define {ts : List Template} (h : All P ts) {t : Template}
    (ht : ∀ l ∈ t.body, ∀ c ∈ l, P c) : All P (defineTemplate ts t) :=
  List.forall_mem_cons.mpr ⟨ht, fun u hu => h u (List.mem_of_mem_filter hu)⟩

/-- The lines that are kept and those of the templates are lines of the text, or empty. -/
lemma all_of_extractLines {ts : List Template} {number : ℕ} {opened : Option Definition}
    {ls : List (List Char)} {x : Extracted} (hts : Template.All P ts)
    (hopened : ∀ d ∈ opened, ∀ l ∈ d.taken, ∀ c ∈ l, P c) (hls : ∀ l ∈ ls, ∀ c ∈ l, P c)
    (h : extractLines ts number opened ls = .ok x) :
    (∀ l ∈ x.lines, ∀ c ∈ l, P c) ∧ Template.All P x.templates := by
  induction ls generalizing ts number opened x with
  | nil =>
    unfold extractLines at h
    cases opened with
    | some d => cases h
    | none =>
      cases h
      exact ⟨nofun, hts⟩
  | cons l ls ih =>
    obtain ⟨hl, hrest⟩ := List.forall_mem_cons.mp hls
    -- What the lines behind this one come to, with this one kept or left empty.
    have hleave : ∀ {ts' opened' kept}, Template.All P ts' →
        (∀ d ∈ opened', ∀ l ∈ d.taken, ∀ c ∈ l, P c) → (∀ c ∈ kept, P c) →
        (extractLines ts' (number + 1) opened' ls).map
          (fun x => { x with lines := kept :: x.lines }) = .ok x →
        (∀ l ∈ x.lines, ∀ c ∈ l, P c) ∧ Template.All P x.templates := by
      intro ts' opened' kept hts' hopened' hkept h
      obtain ⟨y, hy, rfl⟩ := map_eq_ok_iff.mp h
      obtain ⟨hlines, htemplates⟩ := ih hts' hopened' hrest hy
      exact ⟨List.forall_mem_cons.mpr ⟨hkept, hlines⟩, htemplates⟩
    have hempty : ∀ c ∈ ([] : List Char), P c := List.forall_mem_nil _
    unfold extractLines at h
    split at h
    · cases h
    · split at h
      · cases h
      · exact hleave hts (by simp) hempty h
    · rename_i d _
      have htaken := hopened d rfl
      split at h
      · refine hleave (hts.define fun m hm => ?_) (by simp) hempty h
        exact htaken m (List.mem_reverse.mp hm)
      · refine hleave hts ?_ hempty h
        rintro d' ⟨⟩
        exact List.forall_mem_cons.mpr ⟨hl, htaken⟩
    · exact hleave hts (by simp) hl h

/-! ## Calls -/

/-- An argument that is bound to a parameter is one of the arguments, or empty. -/
lemma of_mem_bindings_snd {params args : List (List Char)} (hargs : ∀ a ∈ args, ∀ c ∈ a, P c) :
    ∀ b ∈ Template.bindings params args, ∀ c ∈ b.2, P c := by
  fun_induction Template.bindings params args with
  | case1 => exact nofun
  | case2 p ps ih => exact List.forall_mem_cons.mpr ⟨List.forall_mem_nil _, ih hargs⟩
  | case3 p ps a as ih =>
    obtain ⟨ha, has⟩ := List.forall_mem_cons.mp hargs
    exact List.forall_mem_cons.mpr ⟨ha, ih has⟩

/-- A line that is filled in holds its own characters and those of the arguments. -/
lemma forall_mem_substitute {bs : List (List Char × List Char)} (hbs : ∀ b ∈ bs, ∀ c ∈ b.2, P c)
    {skip : ℕ} {text : List Char} (h : ∀ c ∈ text, P c) :
    ∀ c ∈ Template.substitute bs skip text, P c := by
  fun_induction Template.substitute bs skip text with
  | case1 => exact List.forall_mem_nil _
  | case2 skip c cs ih => exact ih (List.forall_mem_cons.mp h).2
  | case3 c cs p a hfound ih =>
    have ha := hbs _ (List.mem_of_find?_eq_some hfound)
    exact List.forall_mem_append.mpr ⟨ha, ih (List.forall_mem_cons.mp h).2⟩
  | case4 c cs hnone ih =>
    obtain ⟨hc, hcs⟩ := List.forall_mem_cons.mp h
    exact List.forall_mem_cons.mpr ⟨hc, ih hcs⟩

/-- Expanding a template brings in no character but those of its body and of the arguments. -/
lemma forall_mem_expand {t : Template} {args : List (List Char)} (hnewline : P '\n')
    (hbody : ∀ l ∈ t.body, ∀ c ∈ l, P c) (hargs : ∀ a ∈ args, ∀ c ∈ a, P c) :
    ∀ c ∈ t.expand args, P c := by
  refine forall_mem_unlines hnewline fun l hl => ?_
  obtain ⟨l', hl', rfl⟩ := List.mem_map.mp hl
  exact forall_mem_substitute (of_mem_bindings_snd hargs) (hbody l' hl')

/-- The words of a call stand in the text behind its opening brace. -/
lemma mem_of_mem_words_callBody? {cs inner w : List Char} (hinner : callBody? cs = some inner)
    (hw : w ∈ words inner) {c : Char} (hc : c ∈ w) : c ∈ cs := by
  unfold callBody? at hinner
  simp only at hinner
  split at hinner
  · split at hinner
    · cases hinner
    · cases hinner
      exact (List.takeWhile_sublist _).subset (mem_of_mem_words hw hc)
  · cases hinner

/-- Replacing calls brings in the characters of templates, and those of the text. -/
lemma forall_mem_expandFrom {ts : List Template} (hnewline : P '\n') (hts : Template.All P ts)
    {line skip : ℕ} {text out : List Char} (htext : ∀ c ∈ text, P c)
    (h : expandFrom ts line skip text = .ok out) : ∀ c ∈ out, P c := by
  induction text generalizing line skip out with
  | nil =>
    rw [expandFrom] at h
    cases h
    exact List.forall_mem_nil _
  | cons c cs ih =>
    obtain ⟨hc, hcs⟩ := List.forall_mem_cons.mp htext
    -- What is put in front of the rest of the text, which is replaced in turn.
    have hfront : ∀ {line skip} {front : List Char}, (∀ d ∈ front, P d) →
        (expandFrom ts line skip cs).map (front ++ ·) = .ok out → ∀ d ∈ out, P d := by
      intro line skip front hfront h
      obtain ⟨rest, hrest, rfl⟩ := map_eq_ok_iff.mp h
      exact List.forall_mem_append.mpr ⟨hfront, ih hcs hrest⟩
    have hone : ∀ d ∈ [c], P d := List.forall_mem_singleton.mpr hc
    cases skip with
    | succ skip =>
      rw [expandFrom] at h
      exact ih hcs h
    | zero =>
      simp only [expandFrom] at h
      split at h
      · split at h
        · exact hfront hone h
        · rename_i inner hinner
          split at h
          · cases h
          · rename_i name args hwords
            split at h
            · cases h
            · rename_i t hfind
              have ht := hts t (List.mem_of_find?_eq_some hfind)
              have hargs : ∀ a ∈ args, ∀ d ∈ a, P d := fun a ha d hd =>
                hcs d (mem_of_mem_words_callBody? hinner (hwords ▸ List.mem_cons_of_mem _ ha) hd)
              exact hfront (forall_mem_expand hnewline ht hargs) h
      · exact hfront hone h

/-- Whatever holds of the characters of a text and of newlines holds of those of the expanded
text. -/
theorem of_mem_expanded {text out : List Char} (hnewline : P '\n') (htext : ∀ c ∈ text, P c)
    (h : expanded text = .ok out) : ∀ c ∈ out, P c := by
  obtain ⟨⟨rest, ts⟩, hextract, hexpand⟩ := bind_eq_ok_iff.mp h
  obtain ⟨x, hx, hrest⟩ := map_eq_ok_iff.mp hextract
  cases hrest
  have hstripped := forall_mem_stripComments hnewline htext
  have hnone : Template.All P [] := by simp [Template.All]
  obtain ⟨hlines, hts⟩ := all_of_extractLines hnone (by simp)
    (fun l hl c hc => hstripped c (mem_of_mem_pieces hl hc)) hx
  exact forall_mem_expandFrom hnewline hts (forall_mem_unlines hnewline hlines) hexpand

/-- A clean text is clean after expansion. -/
theorem Clean.of_expanded {text out : List Char} (h : Clean text) (hout : expanded text = .ok out) :
    Clean out :=
  of_mem_expanded (P := fun c => isControl c = true → isBlank c = true) (by decide) h hout

end TapeMachine.Program
