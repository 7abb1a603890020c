import TapeMachine.Program.Compile
import TapeMachine.Proofs.Program.Drafts
import TapeMachine.Proofs.Program.Placing
import TapeMachine.Proofs.Program.Reading
import TapeMachine.Proofs.Text.Cutting

/-!
# What compiles

`compile_eq_ok_iff` says which table a program compiles to: its draft has valid transitions only,
and the table holds these as they stand.

The rest of the module follows one invariant through the stages of the compiler. Every token that
can be the name of a state or a symbol holds a word (`Token.Sound`); so does every block that is
open while tokens are read (`Scope.Sound`), and every field of an instruction (`Instruction.Sound`).
So every name in a compiled table is a word (`named_of_draft`).
-/

namespace TapeMachine.Program

open Text

/-! ## The table of a program -/

/-- Transitions that are all taken are all valid. -/
lemma valid_of_addAll {t u : Table} {rs : List Transition} (h : t.addAll rs = (u, none)) :
    ∀ r ∈ rs, r.Valid := by
  induction rs generalizing t with
  | nil =>
    intro r hr
    cases hr
  | cons r rs ih =>
    rw [Table.addAll] at h
    cases ha : t.add r with
    | error e =>
      rw [ha] at h
      cases h
    | ok t' =>
      rw [ha] at h
      exact List.forall_mem_cons.mpr ⟨(Table.add_eq_ok_iff.mp ha).2.1, ih h⟩

/-- The table of a draft holds its transitions as they stand, and there is one exactly when they are
valid. -/
theorem Draft.table_eq_ok_iff {is : List Instruction} {t : Table} :
    (Draft.ofInstructions is).table = .ok t ↔
      (∀ r ∈ (Draft.ofInstructions is).transitions, r.Valid) ∧
        t = { initial := ((Draft.ofInstructions is).transitions.head?.map (·.state)).getD ""
              groups := (Draft.ofInstructions is).tableGroups } := by
  constructor
  · intro h
    have hvalid := valid_of_addAll (addEntries_eq_ok_iff.mp h)
    have htable := (ofInstructions_wellFormed is).table_eq hvalid
    rw [h] at htable
    exact ⟨hvalid, Except.ok.inj htable⟩
  · rintro ⟨hvalid, rfl⟩
    exact (ofInstructions_wellFormed is).table_eq hvalid

/-- What is done after a stage succeeds if both succeed. -/
lemma bind_eq_ok_iff {α β : Type} {x : Except Error α} {f : α → Except Error β} {b : β} :
    (x >>= f) = .ok b ↔ ∃ a, x = .ok a ∧ f a = .ok b := by
  cases x with
  | error e => simp [bind, Except.bind]
  | ok a => simp [bind, Except.bind]

/-- A changed result is the change of a result. -/
lemma map_eq_ok_iff {α β : Type} {x : Except Error α} {f : α → β} {b : β} :
    x.map f = .ok b ↔ ∃ a, x = .ok a ∧ f a = b := by
  cases x with
  | error e => simp [Except.map]
  | ok a => simp [Except.map]

/-- What is done in two stages fails in the first or in the second. -/
lemma bind_eq_error_iff {α β : Type} {x : Except Error α} {f : α → Except Error β}
    {e : Error} :
    (x >>= f) = .error e ↔ x = .error e ∨ ∃ a, x = .ok a ∧ f a = .error e := by
  cases x with
  | error e' => simp [bind, Except.bind]
  | ok a => simp [bind, Except.bind]

/-- A program that can be drafted has the draft of some instructions. -/
lemma draft_eq_ok_iff {text : List Char} {d : Draft} :
    draft text = .ok d ↔ ∃ ts is, programTokens text = .ok ts ∧ instructions ts = .ok is ∧
      d = .ofInstructions is := by
  simp only [draft, bind_eq_ok_iff]
  constructor
  · rintro ⟨ts, hts, is, his, ⟨⟩⟩
    exact ⟨ts, is, hts, his, rfl⟩
  · rintro ⟨ts, is, hts, his, rfl⟩
    exact ⟨ts, hts, is, his, rfl⟩

/-- A program compiles to the frozen table of its draft, with the start that was asked for. -/
theorem compile_eq_ok_iff {source start : String} {t : Table} :
    compile source start = .ok t ↔ ∃ is, draft source.toList = .ok (.ofInstructions is) ∧
      (∀ r ∈ (Draft.ofInstructions is).transitions, r.Valid) ∧
      t = { initial := if start = "" then
              ((Draft.ofInstructions is).transitions.head?.map (·.state)).getD "" else start
            groups := (Draft.ofInstructions is).tableGroups
            frozen := true } := by
  simp only [compile, bind_eq_ok_iff]
  constructor
  · rintro ⟨d, hd, u, hu, ⟨⟩⟩
    obtain ⟨-, is, -, -, rfl⟩ := draft_eq_ok_iff.mp hd
    obtain ⟨hvalid, rfl⟩ := Draft.table_eq_ok_iff.mp hu
    refine ⟨is, hd, hvalid, ?_⟩
    by_cases hs : start = "" <;> simp [hs, Table.freeze]
  · rintro ⟨is, hd, hvalid, rfl⟩
    refine ⟨_, hd, _, Draft.table_eq_ok_iff.mpr ⟨hvalid, rfl⟩, ?_⟩
    by_cases hs : start = "" <;> simp [hs, Table.freeze, pure, Except.pure]

/-- Compiled tables are well formed, whatever state they start in. -/
lemma wellFormed_of_compile {source start : String} {t : Table}
    (h : compile source start = .ok t) : t.WellFormed := by
  obtain ⟨is, -, hvalid, rfl⟩ := compile_eq_ok_iff.mp h
  exact (Draft.ofInstructions_wellFormed is).table_wellFormed hvalid _ _

/-! ## Tokens -/

/-- A token that can be a header or an operand holds a word. -/
def Token.Sound (t : Token) : Prop :=
  t.isOperand = true → IsWord (String.ofList t.value)

/-- A token of a kind that is no operand is sound. -/
lemma Token.sound_of_kind {t : Token} (hw : t.kind ≠ .word) (hb : t.kind ≠ .bracketed) :
    t.Sound := by
  intro ht
  simp [isOperand, hw, hb] at ht

/-- A word without white space is sound. -/
lemma Token.sound_word {w : List Char} (hne : w ≠ []) (h : ∀ c ∈ w, isBlank c = false)
    (line : ℕ) : Token.Sound ⟨.word, w, line, 0⟩ :=
  fun _ => isWord_ofList.mpr ⟨hne, h⟩

/-- What is spelled as a token is a sound one. -/
lemma Spelled.sound {kind : Kind} {text : List Char} (h : Spelled kind text) (line : ℕ) :
    Token.Sound ⟨kind, text, line, 0⟩ := by
  cases h with
  | arrow => exact Token.sound_of_kind (by simp) (by simp)
  | colon => exact Token.sound_of_kind (by simp) (by simp)
  | bracketed hc =>
    intro _
    simp only [Bool.or_eq_false_iff] at hc
    exact isWord_ofList.mpr ⟨by simp [Token.value], by simpa [Token.value] using hc.1.2⟩
  | hyphen =>
    have hshape := Spelled.hyphen.wordShape
    exact Token.sound_word hshape.ne_nil hshape.solid line
  | word hc hw =>
    have hshape := (Spelled.word hc hw).wordShape
    exact Token.sound_word hshape.ne_nil hshape.solid line

/-- Every token that a step forward finds is sound. -/
lemma Cursor.sound_of_step {p : Cursor} {c : Char} {cs : List Char} {s : Step}
    (h : p.step c cs = .ok s) (hlt : s.next.rest.length < (c :: cs).length) :
    ∀ t ∈ s.token, t.Sound := by
  have hfinds := finds_of_step h hlt
  generalize c :: cs = text at hfinds
  cases hfinds with
  | pass hpassed hne => exact nofun
  | newline rest =>
    rintro t ⟨⟩
    exact Token.sound_of_kind (by simp) (by simp)
  | indent hstart hne =>
    rintro t ⟨⟩
    exact Token.sound_of_kind (by simp) (by simp)
  | space hstart hne =>
    rintro t ⟨⟩
    exact Token.sound_of_kind (by simp) (by simp)
  | found hspelled =>
    rintro t ⟨⟩
    exact hspelled.sound p.line

/-- Every token found on a way is sound. -/
lemma Cursor.Lexes.sound {p q : Cursor} {ts : List Token} (h : Lexes p ts q) :
    ∀ t ∈ ts, t.Sound := by
  induction h with
  | refl p =>
    intro t ht
    cases ht
  | step hr hs hlt _ ih =>
    intro t ht
    rcases List.mem_append.mp ht with ht | ht
    · exact sound_of_step hs (hr ▸ hlt) t (Option.mem_toList.mp ht)
    · exact ih t ht

/-- The normal form of a sound token is sound. -/
lemma Token.Sound.normal {t : Token} (h : t.Sound) : ∀ u ∈ t.normal, u.Sound := by
  intro u hu
  unfold Token.normal at hu
  split at hu
  · rename_i hword
    have hk : t.kind = .word := beq_iff_eq.mp hword
    have hsound : ∀ w : List Char, IsWord (String.ofList w) → Token.Sound { t with text := w } := by
      intro w hw _
      simpa [value, hk] using hw
    split at hu
    · simp only [List.mem_cons, List.not_mem_nil, or_false] at hu
      rcases hu with rfl | rfl
      · exact hsound _ (by decide)
      · exact hsound _ (by decide)
    split at hu
    · rw [List.mem_singleton.mp hu]
      exact hsound _ (by decide)
    split at hu
    · rw [List.mem_singleton.mp hu]
      exact hsound _ (by decide)
    · rw [List.mem_singleton.mp hu]
      exact h
  · rw [List.mem_singleton.mp hu]
    exact h

/-- Every token of a program is sound. -/
theorem sound_of_programTokens {text : List Char} {ts : List Token}
    (h : programTokens text = .ok ts) : ∀ t ∈ ts, t.Sound := by
  simp only [programTokens, bind_eq_ok_iff] at h
  obtain ⟨expansion, -, us, hus, ⟨⟩⟩ := h
  intro t ht
  obtain ⟨u, hu, ht⟩ := List.mem_flatMap.mp ht
  obtain ⟨q, hlexes, -⟩ := Cursor.tokens_eq_ok_iff.mp hus
  exact (hlexes.sound u hu).normal t ht

/-! ## Statements -/

/-- All words of a directive are words. -/
def Directive.Sound : Directive → Prop
  | .write s => IsWord s
  | .move d => IsWord d
  | .goto q => IsWord q

/-- All words of a statement are words. -/
def Statement.Sound : Statement → Prop
  | .openState name => IsWord name
  | .openStateRead name symbol => IsWord name ∧ IsWord symbol
  | .openRead symbol => IsWord symbol
  | .directive d => d.Sound
  | .nothing => True

/-- The value of a sound header is a word. -/
lemma Token.Sound.headerValue {t : Token} (h : t.Sound) (ht : t.isOperand = true) :
    IsWord (headerValue t.value) := by
  have hword := h ht
  rw [Program.headerValue, trim_of_forall (isWord_ofList.mp hword).2]
  exact hword

/-- A jump leads to a word. -/
lemma isWord_destination {w : List Char} (h : IsWord (String.ofList w)) :
    IsWord (destination w) := by
  rw [destination]
  split
  · rename_i base hbase
    have hbase' : ∀ c ∈ base.reverse, isBlank c = false := by
      intro c hc
      have hmem : c ∈ w.reverse := hbase ▸ List.mem_cons_of_mem _ (List.mem_reverse.mp hc)
      exact (isWord_ofList.mp h).2 c (List.mem_reverse.mp hmem)
    have hhalt : haltingState (String.ofList base.reverse) =
        String.ofList (['h', 'a', 'l', 't', '-'] ++ base.reverse) := by
      rw [haltingState, String.ofList_append]
    have hmark : IsWord (String.ofList ['h', 'a', 'l', 't', '-']) := by decide
    rw [hhalt, isWord_ofList]
    refine ⟨by simp, fun c hc => ?_⟩
    rcases List.mem_append.mp hc with hc | hc
    · exact (isWord_ofList.mp hmark).2 c hc
    · exact hbase' c hc
  · exact h

/-- An operand is one of the tokens. -/
lemma of_operand?_eq_some {ts : List Token} {o : Token} (h : operand? ts = some o) :
    o ∈ ts ∧ o.isOperand = true := by
  cases ts with
  | nil => cases h
  | cons t ts =>
    rw [operand?] at h
    split at h
    · rename_i ht
      cases h
      exact ⟨List.mem_cons_self, ht⟩
    · cases h

section Statements

variable {t : Token} {rest : List Token} {s : Statement} {taken : ℕ}

/-- A statement that needs an operand has one, and it is a word. -/
lemma of_match_operand {f : Token → Statement × ℕ} {m : Malformed}
    (hrest : ∀ u ∈ rest, u.Sound)
    (h : (match operand? rest with
      | some o => Except.ok (f o)
      | none => .error m) = .ok (s, taken)) :
    ∃ o, o.Sound ∧ o.isOperand = true ∧ f o = (s, taken) := by
  cases ho : operand? rest with
  | none =>
    rw [ho] at h
    cases h
  | some o =>
    rw [ho] at h
    obtain ⟨hmem, hoperand⟩ := of_operand?_eq_some ho
    exact ⟨o, hrest o hmem, hoperand, Except.ok.inj h⟩

/-- A directive made of sound tokens is sound. -/
lemma sound_of_readDirective (ht : t.Sound) (hoperand : t.isOperand = true)
    (hrest : ∀ u ∈ rest, u.Sound) (h : readDirective t rest = .ok (s, taken)) : s.Sound := by
  have hjump : Statement.Sound (.directive (.goto (destination t.value))) :=
    isWord_destination (ht hoperand)
  unfold readDirective at h
  split at h
  · split at h
    · obtain ⟨o, hsound, ho, ⟨⟩⟩ := of_match_operand hrest h
      exact hsound ho
    split at h
    · obtain ⟨o, hsound, ho, ⟨⟩⟩ := of_match_operand hrest h
      exact hsound ho
    split at h
    · obtain ⟨o, -, -, ⟨⟩⟩ := of_match_operand hrest h
      trivial
    · cases h
      exact hjump
  · cases h
    exact hjump

/-- So is a statement within a state block. -/
lemma sound_of_readInState {state : Block} {read : Option Block} (ht : t.Sound)
    (hoperand : t.isOperand = true) (hrest : ∀ u ∈ rest, u.Sound)
    (h : readInState state read t rest = .ok (s, taken)) : s.Sound := by
  unfold readInState at h
  split at h
  · obtain ⟨o, hsound, ho, ⟨⟩⟩ := of_match_operand hrest h
    exact hsound.headerValue ho
  split at h
  · cases h
  · exact sound_of_readDirective ht hoperand hrest h

/-- Every statement made of sound tokens is sound. -/
lemma sound_of_readStatement {scope : Scope} (ht : t.Sound) (hn : t.kind ≠ .newline)
    (hi : t.kind ≠ .indent) (hs : t.kind ≠ .space) (hrest : ∀ u ∈ rest, u.Sound)
    (h : readStatement scope t rest = .ok (s, taken)) : s.Sound := by
  unfold readStatement at h
  split at h
  · cases h
  split at h
  · cases h
  rename_i harrow hcolon
  -- What is left are the kinds that can be operands.
  have hoperand : t.isOperand = true := by
    rw [Token.isOperand]
    cases hk : t.kind with
    | word => rfl
    | bracketed => rfl
    | newline => exact absurd hk hn
    | indent => exact absurd hk hi
    | space => exact absurd hk hs
    | arrow => exact absurd (beq_iff_eq.mpr hk) harrow
    | colon => exact absurd (beq_iff_eq.mpr hk) hcolon
  have hheader := ht.headerValue hoperand
  split at h
  · split at h
    · cases h
      exact hheader
    · cases h
      exact hheader
  split at h
  · split at h
    · rename_i hcall
      cases h
      simp only [Bool.and_eq_true, beq_iff_eq] at hcall
      obtain ⟨⟨hword, hbracketed⟩, -⟩ := hcall
      have htext : t.text = t.value := by simp [Token.value, hword]
      cases rest with
      | nil => cases hbracketed
      | cons u us =>
        have hu : u.kind = .bracketed := Option.some.inj hbracketed
        refine ⟨htext ▸ hheader, ?_⟩
        exact (hrest u List.mem_cons_self).headerValue (by simp [Token.isOperand, hu])
    split at h
    · cases h
      exact ⟨hheader, by decide⟩
    · cases h
  split at h
  · cases h
    exact hheader
  · exact sound_of_readInState ht hoperand hrest h

end Statements

/-! ## Instructions -/

/-- All open blocks have words as values. -/
structure Scope.Sound (s : Scope) : Prop where
  state : ∀ b ∈ s.state, IsWord b.value
  read : ∀ b ∈ s.read, IsWord b.value

/-- All words of an instruction are words. -/
structure Instruction.Sound (i : Instruction) : Prop where
  state : IsWord i.state
  cell : IsWord i.cell
  directive : i.directive.Sound

/-- Leaving blocks opens none. -/
lemma Scope.Sound.leave {s : Scope} (h : s.Sound) (depth : ℕ) : (s.leave depth).Sound := by
  have hnone : Scope.Sound { s with read := none } := ⟨h.state, by simp⟩
  unfold Scope.leave
  split
  · split
    · exact ⟨by simp, by simp⟩
    split
    · split
      · exact hnone
      · exact h
    · exact h
  · split
    · split
      · exact hnone
      · exact h
    · exact h

/-- The scope of a statement is sound. -/
lemma Scope.Sound.atStatement {p : Point} (h : p.scope.Sound) : p.atStatement.scope.Sound := by
  unfold Point.atStatement
  split
  · exact h.leave p.depth
  · exact h

/-- A sound statement opens sound blocks. -/
lemma Scope.Sound.enter {p : Point} (h : p.scope.Sound) {s : Statement} (hs : s.Sound) :
    (p.enter s).scope.Sound := by
  cases s with
  | openState name =>
    refine ⟨?_, by simp [Point.enter]⟩
    rintro b ⟨⟩
    exact hs
  | openStateRead name symbol =>
    refine ⟨?_, ?_⟩
    · rintro b ⟨⟩
      exact hs.1
    · rintro b ⟨⟩
      exact hs.2
  | openRead symbol =>
    refine ⟨h.state, ?_⟩
    rintro b ⟨⟩
    exact hs
  | directive d => exact h
  | nothing => exact h

/-- A sound directive in a sound scope gives a sound instruction. -/
lemma Scope.Sound.instruction {scope : Scope} (h : scope.Sound) {s : Statement} (hs : s.Sound)
    {line : ℤ} {i : Instruction} (hi : i ∈ scope.instruction? line s) : i.Sound := by
  cases s with
  | directive d =>
    obtain ⟨state, read⟩ := scope
    cases state with
    | none => cases hi
    | some b =>
      cases read with
      | none => cases hi
      | some r =>
        cases hi
        exact ⟨h.state b rfl, h.read r rfl, hs⟩
  | openState name => cases hi
  | openStateRead name symbol => cases hi
  | openRead symbol => cases hi
  | nothing => cases hi

/-- Reading sound tokens from a sound scope on gives sound instructions. -/
theorem Reads.sound {p q : Point} {ts us : List Token} {is : List Instruction}
    (h : Reads p ts is q us) (hp : p.scope.Sound)
    (hts : ∀ t ∈ ts, t.Sound ∧ t.kind ≠ .space) : ∀ i ∈ is, i.Sound := by
  induction h with
  | refl p ts =>
    intro i hi
    cases hi
  | newline ht _ ih => exact ih hp fun t ht => hts t (List.mem_cons_of_mem _ ht)
  | indent ht _ ih => exact ih hp fun t ht => hts t (List.mem_cons_of_mem _ ht)
  | @statement p q t ts us s taken is hn hi hs _ ih =>
    obtain ⟨hsound, hspace⟩ := hts t List.mem_cons_self
    have hrest : ∀ u ∈ ts, u.Sound ∧ u.kind ≠ .space :=
      fun u hu => hts u (List.mem_cons_of_mem _ hu)
    have hstatement := sound_of_readStatement hsound hn hi hspace (fun u hu => (hrest u hu).1) hs
    intro i hmem
    rcases List.mem_append.mp hmem with hmem | hmem
    · exact hp.atStatement.instruction hstatement (Option.mem_toList.mp hmem)
    · exact ih (hp.atStatement.enter hstatement)
        (fun u hu => hrest u (List.mem_of_mem_drop hu)) i hmem

/-- The instructions of sound tokens are sound. -/
lemma sound_of_instructions {ts : List Token} {is : List Instruction} (hts : ∀ t ∈ ts, t.Sound)
    (h : instructions ts = .ok is) : ∀ i ∈ is, i.Sound := by
  obtain ⟨q, hreads⟩ := readFrom_eq_ok_iff.mp h
  refine hreads.sound ⟨by simp, by simp⟩ fun t ht => ?_
  obtain ⟨hmem, hkind⟩ := List.mem_filter.mp ht
  exact ⟨hts t hmem, by simpa using hkind⟩

/-! ## Tables -/

/-- The names and symbols of a transition are words. -/
structure Named (r : Transition) : Prop where
  state : IsWord r.state
  read : IsWord r.read
  write : IsWord r.write
  next : IsWord r.next

/-- What was said is a word, and so is the default. -/
lemma isWord_getD {o : Option String} {default : String} (hd : IsWord default)
    (h : ∀ s ∈ o, IsWord s) : IsWord (o.getD default) := by
  cases o with
  | none => exact hd
  | some s => exact h s rfl

/-- The entries of sound instructions are transitions with words for names. -/
lemma named_of_sound {is : List Instruction} (his : ∀ i ∈ is, i.Sound) :
    ∀ r ∈ (Draft.ofInstructions is).transitions, Named r := by
  intro r hr
  obtain ⟨e, he, rfl⟩ := List.mem_map.mp hr
  have hsaid := Draft.said_of_mem_entries he
  obtain ⟨i, hi, hstate, hcell⟩ := hsaid.mention
  have hs : IsWord e.state := hstate ▸ (his i hi).state
  have hc : IsWord e.cell := hcell ▸ (his i hi).cell
  refine ⟨hs, hc, isWord_getD (by decide) ?_, isWord_getD hs ?_⟩
  · intro w hw
    obtain ⟨j, hj, hd⟩ := hsaid.write w hw
    have hsound := (his j hj).directive
    rwa [hd] at hsound
  · intro q hq
    obtain ⟨j, hj, hd⟩ := hsaid.goto q hq
    have hsound := (his j hj).directive
    rwa [hd] at hsound

/-- All names and symbols of a draft are words. -/
theorem named_of_draft {text : List Char} {d : Draft} (h : draft text = .ok d) :
    ∀ r ∈ d.transitions, Named r := by
  obtain ⟨ts, is, hts, his, rfl⟩ := draft_eq_ok_iff.mp h
  exact named_of_sound (sound_of_instructions (sound_of_programTokens hts) his)

/-- The names and symbols of a compiled table are words, and it starts in the state that was asked
for or in that of its first transition. -/
lemma named_of_compile {source start : String} {t : Table} (h : compile source start = .ok t) :
    (∀ r ∈ t.transitions, Named r) ∧
      t.initial = if start = "" then (t.transitions.head?.map (·.state)).getD "" else start := by
  obtain ⟨is, hdraft, -, rfl⟩ := compile_eq_ok_iff.mp h
  have htransitions := (Draft.ofInstructions is).flatMap_tableGroups
  rw [Table.transitions, htransitions]
  exact ⟨named_of_draft hdraft, rfl⟩

end TapeMachine.Program
