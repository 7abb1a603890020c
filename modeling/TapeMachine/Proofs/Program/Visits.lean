import TapeMachine.Proofs.Program.Reading

/-!
# The statements that a reader comes to

`visits ts` are the statements that the reader of the tokens `ts` comes to, in order, up to and
with the first one that it cannot read. Each `Visit` keeps where its statement stands among the
tokens, what it says and which instruction it gives. Wherever a way of the reader leads to a
statement, that statement is among the visits (`exists_visits_of_reads`). The instructions of a
program are those that its visits give (`filterMap_gives_visits`), and a visit that cannot be read
is the fault of the program (`readFrom_of_mem_visitsFrom`).

A statement that can be read takes no token beyond its line (`of_readStatement_eq_ok`).
-/

namespace TapeMachine.Program

/-! ## Statements -/

/-- A token that neither ends a line nor indents one. -/
def Token.InLine (t : Token) : Prop :=
  t.kind ≠ .newline ∧ t.kind ≠ .indent

/-- Where a statement can stand: a state is opened outside state blocks and a read block inside one,
and everything else stands inside both. -/
def Statement.Fits (s : Scope) : Statement → Prop
  | .openState _ => s.state = none
  | .openStateRead _ _ => s.state = none
  | .openRead _ => s.state ≠ none
  | .directive _ => s.state ≠ none ∧ s.read ≠ none
  | .nothing => s.state ≠ none ∧ s.read ≠ none

section Statements

variable {s : Scope} {t : Token} {rest : List Token} {st : Statement} {taken : ℕ} {k : Kind}

/-- A token of another kind than newlines and indents stands in the line. -/
lemma inLine_of_kind? (h : kind? rest = some k) (hk : k ≠ .newline ∧ k ≠ .indent) :
    ∀ u ∈ rest.take 1, u.InLine := by
  cases rest with
  | nil => cases h
  | cons u rest =>
    have hu : u.kind = k := Option.some.inj h
    simpa [Token.InLine, hu] using hk

/-- A header may take an arrow or a colon behind its symbol. -/
lemma inLine_of_opener (h : ∀ u ∈ rest.take 1, u.InLine)
    (hopener : kind? rest.tail = some .arrow ∨ kind? rest.tail = some .colon) :
    ∀ u ∈ rest.take 2, u.InLine := by
  have htail : ∀ u ∈ rest.tail.take 1, u.InLine := by
    rcases hopener with hk | hk
    · exact inLine_of_kind? hk (by decide)
    · exact inLine_of_kind? hk (by decide)
  intro u hu
  cases rest with
  | nil => cases hu
  | cons v rest =>
    rcases List.mem_cons.mp hu with rfl | hu
    · exact h u List.mem_cons_self
    · exact htail u hu

/-- An operand stands in the line. -/
lemma inLine_of_operand? {o : Token} (h : operand? rest = some o) :
    ∀ u ∈ rest.take 1, u.InLine := by
  cases rest with
  | nil => cases h
  | cons u rest =>
    rw [operand?] at h
    split at h
    · rename_i hu
      simp only [Token.isOperand, Bool.or_eq_true, beq_iff_eq] at hu
      rcases hu with hu | hu <;> simp [Token.InLine, hu]
    · cases h

/-- A directive takes its operand, if it has one, and nothing else. -/
lemma of_readDirective_eq_ok (h : readDirective t rest = .ok (st, taken)) :
    ((∃ d, st = .directive d) ∨ st = .nothing) ∧ ∀ u ∈ rest.take taken, u.InLine := by
  unfold readDirective at h
  cases ho : operand? rest with
  | none =>
    simp only [ho] at h
    have hjump : st = .directive (.goto (destination t.value)) ∧ taken = 0 := by grind
    obtain ⟨rfl, rfl⟩ := hjump
    exact ⟨.inl ⟨_, rfl⟩, by simp⟩
  | some o =>
    simp only [ho] at h
    have hone := inLine_of_operand? ho
    grind

/-- A statement that can be read stands where it can, and takes no token beyond its line. -/
theorem of_readStatement_eq_ok (h : readStatement s t rest = .ok (st, taken)) :
    st.Fits s ∧ ∀ u ∈ rest.take taken, u.InLine := by
  unfold readStatement at h
  split at h
  · cases h
  split at h
  · cases h
  split at h
  · rename_i hcolon
    have hline := inLine_of_kind? (beq_iff_eq.mp hcolon) (by decide)
    split at h
    · rename_i hstate
      cases h
      exact ⟨hstate, hline⟩
    · rename_i b hstate
      cases h
      exact ⟨by simp [Statement.Fits, hstate], hline⟩
  split at h
  · rename_i hstate
    split at h
    · rename_i hform
      cases h
      simp only [Bool.and_eq_true, Bool.or_eq_true, beq_iff_eq] at hform
      obtain ⟨⟨-, hbracketed⟩, hopener⟩ := hform
      exact ⟨hstate, inLine_of_opener (inLine_of_kind? hbracketed (by decide)) hopener⟩
    split at h
    · rename_i harrow
      cases h
      exact ⟨hstate, inLine_of_kind? (beq_iff_eq.mp harrow) (by decide)⟩
    · cases h
  · rename_i b hstate
    have hsome : s.state ≠ none := by simp [hstate]
    split at h
    · rename_i harrow
      cases h
      exact ⟨hsome, inLine_of_kind? (beq_iff_eq.mp harrow) (by decide)⟩
    unfold readInState at h
    split at h
    · cases ho : operand? rest with
      | none =>
        rw [ho] at h
        cases h
      | some o =>
        rw [ho] at h
        have hline := inLine_of_operand? ho
        cases h
        refine ⟨hsome, ?_⟩
        split
        · rename_i hopener
          simp only [Bool.or_eq_true, beq_iff_eq] at hopener
          exact inLine_of_opener hline hopener.symm
        · exact hline
    split at h
    · cases h
    · rename_i hread
      have hread' : s.read ≠ none := by simpa using hread
      obtain ⟨⟨d, rfl⟩ | rfl, hline⟩ := of_readDirective_eq_ok h
      · exact ⟨⟨hsome, hread'⟩, hline⟩
      · exact ⟨⟨hsome, hread'⟩, hline⟩

end Statements

/-! ## The statements that a reader comes to -/

/-- A statement that a reader comes to: the tokens before it, its first token and the tokens behind
that one, what it says, and the instruction that it gives. -/
structure Visit where
  before : List Token
  token : Token
  after : List Token
  meaning : Except Malformed Statement
  gives : Option Instruction

/-- What a reader makes of the statement at a token. -/
def Point.visit (p : Point) (before : List Token) (t : Token) (rest : List Token) : Visit where
  before
  token := t
  after := rest
  meaning := (readStatement p.atStatement.scope t rest).map Prod.fst
  gives :=
    match readStatement p.atStatement.scope t rest with
    | .error _ => none
    | .ok (s, _) => p.atStatement.scope.instruction? t.line s

/-- The statements that a reader comes to, one after the other. It does not go on behind one that it
cannot read. -/
def visitsFrom (p : Point) (before : List Token) : List Token → List Visit
  | [] => []
  | t :: rest =>
    match t.kind with
    | .newline => visitsFrom p.nextLine (before ++ [t]) rest
    | .indent => visitsFrom { p with depth := t.width } (before ++ [t]) rest
    | _ =>
      p.visit before t rest ::
        match readStatement p.atStatement.scope t rest with
        | .error _ => []
        | .ok (s, taken) =>
          visitsFrom (p.atStatement.enter s) (before ++ t :: rest.take taken) (rest.drop taken)
termination_by ts => ts.length
decreasing_by
  all_goals simp only [List.length_cons, List.length_drop]; omega

/-- The statements that the reader of a program comes to. -/
def visits (ts : List Token) : List Visit :=
  visitsFrom {} [] (ts.filter fun t => t.kind != .space)

section Visits

variable {p : Point} {before rest ts : List Token} {t : Token} {v : Visit}

/-- The statements behind the end of a line. -/
lemma visitsFrom_of_newline (ht : t.kind = .newline) :
    visitsFrom p before (t :: rest) = visitsFrom p.nextLine (before ++ [t]) rest := by
  rw [visitsFrom, ht]

/-- An indent is not visited: it sets the depth. -/
lemma visitsFrom_of_indent (ht : t.kind = .indent) :
    visitsFrom p before (t :: rest) =
      visitsFrom { p with depth := t.width } (before ++ [t]) rest := by
  rw [visitsFrom, ht]

/-- A statement is visited at its first token, and its other tokens are not. -/
lemma visitsFrom_of_statement {s : Statement} {taken : ℕ} (ht : t.InLine)
    (hs : readStatement p.atStatement.scope t rest = .ok (s, taken)) :
    visitsFrom p before (t :: rest) = p.visit before t rest ::
      visitsFrom (p.atStatement.enter s) (before ++ t :: rest.take taken) (rest.drop taken) := by
  rw [visitsFrom]
  split
  · exact absurd ‹_› ht.1
  · exact absurd ‹_› ht.2
  · simp only [hs]

/-- A malformed statement is the last that is visited. -/
lemma visitsFrom_of_fault {m : Malformed} (ht : t.InLine)
    (hs : readStatement p.atStatement.scope t rest = .error m) :
    visitsFrom p before (t :: rest) = [p.visit before t rest] := by
  rw [visitsFrom]
  split
  · exact absurd ‹_› ht.1
  · exact absurd ‹_› ht.2
  · simp only [hs]

/-- Induction on the way of a reader through tokens. -/
@[elab_as_elim]
theorem reading_induction {motive : Point → List Token → List Token → Prop}
    (nil : ∀ p before, motive p before [])
    (newline : ∀ p before t rest, t.kind = .newline →
      motive p.nextLine (before ++ [t]) rest → motive p before (t :: rest))
    (indent : ∀ p before t rest, t.kind = .indent →
      motive { p with depth := t.width } (before ++ [t]) rest → motive p before (t :: rest))
    (statement : ∀ p before t rest s taken, t.InLine →
      readStatement p.atStatement.scope t rest = .ok (s, taken) →
      motive (p.atStatement.enter s) (before ++ t :: rest.take taken) (rest.drop taken) →
      motive p before (t :: rest))
    (fault : ∀ p before t rest m, t.InLine →
      readStatement p.atStatement.scope t rest = .error m → motive p before (t :: rest))
    (p : Point) (before ts : List Token) : motive p before ts := by
  induction hn : ts.length using Nat.strongRecOn generalizing p before ts with
  | _ n ih =>
    subst hn
    cases ts with
    | nil => exact nil p before
    | cons t rest =>
      by_cases hnewline : t.kind = .newline
      · exact newline p before t rest hnewline (ih _ (Nat.lt_succ_self _) _ _ _ rfl)
      by_cases hindent : t.kind = .indent
      · exact indent p before t rest hindent (ih _ (Nat.lt_succ_self _) _ _ _ rfl)
      cases hs : readStatement p.atStatement.scope t rest with
      | error m => exact fault p before t rest m ⟨hnewline, hindent⟩ hs
      | ok r =>
        obtain ⟨s, taken⟩ := r
        have hlength : (rest.drop taken).length < (t :: rest).length := by
          simp only [List.length_drop, List.length_cons]
          omega
        exact statement p before t rest s taken ⟨hnewline, hindent⟩ hs (ih _ hlength _ _ _ rfl)

/-- A statement stands among the tokens where it says. -/
lemma tokens_of_mem_visitsFrom (hv : v ∈ visitsFrom p before ts) :
    v.before ++ v.token :: v.after = before ++ ts := by
  induction p, before, ts using reading_induction with
  | nil p before =>
    rw [visitsFrom] at hv
    cases hv
  | newline p before t rest ht ih =>
    rw [visitsFrom_of_newline ht] at hv
    simpa using ih hv
  | indent p before t rest ht ih =>
    rw [visitsFrom_of_indent ht] at hv
    simpa using ih hv
  | statement p before t rest s taken ht hs ih =>
    rw [visitsFrom_of_statement ht hs] at hv
    rcases List.mem_cons.mp hv with rfl | hv
    · rfl
    · simpa using ih hv
  | fault p before t rest m ht hs =>
    rw [visitsFrom_of_fault ht hs, List.mem_singleton] at hv
    rw [hv]
    rfl

/-- On a way the reader comes to the first of the statements, and finds the instructions that these
give. -/
lemma Reads.visitsFrom_eq {q : Point} {us : List Token} {is : List Instruction}
    (h : Reads p ts is q us) (before : List Token) :
    ∃ vs before', visitsFrom p before ts = vs ++ visitsFrom q before' us ∧
      vs.filterMap Visit.gives = is := by
  induction h generalizing before with
  | refl p ts => exact ⟨[], before, rfl, rfl⟩
  | newline ht _ ih =>
    rw [visitsFrom_of_newline ht]
    exact ih _
  | indent ht _ ih =>
    rw [visitsFrom_of_indent ht]
    exact ih _
  | @statement p q t ts us s taken is hn hi hs _ ih =>
    obtain ⟨vs, before', hvs, rfl⟩ := ih (before ++ t :: ts.take taken)
    have hgives : (p.visit before t ts).gives = p.atStatement.scope.instruction? t.line s := by
      simp only [Point.visit, hs]
    refine ⟨p.visit before t ts :: vs, before', ?_, ?_⟩
    · rw [visitsFrom_of_statement ⟨hn, hi⟩ hs, hvs, List.cons_append]
    · rw [List.filterMap_cons, hgives]
      cases p.atStatement.scope.instruction? t.line s <;> rfl

/-- A statement that cannot be read is the fault of the program. -/
lemma readFrom_of_mem_visitsFrom {m : Malformed} (hv : v ∈ visitsFrom p before ts)
    (hm : v.meaning = .error m) : readFrom p ts = .error (.at v.token.line (.malformed m)) := by
  induction p, before, ts using reading_induction with
  | nil p before =>
    rw [visitsFrom] at hv
    cases hv
  | newline p before t rest ht ih =>
    rw [visitsFrom_of_newline ht] at hv
    rw [readFrom_of_newline ht, ih hv]
  | indent p before t rest ht ih =>
    rw [visitsFrom_of_indent ht] at hv
    rw [readFrom_of_indent ht, ih hv]
  | statement p before t rest s taken ht hs ih =>
    rw [visitsFrom_of_statement ht hs] at hv
    rcases List.mem_cons.mp hv with rfl | hv
    · rw [Point.visit, hs] at hm
      cases hm
    · rw [readFrom_of_statement ht.1 ht.2 hs, ih hv]
      rfl
  | fault p before t rest m' ht hs =>
    rw [visitsFrom_of_fault ht hs, List.mem_singleton] at hv
    subst hv
    rw [Point.visit, hs] at hm
    cases hm
    exact readFrom_of_fault ht.1 ht.2 hs

/-- The reader comes to a statement wherever a way leads to one. -/
lemma exists_visits_of_reads {is : List Instruction} {q : Point}
    (h : Reads {} (ts.filter fun t => t.kind != .space) is q (t :: rest)) (ht : t.InLine) :
    ∃ earlier v later, visits ts = earlier ++ v :: later ∧ v.token = t ∧ v.after = rest ∧
      earlier.filterMap Visit.gives = is := by
  obtain ⟨vs, before, hvs, his⟩ := h.visitsFrom_eq []
  cases hs : readStatement q.atStatement.scope t rest with
  | error m =>
    rw [visitsFrom_of_fault ht hs] at hvs
    exact ⟨vs, _, _, hvs, rfl, rfl, his⟩
  | ok r =>
    rw [visitsFrom_of_statement ht hs] at hvs
    exact ⟨vs, _, _, hvs, rfl, rfl, his⟩

/-- The instructions of a program are those that its statements give. -/
lemma filterMap_gives_visits {is : List Instruction} (h : instructions ts = .ok is) :
    (visits ts).filterMap Visit.gives = is := by
  obtain ⟨q, hq⟩ := readFrom_eq_ok_iff.mp h
  obtain ⟨vs, before, hvs, his⟩ := hq.visitsFrom_eq []
  rw [visits, hvs, visitsFrom, List.append_nil, his]

end Visits

end TapeMachine.Program
