import Mathlib.Tactic.Common
import TapeMachine.Program.Instruction

/-!
# Reading tokens, statement by statement

`Reads p ts is q us` says that the reader, at the point `p` with the tokens `ts` before it, comes to
the point `q` with the tokens `us` before it and has found the instructions `is` on the way. What
follows is always part of the statement, since the meaning of a word depends on the one or two
tokens behind it. The instructions of a program are those found on the way to the end of its tokens
(`readFrom_eq_ok_iff`).
-/

namespace TapeMachine.Program

/-- The point at the start of the next line. -/
def Point.nextLine (p : Point) : Point :=
  { p with depth := 0, lineStart := true }

/-- The reader comes from one point to another, and finds some instructions on the way. -/
inductive Reads : Point → List Token → List Instruction → Point → List Token → Prop
  | refl (p : Point) (ts : List Token) : Reads p ts [] p ts
  | newline {p q : Point} {t : Token} {ts us : List Token} {is : List Instruction}
      (ht : t.kind = .newline) (h : Reads p.nextLine ts is q us) : Reads p (t :: ts) is q us
  | indent {p q : Point} {t : Token} {ts us : List Token} {is : List Instruction}
      (ht : t.kind = .indent) (h : Reads { p with depth := t.width } ts is q us) :
      Reads p (t :: ts) is q us
  | statement {p q : Point} {t : Token} {ts us : List Token} {s : Statement} {taken : ℕ}
      {is : List Instruction} (hn : t.kind ≠ .newline) (hi : t.kind ≠ .indent)
      (hs : readStatement p.atStatement.scope t ts = .ok (s, taken))
      (h : Reads (p.atStatement.enter s) (ts.drop taken) is q us) :
      Reads p (t :: ts) ((p.atStatement.scope.instruction? t.line s).toList ++ is) q us

/-- Ways can be put together. -/
theorem Reads.trans {p q r : Point} {ts us vs : List Token} {is js : List Instruction}
    (h : Reads p ts is q us) (h' : Reads q us js r vs) : Reads p ts (is ++ js) r vs := by
  induction h with
  | refl p ts => exact h'
  | newline ht _ ih => exact .newline ht (ih h')
  | indent ht _ ih => exact .indent ht (ih h')
  | statement hn hi hs _ ih =>
    rw [List.append_assoc]
    exact .statement hn hi hs (ih h')

/-- One statement is a way. -/
lemma Reads.single {p : Point} {t : Token} {ts : List Token} {s : Statement} {taken : ℕ}
    (hn : t.kind ≠ .newline) (hi : t.kind ≠ .indent)
    (hs : readStatement p.atStatement.scope t ts = .ok (s, taken)) :
    Reads p (t :: ts) (p.atStatement.scope.instruction? t.line s).toList (p.atStatement.enter s)
      (ts.drop taken) := by
  have h := Reads.statement hn hi hs (.refl _ _)
  rwa [List.append_nil] at h

/-- The end of a line leads to the start of the next. -/
lemma readFrom_of_newline {p : Point} {t : Token} {ts : List Token} (ht : t.kind = .newline) :
    readFrom p (t :: ts) = readFrom p.nextLine ts := by
  rw [readFrom, ht]
  rfl

/-- Indentation says how deep its line is. -/
lemma readFrom_of_indent {p : Point} {t : Token} {ts : List Token} (ht : t.kind = .indent) :
    readFrom p (t :: ts) = readFrom { p with depth := t.width } ts := by
  rw [readFrom, ht]

/-- A statement comes before what is read behind it. -/
lemma readFrom_of_statement {p : Point} {t : Token} {ts : List Token} {s : Statement} {taken : ℕ}
    (hn : t.kind ≠ .newline) (hi : t.kind ≠ .indent)
    (hs : readStatement p.atStatement.scope t ts = .ok (s, taken)) :
    readFrom p (t :: ts) = (readFrom (p.atStatement.enter s) (ts.drop taken)).map
      (fun js => (p.atStatement.scope.instruction? t.line s).toList ++ js) := by
  rw [readFrom]
  split
  · exact absurd ‹_› hn
  · exact absurd ‹_› hi
  · simp only [hs]
    cases readFrom (p.atStatement.enter s) (ts.drop taken) <;> rfl

/-- Reading ends where no statement can be read. -/
lemma readFrom_of_fault {p : Point} {t : Token} {ts : List Token} {m : Malformed}
    (hn : t.kind ≠ .newline) (hi : t.kind ≠ .indent)
    (hs : readStatement p.atStatement.scope t ts = .error m) :
    readFrom p (t :: ts) = .error (.at t.line (.malformed m)) := by
  rw [readFrom]
  split
  · exact absurd ‹_› hn
  · exact absurd ‹_› hi
  · simp only [hs]

/-- The instructions found on a way come before those at its end. -/
theorem Reads.readFrom_eq {p q : Point} {ts us : List Token} {is : List Instruction}
    (h : Reads p ts is q us) : readFrom p ts = (readFrom q us).map (fun js => is ++ js) := by
  induction h with
  | refl p ts => cases readFrom p ts <;> rfl
  | newline ht _ ih => rw [readFrom_of_newline ht, ih]
  | indent ht _ ih => rw [readFrom_of_indent ht, ih]
  | @statement p q t ts us s taken is hn hi hs _ ih =>
    rw [readFrom_of_statement hn hi hs, ih]
    cases readFrom q us with
    | error e => rfl
    | ok js =>
      change Except.ok (_ ++ (is ++ js)) = Except.ok ((_ ++ is) ++ js)
      rw [List.append_assoc]

/-- Tokens have instructions exactly when the reader comes to their end and finds these. -/
theorem readFrom_eq_ok_iff {p : Point} {ts : List Token} {is : List Instruction} :
    readFrom p ts = .ok is ↔ ∃ q, Reads p ts is q [] := by
  constructor
  · intro h
    fun_induction readFrom p ts generalizing is with
    | case1 p =>
      cases h
      exact ⟨p, .refl p []⟩
    | case2 p t ts ht ih =>
      obtain ⟨q, hq⟩ := ih h
      exact ⟨q, .newline ht hq⟩
    | case3 p t ts ht ih =>
      obtain ⟨q, hq⟩ := ih h
      exact ⟨q, .indent ht hq⟩
    | case4 => cases h
    | case5 => cases h
    | case6 p t ts _ s taken hs js hjs hn hi =>
      rename_i ih
      cases h
      obtain ⟨q, hq⟩ := ih hjs
      exact ⟨q, .statement hn hi hs hq⟩
  · rintro ⟨q, hq⟩
    rw [hq.readFrom_eq, readFrom]
    change Except.ok (is ++ []) = Except.ok is
    rw [List.append_nil]

/-! ## Points -/

/-- A line that is not indented is outside every block. -/
@[simp] lemma Scope.leave_zero (s : Scope) : s.leave 0 = {} := by
  obtain ⟨state, read⟩ := s
  cases state with
  | some b => simp [leave]
  | none => cases read <;> simp [leave]

/-- The first statement of a line leaves the blocks that the line is not within. -/
@[simp] lemma Point.atStatement_true (s : Scope) (depth : ℕ) :
    Point.atStatement ⟨s, depth, true⟩ = ⟨s.leave depth, depth, false⟩ := rfl

/-- Going to the same statement twice makes no difference. -/
@[simp] lemma Point.atStatement_atStatement (p : Point) :
    p.atStatement.atStatement = p.atStatement := by
  obtain ⟨s, depth, lineStart⟩ := p
  cases lineStart <;> rfl

end TapeMachine.Program
