import TapeMachine.Proofs.Program.FaultLines

/-!
# Lines under other numbers

What becomes of the stages of the compiler when lines get other numbers. `Moves move R x x'`
compares two answers: the results are related by `R`, or the fault is the same and its line has
moved.

The stages that count lines count from a number that they are given, so a text that starts some
lines further down has its tokens and its faults there (`Cursor.moves_tokens`, `moves_expandFrom`).
The other stages hand lines on without looking at them, so any change of the lines of tokens is a
change of the lines of instructions, of entries and of faults (`moves_readFrom`,
`Draft.table_relined`).
-/

namespace TapeMachine.Program

open Text

/-! ## Answers at other lines -/

/-- A fault whose line has moved. -/
def Error.relined (move : ℤ → ℤ) : Error → Error
  | .at line cause => .at (move line) cause
  | .namelessCall => .namelessCall
  | .endless => .endless

/-- Two answers are related results, or a fault and the same fault at the line it has moved to. -/
inductive Moves {α β : Type} (move : ℤ → ℤ) (R : α → β → Prop) :
    Except Error α → Except Error β → Prop
  | ok {a : α} {b : β} (h : R a b) : Moves move R (.ok a) (.ok b)
  | error (e : Error) : Moves move R (.error e) (.error (e.relined move))

namespace Moves

variable {α β γ δ : Type} {move move' : ℤ → ℤ} {R : α → β → Prop} {S : γ → δ → Prop}
  {x : Except Error α} {y : Except Error β}

/-- A stage that keeps related results related keeps answers so. -/
lemma bind (h : Moves move R x y) {f : α → Except Error γ} {g : β → Except Error δ}
    (hfg : ∀ a b, x = .ok a → y = .ok b → R a b → Moves move S (f a) (g b)) :
    Moves move S (x >>= f) (y >>= g) := by
  cases h with
  | ok h => exact hfg _ _ rfl rfl h
  | error e => exact .error e

/-- Functions that keep the relation can be applied to both sides. -/
lemma map (h : Moves move R x y) {f : α → γ} {g : β → δ}
    (hfg : ∀ a b, x = .ok a → R a b → S (f a) (g b)) : Moves move S (x.map f) (y.map g) := by
  cases h with
  | ok h => exact .ok (hfg _ _ rfl h)
  | error e => exact .error e

/-- Two moves that agree on the line of the fault, if there is one. -/
lemma congr_move (h : Moves move R x y)
    (he : ∀ e, x = .error e → e.relined move = e.relined move') : Moves move' R x y := by
  cases h with
  | ok h => exact .ok h
  | error e =>
    rw [he e rfl]
    exact .error e

/-- A function that fits the relation can be applied to one side. -/
lemma map_right (h : Moves move R x y) {S : α → δ → Prop} {g : β → δ}
    (hg : ∀ a b, x = .ok a → R a b → S a (g b)) : Moves move S x (y.map g) := by
  cases h with
  | ok h => exact .ok (hg _ _ rfl h)
  | error e => exact .error e

/-- A fault that stays at its line. -/
lemma error_of_relined_eq {e : Error} (h : e.relined move = e) :
    Moves move R (.error e) (.error e) := by
  have he : Moves move R (.error e) (.error (e.relined move)) := .error e
  rwa [h] at he

/-- An answer whose fault, if any, stays at its line. -/
lemma refl (h : ∀ e, x = .error e → e.relined move = e) : Moves move Eq x x := by
  cases x with
  | ok a => exact .ok rfl
  | error e => exact error_of_relined_eq (h e rfl)

/-- Answers that are chosen by the same condition move, if they do so in both cases. -/
lemma ite {b : Prop} [Decidable b] {x x' : Except Error α} {y y' : Except Error β}
    (hpos : Moves move R x y) (hneg : Moves move R x' y') :
    Moves move R (if b then x else x') (if b then y else y') := by
  by_cases hb : b
  · rwa [if_pos hb, if_pos hb]
  · rwa [if_neg hb, if_neg hb]

/-- Answers that differ in the line of the fault only have equal results. -/
lemma mapError (x : Except Error α) : Moves move Eq x (x.mapError (Error.relined move)) := by
  cases x with
  | ok a => exact .ok rfl
  | error e => exact .error e

/-- Answers that move alike and are equal when they are good differ in the line of a fault only. -/
lemma eq_mapError {x y : Except Error α} (h : Moves move Eq x y) :
    y = x.mapError (Error.relined move) := by
  cases h with
  | ok h => exact congrArg Except.ok h.symm
  | error e => rfl

end Moves

/-! ## Stages that count lines -/

/-- A token whose line has moved; no line moves below zero. -/
def Token.relined (move : ℤ → ℤ) (t : Token) : Token :=
  { t with line := (move t.line).toNat }

/-- The same place, some lines further down. -/
def Cursor.lower (d : ℕ) (p : Cursor) : Cursor :=
  { p with line := p.line + d }

/-- The same step, some lines further down. -/
def Step.lower (d : ℕ) (s : Step) : Step :=
  ⟨s.token.map (Token.relined (· + (d : ℤ))), s.next.lower d⟩

namespace Cursor

/-- Blanks are read alike further down. -/
lemma blanks_lower (p : Cursor) (d : ℕ) (c : Char) (cs : List Char) :
    (p.lower d).blanks c cs = (p.blanks c cs).lower d := by
  unfold blanks
  simp only [lower, apply_ite (Step.lower d)]
  rfl

/-- A step looks at no line, and counts the one that it ends. -/
lemma moves_step (p : Cursor) (d : ℕ) (c : Char) (cs : List Char) :
    Moves (· + (d : ℤ)) (fun s s' => s' = s.lower d) (p.step c cs) ((p.lower d).step c cs) := by
  have hfound : ∀ kind text rest, Moves (· + (d : ℤ)) (fun s s' => s' = s.lower d)
      (p.found kind text rest) ((p.lower d).found kind text rest) :=
    fun kind text rest => .ok rfl
  have hskip : Moves (· + (d : ℤ)) (fun s s' => s' = s.lower d) (p.skip cs) ((p.lower d).skip cs) :=
    .ok rfl
  have hfault : ∀ m, Moves (· + (d : ℤ)) (fun s s' => s' = Step.lower d s)
      (.error (.at p.line (.malformed m))) (.error (.at (p.lower d).line (.malformed m))) := by
    intro m
    have hline : ((p.lower d).line : ℤ) = p.line + d := Int.natCast_add p.line d
    rw [hline]
    exact .error (.at p.line (.malformed m))
  unfold step
  refine .ite hskip (.ite (.ok ?newline) (.ite (.ok (blanks_lower p d c cs)) (.ite ?hyphen
    (.ite (hfound _ _ _) (.ite ?bracket (.ite (hfault _) (.ite (hfault _) (.ite hskip
      (hfound _ _ _)))))))))
  case newline =>
    have hline : p.line + d + 1 = p.line + 1 + d := by omega
    simp only [Step.lower, lower, Token.relined, Option.map_some, hline]
    rfl
  case hyphen =>
    split
    · exact hfound _ _ _
    · exact hfound _ _ _
  case bracket =>
    unfold bracket
    split
    · exact .ite (hfault _) (hfound _ _ _)
    · exact hfault _

/-- A text some lines further down has its tokens there. -/
theorem moves_tokens (p : Cursor) (d : ℕ) :
    Moves (· + (d : ℤ)) (fun ts us => us = ts.map (Token.relined (· + (d : ℤ)))) p.tokens
      (p.lower d).tokens := by
  induction hn : p.rest.length using Nat.strong_induction_on generalizing p with
  | _ n ih =>
    subst hn
    cases hr : p.rest with
    | nil =>
      have hlower : (p.lower d).tokens = .ok [] := tokens_of_rest_eq_nil hr
      rw [tokens_of_rest_eq_nil hr, hlower]
      exact .ok rfl
    | cons c cs =>
      have hstep := moves_step p d c cs
      generalize hx : p.step c cs = x at hstep
      generalize hy : (p.lower d).step c cs = y at hstep
      cases hstep with
      | error e =>
        have hlower : (p.lower d).tokens = .error (e.relined _) := tokens_of_error hr hy
        rw [tokens_of_error hr hx, hlower]
        exact .error e
      | @ok s s' hs =>
        subst hs
        by_cases hlt : s.next.rest.length < (c :: cs).length
        · have hlower : (p.lower d).tokens = _ := tokens_of_step hr hy hlt
          rw [tokens_of_step hr hx hlt, hlower]
          refine (ih s.next.rest.length (hr ▸ hlt) s.next rfl).map fun ts us _ hus => ?_
          have htoken :
              (s.lower d).token.toList = s.token.toList.map (Token.relined (· + (d : ℤ))) :=
            Option.toList_map
          rw [hus, List.map_append, htoken]
        · have hlower : (p.lower d).tokens = _ := tokens_of_not_lt hr hy hlt
          rw [tokens_of_not_lt hr hx hlt, hlower]
          exact .error .endless

end Cursor

/-- Calls some lines further down are replaced by the same, or cannot be replaced there. -/
lemma moves_expandFrom (ts : List Template) (d line skip : ℕ) (text : List Char) :
    Moves (· + (d : ℤ)) Eq (expandFrom ts line skip text)
      (expandFrom ts (line + d) skip text) := by
  have hnext : ∀ (line : ℕ) (c : Char), (if c == '\n' then line + d + 1 else line + d) =
      (if c == '\n' then line + 1 else line) + d := by
    intro line c
    split
    · omega
    · rfl
  induction line, skip, text using replacing_induction with
  | nil line skip =>
    rw [expandFrom, expandFrom]
    exact .ok rfl
  | skipped line skip c cs ih =>
    rw [expandFrom, expandFrom, hnext]
    exact ih
  | kept line c cs hnone ih =>
    rw [expandFrom_kept hnone, expandFrom_kept hnone, hnext]
    exact ih.map fun _ _ _ heq => heq ▸ rfl
  | call line cs inner hsome ih =>
    rw [expandFrom_call hsome, expandFrom_call hsome]
    cases words inner with
    | nil => exact .error .namelessCall
    | cons name args =>
      simp only
      cases findTemplate? ts name with
      | none =>
        simp only [Int.natCast_add]
        exact .error (.at line (.undefinedTemplate name))
      | some t => exact ih.map fun _ _ _ heq => heq ▸ rfl

/-! ## Stages that hand lines on -/

section HandedOn

variable {move : ℤ → ℤ}

/-- The kind of the next token does not depend on its line. -/
lemma kind?_map_relined (ts : List Token) : kind? (ts.map (Token.relined move)) = kind? ts := by
  cases ts <;> rfl

/-- The next operand is the same but for its line. -/
lemma operand?_map_relined (ts : List Token) :
    operand? (ts.map (Token.relined move)) = (operand? ts).map (Token.relined move) := by
  cases ts with
  | nil => rfl
  | cons t ts =>
    rw [operand?, apply_ite (Option.map (Token.relined move))]
    rfl

/-- A directive does not depend on its line. -/
lemma readDirective_relined (t : Token) (ts : List Token) :
    readDirective (t.relined move) (ts.map (Token.relined move)) = readDirective t ts := by
  unfold readDirective
  rw [operand?_map_relined]
  cases operand? ts <;> rfl

/-- What tokens say does not depend on their lines. -/
lemma readStatement_relined (s : Scope) (t : Token) (ts : List Token) :
    readStatement s (t.relined move) (ts.map (Token.relined move)) = readStatement s t ts := by
  have htail : (ts.map (Token.relined move)).tail = ts.tail.map (Token.relined move) :=
    List.map_tail.symm
  have hinState : ∀ state read,
      readInState state read (t.relined move) (ts.map (Token.relined move)) =
        readInState state read t ts := by
    intro state read
    unfold readInState
    rw [operand?_map_relined, htail, kind?_map_relined, readDirective_relined]
    cases operand? ts <;> rfl
  have hhead : (ts.map (Token.relined move)).head?.map Token.value = ts.head?.map Token.value := by
    cases ts <;> rfl
  unfold readStatement
  simp only [htail, kind?_map_relined, hinState, hhead]
  rfl

/-- A statement gives the same instruction but for its line. -/
lemma Scope.instruction?_relined (s : Scope) (line : ℤ) (st : Statement) :
    s.instruction? (move line) st = (s.instruction? line st).map (Instruction.relined move) := by
  unfold instruction?
  split
  · split
    · rfl
    · rfl
  · rfl

/-- Tokens at other lines are read as the same instructions there. -/
theorem moves_readFrom (hmove : ∀ n : ℕ, 0 ≤ move n) (p : Point) (ts : List Token) :
    Moves move (fun is js => js = is.map (Instruction.relined move)) (readFrom p ts)
      (readFrom p (ts.map (Token.relined move))) := by
  induction hn : ts.length using Nat.strong_induction_on generalizing p ts with
  | _ n ih =>
    subst hn
    cases ts with
    | nil =>
      rw [List.map_nil, readFrom]
      exact .ok rfl
    | cons t ts =>
      rw [List.map_cons]
      by_cases hnewline : t.kind = .newline
      · rw [readFrom_of_newline hnewline, readFrom_of_newline (t := t.relined move) hnewline]
        exact ih _ (Nat.lt_succ_self _) _ _ rfl
      by_cases hindent : t.kind = .indent
      · rw [readFrom_of_indent hindent, readFrom_of_indent (t := t.relined move) hindent]
        exact ih _ (Nat.lt_succ_self _) _ _ rfl
      have hline : ((t.relined move).line : ℤ) = move t.line := Int.toNat_of_nonneg (hmove t.line)
      have hstatement : readStatement p.atStatement.scope (t.relined move)
          (ts.map (Token.relined move)) = _ := readStatement_relined p.atStatement.scope t ts
      cases hs : readStatement p.atStatement.scope t ts with
      | error m =>
        rw [hs] at hstatement
        rw [readFrom_of_fault hnewline hindent hs,
          readFrom_of_fault (t := t.relined move) hnewline hindent hstatement]
        rw [hline]
        exact .error (.at t.line (.malformed m))
      | ok r =>
        obtain ⟨s, taken⟩ := r
        rw [hs] at hstatement
        rw [readFrom_of_statement hnewline hindent hs,
          readFrom_of_statement (t := t.relined move) hnewline hindent hstatement, ← List.map_drop]
        have hlength : (ts.drop taken).length < (t :: ts).length := by
          simp only [List.length_drop, List.length_cons]
          omega
        refine (ih _ hlength _ _ rfl).map fun is js _ hjs => ?_
        have hinstruction : p.atStatement.scope.instruction? (t.relined move).line s =
            (p.atStatement.scope.instruction? t.line s).map (Instruction.relined move) := by
          rw [hline, Scope.instruction?_relined]
        rw [hjs, List.map_append, hinstruction, Option.toList_map]

/-- Replacing keywords keeps to their lines. -/
lemma normalize_map_relined (ts : List Token) :
    normalize (ts.map (Token.relined move)) = (normalize ts).map (Token.relined move) := by
  have hnormal : ∀ t : Token, (t.relined move).normal = t.normal.map (Token.relined move) := by
    intro t
    unfold Token.normal
    simp only [apply_ite (List.map (Token.relined move))]
    rfl
  unfold normalize
  rw [List.flatMap_map, List.map_flatMap]
  simp only [hnormal]

end HandedOn

/-- A draft with other lines makes the same table, or is refused at another line. -/
theorem Draft.table_relined (d : Draft) (move : ℤ → ℤ) :
    (d.relined move).table = d.table.mapError (Error.relined move) := by
  have hadd : ∀ (t : Table) (es : List Entry), addEntries t (es.map (Entry.relined move)) =
      (addEntries t es).mapError (Error.relined move) := by
    intro t es
    induction es generalizing t with
    | nil => rfl
    | cons e es ih =>
      have htransition : (e.relined move).transition = e.transition := rfl
      rw [List.map_cons, addEntries, addEntries, htransition]
      cases t.add e.transition with
      | error r => rfl
      | ok t => exact ih t
  have hentries : (d.relined move).entries = d.entries.map (Entry.relined move) := by
    unfold entries relined
    rw [List.flatMap_map, List.map_flatMap]
  rw [table, table, hentries, hadd]

end TapeMachine.Program
