import TapeMachine.Proofs.Program.Visits

/-!
# Which blocks a statement stands in

The reader keeps two open blocks at most. It overwrites them at headers and closes them only when a
line begins. Here the blocks that a statement stands in are read off the statements before it: a
block is *in force* at a statement if it is the last one of its kind that was opened and every line
that begins behind its header, up to the line of the statement, is deeper than the block
(`InForce`); a statement is *within* a state block and a read block if both are in force and the
read block was not opened before the state block (`Within`).

`Agrees` is the invariant of the whole pass: what the reader keeps is what the statements so far
have opened and no later line has closed. It holds at the start, behind the end of a line, behind
indentation and behind each form of statement. Hence a directive is given for the blocks that it is
within, and a statement that is within none and opens none is a fault
(`directives_stand_in_last_blocks`).
-/

namespace TapeMachine.Program

/-! ## Lines -/

/-- The tokens of the line that has been begun, the last one first. -/
def currentLine (before : List Token) : List Token :=
  before.reverse.takeWhile fun t => t.kind != .newline

/-- How deep the line is that has been begun: as deep as its last indentation says. -/
def indentation (before : List Token) : ℕ :=
  ((currentLine before).find? fun t => t.kind == .indent).elim 0 Token.width

/-- Whether the line that has been begun has nothing but indentation so far. -/
def atLineStart (before : List Token) : Bool :=
  (currentLine before).all fun t => t.kind == .indent

section Lines

variable {before us : List Token} {t : Token}

/-- A newline starts a line. -/
lemma currentLine_concat_of_newline (ht : t.kind = .newline) :
    currentLine (before ++ [t]) = [] := by
  rw [currentLine, List.reverse_append, List.reverse_singleton, List.singleton_append,
    List.takeWhile_cons_of_neg (by simp [ht])]

/-- Tokens that are no newlines stand in the current line. -/
lemma currentLine_append (h : ∀ u ∈ us, u.kind ≠ .newline) :
    currentLine (before ++ us) = us.reverse ++ currentLine before := by
  rw [currentLine, List.reverse_append, List.takeWhile_append_of_pos (by simpa using h)]
  rfl

/-- An indent sets the indentation. -/
lemma indentation_concat_of_indent (ht : t.kind = .indent) :
    indentation (before ++ [t]) = t.width := by
  rw [indentation, currentLine_append (by simp [ht])]
  simp [ht]

/-- Behind an indent a line is still at its start. -/
lemma atLineStart_concat_of_indent (ht : t.kind = .indent) :
    atLineStart (before ++ [t]) = atLineStart before := by
  rw [atLineStart, currentLine_append (by simp [ht])]
  simp [ht, atLineStart]

/-- The tokens of a statement do not change how deep their line is. -/
lemma indentation_append (h : ∀ u ∈ us, u.InLine) :
    indentation (before ++ us) = indentation before := by
  have hnone : us.reverse.find? (fun t => t.kind == .indent) = none := by
    rw [List.find?_eq_none]
    exact fun u hu => by simpa using (h u (List.mem_reverse.mp hu)).2
  rw [indentation, currentLine_append fun u hu => (h u hu).1, List.find?_append, hnone,
    Option.none_or]
  rfl

/-- Behind a statement a line is not at its start any more. -/
lemma atLineStart_append (hne : us ≠ []) (h : ∀ u ∈ us, u.InLine) :
    atLineStart (before ++ us) = false := by
  rw [atLineStart, currentLine_append fun u hu => (h u hu).1, List.all_append]
  obtain ⟨u, hu⟩ := List.exists_mem_of_ne_nil us hne
  have hall : us.reverse.all (fun t => t.kind == .indent) = false := by
    rw [List.all_eq_false]
    exact ⟨u, List.mem_reverse.mpr hu, by simpa using (h u hu).2⟩
  rw [hall, Bool.false_and]

end Lines

/-! ## Headers -/

namespace Visit

/-- How deep the line of a statement is. -/
def depth (v : Visit) : ℕ := indentation v.before

/-- Whether a statement is the first one of its line. -/
def beginsLine (v : Visit) : Bool := atLineStart v.before

/-- The state block that a statement opens, as deep as its line. -/
def state? (v : Visit) : Option Block :=
  match v.meaning with
  | .ok (.openState name) => some ⟨name, v.depth⟩
  | .ok (.openStateRead name _) => some ⟨name, v.depth⟩
  | _ => none

/-- The read block that a statement opens: as deep as its line, or four deeper if it is opened
together with its state. -/
def read? (v : Visit) : Option Block :=
  match v.meaning with
  | .ok (.openRead symbol) => some ⟨symbol, v.depth⟩
  | .ok (.openStateRead _ symbol) => some ⟨symbol, v.depth + arrowDepth⟩
  | _ => none

/-- Whether a statement starts with the word `read`. -/
def IsRead (v : Visit) : Prop :=
  v.token.kind = .word ∧ v.token.text = "read".toList

/-- Whether a statement is a header: something with a colon or an arrow behind it, or, outside state
blocks, a state with a symbol in parentheses and a colon or an arrow behind that. -/
def IsHeader (v : Visit) (inState : Prop) : Prop :=
  v.token.kind ≠ .arrow ∧ v.token.kind ≠ .colon ∧
    (kind? v.after = some .colon ∨ kind? v.after = some .arrow ∨
      ¬ inState ∧ v.token.kind = .word ∧ kind? v.after = some .bracketed ∧
        (kind? v.after.tail = some .arrow ∨ kind? v.after.tail = some .colon))

end Visit

/-! ## The rule of indentation -/

/-- The `n`-th of some statements is the last of them that opens a block of a kind, and every line
that begins behind it is deeper. -/
structure OpenIn (block? : Visit → Option Block) (vs : List Visit) (n : ℕ) (b : Block) : Prop where
  header : ∃ v, vs[n]? = some v ∧ block? v = some b
  last : ∀ w ∈ vs.drop (n + 1), block? w = none
  deeper : ∀ w ∈ vs.drop (n + 1), w.beginsLine = true → b.depth < w.depth

/-- The `n`-th of the earlier statements is the last of them that opens a block of a kind, and every
line that begins behind it is deeper, up to the line of the statement `v`. -/
def InForce (block? : Visit → Option Block) (earlier : List Visit) (v : Visit) (n : ℕ) (b : Block) :
    Prop :=
  OpenIn block? earlier n b ∧ (v.beginsLine = true → b.depth < v.depth)

/-- The last state block and the last read block are in force at a statement, and the read block was
not opened before the state block. -/
def Within (earlier : List Visit) (v : Visit) (state read : Block) : Prop :=
  ∃ m n, m ≤ n ∧ InForce Visit.state? earlier v m state ∧ InForce Visit.read? earlier v n read

section OpenIn

variable {block? : Visit → Option Block} {vs : List Visit} {v : Visit} {n : ℕ} {b : Block}

/-- A block that is open was opened at one of the visits. -/
lemma OpenIn.lt_length (h : OpenIn block? vs n b) : n < vs.length := by
  obtain ⟨w, hw, -⟩ := h.header
  exact (List.getElem?_eq_some_iff.mp hw).1

/-- An open block is the last one that was opened. -/
lemma OpenIn.getLast?_eq (h : OpenIn block? vs n b) : (vs.filterMap block?).getLast? = some b := by
  obtain ⟨w, hw, hb⟩ := h.header
  obtain ⟨hn, rfl⟩ := List.getElem?_eq_some_iff.mp hw
  rw [← List.take_append_drop n vs, List.drop_eq_getElem_cons hn, List.filterMap_append,
    List.filterMap_cons_some hb, List.filterMap_eq_nil_iff.mpr h.last, List.getLast?_append]
  rfl

/-- One more statement opens a block, or leaves in force what is in force at it. -/
lemma openIn_concat_iff : OpenIn block? (vs ++ [v]) n b ↔
    (n = vs.length ∧ block? v = some b) ∨ (block? v = none ∧ InForce block? vs v n b) := by
  rcases Nat.lt_trichotomy n vs.length with hn | rfl | hn
  · have hget : (vs ++ [v])[n]? = vs[n]? := List.getElem?_append_left hn
    have hdrop : (vs ++ [v]).drop (n + 1) = vs.drop (n + 1) ++ [v] :=
      List.drop_append_of_le_length hn
    constructor
    · rintro ⟨hheader, hlast, hdeeper⟩
      rw [hget] at hheader
      rw [hdrop, List.forall_mem_append, List.forall_mem_singleton] at hlast hdeeper
      exact .inr ⟨hlast.2, ⟨hheader, hlast.1, hdeeper.1⟩, hdeeper.2⟩
    · rintro (⟨rfl, -⟩ | ⟨hnone, ⟨hheader, hlast, hdeeper⟩, hline⟩)
      · exact absurd hn (Nat.lt_irrefl _)
      · refine ⟨by rwa [hget], ?_, ?_⟩
        · rw [hdrop, List.forall_mem_append, List.forall_mem_singleton]
          exact ⟨hlast, hnone⟩
        · rw [hdrop, List.forall_mem_append, List.forall_mem_singleton]
          exact ⟨hdeeper, hline⟩
  · have hget : (vs ++ [v])[vs.length]? = some v := by simp
    have hdrop : (vs ++ [v]).drop (vs.length + 1) = [] := by simp
    constructor
    · rintro ⟨⟨w, hw, hb⟩, -, -⟩
      rw [hget] at hw
      cases hw
      exact .inl ⟨rfl, hb⟩
    · rintro (⟨-, hb⟩ | ⟨-, hopen, -⟩)
      · exact ⟨⟨v, hget, hb⟩, by simp [hdrop], by simp [hdrop]⟩
      · exact absurd hopen.lt_length (Nat.lt_irrefl _)
  · refine iff_of_false (fun hopen => ?_) ?_
    · have hlt := hopen.lt_length
      rw [List.length_append, List.length_singleton] at hlt
      omega
    · rintro (⟨rfl, -⟩ | ⟨-, hopen, -⟩)
      · exact absurd hn (Nat.lt_irrefl _)
      · exact absurd hopen.lt_length (Nat.lt_asymm hn)

end OpenIn

/-! ## What a reader keeps open -/

namespace Scope

variable {s : Scope} {b r : Block} {d : ℕ}

/-- A state block stays open on deeper lines. -/
lemma state_leave_eq_some_iff : (s.leave d).state = some b ↔ s.state = some b ∧ b.depth < d := by
  unfold leave
  cases hstate : s.state with
  | none => grind
  | some a => grind

/-- A read block stays open on deeper lines, as long as its state block does. -/
lemma read_leave_eq_some_iff (h : s.read ≠ none → s.state ≠ none) :
    (s.leave d).read = some r ↔
      (∃ b, s.state = some b ∧ b.depth < d) ∧ s.read = some r ∧ r.depth < d := by
  unfold leave
  cases hstate : s.state with
  | none =>
    have hread : s.read = none := by_contra fun hread => h hread hstate
    simp [hread]
  | some a => grind

/-- A directive alone gives an instruction, for the blocks that it stands in. -/
lemma instruction?_eq_some_iff {line : Int} {st : Statement} {i : Instruction} :
    s.instruction? line st = some i ↔ ∃ b r, s.state = some b ∧ s.read = some r ∧
      st = .directive i.directive ∧ i = ⟨b.value, r.value, i.directive, line⟩ := by
  unfold instruction?
  grind

end Scope

/-- A reader at a point behind some tokens has come to the statements `vs`, and what it keeps is
what these say. -/
structure Agrees (p : Point) (before : List Token) (vs : List Visit) : Prop where
  depth : p.depth = indentation before
  lineStart : p.lineStart = atLineStart before
  state : ∀ b, p.scope.state = some b ↔ ∃ n, OpenIn Visit.state? vs n b
  read : ∀ r, p.scope.read = some r ↔
    ∃ b m n, m ≤ n ∧ OpenIn Visit.state? vs m b ∧ OpenIn Visit.read? vs n r

/-- What is open in a scope is what is in force at a statement behind others. -/
structure AgreesAt (s : Scope) (earlier : List Visit) (v : Visit) : Prop where
  state : ∀ b, s.state = some b ↔ ∃ n, InForce Visit.state? earlier v n b
  read : ∀ r, s.read = some r ↔ ∃ b, Within earlier v b r

namespace Agrees

variable {p : Point} {before : List Token} {vs : List Visit} {t : Token}

/-- At the start nothing is open. -/
lemma start : Agrees {} [] [] := by
  have hnone : ∀ {block? n b}, ¬ OpenIn block? [] n b := fun h => Nat.not_lt_zero _ h.lt_length
  refine ⟨rfl, rfl, fun b => ?_, fun r => ?_⟩
  · simp [hnone]
  · simp [hnone]

/-- Going to the next line keeps the agreement with the history. -/
lemma newline (h : Agrees p before vs) (ht : t.kind = .newline) :
    Agrees p.nextLine (before ++ [t]) vs := by
  refine ⟨?_, ?_, h.state, h.read⟩
  · rw [indentation, currentLine_concat_of_newline ht]
    rfl
  · rw [atLineStart, currentLine_concat_of_newline ht]
    rfl

/-- Taking an indent keeps the agreement with the history. -/
lemma indent (h : Agrees p before vs) (ht : t.kind = .indent) :
    Agrees { p with depth := t.width } (before ++ [t]) vs :=
  ⟨(indentation_concat_of_indent ht).symm, h.lineStart.trans (atLineStart_concat_of_indent ht).symm,
    h.state, h.read⟩

/-- A read block is open only within a state block. -/
lemma state_ne_none (h : Agrees p before vs) (hread : p.scope.read ≠ none) :
    p.scope.state ≠ none := by
  obtain ⟨r, hr⟩ := Option.ne_none_iff_exists'.mp hread
  obtain ⟨b, m, n, -, hopen, -⟩ := (h.read r).mp hr
  rw [(h.state b).mpr ⟨m, hopen⟩]
  exact Option.some_ne_none b

/-- At a statement the reader has left the blocks that are not in force there. -/
theorem atStatement (h : Agrees p before vs) {v : Visit} (hv : v.before = before) :
    AgreesAt p.atStatement.scope vs v := by
  have hdepth : v.depth = p.depth := by rw [Visit.depth, hv, h.depth]
  have hbegins : v.beginsLine = p.lineStart := by rw [Visit.beginsLine, hv, h.lineStart]
  cases hline : p.lineStart with
  | false =>
    have hscope : p.atStatement.scope = p.scope := by simp [Point.atStatement, hline]
    have hforce : ∀ {block? n b}, InForce block? vs v n b ↔ OpenIn block? vs n b := by
      intro block? n b
      rw [InForce, hbegins, hline]
      simp
    constructor
    · intro b
      simp only [hscope, h.state b, hforce]
    · intro r
      simp only [hscope, h.read r, Within, hforce]
  | true =>
    have hscope : p.atStatement.scope = p.scope.leave p.depth := by simp [Point.atStatement, hline]
    have hforce : ∀ {block? n b},
        InForce block? vs v n b ↔ OpenIn block? vs n b ∧ b.depth < p.depth := by
      intro block? n b
      rw [InForce, hbegins, hline, hdepth]
      simp
    constructor
    · intro b
      simp only [hscope, Scope.state_leave_eq_some_iff, h.state b, hforce, exists_and_right]
    · intro r
      rw [hscope, Scope.read_leave_eq_some_iff h.state_ne_none]
      constructor
      · rintro ⟨⟨b, hstate, hb⟩, hr, hrd⟩
        obtain ⟨b', m, n, hle, hopen, hopen'⟩ := (h.read r).mp hr
        obtain rfl : b = b' := Option.some.inj (hstate.symm.trans ((h.state b').mpr ⟨m, hopen⟩))
        exact ⟨b, m, n, hle, hforce.mpr ⟨hopen, hb⟩, hforce.mpr ⟨hopen', hrd⟩⟩
      · rintro ⟨b, m, n, hle, hopen, hopen'⟩
        obtain ⟨hopen, hb⟩ := hforce.mp hopen
        obtain ⟨hopen', hrd⟩ := hforce.mp hopen'
        exact ⟨⟨b, (h.state b).mpr ⟨m, hopen⟩, hb⟩,
          (h.read r).mpr ⟨b, m, n, hle, hopen, hopen'⟩, hrd⟩

end Agrees

namespace AgreesAt

variable {s : Scope} {q : Point} {vs : List Visit} {v : Visit} {st : Statement}

/-- Both blocks are in force where both are open. -/
lemma within_iff (h : AgreesAt s vs v) {b r : Block} :
    Within vs v b r ↔ s.state = some b ∧ s.read = some r := by
  constructor
  · rintro ⟨m, n, hle, hstate, hread⟩
    exact ⟨(h.state b).mpr ⟨m, hstate⟩, (h.read r).mpr ⟨b, m, n, hle, hstate, hread⟩⟩
  · rintro ⟨hstate, hread⟩
    obtain ⟨b', m, n, hle, hstate', hread'⟩ := (h.read r).mp hread
    obtain rfl : b = b' := Option.some.inj (hstate.symm.trans ((h.state b').mpr ⟨m, hstate'⟩))
    exact ⟨m, n, hle, hstate', hread'⟩

/-- Behind a statement that opens a state block, this is the one that is open. -/
lemma state_enter (h : AgreesAt q.scope vs v) (hmeaning : v.meaning = .ok st)
    (hdepth : q.depth = v.depth) (b : Block) :
    (q.enter st).scope.state = some b ↔ ∃ n, OpenIn Visit.state? (vs ++ [v]) n b := by
  simp only [openIn_concat_iff]
  cases st with
  | openState name => simp [Point.enter, Visit.state?, hmeaning, hdepth]
  | openStateRead name symbol => simp [Point.enter, Visit.state?, hmeaning, hdepth]
  | openRead symbol => simp [Point.enter, Visit.state?, hmeaning, h.state b]
  | directive d => simp [Point.enter, Visit.state?, hmeaning, h.state b]
  | nothing => simp [Point.enter, Visit.state?, hmeaning, h.state b]

/-- Behind a statement that opens a read block, this is the one that is open; if it opens a state
block alone, none is. -/
lemma read_enter (h : AgreesAt q.scope vs v) (hmeaning : v.meaning = .ok st)
    (hdepth : q.depth = v.depth) (hfits : st.Fits q.scope) (r : Block) :
    (q.enter st).scope.read = some r ↔ ∃ b m n, m ≤ n ∧ OpenIn Visit.state? (vs ++ [v]) m b ∧
      OpenIn Visit.read? (vs ++ [v]) n r := by
  simp only [openIn_concat_iff]
  cases st with
  | openState name =>
    have hstate : v.state? = some ⟨name, v.depth⟩ := by simp [Visit.state?, hmeaning]
    have hread : v.read? = none := by simp [Visit.read?, hmeaning]
    simp only [hstate, hread, Option.some.injEq, reduceCtorEq, and_false, false_and, or_false,
      false_or, true_and]
    -- The state block is the last statement, and every read block is an earlier one.
    refine iff_of_false (by simp [Point.enter]) ?_
    rintro ⟨b, m, n, hle, ⟨rfl, -⟩, hopen, -⟩
    exact Nat.not_le_of_lt hopen.lt_length hle
  | openStateRead name symbol =>
    have hstate : v.state? = some ⟨name, v.depth⟩ := by simp [Visit.state?, hmeaning]
    have hread : v.read? = some ⟨symbol, v.depth + arrowDepth⟩ := by simp [Visit.read?, hmeaning]
    simp only [hstate, hread, Option.some.injEq, reduceCtorEq, false_and, or_false, Point.enter,
      hdepth]
    constructor
    · intro hr
      exact ⟨_, _, _, Nat.le_refl _, ⟨rfl, rfl⟩, rfl, hr⟩
    · rintro ⟨b, m, n, -, -, -, hr⟩
      exact hr
  | openRead symbol =>
    have hstate : v.state? = none := by simp [Visit.state?, hmeaning]
    have hread : v.read? = some ⟨symbol, v.depth⟩ := by simp [Visit.read?, hmeaning]
    simp only [hstate, hread, Option.some.injEq, reduceCtorEq, and_false, false_and, or_false,
      false_or, true_and, Point.enter, hdepth]
    constructor
    · intro hr
      obtain ⟨b, hb⟩ := Option.ne_none_iff_exists'.mp hfits
      obtain ⟨m, hm⟩ := (h.state b).mp hb
      exact ⟨b, m, vs.length, Nat.le_of_lt hm.1.lt_length, hm, rfl, hr⟩
    · rintro ⟨b, m, n, -, -, -, hr⟩
      exact hr
  | directive d => simp [Point.enter, Visit.state?, Visit.read?, hmeaning, h.read r, Within]
  | nothing => simp [Point.enter, Visit.state?, Visit.read?, hmeaning, h.read r, Within]

end AgreesAt

section Visits

variable {p : Point} {before rest ts : List Token} {vs earlier later : List Visit} {t : Token}
  {v : Visit}

/-- A statement takes the reader to a point that agrees with one statement more. -/
lemma Agrees.statement (h : Agrees p before vs) {s : Statement} {taken : ℕ} (ht : t.InLine)
    (hs : readStatement p.atStatement.scope t rest = .ok (s, taken)) :
    Agrees (p.atStatement.enter s) (before ++ t :: rest.take taken)
      (vs ++ [p.visit before t rest]) := by
  obtain ⟨hfits, htaken⟩ := of_readStatement_eq_ok hs
  have hline : ∀ u ∈ t :: rest.take taken, u.InLine := by
    intro u hu
    rcases List.mem_cons.mp hu with rfl | hu
    · exact ht
    · exact htaken u hu
  have hat : AgreesAt p.atStatement.scope vs (p.visit before t rest) := h.atStatement rfl
  have hmeaning : (p.visit before t rest).meaning = .ok s := by
    rw [Point.visit, hs]
    rfl
  have hdepth : p.atStatement.depth = indentation before := by
    rw [← h.depth, Point.atStatement]
    split <;> rfl
  have henter : (p.atStatement.enter s).depth = p.atStatement.depth ∧
      (p.atStatement.enter s).lineStart = p.atStatement.lineStart := by
    cases s <;> exact ⟨rfl, rfl⟩
  have hstart : p.atStatement.lineStart = false := by
    unfold Point.atStatement
    split
    · rfl
    · rename_i hno
      exact Bool.eq_false_iff.mpr hno
  refine ⟨?_, ?_, hat.state_enter hmeaning hdepth, hat.read_enter hmeaning hdepth hfits⟩
  · rw [henter.1, hdepth, indentation_append hline]
  · rw [henter.2, hstart, atLineStart_append (List.cons_ne_nil _ _) hline]

/-- A reader comes to each statement at a point that agrees with the statements before it. -/
theorem exists_agrees_of_visitsFrom (h : Agrees p before vs)
    (hv : visitsFrom p before ts = earlier ++ v :: later) :
    ∃ q : Point, Agrees q v.before (vs ++ earlier) ∧ v = q.visit v.before v.token v.after := by
  induction p, before, ts using reading_induction generalizing vs earlier with
  | nil p before =>
    rw [visitsFrom] at hv
    simp at hv
  | newline p before t rest ht ih =>
    rw [visitsFrom_of_newline ht] at hv
    exact ih (h.newline ht) hv
  | indent p before t rest ht ih =>
    rw [visitsFrom_of_indent ht] at hv
    exact ih (h.indent ht) hv
  | statement p before t rest s taken ht hs ih =>
    rw [visitsFrom_of_statement ht hs] at hv
    cases earlier with
    | nil =>
      cases hv
      exact ⟨p, by rwa [List.append_nil], rfl⟩
    | cons w earlier =>
      rw [List.cons_append] at hv
      obtain ⟨rfl, hrest⟩ := List.cons.inj hv
      obtain ⟨q, hq, heq⟩ := ih (h.statement ht hs) hrest
      refine ⟨q, ?_, heq⟩
      simpa using hq
  | fault p before t rest m ht hs =>
    rw [visitsFrom_of_fault ht hs] at hv
    cases earlier with
    | nil =>
      cases hv
      exact ⟨p, by rwa [List.append_nil], rfl⟩
    | cons w earlier => simp at hv

/-- What a statement says is decided by the blocks that are in force at it. -/
theorem exists_agreesAt_of_visits (hv : visits ts = earlier ++ v :: later) :
    ∃ s, AgreesAt s earlier v ∧
      v.meaning = (readStatement s v.token v.after).map Prod.fst ∧
      (∀ st, v.meaning = .ok st → st.Fits s) ∧
      ∀ i, v.gives = some i ↔ ∃ st, v.meaning = .ok st ∧
        s.instruction? v.token.line st = some i := by
  obtain ⟨q, hagrees, hq⟩ := exists_agrees_of_visitsFrom Agrees.start hv
  refine ⟨q.atStatement.scope, hagrees.atStatement rfl, by rw [hq]; rfl, ?_⟩
  rw [hq]
  simp only [Point.visit]
  cases hs : readStatement q.atStatement.scope v.token v.after with
  | error m => simp [Except.map]
  | ok r =>
    have hfits := (of_readStatement_eq_ok hs).1
    simp [Except.map, hfits]

end Visits

/-! ## The rule -/

/-- Outside a read block only a header or a `read` can be read. -/
lemma exists_readStatement_eq_error {s : Scope} {v : Visit} (hread : s.read = none)
    (hheader : ¬ v.IsHeader (s.state ≠ none)) (hno : ¬ v.IsRead) :
    ∃ m, readStatement s v.token v.after = .error m := by
  unfold readStatement
  split
  · exact ⟨_, rfl⟩
  rename_i harrow
  split
  · exact ⟨_, rfl⟩
  rename_i hcolon
  simp only [beq_iff_eq] at harrow hcolon
  have hform : ¬ _ := fun hform => hheader ⟨harrow, hcolon, hform⟩
  simp only [not_or] at hform
  obtain ⟨hnext, hnext', hform⟩ := hform
  simp only [hnext, hnext', beq_iff_eq, if_false]
  cases hstate : s.state with
  | none =>
    simp only [hstate, ne_eq, not_true_eq_false, not_false_eq_true, true_and, not_and] at hform
    rw [if_neg (by simpa [and_assoc] using hform)]
    exact ⟨_, rfl⟩
  | some b =>
    have hword : ¬ (v.token.kind == .word && v.token.text == "read".toList) = true := by
      simpa [Visit.IsRead] using hno
    refine ⟨.outsideRead v.token.text b.value, ?_⟩
    change readInState b s.read v.token v.after = _
    rw [readInState, if_neg hword, hread]
    rfl

/-- The reader of tokens comes to statements that stand among the tokens, to every one that a way of
it leads to, and the instructions of the tokens are those that these statements give. The blocks in
force at a statement decide what it says. A directive, and nothing else, gives an instruction: for
the last state block and the last read block before it, both in force at it and the read block not
opened before the state block. Where there are no such blocks, a statement that is neither a header
nor a `read` is the fault of the tokens. -/
theorem directives_stand_in_last_blocks (ts : List Token) :
    (∀ v ∈ visits ts, v.before ++ v.token :: v.after = ts.filter fun t => t.kind != .space) ∧
    (∀ is q t rest, Reads {} (ts.filter fun t => t.kind != .space) is q (t :: rest) → t.InLine →
      ∃ earlier v later, visits ts = earlier ++ v :: later ∧ v.token = t ∧ v.after = rest ∧
        earlier.filterMap Visit.gives = is) ∧
    (∀ is, instructions ts = .ok is → (visits ts).filterMap Visit.gives = is) ∧
    ∀ earlier v later, visits ts = earlier ++ v :: later →
      (∃ s, AgreesAt s earlier v ∧ v.meaning = (readStatement s v.token v.after).map Prod.fst) ∧
      (∀ i, v.gives = some i → v.meaning = .ok (.directive i.directive) ∧
        ∃ state read, Within earlier v state read ∧
          i = ⟨state.value, read.value, i.directive, v.token.line⟩) ∧
      (∀ d, v.meaning = .ok (.directive d) → v.gives ≠ none) ∧
      ((¬ ∃ state read, Within earlier v state read) →
        ¬ v.IsHeader (∃ n state, InForce Visit.state? earlier v n state) → ¬ v.IsRead →
        ∃ m, instructions ts = .error (.at v.token.line (.malformed m))) := by
  refine ⟨fun v hv => tokens_of_mem_visitsFrom hv, fun is q t rest => exists_visits_of_reads,
    fun is => filterMap_gives_visits, fun earlier v later hv => ?_⟩
  obtain ⟨s, hs, hmeaning, hfits, hgives⟩ := exists_agreesAt_of_visits hv
  refine ⟨⟨s, hs, hmeaning⟩, fun i hi => ?_, fun d hd => ?_, fun hno hheader hread => ?_⟩
  · -- Only a directive gives an instruction, and what it gives is for the blocks in force.
    obtain ⟨st, hst, hi⟩ := (hgives i).mp hi
    obtain ⟨b, r, hb, hr, rfl, heq⟩ := Scope.instruction?_eq_some_iff.mp hi
    exact ⟨hst, b, r, hs.within_iff.mpr ⟨hb, hr⟩, heq⟩
  · obtain ⟨hstate, hread⟩ := hfits _ hd
    obtain ⟨b, hb⟩ := Option.ne_none_iff_exists'.mp hstate
    obtain ⟨r, hr⟩ := Option.ne_none_iff_exists'.mp hread
    have hsome : v.gives = some ⟨b.value, r.value, d, v.token.line⟩ :=
      (hgives _).mpr ⟨_, hd, Scope.instruction?_eq_some_iff.mpr ⟨b, r, hb, hr, rfl, rfl⟩⟩
    rw [hsome]
    exact Option.some_ne_none _
  · have hnone : s.read = none := by
      refine Option.eq_none_iff_forall_ne_some.mpr fun r hr => hno ?_
      obtain ⟨b, hwithin⟩ := (hs.read r).mp hr
      exact ⟨b, r, hwithin⟩
    have hstate : s.state ≠ none ↔ ∃ n b, InForce Visit.state? earlier v n b := by
      simp only [Option.ne_none_iff_exists', hs.state]
      exact exists_comm
    obtain ⟨m, hm⟩ := exists_readStatement_eq_error hnone (by rwa [hstate]) hread
    rw [hm] at hmeaning
    exact ⟨m, readFrom_of_mem_visitsFrom (by rw [← visits, hv]; simp) hmeaning⟩

/-- A state, a symbol and a directive on one line, then a state opened together with its symbol, and
a last line that is not deep enough for that. -/
def shallow : List Token :=
  [⟨.word, "a".toList, 1, 0⟩, ⟨.colon, ":".toList, 1, 0⟩, ⟨.word, "0".toList, 1, 0⟩,
    ⟨.colon, ":".toList, 1, 0⟩, ⟨.word, "write".toList, 1, 0⟩, ⟨.word, "1".toList, 1, 0⟩,
    ⟨.newline, "\n".toList, 1, 0⟩, ⟨.word, "b".toList, 2, 0⟩, ⟨.bracketed, "(1)".toList, 2, 0⟩,
    ⟨.arrow, "->".toList, 2, 0⟩, ⟨.word, "c".toList, 2, 0⟩, ⟨.newline, "\n".toList, 2, 0⟩,
    ⟨.indent, "    ".toList, 3, 4⟩, ⟨.word, "move".toList, 3, 0⟩, ⟨.word, "R".toList, 3, 0⟩]

/-- One directive stands in two blocks and gives an instruction; the next stands in none and is
refused. -/
theorem directives_stand_in_last_blocks_shallow :
    (∃ earlier v later, visits shallow = earlier ++ v :: later ∧
      v.gives = some ⟨"b", "1", .goto "c", 2⟩ ∧
      ∃ state read, Within earlier v state read ∧ state.value = "b" ∧ read.value = "1") ∧
    (∃ earlier v later, visits shallow = earlier ++ v :: later ∧
      v.token = ⟨.word, "move".toList, 3, 0⟩ ∧ ¬ ∃ state read, Within earlier v state read) ∧
    ∃ m, instructions shallow = .error (.at 3 (.malformed m)) := by
  obtain ⟨-, -, -, hrule⟩ := directives_stand_in_last_blocks shallow
  have hsplit : ∀ {n v}, (visits shallow)[n]? = some v →
      visits shallow = (visits shallow).take n ++ v :: (visits shallow).drop (n + 1) := by
    intro n v hv
    obtain ⟨hn, rfl⟩ := List.getElem?_eq_some_iff.mp hv
    rw [← List.drop_eq_getElem_cons hn, List.take_append_drop]
  obtain ⟨jump, hjump⟩ : ∃ v, (visits shallow)[4]? = some v :=
    Option.isSome_iff_exists.mp (by decide +kernel)
  obtain ⟨move, hmove⟩ : ∃ v, (visits shallow)[5]? = some v :=
    Option.isSome_iff_exists.mp (by decide +kernel)
  constructor
  · have hgives : jump.gives = some ⟨"b", "1", .goto "c", 2⟩ := by
      have h : (visits shallow)[4]?.map Visit.gives = some (some ⟨"b", "1", .goto "c", 2⟩) := by
        decide +kernel
      rw [hjump] at h
      exact Option.some.inj h
    obtain ⟨-, hdirective, -⟩ := hrule _ jump _ (hsplit hjump)
    obtain ⟨-, state, read, hwithin, hi⟩ := hdirective _ hgives
    obtain ⟨hstate, hread, -⟩ := Instruction.mk.inj hi
    exact ⟨_, jump, _, hsplit hjump, hgives, state, read, hwithin, hstate.symm, hread.symm⟩
  · have hfacts : (move.token, move.beginsLine, move.depth, kind? move.after) =
        (⟨.word, "move".toList, 3, 0⟩, true, 4, some .word) := by
      have h : (visits shallow)[5]?.map
          (fun v => (v.token, v.beginsLine, v.depth, kind? v.after)) =
          some (⟨.word, "move".toList, 3, 0⟩, true, 4, some .word) := by decide +kernel
      rw [hmove] at h
      exact Option.some.inj h
    simp only [Prod.mk.injEq] at hfacts
    obtain ⟨htoken, hbegins, hdepth, hafter⟩ := hfacts
    -- The last read block before the last line is as deep as that line.
    have hlast : (((visits shallow).take 5).filterMap Visit.read?).getLast? = some ⟨"1", 4⟩ := by
      decide +kernel
    have hno : ¬ ∃ state read, Within ((visits shallow).take 5) move state read := by
      rintro ⟨state, read, m, n, -, -, hopen, hdeeper⟩
      obtain rfl : read = ⟨"1", 4⟩ := Option.some.inj (hopen.getLast?_eq.symm.trans hlast)
      exact Nat.lt_irrefl 4 (hdepth ▸ hdeeper hbegins)
    obtain ⟨-, -, -, hfault⟩ := hrule _ move _ (hsplit hmove)
    refine ⟨⟨_, move, _, hsplit hmove, htoken, hno⟩, ?_⟩
    rw [htoken] at hfault
    refine hfault hno ?_ ?_
    · simp [Visit.IsHeader, hafter]
    · simp [Visit.IsRead, htoken]

end TapeMachine.Program
