import Mathlib.Data.List.Sort
import Mathlib.Tactic.Common
import TapeMachine.Proofs.Tape.Contents

/-!
# The order of the cells

A tape stamps its cells when they are created and sorts by stamps when it is read off by age. A
`Ledger` keeps the same cells as a list instead: a new cell comes last, a cell that is there is
overwritten in its place, and an erased cell is taken out. What the stamps are good for is said by
`Dated`: every stamp has been given out, and to one cell only. Under it, every list of the cells
with increasing stamps is the list that sorting gives (`Dated.stamped_eq`), so each operation does
to the sorted cells what the ledger does, and the two agree along every run (`ledger_after`).
-/

namespace TapeMachine

namespace Tape

/-! ## Operations -/

/-- What can be done to a tape. -/
inductive Operation where
  | write (symbol : String)
  | move (d : Direction)
deriving DecidableEq

/-- The tape after an operation. -/
def perform (t : Tape) : Operation → Tape
  | .write symbol => t.write symbol
  | .move d => t.move d

/-- The tape of an input after operations. -/
def after (input : String) (ops : List Operation) : Tape :=
  ops.foldl perform (ofInput input)

/-! ## Stored cells -/

/-- What a stored cell holds. -/
def stored? (t : Tape) (p : ℤ) : Option String :=
  (t.cells[p]?).map (·.symbol)

/-- The stored cells from left to right, each with its position. -/
def row (t : Tape) : List (ℤ × String) :=
  t.cells.toList.map fun x => (x.1, x.2.symbol)

/-- The stored cells and their positions in the order of their stamps. -/
def stamped (t : Tape) : List (ℤ × Cell) :=
  t.cells.toList.mergeSort fun a b => a.2.stamp ≤ b.2.stamp

/-- The stored cells in the order in which they were created, each with its position. -/
def entries (t : Tape) : List (ℤ × String) :=
  t.stamped.map fun x => (x.1, x.2.symbol)

/-- The positions of the stored cells, in the order in which these were created. -/
def positions (t : Tape) : List ℤ :=
  t.entries.map (·.1)

/-- The dated cells are the cells of the tape. -/
lemma mem_stamped_iff {t : Tape} {p : ℤ} {c : Cell} :
    (p, c) ∈ t.stamped ↔ t.cells[p]? = some c := by
  rw [stamped, List.mem_mergeSort, Std.TreeMap.mem_toList_iff_getElem?_eq_some]

/-- Positions are given in the order in which cells were made. -/
lemma positions_eq (t : Tape) : t.positions = t.stamped.map (·.1) := by
  rw [positions, entries, List.map_map]
  rfl

/-- The entries are the stored cells. -/
lemma mem_entries_iff {t : Tape} {p : ℤ} {s : String} :
    (p, s) ∈ t.entries ↔ t.stored? p = some s := by
  simp only [entries, List.mem_map, Prod.mk.injEq, Prod.exists, mem_stamped_iff, stored?,
    Option.map_eq_some_iff]
  constructor
  · rintro ⟨_, c, hc, rfl, rfl⟩
    exact ⟨c, hc, rfl⟩
  · rintro ⟨c, hc, rfl⟩
    exact ⟨p, c, hc, rfl, rfl⟩

/-- The positions are those of the cells of the tape. -/
lemma mem_positions_iff {t : Tape} {p : ℤ} : p ∈ t.positions ↔ p ∈ t.cells := by
  rw [← Std.TreeMap.isSome_getElem?_iff_mem, positions_eq, List.mem_map]
  constructor
  · rintro ⟨⟨q, c⟩, he, rfl⟩
    rw [mem_stamped_iff.mp he]
    rfl
  · intro hp
    obtain ⟨c, hc⟩ := Option.isSome_iff_exists.mp hp
    exact ⟨(p, c), mem_stamped_iff.mpr hc, rfl⟩

/-- The row and the entries are the same cells. -/
lemma row_perm_entries (t : Tape) : t.row.Perm t.entries :=
  (List.mergeSort_perm _ _).symm.map _

/-- The positions of a row increase. -/
lemma pairwise_row (t : Tape) : (t.row.map (·.1)).Pairwise (· < ·) := by
  have hkeys : t.row.map (·.1) = t.cells.keys := by
    rw [row, List.map_map, ← Std.TreeMap.map_fst_toList_eq_keys]
    rfl
  rw [hkeys]
  exact t.cells.ordered_keys.imp fun h => Int.compare_eq_lt.mp h

/-- No position is there twice. -/
lemma nodup_positions (t : Tape) : t.positions.Nodup := by
  have hrow : (t.row.map (·.1)).Nodup := (pairwise_row t).imp fun h => ne_of_lt h
  exact ((row_perm_entries t).map _).nodup_iff.mp hrow

/-- The sorted text has the symbols from left to right. -/
lemma render_true (t : Tape) : t.render true = String.join (t.row.map (·.2)) := by
  simp [render, symbols, leftToRight, row, Function.comp_def]

/-- The text has the symbols in the order in which cells were made. -/
lemma render_false (t : Tape) : t.render false = String.join (t.entries.map (·.2)) := by
  have hsort : t.byAge = t.stamped.map (·.2) := by
    rw [byAge, leftToRight, stamped]
    exact (List.map_mergeSort (f := Prod.snd) fun _ _ _ _ => rfl).symm
  simp [render, symbols, hsort, entries, Function.comp_def]

/-- The size of a tape is the number of its cells. -/
lemma size_eq_length_entries (t : Tape) : t.size = t.entries.length := by
  rw [size, ← Std.TreeMap.length_toList, entries, List.length_map, stamped, List.length_mergeSort]

/-! ## Stamps -/

/-- A list of the stored cells with increasing stamps is the list that sorting gives. -/
theorem stamped_eq {t : Tape} {xs : List (ℤ × Cell)}
    (hmem : ∀ p c, (p, c) ∈ xs ↔ t.cells[p]? = some c)
    (hxs : xs.Pairwise fun a b => a.2.stamp < b.2.stamp) : t.stamped = xs := by
  have hstamps : (xs.map (·.2.stamp)).Nodup := List.pairwise_map.mpr (hxs.imp Nat.ne_of_lt)
  have hperm : t.stamped.Perm xs := by
    have hnodup : t.stamped.Nodup := .of_map (·.1) (positions_eq t ▸ nodup_positions t)
    refine (List.perm_ext_iff_of_nodup hnodup hstamps.of_map).mpr fun ⟨p, c⟩ => ?_
    exact mem_stamped_iff.trans (hmem p c).symm
  have hsorted : t.stamped.Pairwise fun a b => a.2.stamp ≤ b.2.stamp := by
    refine (List.pairwise_mergeSort ?_ ?_ _).imp fun hle => of_decide_eq_true hle
    · intro a b c hab hbc
      exact decide_eq_true ((of_decide_eq_true hab).trans (of_decide_eq_true hbc))
    · intro a b
      simpa using Nat.le_total a.2.stamp b.2.stamp
  refine List.Perm.eq_of_pairwise ?_ hsorted (hxs.imp Nat.le_of_lt) hperm
  intro a b ha hb hab hba
  exact List.inj_on_of_nodup_map hstamps (hperm.mem_iff.mp ha) hb (Nat.le_antisymm hab hba)

/-- No two cells have the same stamp, and every stamp has been given out. -/
structure Dated (t : Tape) : Prop where
  increasing : t.stamped.Pairwise fun a b => a.2.stamp < b.2.stamp
  lt_clock : ∀ x ∈ t.stamped, x.2.stamp < t.clock

/-- What has to be shown of a list to know that it is what sorting gives, and that the stamps are
in order. -/
lemma dated_of {t : Tape} {xs : List (ℤ × Cell)}
    (hmem : ∀ p c, (p, c) ∈ xs ↔ t.cells[p]? = some c)
    (hxs : xs.Pairwise fun a b => a.2.stamp < b.2.stamp)
    (hclock : ∀ x ∈ xs, x.2.stamp < t.clock) : t.Dated ∧ t.stamped = xs := by
  have heq := stamped_eq hmem hxs
  exact ⟨⟨heq ▸ hxs, heq ▸ hclock⟩, heq⟩

/-- Inserting a cell leaves all others. -/
lemma getElem?_insert (cells : Std.TreeMap Int Cell compare) (p q : ℤ) (c : Cell) :
    (cells.insert p c)[q]? = if q = p then some c else cells[q]? := by
  rw [Std.TreeMap.getElem?_insert]
  simp only [Std.compare_eq_iff_eq, eq_comm (a := p)]

namespace Dated

variable {t : Tape} {p : ℤ}

/-- A cell that is put down where none is comes last. -/
lemma put_new (h : t.Dated) (hp : p ∉ t.cells) (s : String) :
    (t.put p s).Dated ∧ (t.put p s).stamped = t.stamped ++ [(p, ⟨s, t.clock⟩)] := by
  have hnone : t.cells[p]? = none := by simpa using hp
  have hput : t.put p s =
      { t with cells := t.cells.insert p ⟨s, t.clock⟩, clock := t.clock + 1 } := by
    rw [put, hnone]
  rw [hput]
  refine dated_of (fun q c => ?_) ?_ ?_
  · rw [getElem?_insert, List.mem_append, mem_stamped_iff, List.mem_singleton, Prod.mk.injEq]
    by_cases hq : q = p
    · subst hq
      simp [hnone, eq_comm]
    · simp [hq]
  · refine List.pairwise_append.mpr ⟨h.increasing, List.pairwise_singleton _ _, ?_⟩
    intro a ha b hb
    rw [List.mem_singleton.mp hb]
    exact h.lt_clock a ha
  · intro x hx
    rcases List.mem_append.mp hx with hx | hx
    · exact Nat.lt_succ_of_lt (h.lt_clock x hx)
    · rw [List.mem_singleton.mp hx]
      exact Nat.lt_succ_self _

/-- A cell that is there is overwritten in its place. -/
lemma put_old (h : t.Dated) (hp : p ∈ t.cells) (s : String) :
    (t.put p s).Dated ∧ (t.put p s).stamped =
      t.stamped.map fun x => (x.1, { x.2 with symbol := if x.1 = p then s else x.2.symbol }) := by
  obtain ⟨c, hc⟩ := Option.isSome_iff_exists.mp (Std.TreeMap.isSome_getElem?_iff_mem.mpr hp)
  have hput : t.put p s = { t with cells := t.cells.insert p { c with symbol := s } } := by
    rw [put, hc]
  rw [hput]
  refine dated_of (fun q d => ?_) (List.pairwise_map.mpr h.increasing)
    (List.forall_mem_map.mpr h.lt_clock)
  rw [getElem?_insert, List.mem_map]
  constructor
  · rintro ⟨⟨r, e⟩, he, heq⟩
    cases heq
    have he := mem_stamped_iff.mp he
    by_cases hr : r = p
    · subst hr
      cases hc.symm.trans he
      simp
    · simp [hr, he]
  · intro hd
    by_cases hq : q = p
    · subst hq
      rw [if_pos rfl] at hd
      exact ⟨(q, c), mem_stamped_iff.mpr hc, by simpa using hd⟩
    · rw [if_neg hq] at hd
      exact ⟨(q, d), mem_stamped_iff.mpr hd, by simp [hq]⟩

/-- A cell that is erased is taken out. -/
lemma erase (h : t.Dated) (p : ℤ) :
    ({ t with cells := t.cells.erase p } : Tape).Dated ∧
      ({ t with cells := t.cells.erase p } : Tape).stamped =
        t.stamped.filter fun x => x.1 ≠ p := by
  refine dated_of (fun q c => ?_) (h.increasing.filter _)
    fun x hx => h.lt_clock x (List.mem_of_mem_filter hx)
  rw [Std.TreeMap.getElem?_erase, List.mem_filter, mem_stamped_iff]
  simp only [Std.compare_eq_iff_eq, decide_eq_true_eq]
  by_cases hq : q = p
  · simp [hq]
  · simp [hq, Ne.symm hq]

end Dated

end Tape

/-! ## Tapes as lists -/

/-- A head and the cells of a tape as a list, each with its position. -/
structure Ledger where
  entries : List (ℤ × String)
  head : ℤ := 0

namespace Ledger

/-- The positions of the cells. -/
def positions (l : Ledger) : List ℤ :=
  l.entries.map (·.1)

/-- A cell that is there is overwritten in its place, and a new one comes last. -/
def put (l : Ledger) (p : ℤ) (s : String) : Ledger :=
  if p ∈ l.positions then
    { l with entries := l.entries.map fun e => (e.1, if e.1 = p then s else e.2) }
  else { l with entries := l.entries ++ [(p, s)] }

/-- The wildcard changes nothing, the blank takes a cell out, and any other symbol is put under the
head. -/
def write (l : Ledger) (s : String) : Ledger :=
  if s = wildcard then l
  else if s = blank then { l with entries := l.entries.filter fun e => e.1 ≠ l.head }
  else l.put l.head s

/-- The ledger after an operation. -/
def perform (l : Ledger) : Tape.Operation → Ledger
  | .write s => l.write s
  | .move d => { l with head := d.shift l.head }

/-- The characters of an input from left to right. -/
def ofInput (input : String) : Ledger where
  entries := input.toList.zipIdx.map fun x => (x.2, String.singleton x.1)

/-- The ledger of an input after operations. -/
def after (input : String) (ops : List Tape.Operation) : Ledger :=
  ops.foldl perform (ofInput input)

end Ledger

namespace Tape

/-- The cells of a tape in the order in which they were created, and its head. -/
def ledger (t : Tape) : Ledger :=
  ⟨t.entries, t.head⟩

/-- A tape and its ledger have the same positions. -/
@[simp] lemma positions_ledger (t : Tape) : t.ledger.positions = t.positions := rfl

namespace Dated

variable {t : Tape}

/-- Storing a symbol on a tape stores it in the ledger. -/
lemma ledger_put (h : t.Dated) (p : ℤ) (s : String) :
    (t.put p s).Dated ∧ (t.put p s).ledger = t.ledger.put p s := by
  have hiff : p ∈ t.ledger.positions ↔ p ∈ t.cells := mem_positions_iff
  by_cases hp : p ∈ t.cells
  · obtain ⟨hdated, hstamped⟩ := h.put_old hp s
    refine ⟨hdated, ?_⟩
    rw [Ledger.put, if_pos (hiff.mpr hp), ledger, head_put, entries, hstamped]
    simp [ledger, entries, Function.comp_def]
  · obtain ⟨hdated, hstamped⟩ := h.put_new hp s
    refine ⟨hdated, ?_⟩
    rw [Ledger.put, if_neg (mt hiff.mp hp), ledger, head_put, entries, hstamped]
    simp [ledger, entries]

/-- Writing on a tape writes in the ledger. -/
lemma ledger_write (h : t.Dated) (s : String) :
    (t.write s).Dated ∧ (t.write s).ledger = t.ledger.write s := by
  unfold write Ledger.write
  simp only [beq_iff_eq]
  split
  · exact ⟨h, rfl⟩
  · split
    · obtain ⟨hdated, hstamped⟩ := h.erase t.head
      refine ⟨hdated, ?_⟩
      simp only [ledger, entries, hstamped, List.filter_map]
      rfl
    · exact h.ledger_put t.head s

/-- What is done on a tape is done in the ledger. -/
lemma ledger_perform (h : t.Dated) (o : Operation) :
    (t.perform o).Dated ∧ (t.perform o).ledger = t.ledger.perform o := by
  cases o with
  | write s => exact h.ledger_write s
  | move d => exact ⟨⟨h.increasing, h.lt_clock⟩, rfl⟩

end Dated

/-! ## Along a run -/

/-- Writing an input down appends its characters, from left to right. -/
lemma Dated.ledger_seed {t : Tape} (h : t.Dated) {k : ℕ} (hk : ∀ p ∈ t.positions, p < k)
    (cs : List Char) :
    (t.seed k cs).Dated ∧ (t.seed k cs).ledger =
      ⟨t.entries ++ (cs.zipIdx k).map fun x => ((x.2 : ℤ), String.singleton x.1), t.head⟩ := by
  induction cs generalizing t k with
  | nil => exact ⟨h, by simp [seed, ledger]⟩
  | cons c cs ih =>
    obtain ⟨hdated, hput⟩ := h.ledger_put k (String.singleton c)
    have hnew : (k : ℤ) ∉ t.ledger.positions := fun hmem => lt_irrefl _ (hk _ hmem)
    rw [Ledger.put, if_neg hnew] at hput
    have hentries : (t.put k (String.singleton c)).entries =
        t.entries ++ [((k : ℤ), String.singleton c)] := congrArg Ledger.entries hput
    have hlt : ∀ p ∈ (t.put k (String.singleton c)).positions, p < ((k + 1 : ℕ) : ℤ) := by
      intro p hp
      rw [positions, hentries, List.map_append, List.mem_append] at hp
      rcases hp with hp | hp
      · have := hk p hp
        omega
      · simp only [List.map_singleton, List.mem_singleton] at hp
        omega
    have hrest := ih hdated hlt
    rw [hentries, head_put] at hrest
    simpa [seed] using hrest

/-- A fresh tape has the characters of its input in the ledger. -/
lemma ledger_ofInput (input : String) :
    (ofInput input).Dated ∧ (ofInput input).ledger = Ledger.ofInput input := by
  have hnil : ({} : Tape).stamped = [] :=
    List.eq_nil_iff_forall_not_mem.mpr fun ⟨p, c⟩ hx => by simpa using mem_stamped_iff.mp hx
  have hdated : ({} : Tape).Dated := ⟨by simp [hnil], by simp [hnil]⟩
  have hseed := hdated.ledger_seed (k := 0) (by simp [positions_eq, hnil]) input.toList
  simpa [entries, hnil, ofInput, Ledger.ofInput] using hseed

/-- A tape and its ledger go together under any operations. -/
lemma Dated.ledger_foldl {t : Tape} (h : t.Dated) (ops : List Operation) :
    (ops.foldl perform t).Dated ∧
      (ops.foldl perform t).ledger = ops.foldl Ledger.perform t.ledger := by
  induction ops generalizing t with
  | nil => exact ⟨h, rfl⟩
  | cons o ops ih =>
    obtain ⟨hdated, hledger⟩ := h.ledger_perform o
    rw [List.foldl_cons, List.foldl_cons, ← hledger]
    exact ih hdated

/-- A tape and its ledger go together along every run. -/
theorem ledger_after (input : String) (ops : List Operation) :
    (after input ops).Dated ∧ (after input ops).ledger = Ledger.after input ops := by
  obtain ⟨hdated, hledger⟩ := ledger_ofInput input
  unfold after Ledger.after
  rw [← hledger]
  exact hdated.ledger_foldl ops

end Tape

end TapeMachine
