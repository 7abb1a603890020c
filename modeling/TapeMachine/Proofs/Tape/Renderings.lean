import Mathlib.Data.List.Induction
import Mathlib.Logic.Function.Basic
import Mathlib.Tactic.Common
import Mathlib.Tactic.IntervalCases
import TapeMachine.Proofs.Tape.Order

/-!
# What the text of a tape shows

The two texts of a tape show the same cells. From left to right they stand by position; by age they
stand by the moment at which each was last created. `moment` gives the tape at every moment of a
run: the characters of the input are written down one by one, and then the operations follow.
`LastCreated` says when a cell was created for the last time: it was not there, and has been there
from the next moment on.

One moment leaves the positions as they are, takes one out, or puts a new one behind all others
(`Changes`). So the order of the positions is that of the moments of creation
(`exists_pairwise_created`), and it is that from left to right as long as new cells are created
beyond all others (`pairwise_positions`).
-/

namespace TapeMachine

/-- What one moment can do to the list of positions. -/
inductive Tape.Changes (ps : List ℤ) : List ℤ → Prop
  | keep : Changes ps ps
  | erase (p : ℤ) : Changes ps (ps.filter fun q => q ≠ p)
  | create {p : ℤ} (hp : p ∉ ps) : Changes ps (ps ++ [p])

namespace Ledger

open Tape (Changes)

/-- Storing a symbol changes the positions of a ledger in one of these ways. -/
lemma changes_put (l : Ledger) (p : ℤ) (s : String) :
    Changes l.positions (l.put p s).positions := by
  by_cases hp : p ∈ l.positions
  · have hkeep : (l.put p s).positions = l.positions := by
      rw [put, if_pos hp]
      simp [positions, Function.comp_def]
    rw [hkeep]
    exact .keep
  · have hnew : (l.put p s).positions = l.positions ++ [p] := by
      rw [put, if_neg hp]
      simp [positions]
    rw [hnew]
    exact .create hp

/-- So does every other operation. -/
lemma changes_perform (l : Ledger) (o : Tape.Operation) :
    Changes l.positions (l.perform o).positions := by
  cases o with
  | move d => exact .keep
  | write s =>
    rw [perform, write]
    split
    · exact .keep
    · split
      · have herase : (l.entries.filter fun e => e.1 ≠ l.head).map (·.1) =
            l.positions.filter fun q => q ≠ l.head := by
          rw [positions, List.filter_map]
          rfl
        rw [positions, positions, herase]
        exact .erase l.head
      · exact changes_put l l.head s

end Ledger

namespace Tape

/-! ## Moments -/

/-- The tape at a moment of a run: as many characters of the input are written down, and when all
are, the operations follow one by one. -/
def moment (input : String) (ops : List Operation) (m : ℕ) : Tape :=
  after (String.ofList (input.toList.take m)) (ops.take (m - input.length))

/-- A cell was created for the last time at a moment: it was not there, and is there from the next
moment until now. -/
structure LastCreated (history : ℕ → Tape) (now : ℕ) (p : ℤ) (m : ℕ) : Prop where
  lt_now : m < now
  absent : p ∉ (history m).cells
  present : ∀ k, m < k → k ≤ now → p ∈ (history k).cells

/-- The cells are listed in the order in which they were last created, if each moment changes one
cell at most. -/
theorem exists_pairwise_created {history : ℕ → Tape} (hstart : (history 0).positions = []) {now : ℕ}
    (hstep : ∀ m < now, Changes (history m).positions (history (m + 1)).positions) :
    ∃ created : ℤ → ℕ,
      (∀ p ∈ (history now).positions, LastCreated history now p (created p)) ∧
      (history now).positions.Pairwise fun p q => created p < created q := by
  induction now with
  | zero => exact ⟨fun _ => 0, by simp [hstart], by simp [hstart]⟩
  | succ now ih =>
    obtain ⟨created, hlast, hpairwise⟩ := ih fun m hm => hstep m (Nat.lt_succ_of_lt hm)
    -- What was there and still is, was last created when it was before.
    have hstays : ∀ p ∈ (history now).positions, p ∈ (history (now + 1)).positions →
        LastCreated history (now + 1) p (created p) := by
      intro p hp hp'
      obtain ⟨hlt, habsent, hpresent⟩ := hlast p hp
      refine ⟨Nat.lt_succ_of_lt hlt, habsent, fun k hk hle => ?_⟩
      rcases Nat.le_succ_iff.mp hle with hle | rfl
      · exact hpresent k hk hle
      · exact mem_positions_iff.mp hp'
    have hchanges := hstep now (Nat.lt_succ_self now)
    generalize hps : (history now).positions = ps at hchanges hpairwise hstays hlast
    generalize hqs : (history (now + 1)).positions = qs at hchanges hstays
    cases hchanges with
    | keep => exact ⟨created, fun p hp => hstays p hp hp, hpairwise⟩
    | erase p =>
      exact ⟨created, fun q hq => hstays q (List.mem_of_mem_filter hq) hq, hpairwise.filter _⟩
    | @create p hp =>
      refine ⟨Function.update created p now, fun q hq => ?_, ?_⟩
      · by_cases heq : q = p
        · subst heq
          rw [Function.update_self]
          refine ⟨Nat.lt_succ_self now, ?_, fun k hk hle => ?_⟩
          · rwa [← mem_positions_iff, hps]
          · obtain rfl : k = now + 1 := Nat.le_antisymm hle hk
            rwa [← mem_positions_iff, hqs]
        · rw [Function.update_of_ne heq]
          exact hstays q ((List.mem_append.mp hq).resolve_right (by simpa using heq)) hq
      · have hne : ∀ q ∈ ps, q ≠ p := fun q hq heq => hp (heq ▸ hq)
        refine List.pairwise_append.mpr ⟨?_, List.pairwise_singleton _ _, ?_⟩
        · refine hpairwise.imp_of_mem fun {a b} ha hb hab => ?_
          rwa [Function.update_of_ne (hne a ha), Function.update_of_ne (hne b hb)]
        · intro a ha b hb
          rw [List.mem_singleton.mp hb, Function.update_self, Function.update_of_ne (hne a ha)]
          exact (hlast a ha).lt_now

/-- The cells of a fresh tape are at the positions of the characters. -/
lemma positions_ofInput (input : String) :
    (ofInput input).positions = (List.range input.length).map Int.ofNat := by
  rw [← positions_ledger, (ledger_ofInput input).2, Ledger.positions, Ledger.ofInput,
    List.map_map, ← String.length_toList, List.range_eq_range', ← List.zipIdx_map_snd,
    List.map_map]
  rfl

section Moments

variable (input : String) (ops : List Operation)

/-- At the last moment the run is over. -/
lemma moment_last : moment input ops (input.length + ops.length) = after input ops := by
  have htake : input.toList.take (input.length + ops.length) = input.toList :=
    List.take_of_length_le (by rw [String.length_toList]; exact Nat.le_add_right _ _)
  rw [moment, Nat.add_sub_cancel_left, List.take_length, htake, String.ofList_toList]

/-- Until the input is written down, the cells are those of the characters so far. -/
lemma positions_moment_of_le {m : ℕ} (hm : m ≤ input.length) :
    (moment input ops m).positions = (List.range m).map Int.ofNat := by
  have hlength : (String.ofList (input.toList.take m)).length = m := by
    rw [← String.length_toList, String.toList_ofList, List.length_take, String.length_toList,
      Nat.min_eq_left hm]
  rw [moment, Nat.sub_eq_zero_of_le hm, List.take_zero, after, List.foldl_nil, positions_ofInput,
    hlength]

/-- When the input is written down, each moment performs an operation. -/
lemma moment_succ_of_le {m : ℕ} (hle : input.length ≤ m) (hm : m < input.length + ops.length) :
    ∃ o, moment input ops (m + 1) = (moment input ops m).perform o := by
  obtain ⟨i, rfl⟩ := Nat.exists_eq_add_of_le hle
  have hi : i < ops.length := Nat.lt_of_add_lt_add_left hm
  have htake : ∀ k, input.toList.take (input.length + k) = input.toList :=
    fun k => List.take_of_length_le (by rw [String.length_toList]; exact Nat.le_add_right _ _)
  refine ⟨ops[i], ?_⟩
  rw [moment, moment, Nat.add_assoc, Nat.add_sub_cancel_left, Nat.add_sub_cancel_left, htake,
    htake, List.take_add_one, after, List.foldl_append, List.getElem?_eq_getElem hi]
  rfl

/-- A moment changes one cell at most. -/
lemma changes_moment {m : ℕ} (hm : m < input.length + ops.length) :
    Changes (moment input ops m).positions (moment input ops (m + 1)).positions := by
  rcases Nat.lt_or_ge m input.length with hlt | hle
  · rw [positions_moment_of_le input ops hlt.le, positions_moment_of_le input ops hlt,
      List.range_succ, List.map_append]
    exact .create (by simp)
  · obtain ⟨o, ho⟩ := moment_succ_of_le input ops hle hm
    have hdated : (moment input ops m).Dated := (ledger_after _ _).1
    rw [ho, ← positions_ledger, ← positions_ledger, (hdated.ledger_perform o).2]
    exact Ledger.changes_perform _ o

/-- A cell that has been there since the input was written down was last created with its
character. -/
lemma lastCreated_of_stays {p : ℕ} (hp : p < input.length)
    (hstays : ∀ m, input.length ≤ m → m ≤ input.length + ops.length →
      (p : ℤ) ∈ (moment input ops m).cells) :
    LastCreated (moment input ops) (input.length + ops.length) p p := by
  refine ⟨by omega, ?_, fun k hk hle => ?_⟩
  · rw [← mem_positions_iff, positions_moment_of_le input ops hp.le]
    simp
  · rcases Nat.le_total k input.length with hkle | hkge
    · rw [← mem_positions_iff, positions_moment_of_le input ops hkle]
      exact List.mem_map.mpr ⟨p, List.mem_range.mpr hk, rfl⟩
    · exact hstays k hkge hle

end Moments

/-! ## From left to right -/

/-- Every cell that is new in `u` is to the right of all cells in `t`. -/
def GrowsRight (t u : Tape) : Prop :=
  ∀ p ∈ u.cells, p ∉ t.cells → ∀ q ∈ t.cells, q < p

/-- Whether the tape grows to the right is told by the positions. -/
lemma growsRight_iff {t u : Tape} : GrowsRight t u ↔
    ∀ p ∈ u.positions, p ∉ t.positions → ∀ q ∈ t.positions, q < p := by
  simp only [GrowsRight, mem_positions_iff]

/-- Positions that increase still do when the tape grows to the right. -/
lemma GrowsRight.pairwise {t u : Tape} (h : GrowsRight t u)
    (hchanges : Changes t.positions u.positions) (ht : t.positions.Pairwise (· < ·)) :
    u.positions.Pairwise (· < ·) := by
  have hright := growsRight_iff.mp h
  generalize u.positions = qs at hchanges hright
  cases hchanges with
  | keep => exact ht
  | erase p => exact ht.filter _
  | create hp =>
    refine List.pairwise_append.mpr ⟨ht, List.pairwise_singleton _ _, fun q hq p' hp' => ?_⟩
    rw [List.mem_singleton.mp hp']
    exact hright _ (List.mem_append_right _ List.mem_cons_self) hp q hq

/-- As long as a tape grows to the right, positions increase in the order of creation. -/
theorem pairwise_positions {input : String} {ops : List Operation}
    (h : ∀ m, input.length ≤ m → m < input.length + ops.length →
      GrowsRight (moment input ops m) (moment input ops (m + 1))) :
    (after input ops).positions.Pairwise (· < ·) := by
  have hall : ∀ k ≤ ops.length,
      (moment input ops (input.length + k)).positions.Pairwise (· < ·) := by
    intro k hk
    induction k with
    | zero =>
      rw [Nat.add_zero, positions_moment_of_le input ops le_rfl]
      exact List.pairwise_map.mpr (List.pairwise_lt_range.imp fun hlt => Int.ofNat_lt.mpr hlt)
    | succ k ih =>
      have hlt : input.length + k < input.length + ops.length := Nat.add_lt_add_left hk _
      exact (h _ (Nat.le_add_right _ _) hlt).pairwise (changes_moment input ops hlt)
        (ih (Nat.le_of_succ_le hk))
  rw [← moment_last]
  exact hall _ le_rfl

/-- The two texts agree when the positions increase in the order of creation. -/
lemma render_eq_of_pairwise {t : Tape} (h : t.positions.Pairwise (· < ·)) :
    t.render false = t.render true := by
  have hrow : t.row.Pairwise fun a b => a.1 < b.1 := List.pairwise_map.mp (pairwise_row t)
  have hentries : t.entries.Pairwise fun a b => a.1 < b.1 := List.pairwise_map.mp h
  have heq : t.row = t.entries :=
    (row_perm_entries t).eq_of_pairwise
      (fun a b _ _ hab hba => absurd hab (Int.lt_asymm hba)) hrow hentries
  rw [render_false, render_true, heq]

/-! ## What is written -/

/-- A symbol is stored in one cell and leaves all others. -/
lemma stored?_put (t : Tape) (q : ℤ) (s : String) (p : ℤ) :
    (t.put q s).stored? p = if p = q then some s else t.stored? p := by
  unfold put
  split <;> by_cases hp : p = q <;> simp [stored?, getElem?_insert, hp]

/-- Writing stores neither the wildcard nor the blank: a cell that holds one of them has held it
before. -/
lemma stored?_of_write {t : Tape} {s : String} {p : ℤ} {x : String}
    (h : (t.write s).stored? p = some x) (hx : x = wildcard ∨ x = blank) :
    t.stored? p = some x := by
  unfold write at h
  simp only [beq_iff_eq] at h
  split at h
  · exact h
  · rename_i hwildcard
    split at h
    · rw [stored?, Std.TreeMap.getElem?_erase] at h
      split at h
      · cases h
      · exact h
    · rename_i hblank
      rw [stored?_put] at h
      split at h
      · cases h
        exact absurd hx (not_or.mpr ⟨hwildcard, hblank⟩)
      · exact h

/-- A wildcard or a blank that is stored after a run has been in its cell all along. -/
lemma stored?_earlier {input : String} {ops : List Operation} {p : ℤ} {x : String}
    (h : (after input ops).stored? p = some x) (hx : x = wildcard ∨ x = blank)
    {before : List Operation} (hbefore : before <+: ops) :
    (after input before).stored? p = some x := by
  induction ops using List.reverseRecOn with
  | nil => rwa [List.prefix_nil.mp hbefore]
  | append_singleton ops o ih =>
    rcases List.prefix_concat_iff.mp hbefore with rfl | hprefix
    · exact h
    · refine ih ?_ hprefix
      rw [after, List.foldl_append, List.foldl_cons, List.foldl_nil] at h
      cases o with
      | write s => exact stored?_of_write h hx
      | move d => exact h

/-- What a fresh tape stores are the characters of its input. -/
lemma stored?_ofInput_eq_some_iff {input : String} {p : ℤ} {x : String} :
    (ofInput input).stored? p = some x ↔
      ∃ k : ℕ, p = k ∧ (input.toList[k]?).map String.singleton = some x := by
  have hentries : (ofInput input).entries = (Ledger.ofInput input).entries :=
    congrArg Ledger.entries (ledger_ofInput input).2
  rw [← mem_entries_iff, hentries, Ledger.ofInput]
  simp only [List.mem_map, Prod.mk.injEq, Prod.exists, List.mem_zipIdx_iff_getElem?,
    Option.map_eq_some_iff]
  constructor
  · rintro ⟨c, k, hc, rfl, rfl⟩
    exact ⟨k, rfl, c, hc, rfl⟩
  · rintro ⟨k, rfl, c, hc, rfl⟩
    exact ⟨c, k, hc, rfl, rfl⟩

/-! ## The two texts -/

/-- The stored cells of a tape and their two texts, after any operations on the tape of any input.

The list of the cells in the order of their creation is the one that a ledger keeps: no position is
in it twice, and the positions are those of the stored cells. Nothing that is written stores a
wildcard or a blank, so one that is stored is a character of the input that has been there all
along. The size is the number of the stored cells. One text shows them by increasing position. The
other shows them by the moment at which each was last created; a character of the input that has
not been erased was created at its place in the input, before all operations. So both texts show the
same symbols, and they are equal if every cell that an operation creates is to the right of all
that are stored at that moment, whether or not cells are erased. -/
theorem texts_show_stored_cells (input : String) (ops : List Operation) :
    let t := after input ops
    let now := input.length + ops.length
    t.ledger = Ledger.after input ops ∧
    t.positions.Nodup ∧ (∀ p, p ∈ t.positions ↔ p ∈ t.cells) ∧
    (∀ p s, (p, s) ∈ t.entries ↔ t.stored? p = some s) ∧
    (∀ s p x, (t.write s).stored? p = some x → x = wildcard ∨ x = blank → t.stored? p = some x) ∧
    (∀ p x, t.stored? p = some x → x = wildcard ∨ x = blank →
      (∃ k : ℕ, p = k ∧ (input.toList[k]?).map String.singleton = some x) ∧
      ∀ before, before <+: ops → (after input before).stored? p = some x) ∧
    t.size = t.positions.length ∧
    (∃ row : List (ℤ × String), row.Perm t.entries ∧ (row.map (·.1)).Pairwise (· < ·) ∧
      t.render true = String.join (row.map (·.2)) ∧
      (t.entries.map (·.2)).Perm (row.map (·.2))) ∧
    t.render false = String.join (t.entries.map (·.2)) ∧
    (∃ created : ℤ → ℕ,
      (∀ p ∈ t.positions, LastCreated (moment input ops) now p (created p)) ∧
      t.positions.Pairwise fun p q => created p < created q) ∧
    (∀ k < input.length,
      (∀ m, input.length ≤ m → m ≤ now → (k : ℤ) ∈ (moment input ops m).cells) →
      LastCreated (moment input ops) now k k) ∧
    (t.render false).toList.Perm (t.render true).toList ∧
    ((∀ m, input.length ≤ m → m < now →
        GrowsRight (moment input ops m) (moment input ops (m + 1))) →
      t.render false = t.render true) := by
  intro t now
  have hstart : (moment input ops 0).positions = [] :=
    positions_moment_of_le input ops (Nat.zero_le _)
  obtain ⟨created, hcreated, hpairwise⟩ :=
    exists_pairwise_created hstart fun m hm => changes_moment input ops (m := m) hm
  rw [moment_last] at hcreated hpairwise
  have hperm := row_perm_entries t
  refine ⟨(ledger_after input ops).2, nodup_positions t, fun _ => mem_positions_iff,
    fun _ _ => mem_entries_iff, fun _ _ _ => stored?_of_write, fun p x hp hx => ⟨?_, ?_⟩, ?_,
    ⟨t.row, hperm, pairwise_row t, render_true t, (hperm.map _).symm⟩, render_false t,
    ⟨created, hcreated, hpairwise⟩, fun k hk => lastCreated_of_stays input ops hk, ?_,
    fun h => render_eq_of_pairwise (pairwise_positions h)⟩
  · exact stored?_ofInput_eq_some_iff.mp (stored?_earlier hp hx List.nil_prefix)
  · exact fun before => stored?_earlier hp hx
  · rw [size_eq_length_entries, positions, List.length_map]
  · rw [render_false, render_true, String.toList_join, String.toList_join]
    exact (hperm.symm.map _).flatMap_right _

/-- A cell is created to the left, and then one of the input is erased and written again. -/
def backAndForth : List Operation :=
  [.move .left, .write "0", .move .right, .write "_", .write "1"]

/-- Two cells are created behind the input, one of them after an erasure. -/
def onward : List Operation :=
  [.move .right, .write "_", .move .right, .write "1", .move .right, .write "*"]

/-- A head that goes back and forth gives two texts, and one that only goes on to the right gives
one. -/
theorem texts_show_stored_cells_backAndForth :
    ((after "12" backAndForth).render false = "201" ∧
      (after "12" backAndForth).render true = "012") ∧
    (∀ m, "10".length ≤ m → m < "10".length + onward.length →
      GrowsRight (moment "10" onward m) (moment "10" onward (m + 1))) ∧
    (after "10" onward).render false = "11" ∧ (after "10" onward).render true = "11" := by
  have hgrows : ∀ m, 2 ≤ m → m < 8 →
      GrowsRight (moment "10" onward m) (moment "10" onward (m + 1)) := by
    intro m hle hlt
    rw [growsRight_iff, ← positions_ledger, ← positions_ledger, moment, moment,
      (ledger_after _ _).2, (ledger_after _ _).2]
    interval_cases m <;> decide +kernel
  obtain ⟨hledger, -, -, -, -, -, -, -, hage, -⟩ := texts_show_stored_cells "12" backAndForth
  obtain ⟨-, -, -, -, -, -, -, -, -, -, -, -, hsame⟩ := texts_show_stored_cells "10" onward
  have hentries := congrArg Ledger.entries hledger
  refine ⟨⟨?_, by decide +kernel⟩, hgrows, ?_, by decide +kernel⟩
  · rw [hage]
    change String.join ((after "12" backAndForth).ledger.entries.map (·.2)) = "201"
    rw [hentries]
    decide +kernel
  · rw [hsame hgrows]
    decide +kernel

end Tape

end TapeMachine
