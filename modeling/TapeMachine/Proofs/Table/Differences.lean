import TapeMachine.Proofs.Table.Patching

/-!
# What a difference lists

A difference lists the pairs of state and symbol under which two tables do not agree, and no others.
The pairs that only the new table has are added, those that only the old one has are removed, and
those that both have with different transitions are changed (`mem_added_iff`, `mem_removed_iff`,
`mem_changed_iff`). Each list keeps the order of the table that it is taken from, and no pair is
listed twice.

A pair that a patch does not list keeps what it has (`Replica.rules_patch_of_notMem`). So whatever
else leads from the old replica to the new one lists every pair that the difference lists
(`mem_keys_of_patch_eq`), and a difference is empty exactly when there was nothing to do.
-/

namespace TapeMachine

namespace TableDiff

/-- The transitions of the old table; there are none without one. -/
def former (old : Option Table) : List Transition :=
  (old.map Table.transitions).getD []

/-- The pairs of state and symbol that a difference lists. -/
def keys (d : TableDiff) : List (String × String) :=
  (d.added ++ d.removed ++ d.changed).map Transition.key

/-- The keys of a difference are those of what is added, removed and changed. -/
lemma mem_keys_iff {d : TableDiff} {k : String × String} :
    k ∈ d.keys ↔ (∃ r ∈ d.added, r.key = k) ∨ (∃ r ∈ d.removed, r.key = k) ∨
      ∃ r ∈ d.changed, r.key = k := by
  simp only [keys, List.map_append, List.mem_append, List.mem_map, or_assoc]

/-! ## The three lists -/

section Lists

variable {old : Option Table} {new : Table} {r : Transition}

/-- What is added has a pair that the old table does not have. -/
lemma mem_added_iff :
    r ∈ (between old new).added ↔ r ∈ new.transitions ∧ ∀ q ∈ former old, q.key ≠ r.key := by
  rw [← find?_eq_none_iff, ← Option.isNone_iff_eq_none]
  exact List.mem_filter

/-- What is removed has a pair that the new table does not have. -/
lemma mem_removed_iff :
    r ∈ (between old new).removed ↔ r ∈ former old ∧ ∀ q ∈ new.transitions, q.key ≠ r.key := by
  rw [← find?_eq_none_iff, ← Option.isNone_iff_eq_none]
  exact List.mem_filter

/-- The old map has under a pair what the old table has. -/
lemma find?_former_eq_some_iff (hold : ∀ o ∈ old, o.WellFormed) {k : String × String} :
    find? (former old) k = some r ↔ r ∈ former old ∧ r.key = k := by
  cases old with
  | none => simp [former, find?]
  | some o => exact (hold o rfl).find?_eq_some_iff

/-- What is changed has a pair that the old table has with another transition. -/
lemma mem_changed_iff (hold : ∀ o ∈ old, o.WellFormed) :
    r ∈ (between old new).changed ↔
      r ∈ new.transitions ∧ ∃ q ∈ former old, q.key = r.key ∧ q ≠ r := by
  refine List.mem_filter.trans (and_congr_right fun _ => ?_)
  rw [← former]
  cases hf : find? (former old) r.key with
  | none =>
    have hnone := find?_eq_none_iff.mp hf
    simp only [Bool.false_eq_true, false_iff]
    rintro ⟨q, hq, hk, -⟩
    exact hnone q hq hk
  | some p =>
    obtain ⟨hp, hk⟩ := (find?_former_eq_some_iff hold).mp hf
    simp only [bne_iff_ne]
    constructor
    · intro hne
      exact ⟨p, hp, hk, hne⟩
    · rintro ⟨q, hq, hk', hne⟩
      -- The old table has one transition under the pair.
      have hfq := (find?_former_eq_some_iff hold).mpr ⟨hq, hk'⟩
      rw [hf] at hfq
      cases hfq
      exact hne

/-- The pairs of the old table are pairwise distinct. -/
lemma nodup_former (hold : ∀ o ∈ old, o.WellFormed) :
    ((former old).map Transition.key).Nodup := by
  cases old with
  | none => exact List.nodup_nil
  | some o => exact (hold o rfl).keys_nodup

/-- A difference lists no pair twice. -/
theorem nodup_keys_between (hold : ∀ o ∈ old, o.WellFormed) (hnew : new.WellFormed) :
    (between old new).keys.Nodup := by
  have hadded : ((between old new).added.map Transition.key).Nodup :=
    hnew.keys_nodup.sublist (List.filter_sublist.map _)
  have hremoved : ((between old new).removed.map Transition.key).Nodup :=
    (nodup_former hold).sublist (List.filter_sublist.map _)
  have hchanged : ((between old new).changed.map Transition.key).Nodup :=
    hnew.keys_nodup.sublist (List.filter_sublist.map _)
  rw [keys, List.map_append, List.map_append]
  refine List.nodup_append.mpr ⟨List.nodup_append.mpr ⟨hadded, hremoved, ?_⟩, hchanged, ?_⟩
  · rintro k hka k' hkr rfl
    obtain ⟨a, ha, rfl⟩ := List.mem_map.mp hka
    obtain ⟨p, hp, hk⟩ := List.mem_map.mp hkr
    exact (mem_added_iff.mp ha).2 p (mem_removed_iff.mp hp).1 hk
  · rintro k hk k' hkc rfl
    obtain ⟨c, hc, rfl⟩ := List.mem_map.mp hkc
    obtain ⟨hc, q, hq, hqc, -⟩ := (mem_changed_iff hold).mp hc
    rcases List.mem_append.mp hk with hka | hkr
    · obtain ⟨a, ha, hac⟩ := List.mem_map.mp hka
      exact (mem_added_iff.mp ha).2 q hq (hqc.trans hac.symm)
    · obtain ⟨p, hp, hpc⟩ := List.mem_map.mp hkr
      exact (mem_removed_iff.mp hp).2 c hc hpc.symm

end Lists

end TableDiff

/-! ## No patch does with less -/

namespace Replica

/-- A pair that a difference does not list keeps what it has. -/
lemma rules_patch_of_notMem (m : Replica) {d : TableDiff} {k : String × String} (hk : k ∉ d.keys) :
    (m.patch d).rules k = m.rules k := by
  rw [TableDiff.mem_keys_iff] at hk
  push Not at hk
  obtain ⟨hadded, hremoved, hchanged⟩ := hk
  rw [rules_patch, set_of_forall_ne hchanged, set_of_forall_ne hadded, drop_of_forall_ne hremoved]

variable {old : Option Table} {new : Table}

/-- Under a listed pair the old and the new map do not agree. -/
lemma rules_ne_of_mem_keys (hold : ∀ o ∈ old, o.WellFormed) (hnew : new.WellFormed)
    {k : String × String} (hk : k ∈ (TableDiff.between old new).keys) :
    (ofTable? old).rules k ≠ new.replica.rules k := by
  intro heq
  have hmap : TableDiff.find? (TableDiff.former old) k = TableDiff.find? new.transitions k := by
    rw [rules_ofTable?] at heq
    exact heq
  rcases TableDiff.mem_keys_iff.mp hk with ⟨r, hr, rfl⟩ | ⟨r, hr, rfl⟩ | ⟨r, hr, rfl⟩
  · obtain ⟨hr, hnone⟩ := TableDiff.mem_added_iff.mp hr
    rw [TableDiff.find?_eq_none_iff.mpr hnone] at hmap
    exact TableDiff.find?_key_ne_none hr hmap.symm
  · obtain ⟨hr, hnone⟩ := TableDiff.mem_removed_iff.mp hr
    rw [TableDiff.find?_eq_none_iff.mpr hnone] at hmap
    exact TableDiff.find?_key_ne_none hr hmap
  · obtain ⟨hr, q, hq, hk, hne⟩ := (TableDiff.mem_changed_iff hold).mp hr
    rw [(TableDiff.find?_former_eq_some_iff hold).mpr ⟨hq, hk⟩,
      hnew.find?_eq_some_iff.mpr ⟨hr, rfl⟩] at hmap
    exact hne (Option.some.inj hmap)

/-- Whatever leads to the replica of the new table lists the pairs of the difference. -/
theorem mem_keys_of_patch_eq (hold : ∀ o ∈ old, o.WellFormed) (hnew : new.WellFormed)
    {d : TableDiff} (hd : (ofTable? old).patch d = new.replica) {k : String × String}
    (hk : k ∈ (TableDiff.between old new).keys) : k ∈ d.keys := by
  by_contra hnot
  refine rules_ne_of_mem_keys hold hnew hk ?_
  rw [← hd, rules_patch_of_notMem _ hnot]

end Replica

/-- Tables with the same start and the same transitions, in whatever order, have the same
replica. -/
lemma Table.WellFormed.replica_eq {a b : Table} (ha : a.WellFormed) (hb : b.WellFormed)
    (hinitial : a.initial = b.initial) (h : ∀ r, r ∈ a.transitions ↔ r ∈ b.transitions) :
    a.replica = b.replica := by
  refine Replica.ext (funext fun k => Option.ext fun r => ?_) hinitial
  exact ha.find?_eq_some_iff.trans ((and_congr_left' (h r)).trans hb.find?_eq_some_iff.symm)

namespace TableDiff

/-- Nothing differs between two tables exactly when they have the same start and the same
transitions. -/
theorem isEmpty_between_iff {old new : Table} (hold : old.WellFormed) (hnew : new.WellFormed) :
    (between (some old) new).isEmpty = true ↔
      old.initial = new.initial ∧ ∀ r, r ∈ old.transitions ↔ r ∈ new.transitions := by
  constructor
  · intro h
    have heq := Replica.replica_eq_of_isEmpty hnew h
    exact ⟨congrArg Replica.initial heq, fun _ => hold.mem_transitions_iff_of_replica_eq hnew heq⟩
  · rintro ⟨hinitial, hsame⟩
    -- The replica is right as it is, so the empty difference would do, and no pair is listed.
    have hnothing : (Replica.ofTable? (some old)).patch {} = new.replica := by
      rw [Replica.patch_of_isEmpty _ rfl]
      exact hold.replica_eq hnew hinitial hsame
    have hkeys : (between (some old) new).keys = [] := by
      refine List.eq_nil_iff_forall_not_mem.mpr fun k hk => ?_
      have hmem := Replica.mem_keys_of_patch_eq (by rintro o ⟨⟩; exact hold) hnew hnothing hk
      cases hmem
    have hinitial : (between (some old) new).initial = none := if_pos (beq_iff_eq.mpr hinitial)
    simp only [keys, List.map_eq_nil_iff, List.append_eq_nil_iff] at hkeys
    simp [isEmpty, hkeys, hinitial]

/-- The difference between two tables, or between no table and one, takes the map and the start of
the old table to those of the new one. It adds the transitions whose pair of state and symbol is
new, removes those whose pair is gone, and changes those whose pair has another transition now; all
in table order, and each pair once. Every other way from the old map and start to the new ones lists
these pairs too. Between two tables nothing differs exactly when they have the same start and the
same transitions. -/
theorem difference_is_least_patch {old : Option Table} {new : Table}
    (hold : ∀ o ∈ old, o.Reachable) (hnew : new.Reachable) :
    (Replica.ofTable? old).patch (between old new) = new.replica ∧
    (∀ r, r ∈ (between old new).added ↔
      r ∈ new.transitions ∧ ∀ q ∈ former old, q.key ≠ r.key) ∧
    (∀ r, r ∈ (between old new).removed ↔
      r ∈ former old ∧ ∀ q ∈ new.transitions, q.key ≠ r.key) ∧
    (∀ r, r ∈ (between old new).changed ↔
      r ∈ new.transitions ∧ ∃ q ∈ former old, q.key = r.key ∧ q ≠ r) ∧
    (between old new).added.Sublist new.transitions ∧
    (between old new).removed.Sublist (former old) ∧
    (between old new).changed.Sublist new.transitions ∧
    (between old new).keys.Nodup ∧
    (∀ d : TableDiff, (Replica.ofTable? old).patch d = new.replica →
      ∀ k ∈ (between old new).keys, k ∈ d.keys) ∧
    (∀ o, old = some o → ((between old new).isEmpty = true ↔
      o.initial = new.initial ∧ ∀ r, r ∈ o.transitions ↔ r ∈ new.transitions)) := by
  have hold' : ∀ o ∈ old, o.WellFormed := fun o ho => (hold o ho).wellFormed
  have hnew' := hnew.wellFormed
  refine ⟨Replica.replica_patch_between old hnew', fun _ => mem_added_iff, fun _ => mem_removed_iff,
    fun _ => mem_changed_iff hold', List.filter_sublist, List.filter_sublist, List.filter_sublist,
    nodup_keys_between hold' hnew', ?_, ?_⟩
  · intro d hd k hk
    exact Replica.mem_keys_of_patch_eq hold' hnew' hd hk
  · rintro o rfl
    exact isEmpty_between_iff (hold' o rfl) hnew'

/-- A gate that lets ones pass and turns back at a zero. -/
def gate : Table :=
  Table.empty.perform (.addAll [⟨"open", "1", "1", "r", "open"⟩, ⟨"open", "0", "0", "l", "open"⟩,
    ⟨"open", "_", "_", "*", "halt-open"⟩])

/-- A gate that shuts behind every one. -/
def selfShutting : Table :=
  Table.empty.perform (.addAll [⟨"shut", "*", "*", "r", "open"⟩,
    ⟨"open", "_", "_", "*", "halt-open"⟩, ⟨"open", "1", "0", "r", "shut"⟩])

/-- The first gate, with its rules in another order. -/
def gateReordered : Table :=
  Table.empty.perform (.addAll [⟨"open", "_", "_", "*", "halt-open"⟩,
    ⟨"open", "0", "0", "l", "open"⟩, ⟨"open", "1", "1", "r", "open"⟩])

/-- From the one gate to the other there is something of each kind to do, and one rule stays as it
is; without an old gate everything is added. The order of rules makes no difference. -/
theorem difference_is_least_patch_gate :
    (gate.Reachable ∧ selfShutting.Reachable ∧ gateReordered.Reachable) ∧
    between (some gate) selfShutting =
      ⟨[⟨"shut", "*", "*", "r", "open"⟩], [⟨"open", "0", "0", "l", "open"⟩],
        [⟨"open", "1", "0", "r", "shut"⟩], some "shut"⟩ ∧
    (Replica.ofTable? (some gate)).patch (between (some gate) selfShutting) =
      selfShutting.replica ∧
    (between (some gate) selfShutting).keys.Nodup ∧
    Replica.empty.patch (between none gate) = gate.replica ∧
    (between (some gate) gateReordered).isEmpty = true := by
  have hgate : gate.Reachable := .step .empty _
  have hshut : selfShutting.Reachable := .step .empty _
  have hreordered : gateReordered.Reachable := .step .empty _
  have hold : ∀ o ∈ some gate, o.Reachable := by
    rintro o ⟨⟩
    exact hgate
  have hnone : ∀ o ∈ (none : Option Table), o.Reachable := by
    rintro o ⟨⟩
  have hsame : ∀ r, r ∈ gate.transitions ↔ r ∈ gateReordered.transitions := by
    have hperm : gate.transitions.Perm gateReordered.transitions := by decide +kernel
    exact fun r => hperm.mem_iff
  obtain ⟨hpatch, -, -, -, -, -, -, honce, -, -⟩ := difference_is_least_patch hold hshut
  obtain ⟨hfirst, -⟩ := difference_is_least_patch hnone hgate
  obtain ⟨-, -, -, -, -, -, -, -, -, hempty⟩ := difference_is_least_patch hold hreordered
  exact ⟨⟨hgate, hshut, hreordered⟩, by decide +kernel, hpatch, honce, hfirst,
    (hempty gate rfl).mpr ⟨by decide +kernel, hsame⟩⟩

end TableDiff

end TapeMachine
