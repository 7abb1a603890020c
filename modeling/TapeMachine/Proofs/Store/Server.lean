import TapeMachine.Proofs.Store.Memory

/-!
# Tables on a key server

A lawful server is a map from keys to slots: while it works, a command changes what stands under its
key, in the way that is documented, and nothing else (`LawfulKeyServer`). A server that lists its
keys is one (`Server.lawful`). On such a server, the keys of tables, of the index and of locks are
all different, however the keys of the store start (`Shared.keysApart`). So what is done to a table
leaves the locks alone.
-/

namespace TapeMachine

/-! ## Servers -/

namespace Redis

/-- What is documented about a kind of servers. -/
class LawfulKeyServer (σ : Type) [KeyServer σ] : Prop where
  /-- While a server works, it answers those who are there with what stands under the key. -/
  reply_run (s : σ) (caller : Caller) (key : Bytes) (c : Command) :
    KeyServer.Works s → caller.absent? = none →
      (KeyServer.run s caller key c).2 = (c.act (KeyServer.slot? s key)).2
  /-- It changes what stands under the key, and nothing else. -/
  slot?_run (s : σ) (caller : Caller) (key : Bytes) (c : Command) (other : Bytes) :
    KeyServer.Works s → caller.absent? = none →
      KeyServer.slot? (KeyServer.run s caller key c).1 other =
        if other = key then (c.act (KeyServer.slot? s key)).1 else KeyServer.slot? s other
  /-- A command that changes nothing under its key leaves the server as it is. -/
  run_of_same (s : σ) (caller : Caller) (key : Bytes) (c : Command) :
    (c.act (KeyServer.slot? s key)).1 = KeyServer.slot? s key →
      (KeyServer.run s caller key c).1 = s
  /-- Nothing is done for those who are not there. -/
  run_of_absent (s : σ) (caller : Caller) (key : Bytes) (c : Command) (cause : StopCause) :
    caller.absent? = some cause → KeyServer.run s caller key c = (s, .error (.stopped cause))
  /-- A server that works goes on working. -/
  works_run (s : σ) (caller : Caller) (key : Bytes) (c : Command) :
    KeyServer.Works s → KeyServer.Works (KeyServer.run s caller key c).1
  /-- Time takes away what has no life left. -/
  slot?_advance (s : σ) (seconds : ℕ) (key : Bytes) :
    KeyServer.slot? (KeyServer.advance s seconds) key =
      (KeyServer.slot? s key).bind (·.age seconds)
  /-- Time does not stop a server. -/
  works_advance (s : σ) (seconds : ℕ) :
    KeyServer.Works s → KeyServer.Works (KeyServer.advance s seconds)

namespace Server

/-- A slot that was put under a key is there, and the same as before is under every other key. -/
@[simp] lemma slot?_put (s : Server) (key : Bytes) (x : Option Slot) (other : Bytes) :
    (s.put key x).slot? other = if other = key then x else s.slot? other := by
  cases x with
  | none =>
    simp only [slot?, put, Option.toList_none, List.map_nil, List.append_nil]
    exact lookup_filter_ne s.slots key other
  | some x => exact lookup_filter_ne_append s.slots key other x

/-- A server that works does what a command says with those who are there. -/
lemma run_of_works {s : Server} (hs : s.failure = "") {caller : Caller}
    (hcaller : caller.absent? = none) (key : Bytes) (c : Command) :
    s.run caller key c =
      (if (c.act (s.slot? key)).1 = s.slot? key then s else s.put key (c.act (s.slot? key)).1,
        (c.act (s.slot? key)).2) := by
  simp [run, accept, hs, hcaller]

/-- What is made of each key in turn is found under it. -/
lemma lookup_filterMap_keys {β : Type} (ks : List (Bytes × β)) (f : Bytes → Option Slot)
    (key : Bytes) :
    (ks.filterMap fun x => (f x.1).map fun y => (x.1, y)).lookup key =
      if key ∈ ks.map (·.1) then f key else none := by
  induction ks with
  | nil => rfl
  | cons x ks ih =>
    rw [List.filterMap_cons, List.map_cons]
    simp only [List.mem_cons]
    by_cases hkey : key = x.1
    · subst hkey
      cases hf : f x.1 with
      | none => simp [ih, hf]
      | some y => simp
    · have hne : (key == x.1) = false := beq_eq_false_iff_ne.mpr hkey
      simp only [hkey, false_or]
      cases f x.1 with
      | none => exact ih
      | some y => simpa [List.lookup_cons, hne] using ih

/-- A server that lists its keys does what is documented. -/
instance lawful : LawfulKeyServer Server where
  reply_run s caller key c hs hcaller := congrArg Prod.snd (run_of_works hs hcaller key c)
  slot?_run s caller key c other hs hcaller := by
    change (s.run caller key c).1.slot? other = _
    rw [run_of_works hs hcaller]
    split
    · rename_i hsame
      split
      · rename_i hother
        rw [hother]
        exact hsame.symm
      · rfl
    · exact slot?_put s key _ other
  run_of_same s caller key c hsame := by
    change (s.run caller key c).1 = s
    unfold run
    split
    · rfl
    · exact if_pos hsame
  run_of_absent s caller key c cause hcaller := by
    change s.run caller key c = _
    simp [run, accept, hcaller]
  works_run s caller key c hs := by
    change (s.run caller key c).1.failure = ""
    unfold run
    split
    · exact hs
    · change (if _ then s else s.put key _).failure = ""
      split <;> exact hs
  slot?_advance s seconds key := by
    refine (lookup_filterMap_keys s.slots (fun k => (s.slot? k).bind (·.age seconds)) key).trans ?_
    split
    · rfl
    · rename_i hkey
      have hnone : KeyServer.slot? s key = none := lookup_eq_none_iff.mpr hkey
      rw [hnone]
      rfl
  works_advance _ _ hs := hs

end Server

/-! ## What a command does -/

/-- There is no text where nothing stands. -/
lemma textAt_eq_none_iff {x : Option Slot} : textAt x = .ok none ↔ x = none := by
  rcases x with _ | ⟨_ | _, _⟩ <;> simp [textAt]

/-- A text is deleted if it is the one that is meant. -/
lemma Command.act_deleteText {x : Option Slot} {t : Option String} (h : textAt x = .ok t)
    (text : String) :
    (Command.deleteText text).act x = (if t = some text then none else x, .ok .done) := by
  rw [Command.act, h]

/-- A ranking that is changed is there, even if it has become empty. -/
lemma rankingAt_changeRanking {x : Option Slot} {ms : List (Bytes × Int)}
    (h : rankingAt x = .ok ms) (change : List (Bytes × Int) → List (Bytes × Int)) :
    rankingAt (changeRanking x change).1 = .ok (change ms) ∧
      (changeRanking x change).2 = .ok .done := by
  simp only [changeRanking, h, and_true]
  split
  · rename_i hempty
    rw [List.isEmpty_iff.mp hempty]
    rfl
  · rfl

namespace KeyServer

variable {σ : Type} [KeyServer σ] [LawfulKeyServer σ] {s : σ} {caller : Caller}
  {key other : Bytes}

/-- What a command of someone who is there comes to, on a server that works. -/
lemma exists_run (hs : Works s) (hcaller : caller.absent? = none) (key : Bytes) (c : Command) :
    ∃ s', run s caller key c = (s', (c.act (slot? s key)).2) ∧ Works s' ∧
      ∀ other, slot? s' other = if other = key then (c.act (slot? s key)).1 else slot? s other :=
  ⟨(run s caller key c).1, Prod.ext rfl (LawfulKeyServer.reply_run s caller key c hs hcaller),
    LawfulKeyServer.works_run s caller key c hs,
    fun other => LawfulKeyServer.slot?_run s caller key c other hs hcaller⟩

/-- What two commands on different keys come to. -/
lemma exists_transact (hs : Works s) (hcaller : caller.absent? = none) {key₁ key₂ : Bytes}
    (hne : key₁ ≠ key₂) (c₁ c₂ : Command) {r₁ r₂ : Reply}
    (h₁ : (c₁.act (slot? s key₁)).2 = .ok r₁) (h₂ : (c₂.act (slot? s key₂)).2 = .ok r₂) :
    ∃ s', transact s caller [(key₁, c₁), (key₂, c₂)] = (s', none) ∧ Works s' ∧
      ∀ other, slot? s' other =
        if other = key₂ then (c₂.act (slot? s key₂)).1
        else if other = key₁ then (c₁.act (slot? s key₁)).1
        else slot? s other := by
  obtain ⟨s₁, hrun₁, hworks₁, hslots₁⟩ := exists_run hs hcaller key₁ c₁
  obtain ⟨s₂, hrun₂, hworks₂, hslots₂⟩ := exists_run hworks₁ hcaller key₂ c₂
  rw [hslots₁ key₂, if_neg hne.symm] at hrun₂ hslots₂
  rw [h₁] at hrun₁
  rw [h₂] at hrun₂
  refine ⟨s₂, by simp only [transact, hrun₁, hrun₂], hworks₂, fun other => ?_⟩
  rw [hslots₂, hslots₁]

/-- A command leaves every other key alone, whoever gives it. -/
lemma slot?_run_of_ne (hs : Works s) (caller : Caller) (c : Command) (hother : other ≠ key) :
    slot? (run s caller key c).1 other = slot? s other := by
  cases hcaller : caller.absent? with
  | none => rw [LawfulKeyServer.slot?_run s caller key c other hs hcaller, if_neg hother]
  | some cause => rw [LawfulKeyServer.run_of_absent s caller key c cause hcaller]

/-- So do commands in one go. -/
lemma slot?_transact_of_ne (hs : Works s) (caller : Caller) {cs : List (Bytes × Command)}
    (hcs : ∀ x ∈ cs, other ≠ x.1) : slot? (transact s caller cs).1 other = slot? s other := by
  induction cs generalizing s with
  | nil => rfl
  | cons x cs ih =>
    have hrest := ih (LawfulKeyServer.works_run s caller x.1 x.2 hs)
      fun y hy => hcs y (List.mem_cons_of_mem _ hy)
    exact hrest.trans (slot?_run_of_ne hs caller x.2 (hcs x List.mem_cons_self))

end KeyServer

/-! ## Locks -/

open KeyServer

variable {σ : Type} [KeyServer σ] [LawfulKeyServer σ] {s s' : σ} {caller : Caller} {key : Bytes}
  {token life : ℕ}

/-- A lock is granted exactly when the caller is there and nothing stands under the key. -/
lemma lock_eq_ok_iff (hs : Works s) :
    lock s caller key token life = some (.ok s') ↔
      caller.absent? = none ∧ slot? s key = none ∧
        s' = (run s caller key (.setNew (tokenText token) (term? life))).1 := by
  unfold lock
  cases hcaller : caller.absent? with
  | some cause => simp [LawfulKeyServer.run_of_absent s caller key _ cause hcaller]
  | none =>
    obtain ⟨s₁, hrun, -⟩ := exists_run hs hcaller key (.setNew (tokenText token) (term? life))
    rw [hrun]
    cases slot? s key with
    | none => simp [Command.act, eq_comm]
    | some x => simp [Command.act]

/-- A lock is given back exactly when the caller is there, if what stands under the key is a text.
-/
lemma unlock_eq_ok_iff (hs : Works s) {t : Option String} (ht : textAt (slot? s key) = .ok t) :
    unlock s caller key token = .ok s' ↔
      caller.absent? = none ∧ s' = (run s caller key (.deleteText (tokenText token))).1 := by
  unfold unlock
  cases hcaller : caller.absent? with
  | some cause => simp [LawfulKeyServer.run_of_absent s caller key _ cause hcaller]
  | none =>
    obtain ⟨s₁, hrun, -⟩ := exists_run hs hcaller key (.deleteText (tokenText token))
    rw [hrun, Command.act_deleteText ht]
    simp [eq_comm]

end Redis

/-! ## Keys -/

namespace Shared

/-- The keys of tables, of the index and of locks are all different. -/
structure KeysApart (k : Shared) : Prop where
  table_injective : Function.Injective k.tableKey
  lock_injective : Function.Injective k.lockKey
  table_ne_index : ∀ name, k.tableKey name ≠ k.indexKey
  table_ne_lock : ∀ name key, k.tableKey name ≠ k.lockKey key
  index_ne_lock : ∀ key, k.indexKey ≠ k.lockKey key

/-- Whatever the keys start with, they are told apart by what follows. -/
theorem keysApart (k : Shared) : k.KeysApart := by
  have htable : (Text.bytes "table:").head? = some 0x74 := by decide
  have hindex : (Text.bytes "index").head? = some 0x69 := by decide
  have hlock : (Text.bytes "lock:").head? = some 0x6C := by decide
  constructor
  · intro a b h
    exact List.append_cancel_left h
  · intro a b h
    exact List.append_cancel_left h
  · intro name h
    rw [tableKey, indexKey, List.append_assoc] at h
    have hheads := congrArg List.head? (List.append_cancel_left h)
    simp [List.head?_append, htable, hindex] at hheads
  · intro name key h
    rw [tableKey, lockKey, List.append_assoc, List.append_assoc] at h
    have hheads := congrArg List.head? (List.append_cancel_left h)
    simp [List.head?_append, htable, hlock] at hheads
  · intro key h
    rw [indexKey, lockKey, List.append_assoc] at h
    have hheads := congrArg List.head? (List.append_cancel_left h)
    simp [List.head?_append, hindex, hlock] at hheads

/-! ## Tables and locks -/

open Redis KeyServer

variable {σ : Type} [KeyServer σ] [LawfulKeyServer σ] (k : Shared) {s : σ} (hs : Works s)
  (caller : Caller) (name key : Bytes)
include hs

/-- Commands on the key of a table and on that of the index leave the locks alone. -/
lemma slot?_lockKey_transact (c₁ c₂ : Command) :
    slot? (transact s caller [(k.tableKey name, c₁), (k.indexKey, c₂)]).1 (k.lockKey key) =
      slot? s (k.lockKey key) := by
  refine slot?_transact_of_ne hs caller fun x hx => ?_
  simp only [List.mem_cons, List.not_mem_nil, or_false] at hx
  rcases hx with rfl | rfl
  · exact (k.keysApart.table_ne_lock name key).symm
  · exact (k.keysApart.index_ne_lock key).symm

/-- Saving a table leaves the locks alone. -/
lemma slot?_lockKey_save (t : Table) (now : Int) :
    slot? (k.save s caller name t now).1 (k.lockKey key) = slot? s (k.lockKey key) :=
  k.slot?_lockKey_transact hs caller name key (.set t.toJson.render (term? k.life))
    (.rank name (k.score now))

/-- Deleting a table leaves the locks alone. -/
lemma slot?_lockKey_delete :
    slot? (k.delete s caller name).1 (k.lockKey key) = slot? s (k.lockKey key) :=
  k.slot?_lockKey_transact hs caller name key .delete (.unrank name)

/-- Listing the names leaves the locks alone. -/
lemma slot?_lockKey_list (now : Int) :
    slot? (k.list s caller now).1 (k.lockKey key) = slot? s (k.lockKey key) := by
  have hindex := (k.keysApart.index_ne_lock key).symm
  have hpruned := slot?_run_of_ne hs caller (.prune now) hindex
  have hworks := LawfulKeyServer.works_run s caller k.indexKey (.prune now) hs
  have hlisted := slot?_run_of_ne hworks caller .members hindex
  unfold list
  split
  · rename_i hrun
    rw [hrun] at hpruned
    exact hpruned
  · rename_i hrun
    rw [hrun] at hpruned hlisted
    split <;> rename_i hrun' <;> rw [hrun'] at hlisted <;> exact hlisted.trans hpruned

end Shared

end TapeMachine
