import TapeMachine.Proofs.Store.SameMap

/-!
# Backends that keep tables for ever

Tables are kept for ever in memory, and on a key server where they have no limited life. Either way
a backend is a map from names to tables, with locks beside it (`Keeper.Holds`): what is done to
tables leaves the locks alone, and what is done to locks leaves the tables alone. So both kinds of
backend are used in the same way, and what is said about their use need not say which one it is.

A key server does not serve callers who have gone away; nothing changes then.
-/

namespace TapeMachine

open Redis

open KeyServer

/-- A keeper of tables: memory, or a key server. -/
inductive Keeper where
  | memory
  | server (k : Shared)

namespace Keeper

/-- A keeper serves a caller. A key server serves only those who are still there. -/
def Admits : Keeper → Caller → Prop
  | .memory, _ => True
  | .server _, caller => caller.absent? = none

/-- A caller who is served is so within a limited time. -/
lemma Admits.limited {keeper : Keeper} {caller : Caller} (h : keeper.Admits caller)
    (nanoseconds : ℕ) : keeper.Admits (caller.limited nanoseconds) := by
  cases keeper with
  | memory => trivial
  | server k =>
    unfold Caller.limited
    split
    · exact h
    · cases caller with
      | gone => cases h
      | _ => rfl

variable {σ : Type} [KeyServer σ]

/-- A backend of a keeper holds the tables of a map, and its locks are free but for those that are
held. -/
inductive Holds (m : Contents) (held : Option Grant) : Keeper → Backend σ → Prop
  | memory {shelf : Shelf} {next : ℕ} (hshelf : shelf.Holds m) :
      Holds m held .memory ⟨.memory shelf, ⟨held.toList, next⟩⟩
  | server {k : Shared} {s : σ} {locks : Locks} (hlife : k.life = 0) (hserver : k.Holds s m)
      (hlocks : ∀ key, textAt (slot? s (k.lockKey key)) =
        .ok ((held.filter fun g => g.key == key).map fun g => tokenText g.token)) :
      Holds m held (.server k) ⟨.redis k s, locks⟩

/-- A backend of a keeper has not been used yet. -/
inductive Fresh : Keeper → Backend σ → Prop
  | memory : Fresh .memory .memory
  | server {k : Shared} {s : σ} {locks : Locks} (hlife : k.life = 0) (hs : k.Unused s)
      (hlocks : ∀ key, slot? s (k.lockKey key) = none) : Fresh (.server k) ⟨.redis k s, locks⟩

variable {keeper : Keeper} {b : Backend σ}

/-- A backend that has not been used holds the empty map. -/
lemma Fresh.holds (h : keeper.Fresh b) : keeper.Holds (fun _ => none) none b := by
  cases h with
  | memory =>
    have hunused : Shared.Unused {} ({} : Server) := ⟨rfl, fun _ => rfl, rfl⟩
    exact .memory hunused.bothHold.memory
  | server hlife hs hlocks =>
    exact .server hlife hs.bothHold.server fun key => textAt_eq_none_iff.mpr (hlocks key)

end Keeper

section

variable {σ : Type} [KeyServer σ] [LawfulKeyServer σ]

/-- What is done to locks leaves the tables of a server alone. -/
lemma Shared.Holds.run_lockKey {k : Shared} {s : σ} {m : Contents} (h : k.Holds s m)
    (caller : Caller) (key : Bytes) (c : Command) :
    k.Holds (KeyServer.run s caller (k.lockKey key) c).1 m := by
  obtain ⟨ms, hms, hlists⟩ := h.index
  refine ⟨LawfulKeyServer.works_run s caller _ c h.works, fun name => ?_, ms, ?_, hlists⟩
  · rw [KeyServer.slot?_run_of_ne h.works caller c (k.keysApart.table_ne_lock name key), h.tables]
  · rw [KeyServer.slot?_run_of_ne h.works caller c (k.keysApart.index_ne_lock key), hms]

namespace Keeper.Holds

open KeyServer

variable {keeper : Keeper} {m : Contents} {held : Option Grant} {b : Backend σ} {caller : Caller}

/-! ## Locks -/

/-- A lock that is free is granted. -/
lemma lock (h : keeper.Holds m none b) (hcaller : keeper.Admits caller) (key : Bytes) (life : ℕ) :
    ∃ b' g, b.lock caller key life = some (.ok (b', g)) ∧ keeper.Holds m (some g) b' := by
  cases h with
  | memory hshelf => exact ⟨_, _, rfl, .memory hshelf⟩
  | @server k s locks hlife hserver hlocks =>
    have hfree : slot? s (k.lockKey key) = none := textAt_eq_none_iff.mp (hlocks key)
    let c : Command := .setNew (tokenText locks.next) (term? life)
    have hlock : Redis.lock s caller (k.lockKey key) locks.next life =
        some (.ok (run s caller (k.lockKey key) c).1) :=
      (Redis.lock_eq_ok_iff hserver.works).mpr ⟨hcaller, hfree, rfl⟩
    refine ⟨⟨.redis k (run s caller (k.lockKey key) c).1, { locks with next := locks.next + 1 }⟩,
      ⟨key, locks.next⟩, ?_, .server hlife (hserver.run_lockKey caller key c) fun other => ?_⟩
    · simp only [Backend.lock, hlock]
      rfl
    · rw [LawfulKeyServer.slot?_run s caller _ _ _ hserver.works hcaller, hfree]
      by_cases hother : other = key
      · subst hother
        rw [if_pos rfl]
        change textAt (some ⟨.text (tokenText locks.next), term? life⟩) = _
        simp [textAt]
      · rw [if_neg fun heq => hother (k.keysApart.lock_injective heq), hlocks]
        simp [Ne.symm hother]

/-- A caller who is not served gets no lock. -/
lemma lock_of_not_admits (h : keeper.Holds m none b) (hcaller : ¬ keeper.Admits caller)
    (key : Bytes) (life : ℕ) : ∃ e, b.lock caller key life = some (.error e) := by
  cases h with
  | memory hshelf => exact absurd trivial hcaller
  | @server k s locks hlife hserver hlocks =>
    obtain ⟨cause, hcause⟩ := Option.ne_none_iff_exists'.mp hcaller
    refine ⟨.stopped cause, ?_⟩
    simp [Backend.lock, Redis.lock, LawfulKeyServer.run_of_absent s caller _ _ cause hcause,
      Except.map]

/-- A lock that is given back is free. -/
lemma unlock {g : Grant} (h : keeper.Holds m (some g) b) :
    keeper.Holds m none (b.unlock .patient g).1 := by
  cases h with
  | @memory shelf next hshelf =>
    have hheld : (Locks.unlock ⟨(some g).toList, next⟩ g) = ⟨none.toList, next⟩ := by
      simp [Locks.unlock]
    rw [Backend.unlock_of_memory rfl, hheld]
    exact .memory hshelf
  | @server k s locks hlife hserver hlocks =>
    have hmine : textAt (slot? s (k.lockKey g.key)) = .ok (some (tokenText g.token)) := by
      simp [hlocks]
    have hunlock : Redis.unlock s .patient (k.lockKey g.key) g.token =
        .ok (run s .patient (k.lockKey g.key) (.deleteText (tokenText g.token))).1 :=
      (Redis.unlock_eq_ok_iff hserver.works hmine).mpr ⟨rfl, rfl⟩
    simp only [Backend.unlock, hunlock]
    refine .server hlife (hserver.run_lockKey .patient g.key _) fun key => ?_
    rw [LawfulKeyServer.slot?_run s .patient _ _ _ hserver.works rfl]
    by_cases hkey : key = g.key
    · subst hkey
      rw [if_pos rfl, Command.act_deleteText hmine, if_pos rfl]
      simp [textAt]
    · rw [if_neg fun heq => hkey (k.keysApart.lock_injective heq), hlocks]
      simp [Ne.symm hkey]

/-! ## Tables -/

/-- What is loaded is a copy of the table of the map. -/
lemma load (h : keeper.Holds m held b) (hcaller : keeper.Admits caller) {name : Bytes}
    (hm : ∀ t, m name = some t → t.Storable) :
    b.store.load caller name = (match m name with
      | some t => .ok t.thaw
      | none => .error .notFound) := by
  cases h with
  | memory hshelf =>
    simp only [Store.load, hshelf.tables name]
    cases m name <;> rfl
  | server hlife hserver hlocks => exact hserver.load hcaller name hm

/-- Saving puts a table into the map. -/
lemma save (h : keeper.Holds m held b) (hcaller : keeper.Admits caller) (name : Bytes)
    (t : Table) :
    ∃ store, b.store.save caller name t = (store, none) ∧
      keeper.Holds (Function.update m name (some t)) held { b with store } := by
  cases h with
  | memory hshelf => exact ⟨_, rfl, .memory (hshelf.save name t)⟩
  | @server k s locks hlife hserver hlocks =>
    obtain ⟨s', hsave, hholds⟩ := hserver.save hlife hcaller name t 0
    refine ⟨.redis k s', by simp only [Store.save, hsave], .server hlife hholds fun key => ?_⟩
    rw [← hlocks, ← k.slot?_lockKey_save hserver.works caller name key t 0, hsave]

/-- Deleting takes a table out of the map. -/
lemma delete (h : keeper.Holds m held b) (hcaller : keeper.Admits caller) (name : Bytes) :
    ∃ store, b.store.delete caller name = (store, none) ∧
      keeper.Holds (Function.update m name none) held { b with store } := by
  cases h with
  | memory hshelf => exact ⟨_, rfl, .memory (hshelf.delete name)⟩
  | @server k s locks hlife hserver hlocks =>
    obtain ⟨s', hdelete, hholds⟩ := hserver.delete hcaller name
    refine ⟨.redis k s', by simp only [Store.delete, hdelete], .server hlife hholds fun key => ?_⟩
    rw [← hlocks, ← k.slot?_lockKey_delete hserver.works caller name key, hdelete]

/-- Listing changes nothing, and lists the names of the map in the order of their bytes. -/
lemma list (h : keeper.Holds m held b) (hcaller : keeper.Admits caller) :
    ∃ store names, b.store.list caller = (store, .ok names) ∧
      keeper.Holds m held { b with store } ∧
      (∀ name, name ∈ names ↔ (m name).isSome) ∧
      names.Pairwise (· < ·) := by
  cases h with
  | memory hshelf =>
    obtain ⟨horder, hmem⟩ := hshelf.names_spec
    exact ⟨_, _, rfl, .memory hshelf, hmem, horder⟩
  | @server k s locks hlife hserver hlocks =>
    obtain ⟨s', names, hlist, hholds, horder, hmem⟩ :=
      hserver.list hcaller (show (0 : Int) < Shared.farFuture by decide)
    refine ⟨.redis k s', names, by simp only [Store.list, hlist],
      .server hlife hholds fun key => ?_, hmem, horder⟩
    rw [← hlocks, ← k.slot?_lockKey_list hserver.works caller key 0, hlist]

/-- A caller who is not served gets no list. -/
lemma list_of_not_admits (h : keeper.Holds m held b) (hcaller : ¬ keeper.Admits caller) :
    ∃ e, b.store.list caller = (b.store, .error e) := by
  cases h with
  | memory hshelf => exact absurd trivial hcaller
  | @server k s locks hlife hserver hlocks =>
    obtain ⟨cause, hcause⟩ := Option.ne_none_iff_exists'.mp hcaller
    refine ⟨.server "failed to prune expired tables" (.stopped cause), ?_⟩
    simp [Store.list, Shared.list, LawfulKeyServer.run_of_absent s caller _ _ cause hcause]

end Keeper.Holds

end

end TapeMachine
