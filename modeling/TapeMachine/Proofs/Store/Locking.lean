import TapeMachine.Proofs.Store.Lockers
import TapeMachine.Proofs.Store.Server

/-!
# Locks in one process and on a server

The locks in one process are a list of grants (`Locks.locker`); those on a server are tokens that
stand under keys and may expire (`Shared.locker`). Both are lawful: after every history, what stands
under a key is the current grant for it, if there is one. So both keep what locks promise, which is
`locks_exclude_and_release_own_grant_only`.
-/

namespace TapeMachine

open LockEvent

/-! ## Locks in one process -/

namespace Locks

/-- The locks in one process make their own tokens and know no terms. -/
def locker : Locker Locks where
  lock l caller key _ _ := l.lock caller key
  unlock l _ g := .ok (l.unlock g)
  pass l _ := l
  term _ := none
  Serves _ := True
  under l key := (l.held.filter (·.key == key)).map (·.slot none)

/-- What is true of the locks in one process after a history: new tokens are really new, and a grant
is held until it is given back. -/
structure Ready (l : Locks) (es : List LockEvent) : Prop where
  granted : ∀ g term, .granted g term ∈ es → g.token < l.next ∧ (.returned g ∈ es ∨ g ∈ l.held)
  returned : ∀ g, .returned g ∈ es → g.token < l.next ∧ g ∉ l.held

variable {l : Locks} {es : List LockEvent} {o : Holders} {key : Bytes} {g : Grant}

/-- The holder of a key is the grant that is held for it, without end. -/
lemma holder_of_holds (h : locker.Holds l o) (htell : o.Tell es) (key : Bytes) :
    l.held.filter (·.key == key) = (o key).toList.map (·.1) ∧ ∀ x ∈ o key, x.2 = none := by
  have hunder : (l.held.filter (·.key == key)).map (·.slot none) =
    (o key).toList.map fun x => x.1.slot x.2 := h key
  cases hx : o key with
  | none =>
    rw [hx] at hunder
    exact ⟨List.map_eq_nil_iff.mp hunder, fun x hmem => by cases hmem⟩
  | some x =>
    rw [hx] at hunder
    obtain ⟨y, hy, hslot⟩ := List.map_eq_singleton_iff.mp hunder
    obtain ⟨htoken, hleft⟩ := Grant.slot_inj.mp hslot
    have hxkey := ((htell key x.1 x.2).mp hx).1
    have hmem : y ∈ l.held.filter (·.key == key) := by rw [hy]; exact List.mem_singleton_self y
    have hykey : y.key = key := beq_iff_eq.mp (List.mem_filter.mp hmem).2
    have heq : y = x.1 := Grant.ext (hykey.trans hxkey.symm) htoken
    refine ⟨by rw [hy, heq]; rfl, ?_⟩
    rintro x' hx'
    cases hx'
    exact hleft.symm

/-- A grant is held exactly when it is the holder of its key. -/
lemma mem_held_iff (h : locker.Holds l o) (htell : o.Tell es) :
    g ∈ l.held ↔ ∃ left, o g.key = some (g, left) := by
  obtain ⟨hheld, -⟩ := holder_of_holds h htell g.key
  have hmem : g ∈ l.held ↔ g ∈ (o g.key).toList.map (·.1) := by
    rw [← hheld]
    simp
  rw [hmem]
  simp

/-- A lock is free when no one is its holder. -/
lemma isHeld_eq_false_iff_of_holds (h : locker.Holds l o) :
    l.isHeld key = false ↔ o key = none := by
  rw [h.eq_none_iff]
  change _ ↔ (l.held.filter (·.key == key)).map (·.slot none) = []
  simp [isHeld_eq_false_iff]

/-- A grant for a free key is its holder. -/
lemma holds_lock (h : locker.Holds l o) (hfree : l.isHeld key = false) :
    locker.Holds { held := ⟨key, l.next⟩ :: l.held, next := l.next + 1 }
      (o.grant ⟨key, l.next⟩ none) := by
  intro other
  change ((⟨key, l.next⟩ :: l.held : List Grant).filter (·.key == other)).map _ = _
  rw [Holders.grant, Function.update_apply]
  by_cases hother : other = key
  · subst hother
    have hnone : l.held.filter (·.key == other) = [] := by
      simpa using isHeld_eq_false_iff.mp hfree
    rw [if_pos rfl, List.filter_cons_of_pos (by simp), hnone]
    rfl
  · rw [if_neg hother, List.filter_cons_of_neg (by simpa using Ne.symm hother)]
    exact h other

/-- A grant that is given back is no holder any more. -/
lemma holds_unlock (h : locker.Holds l o) (htell : o.Tell es) (g : Grant) :
    locker.Holds (l.unlock g) (o.giveBack g) := by
  intro key
  obtain ⟨hheld, hend⟩ := holder_of_holds h htell key
  have hfilter : (l.unlock g).held.filter (·.key == key) =
      ((o key).toList.map (·.1)).filter (· != g) := by
    rw [← hheld, unlock, List.filter_filter, List.filter_filter]
    simp only [Bool.and_comm]
  change ((l.unlock g).held.filter (·.key == key)).map (·.slot none) = _
  rw [hfilter, Holders.giveBack]
  cases hx : o key with
  | none => rfl
  | some x =>
    have hleft : x.2 = none := hend x hx
    by_cases hg : x.1 = g
    · simp [hg]
    · simp [hg, hleft, Option.filter_some]

/-- Time does not matter to holders without end. -/
lemma pass_eq_of_holds (h : locker.Holds l o) (htell : o.Tell es) (n : ℕ) : o.pass n = o := by
  funext key
  obtain ⟨-, hend⟩ := holder_of_holds h htell key
  rw [Holders.pass]
  cases hx : o key with
  | none => rfl
  | some x =>
    rw [Option.bind_some, hend x hx]
    exact congrArg (fun left => some (x.1, left)) (hend x hx).symm

/-- A grant that is not held is given back in vain. -/
lemma unlock_eq_self (hg : g ∉ l.held) : l.unlock g = l := by
  have hheld : l.held.filter (· != g) = l.held := by
    rw [List.filter_eq_self]
    intro h hmem
    rw [bne_iff_ne]
    rintro rfl
    exact hg hmem
  rw [unlock, hheld]

/-- Taking a lock keeps the locker ready. -/
lemma Ready.lock (h : Ready l es) (key : Bytes) :
    Ready { held := ⟨key, l.next⟩ :: l.held, next := l.next + 1 }
      (.granted ⟨key, l.next⟩ none :: es) := by
  constructor
  · intro g term hg
    rcases List.mem_cons.mp hg with hg | hg
    · cases hg
      exact ⟨Nat.lt_succ_self _, .inr (.head _)⟩
    · obtain ⟨hlt, hheld⟩ := h.granted g term hg
      exact ⟨Nat.lt_succ_of_lt hlt, hheld.imp (.tail _) (.tail _)⟩
  · intro g hg
    obtain ⟨hlt, hheld⟩ := h.returned g ((List.mem_cons.mp hg).resolve_left nofun)
    refine ⟨Nat.lt_succ_of_lt hlt, fun hmem => ?_⟩
    rcases List.mem_cons.mp hmem with rfl | hmem
    · exact Nat.lt_irrefl _ hlt
    · exact hheld hmem

/-- Giving back a grant that was made keeps the locker ready. -/
lemma Ready.unlock (h : Ready l es) {term : Option ℕ} (hmade : .granted g term ∈ es) :
    Ready (l.unlock g) (.returned g :: es) := by
  constructor
  · intro x term hx
    obtain ⟨hlt, hheld⟩ := h.granted x term ((List.mem_cons.mp hx).resolve_left nofun)
    refine ⟨hlt, ?_⟩
    rcases hheld with hreturned | hheld
    · exact .inl (.tail _ hreturned)
    · by_cases hg : x = g
      · exact .inl (hg ▸ .head _)
      · exact .inr (mem_held_unlock.mpr ⟨hheld, hg⟩)
  · intro x hx
    rcases List.mem_cons.mp hx with hx | hx
    · cases hx
      exact ⟨(h.granted g term hmade).1, fun hmem => (mem_held_unlock.mp hmem).2 rfl⟩
    · obtain ⟨hlt, hheld⟩ := h.returned x hx
      exact ⟨hlt, fun hmem => hheld (mem_held_unlock.mp hmem).1⟩

/-- Time that passes keeps the locker ready: these locks do not run out. -/
lemma Ready.pass (h : Ready l es) (n : ℕ) : Ready l (.elapsed n :: es) := by
  constructor
  · intro g term hg
    obtain ⟨hlt, hheld⟩ := h.granted g term ((List.mem_cons.mp hg).resolve_left nofun)
    exact ⟨hlt, hheld.imp_left (.tail _)⟩
  · intro g hg
    exact h.returned g ((List.mem_cons.mp hg).resolve_left nofun)

/-- The locks in one process are lawful. -/
theorem lawful_locker : locker.Lawful Ready where
  term_pos life n hn := by cases hn
  lock_iff {l es o} _ hholds caller key _ _ := by
    change (∃ l' g, l.lock caller key = some (.ok (l', g))) ↔ True ∧ o key = none
    rw [← isHeld_eq_false_iff_of_holds hholds]
    simp [lock_eq_ok_iff]
  lock {l es o} hready hholds caller key _ _ l' g _ hgranted := by
    obtain ⟨hfree, rfl, rfl⟩ := lock_eq_ok_iff.mp hgranted
    have hfresh : Locker.Fresh es l.next :=
      fun g term hg => Nat.ne_of_lt (hready.granted g term hg).1
    exact ⟨rfl, hfresh, holds_lock hholds hfree, hready.lock key⟩
  unlock_iff _ _ caller g := iff_of_true ⟨_, rfl⟩ trivial
  unlock {l es o} hready hholds htell caller g term l' hmade hreturned := by
    cases hreturned
    refine ⟨holds_unlock hholds htell g, fun hsame => unlock_eq_self ?_, hready.unlock hmade⟩
    rw [mem_held_iff hholds htell, ← hsame]
    simp [Holders.giveBack, Option.filter_eq_some_iff]
  pass {l es o} hready hholds htell n := by
    rw [pass_eq_of_holds hholds htell n]
    exact ⟨hholds, hready.pass n⟩

/-- Giving a grant back does something once: the first time, it takes away whatever is held for the
key, and after that it does nothing. -/
theorem unlock_eq_of_reaches (hl : locker.Reaches {} l es) {term : Option ℕ}
    (hmade : .granted g term ∈ es) :
    l.unlock g =
      if .returned g ∈ es then l else { l with held := l.held.filter (·.key != g.key) } := by
  obtain ⟨o, htell, hholds, hready⟩ :=
    lawful_locker.exists_holders ⟨nofun, nofun⟩ (fun _ => rfl) hl
  split
  · rename_i hreturned
    exact unlock_eq_self (hready.returned g hreturned).2
  · rename_i hreturned
    have hheld : g ∈ l.held := (hready.granted g term hmade).2.resolve_left hreturned
    have hfilter : l.held.filter (· != g) = l.held.filter (·.key != g.key) := by
      refine List.filter_congr fun x hx => ?_
      rw [Bool.eq_iff_iff, bne_iff_ne, bne_iff_ne, not_iff_not]
      refine ⟨congrArg Grant.key, fun hkey => ?_⟩
      obtain ⟨left, hg⟩ := (mem_held_iff hholds htell).mp hheld
      obtain ⟨left', hx⟩ := (mem_held_iff hholds htell).mp hx
      rw [hkey, hg] at hx
      cases hx
      rfl
    rw [unlock, hfilter]

end Locks

/-! ## Locks on a server -/

namespace Redis

/-- What is in a slot stays the same as long as it is there. -/
lemma Slot.age_eq (n : ℕ) (x : Slot) :
    x.age n = (LockEvent.age n x.life).map fun left => ⟨x.item, left⟩ := by
  obtain ⟨item, life⟩ := x
  cases life with
  | none => rfl
  | some m => by_cases hm : m ≤ n <;> simp [Slot.age, LockEvent.age, hm]

end Redis

namespace Shared

open Redis KeyServer

/-- The locks on a server, under the keys of a store. -/
def locker {σ : Type} [KeyServer σ] (k : Shared) : Locker σ where
  lock s caller key token life :=
    (Redis.lock s caller (k.lockKey key) token life).map fun r => r.map fun s' => (s', ⟨key, token⟩)
  unlock s caller g := Redis.unlock s caller (k.lockKey g.key) g.token
  pass s n := KeyServer.advance s n
  term life := term? life
  Serves caller := caller.absent? = none
  under s key := (slot? s (k.lockKey key)).toList

variable {σ : Type} [KeyServer σ] [LawfulKeyServer σ] {k : Shared} {s s' : σ}
  {es : List LockEvent} {o : Holders} {caller : Caller} {key : Bytes} {token life : ℕ} {g : Grant}

/-- A lock of the store is granted when the server grants the lock under its key. -/
lemma lock_eq_ok_iff (hs : Works s) :
    k.locker.lock s caller key token life = some (.ok (s', g)) ↔
      caller.absent? = none ∧ slot? s (k.lockKey key) = none ∧ g = ⟨key, token⟩ ∧
        s' = (run s caller (k.lockKey key) (.setNew (tokenText token) (term? life))).1 := by
  change (Redis.lock s caller (k.lockKey key) token life).map _ = _ ↔ _
  rw [Option.map_eq_some_iff]
  constructor
  · rintro ⟨r, hr, hmap⟩
    cases r with
    | error e => cases hmap
    | ok s₁ =>
      cases hmap
      obtain ⟨hcaller, hslot, rfl⟩ := (Redis.lock_eq_ok_iff hs).mp hr
      exact ⟨hcaller, hslot, rfl, rfl⟩
  · rintro ⟨hcaller, hslot, rfl, rfl⟩
    exact ⟨_, (Redis.lock_eq_ok_iff hs).mpr ⟨hcaller, hslot, rfl⟩, rfl⟩

omit [LawfulKeyServer σ] in
/-- Under the key of a lock stands the token of its holder. -/
lemma slot?_of_holds (h : k.locker.Holds s o) (key : Bytes) :
    slot? s (k.lockKey key) = (o key).map fun x => x.1.slot x.2 := by
  have hunder : (slot? s (k.lockKey key)).toList = _ := h key
  have hhead := congrArg List.head? hunder
  rwa [Option.head?_toList, List.head?_map, Option.head?_toList] at hhead

omit [LawfulKeyServer σ] in
/-- So what stands there is a text. -/
lemma textAt_of_holds (h : k.locker.Holds s o) (key : Bytes) :
    textAt (slot? s (k.lockKey key)) = .ok ((o key).map fun x => tokenText x.1.token) := by
  rw [slot?_of_holds h]
  cases o key <;> rfl

/-- The text under a key is the token of a grant exactly when the grant is its holder. -/
lemma token_iff (htell : o.Tell es) :
    ((o g.key).map fun x => tokenText x.1.token) = some (tokenText g.token) ↔
      ∃ left, o g.key = some (g, left) := by
  cases hx : o g.key with
  | none => simp
  | some x =>
    have hkey := ((htell g.key x.1 x.2).mp hx).1
    have htoken : x.1.token = g.token ↔ x.1 = g :=
      ⟨fun h => Grant.ext hkey h, congrArg Grant.token⟩
    simp [tokenText_inj, htoken, Prod.ext_iff]

/-- The locks on a server that works keep the holders. -/
theorem lawful_locker (k : Shared) : k.locker.Lawful fun (s : σ) _ => Works s where
  term_pos life n hn := by
    change n ∈ (if life = 0 then none else some life) at hn
    split at hn
    · cases hn
    · cases hn
      omega
  lock_iff {s es o} hs hholds caller key token life := by
    have hfree : slot? s (k.lockKey key) = none ↔ o key = none := by
      rw [slot?_of_holds hholds, Option.map_eq_none_iff]
    change _ ↔ caller.absent? = none ∧ _
    simp [lock_eq_ok_iff hs, hfree]
  lock {s es o} hs hholds caller key token life s' g hfresh hgranted := by
    obtain ⟨hcaller, hnone, rfl, rfl⟩ := (lock_eq_ok_iff hs).mp hgranted
    refine ⟨rfl, hfresh, fun other => ?_, LawfulKeyServer.works_run _ _ _ _ hs⟩
    change (slot? _ (k.lockKey other)).toList = _
    rw [LawfulKeyServer.slot?_run _ _ _ _ _ hs hcaller, hnone, Holders.grant,
      Function.update_apply]
    simp only [k.keysApart.lock_injective.eq_iff]
    split
    · rfl
    · exact hholds other
  unlock_iff {s es o} hs hholds caller g := by
    change (∃ s', Redis.unlock s caller (k.lockKey g.key) g.token = .ok s') ↔
      caller.absent? = none
    simp [unlock_eq_ok_iff hs (textAt_of_holds hholds g.key)]
  unlock {s es o} hs hholds htell caller g term s' hmade hreturned := by
    have htext := textAt_of_holds hholds g.key
    obtain ⟨hcaller, rfl⟩ := (unlock_eq_ok_iff hs htext).mp hreturned
    have hworks := LawfulKeyServer.works_run s caller (k.lockKey g.key)
      (.deleteText (tokenText g.token)) hs
    by_cases hg : ∃ left, o g.key = some (g, left)
    · have hgone : (Command.act (slot? s (k.lockKey g.key))
          (.deleteText (tokenText g.token))).1 = none := by
        rw [Command.act_deleteText htext]
        exact if_pos ((token_iff htell).mpr hg)
      obtain ⟨left, hleft⟩ := hg
      have hnone := htell.giveBack_key ⟨left, ((htell g.key g left).mp hleft).2⟩
      refine ⟨fun other => ?_, fun hsame => ?_, hworks⟩
      · change (slot? _ (k.lockKey other)).toList = _
        rw [LawfulKeyServer.slot?_run _ _ _ _ _ hs hcaller, hgone]
        simp only [k.keysApart.lock_injective.eq_iff]
        split
        · rename_i hother
          rw [hother, hnone]
          rfl
        · rename_i hother
          rw [htell.giveBack_of_ne hother]
          exact hholds other
      · rw [hsame, hleft] at hnone
        cases hnone
    · -- What stands under the key is not the token of the grant, so nothing is changed.
      have hsame : (run s caller (k.lockKey g.key) (.deleteText (tokenText g.token))).1 = s := by
        refine LawfulKeyServer.run_of_same s caller _ _ ?_
        rw [Command.act_deleteText htext]
        exact if_neg fun h => hg ((token_iff htell).mp h)
      have hcurrent : ¬ Current es g := by
        rintro ⟨left, hlasts⟩
        exact hg ⟨left, (htell g.key g left).mpr ⟨rfl, hlasts⟩⟩
      rw [htell.giveBack_of_not_current hcurrent, hsame]
      exact ⟨hholds, fun _ => rfl, hs⟩
  pass {s es o} hs hholds htell n := by
    refine ⟨fun key => ?_, LawfulKeyServer.works_advance s n hs⟩
    change (slot? (KeyServer.advance s n) (k.lockKey key)).toList = _
    rw [LawfulKeyServer.slot?_advance, slot?_of_holds hholds, Holders.pass]
    cases o key with
    | none => rfl
    | some x =>
      simp only [Option.map_some, Option.bind_some, Slot.age_eq, Grant.slot]
      cases age n x.2 <;> rfl

/-- A server without locks keeps what locks promise, as long as it works. -/
theorem guards_of_reaches {start : σ} (hworks : Works start)
    (hfree : ∀ key, slot? start (k.lockKey key) = none) (hs : k.locker.Reaches start s es) :
    k.locker.Guards s es := by
  refine k.lawful_locker.guards hworks (fun key => ?_) hs
  change (slot? start (k.lockKey key)).toList = []
  rw [hfree key]
  rfl

end Shared

/-! ## Every history -/

/-- Locks exclude, and no one gives back the grant of someone else. In one process and on a server,
after every history of locks granted to any clients, grants given back any number of times and in
any order, and time that passed, the locks keep what they promise (`Locker.Guards`). In one process,
only the first of all attempts to give a grant back does anything. -/
theorem locks_exclude_and_release_own_grant_only {σ : Type} [Redis.KeyServer σ]
    [Redis.LawfulKeyServer σ] :
    (∀ l es, Locks.locker.Reaches {} l es →
      Locks.locker.Guards l es ∧
        ∀ g term, .granted g term ∈ es → l.unlock g =
          if .returned g ∈ es then l else { l with held := l.held.filter (·.key != g.key) }) ∧
    ∀ (k : Shared) (start s : σ) (es : List LockEvent), Redis.KeyServer.Works start →
      (∀ key, Redis.KeyServer.slot? start (k.lockKey key) = none) → k.locker.Reaches start s es →
      k.locker.Guards s es := by
  constructor
  · intro l es hl
    refine ⟨Locks.lawful_locker.guards ⟨nofun, nofun⟩ (fun _ => rfl) hl, ?_⟩
    intro g term hmade
    exact Locks.unlock_eq_of_reaches hl hmade
  · intro k start s es hworks hfree hs
    exact Shared.guards_of_reaches hworks hfree hs

/-- One client holds a lock for a second, its term is over, and another client gets the lock for a
minute. What the first client gives back then is in vain. -/
theorem locks_exclude_and_release_own_grant_only_after_expiry :
    let k : Shared := {}
    let first : Grant := ⟨"a", 0⟩
    let second : Grant := ⟨"a", 1⟩
    let es : List LockEvent := [.granted second (some 60), .elapsed 1, .granted first (some 1)]
    ∃ s : Redis.Server, k.locker.Reaches {} s es ∧ k.locker.Guards s es ∧ Current es second ∧
      k.locker.unlock s .patient first = .ok s := by
  intro k first second es
  let s₁ : Redis.Server :=
    (Redis.Server.run {} .patient (k.lockKey "a") (.setNew (Redis.tokenText 0) (some 1))).1
  let s₂ : Redis.Server := s₁.advance 1
  let s₃ : Redis.Server :=
    (s₂.run .patient (k.lockKey "a") (.setNew (Redis.tokenText 1) (some 60))).1
  have hfirst : k.locker.lock ({} : Redis.Server) .patient "a" 0 1 = some (.ok (s₁, first)) :=
    (Shared.lock_eq_ok_iff rfl).mpr ⟨rfl, rfl, rfl, rfl⟩
  have hsecond : k.locker.lock s₂ .patient "a" 1 60 = some (.ok (s₃, second)) :=
    (Shared.lock_eq_ok_iff rfl).mpr ⟨rfl, rfl, rfl, rfl⟩
  have hreaches : k.locker.Reaches {} s₃ es := by
    refine .tail (.tail (.tail .refl (.lock ?_ hfirst)) (.pass s₁ _ 1)) (.lock ?_ hsecond)
    · exact fun _ _ hmade => absurd hmade List.not_mem_nil
    intro g term hg
    simp only [List.mem_cons, reduceCtorEq, false_or, List.not_mem_nil, or_false] at hg
    cases hg
    decide
  have hguards := locks_exclude_and_release_own_grant_only.2 k ({} : Redis.Server) s₃ es rfl
    (fun _ => rfl) hreaches
  have hcurrent : Current es second :=
    ⟨some 60, [], some 60, _, rfl, List.not_mem_nil, by decide, rfl⟩
  have hmade : .granted first (some 1) ∈ es := by decide
  refine ⟨s₃, hreaches, hguards, hcurrent, ?_⟩
  obtain ⟨s', hs'⟩ := (hguards.returned_iff hmade .patient).mpr rfl
  have hstale : ¬ Current es first := by
    intro hcurrent'
    have heq := hguards.exclusive hcurrent' hcurrent rfl
    exact absurd (congrArg Grant.token heq : 0 = 1) (by decide)
  rw [hs', hguards.stale hmade hstale hs']

end TapeMachine
