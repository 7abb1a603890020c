import Mathlib.Logic.Function.Basic
import Mathlib.Logic.Relation
import TapeMachine.Proofs.Store.Memory
import TapeMachine.Service

/-!
# Many requests at once

A service that is asked to change tables by many requests at once serves them in small steps: a
request takes the lock on its name, loads the table under it, writes the new one or deletes the old
one, announces the difference, and gives the lock back. `Step` is one such step of any one request,
so a run of the system is any interleaving of them. The steps are made of the functions of the
service, and a request that no other one interrupts is answered as `underLock` answers it
(`exists_steps_of_underLock`).

What the locks are for is `Guarded`: of all requests that want to change one name at most one is
past its lock. Every run keeps it (`Guarded.of_reachable`).
-/

namespace TapeMachine.Service

/-! ## Requests -/

variable {σ : Type} [Redis.KeyServer σ]

/-- A change of the table under a name: a program that compiles is put there, or the table is
deleted. -/
inductive Change (engine : Engine) where
  | put (source : String) (table : Table) (compiles : engine.compile source = .ok table)
  | delete

/-- A request to change the table under a name. -/
structure Update (engine : Engine) where
  name : Bytes
  caller : Caller
  change : Change engine

/-- An announcement: the request it was made for, the name, the difference, and the table that was
under the name right before the request wrote. -/
structure Announcement (ι : Type) where
  request : ι
  name : Bytes
  diff : TableDiff
  before : Option Table

namespace Update

variable {engine : Engine}

/-- All that the service does for a request under the lock. -/
def act (u : Update engine) (s : Service σ) : Service σ × Response :=
  match u.change with
  | .put _ t _ => s.put u.caller u.name t
  | .delete => s.delete u.caller u.name

/-- Writes the change into a store. -/
def write (u : Update engine) (store : Store σ) : Store σ × Option StoreError :=
  match u.change with
  | .put _ t _ => store.save u.caller u.name t
  | .delete => store.delete u.caller u.name

/-- The table that is there when the change has been written. -/
def result (u : Update engine) : Option Table :=
  match u.change with
  | .put _ t _ => some t.thaw
  | .delete => none

/-- The difference to the table that was loaded. There is none when nothing is deleted. -/
def diff? (u : Update engine) (old : Option Table) : Option TableDiff :=
  match u.change with
  | .put _ t _ => some (.between old t)
  | .delete => old.map fun t => .between (some t) .empty

/-- What a request is answered when it has been carried out. -/
def answer (u : Update engine) (old : Option Table) : Response :=
  match u.change with
  | .put _ t _ => json (if old.isNone then 201 else 200) (putAnswer u.name (.between old t))
  | .delete => { status := 204 }

/-- Announces the difference. -/
def tell (u : Update engine) (s : Service σ) (old : Option Table) : Service σ :=
  match u.diff? old with
  | some d => s.announce u.name d
  | none => s

/-- The difference that is announced: one that is not empty. -/
def announced? (u : Update engine) (old : Option Table) : Option TableDiff :=
  (u.diff? old).filter fun d => !d.isEmpty

/-- The announcement of the difference, if there is one: made for a request, with what was under the
name before it wrote. -/
def announcements {ι : Type} (u : Update engine) (request : ι) (old before : Option Table) :
    List (Announcement ι) :=
  (u.announced? old).toList.map fun d => ⟨request, u.name, d, before⟩

/-- An announcement says for which request it was made, and holds the difference to what the request
has loaded. -/
lemma of_mem_announcements {ι : Type} {u : Update engine} {i : ι} {old before : Option Table}
    {a : Announcement ι} (h : a ∈ u.announcements i old before) :
    a.request = i ∧ a.name = u.name ∧ a.before = before ∧ u.diff? old = some a.diff := by
  obtain ⟨d, hd, rfl⟩ := List.mem_map.mp h
  have hdiff := (Option.filter_eq_some_iff.mp (Option.mem_toList.mp hd)).1
  exact ⟨rfl, rfl, rfl, hdiff⟩

omit [Redis.KeyServer σ] in
/-- Announcing sends the difference to those who listen, and does nothing else. -/
lemma tell_eq (u : Update engine) (s : Service σ) (old : Option Table) :
    u.tell s old = { s with
      streams := (u.announced? old).elim s.streams
        (fun d => s.streams.broadcast u.name d.toJson.render) } := by
  unfold tell announced?
  cases u.diff? old with
  | none => rfl
  | some d =>
    simp only [announce, Option.filter_some]
    cases d.isEmpty <;> rfl

/-- Writing into a shelf changes what is under the name of the request. -/
lemma exists_write_memory (u : Update engine) {store : Store σ} {shelf : Shelf}
    (hstore : store = .memory shelf) :
    ∃ shelf', u.write store = (.memory shelf', none) ∧
      ∀ name, shelf'.load name = if name = u.name then u.result else shelf.load name := by
  subst hstore
  unfold write result
  cases u.change with
  | put _ t _ => exact ⟨_, rfl, shelf.load_save u.name t.thaw⟩
  | delete => exact ⟨_, rfl, shelf.load_delete u.name⟩

end Update

/-- In memory, a table is there or not, and nothing can go wrong. -/
lemma current_of_memory {s : Service σ} {shelf : Shelf} (hs : s.backend.store = .memory shelf)
    (caller : Caller) (name : Bytes) : s.current caller name = .ok (shelf.load name) := by
  unfold current Store.load
  rw [hs]
  simp only
  cases shelf.load name <;> rfl

/-- Under the lock a request loads, writes and announces, in this order. -/
lemma Update.act_of_current {engine : Engine} (u : Update engine) {s : Service σ}
    {old : Option Table} {store : Store σ} (hcurrent : s.current u.caller u.name = .ok old)
    (hwrite : u.write s.backend.store = (store, none)) :
    u.act s = (u.tell (s.withStore store) old, u.answer old) := by
  unfold write at hwrite
  unfold act tell diff? answer
  cases hchange : u.change with
  | put _ t _ =>
    rw [hchange] at hwrite
    simp only at hwrite
    simp only [put, hcurrent, hwrite]
  | delete =>
    rw [hchange] at hwrite
    simp only at hwrite
    simp only [delete, hcurrent, hwrite]
    cases old <;> rfl

/-- In memory, nothing keeps a request from being carried out. -/
lemma Update.act_of_memory {engine : Engine} (u : Update engine) {s : Service σ} {shelf : Shelf}
    (hs : s.backend.store = .memory shelf) :
    (u.act s).1 = u.tell (s.withStore (u.write s.backend.store).1) (shelf.load u.name) := by
  obtain ⟨shelf', hwrite, -⟩ := u.exists_write_memory hs
  rw [u.act_of_current (current_of_memory hs u.caller u.name) hwrite, hwrite]

/-! ## Steps -/

/-- How far a request has come, and what it has in hand: the grant of its lock, and the table that
it has loaded. Once it has written, `before` is what was there at that moment. -/
inductive Stage where
  | waiting
  | locked (g : Grant)
  | loaded (g : Grant) (old : Option Table)
  | written (g : Grant) (old before : Option Table)
  | announced (g : Grant)
  | finished

/-- The grant that a request holds. -/
def Stage.grant? : Stage → Option Grant
  | .waiting => none
  | .locked g => some g
  | .loaded g _ => some g
  | .written g _ _ => some g
  | .announced g => some g
  | .finished => none

/-- A service in the middle of its requests, and all that it has announced so far. -/
structure System (ι : Type) where
  service : Service
  stage : ι → Stage
  log : List (Announcement ι)

section Steps

variable {ι : Type} [DecidableEq ι] {engine : Engine}

/-- A service that has all of its requests before it. -/
def System.start (s : Service) : System ι :=
  ⟨s, fun _ => .waiting, []⟩

/-- Announcements are made. -/
def System.say (c : System ι) (as : List (Announcement ι)) : System ι :=
  { c with log := c.log ++ as }

/-- One request goes on, and the service with it. -/
def System.advance (c : System ι) (i : ι) (stage : Stage) (service : Service) : System ι :=
  { c with service, stage := Function.update c.stage i stage }

/-- Advancing one request leaves the stages of all others. -/
lemma System.stage_advance (c : System ι) (i j : ι) (stage : Stage) (service : Service) :
    (c.advance i stage service).stage j = if j = i then stage else c.stage j :=
  Function.update_apply c.stage i stage j

/-- One step of one request. -/
inductive Step (updates : ι → Update engine) : System ι → System ι → Prop
  | lock {c : System ι} {i : ι} {backend : Backend} {g : Grant} (hi : c.stage i = .waiting)
      (hlock : c.service.backend.lock (updates i).caller (updates i).name lockLife =
        some (.ok (backend, g))) :
      Step updates c (c.advance i (.locked g) { c.service with backend })
  | giveUp {c : System ι} {i : ι} {e : LockError} (hi : c.stage i = .waiting)
      (hlock : c.service.backend.lock (updates i).caller (updates i).name lockLife =
        some (.error e)) :
      Step updates c (c.advance i .finished c.service)
  | load {c : System ι} {i : ι} {g : Grant} {old : Option Table} (hi : c.stage i = .locked g)
      (hload : c.service.current (updates i).caller (updates i).name = .ok old) :
      Step updates c (c.advance i (.loaded g old) c.service)
  | write {c : System ι} {i : ι} {g : Grant} {old before : Option Table} {store : Store}
      (hi : c.stage i = .loaded g old)
      (hbefore : c.service.current (updates i).caller (updates i).name = .ok before)
      (hwrite : (updates i).write c.service.backend.store = (store, none)) :
      Step updates c (c.advance i (.written g old before) (c.service.withStore store))
  | announce {c : System ι} {i : ι} {g : Grant} {old before : Option Table}
      (hi : c.stage i = .written g old before) :
      Step updates c ((c.say ((updates i).announcements i old before)).advance i (.announced g)
        ((updates i).tell c.service old))
  | unlock {c : System ι} {i : ι} {g : Grant} (hi : c.stage i = .announced g) :
      Step updates c (c.advance i .finished
        { c.service with backend := (c.service.backend.unlock .patient g).1 })

variable {updates : ι → Update engine} {c : System ι}

/-- Going on twice is going on to where the second step leads. -/
lemma System.advance_advance (c : System ι) (i : ι) (stage stage' : Stage)
    (service service' : Service) :
    (c.advance i stage service).advance i stage' service' = c.advance i stage' service' := by
  simp only [advance, Function.update_idem]

/-- A request that has its lock goes on to its end if it is not interrupted. -/
lemma exists_steps_of_locked (updates : ι → Update engine) {shelf : Shelf}
    (hmemory : c.service.backend.store = .memory shelf) {i : ι} {g : Grant}
    (hi : c.stage i = .locked g) :
    ∃ log, Relation.ReflTransGen (Step updates) c
      ⟨{ ((updates i).act c.service).1 with
          backend := (((updates i).act c.service).1.backend.unlock .patient g).1 },
        Function.update c.stage i .finished, log⟩ := by
  obtain ⟨shelf', hstore, -⟩ := (updates i).exists_write_memory hmemory
  have hact := (updates i).act_of_memory hmemory
  have hcurrent := current_of_memory hmemory (updates i).caller (updates i).name
  rw [hact, hstore]
  generalize shelf.load (updates i).name = old at hcurrent ⊢
  generalize hwritten : c.service.withStore (.memory shelf') = written
  have hload : Step updates c (c.advance i (.loaded g old) c.service) := .load hi hcurrent
  have hwrite : Step updates (c.advance i (.loaded g old) c.service)
      (c.advance i (.written g old old) written) := by
    rw [← hwritten, ← c.advance_advance i (.loaded g old) (.written g old old) c.service]
    exact .write (Function.update_self i _ c.stage) hcurrent hstore
  have hannounce : Step updates (c.advance i (.written g old old) written)
      ((c.say ((updates i).announcements i old old)).advance i (.announced g)
        ((updates i).tell written old)) := by
    rw [← System.advance_advance _ i (.written g old old) (.announced g) written]
    exact .announce (Function.update_self i _ c.stage)
  refine ⟨c.log ++ (updates i).announcements i old old,
    (((Relation.ReflTransGen.single hload).tail hwrite).tail hannounce).tail ?_⟩
  rw [← Function.update_idem (.announced g) .finished c.stage]
  exact .unlock (Function.update_self i _ c.stage)

/-- A request that is not interrupted is answered as the service answers it. -/
theorem exists_steps_of_underLock {shelf : Shelf}
    (hmemory : c.service.backend.store = .memory shelf) {i : ι} (hi : c.stage i = .waiting)
    {s : Service} {r : Response}
    (h : c.service.underLock (updates i).caller (updates i).name (updates i).act = some (s, r)) :
    ∃ log, Relation.ReflTransGen (Step updates) c
      ⟨s, Function.update c.stage i .finished, log⟩ := by
  unfold underLock at h
  split at h
  · cases h
  · rename_i e hlock
    cases h
    exact ⟨c.log, .single (.giveUp hi hlock)⟩
  · rename_i backend g hlock
    obtain ⟨locks, -, hbackend⟩ := (Backend.lock_eq_ok_iff hmemory).mp hlock
    have hstore : backend.store = .memory shelf := by
      rw [hbackend]
      exact hmemory
    have hlocked : (c.advance i (.locked g) { c.service with backend }).stage i = .locked g :=
      Function.update_self i _ c.stage
    obtain ⟨log, hrest⟩ := exists_steps_of_locked updates hstore hlocked
    have hidem : Function.update (c.advance i (.locked g) { c.service with backend }).stage i
        .finished = Function.update c.stage i .finished := Function.update_idem _ _ _
    rw [hidem] at hrest
    refine ⟨log, .head (.lock hi hlock) ?_⟩
    cases h
    exact hrest

end Steps

/-! ## What the locks are for -/

section Guards

variable {ι : Type} {engine : Engine} {updates : ι → Update engine} {c c' : System ι}

/-- Of all requests that want to change one name at most one is past its lock, and it holds a grant
for the name. -/
structure Guarded (updates : ι → Update engine) (c : System ι) : Prop where
  memory : ∃ shelf, c.service.backend.store = .memory shelf
  holds : ∀ i, ∀ g ∈ (c.stage i).grant?,
    g ∈ c.service.backend.locks.held ∧ g.key = (updates i).name
  exclusive : ∀ i j, (c.stage i).grant?.isSome → (c.stage j).grant?.isSome →
    (updates i).name = (updates j).name → i = j

/-- Nobody has got past a lock that is free. -/
lemma Guarded.grant?_eq_none (h : Guarded updates c) {i : ι}
    (hfree : c.service.backend.locks.isHeld (updates i).name = false) :
    (c.stage i).grant? = none := by
  refine Option.eq_none_iff_forall_not_mem.mpr fun g hg => ?_
  obtain ⟨hheld, hkey⟩ := h.holds i g hg
  exact Locks.isHeld_eq_false_iff.mp hfree g hheld hkey

/-- Two requests that are past their locks change different names. -/
lemma Guarded.name_ne (h : Guarded updates c) {i j : ι} (hij : i ≠ j)
    (hi : (c.stage i).grant?.isSome) (hj : (c.stage j).grant?.isSome) :
    (updates i).name ≠ (updates j).name :=
  fun hname => hij (h.exclusive i j hi hj hname)

/-- It stays so while grants are only kept or given back. -/
lemma Guarded.of_grants (h : Guarded updates c)
    (hmemory : ∃ shelf, c'.service.backend.store = .memory shelf)
    (hgrants : ∀ i, ∀ g ∈ (c'.stage i).grant?,
      g ∈ (c.stage i).grant? ∧ g ∈ c'.service.backend.locks.held) : Guarded updates c' := by
  have hsome : ∀ i, (c'.stage i).grant?.isSome → (c.stage i).grant?.isSome := by
    intro i hi
    obtain ⟨g, hg⟩ := Option.isSome_iff_exists.mp hi
    exact Option.isSome_of_mem (hgrants i g hg).1
  refine ⟨hmemory, ?_, ?_⟩
  · intro i g hg
    obtain ⟨hold, hheld⟩ := hgrants i g hg
    exact ⟨hheld, (h.holds i g hold).2⟩
  · intro i j hi hj hname
    exact h.exclusive i j (hsome i hi) (hsome j hj) hname

/-- Nobody is past a lock at the start. -/
lemma Guarded.start {s : Service} (hs : s.backend = .memory) :
    Guarded updates (System.start s) := by
  refine ⟨⟨{}, by rw [System.start, hs]; rfl⟩, ?_, ?_⟩
  · intro i g hg
    cases hg
  · intro i j hi
    cases hi

variable [DecidableEq ι]

/-- A step that leaves the locks alone and in which a request takes no new grant. -/
lemma Guarded.advance (h : Guarded updates c) {i : ι} {stage : Stage} {service : Service}
    (hmemory : ∃ shelf, service.backend.store = .memory shelf)
    (hlocks : service.backend.locks = c.service.backend.locks)
    (hstage : ∀ g ∈ stage.grant?, g ∈ (c.stage i).grant?) :
    Guarded updates (c.advance i stage service) := by
  refine h.of_grants hmemory fun j g hg => ?_
  have hold : g ∈ (c.stage j).grant? := by
    rw [System.stage_advance] at hg
    split at hg
    · rename_i hj
      rw [hj]
      exact hstage g hg
    · exact hg
  refine ⟨hold, ?_⟩
  change g ∈ service.backend.locks.held
  rw [hlocks]
  exact (h.holds j g hold).1

/-- Every step keeps the locks' promise. -/
theorem Guarded.step (h : Guarded updates c) (hs : Step updates c c') : Guarded updates c' := by
  obtain ⟨shelf, hmemory⟩ := h.memory
  cases hs with
  | @lock i backend g hi hlock =>
    obtain ⟨locks, hgrant, rfl⟩ := (Backend.lock_eq_ok_iff hmemory).mp hlock
    obtain ⟨hfree, rfl, rfl⟩ := Locks.lock_eq_ok_iff.mp hgrant
    -- Whoever is past a lock is past another one, for this one was free.
    have hother : ∀ j, (c.stage j).grant?.isSome → (updates j).name ≠ (updates i).name := by
      intro j hj hname
      rw [h.grant?_eq_none (hname ▸ hfree)] at hj
      cases hj
    refine ⟨⟨shelf, hmemory⟩, ?_, ?_⟩
    · intro j g hg
      rw [System.stage_advance] at hg
      split at hg
      · rename_i hj
        cases hg
        exact ⟨List.mem_cons_self, by rw [hj]⟩
      · obtain ⟨hheld, hkey⟩ := h.holds j g hg
        exact ⟨List.mem_cons_of_mem _ hheld, hkey⟩
    · intro j k hj hk hname
      rw [System.stage_advance] at hj hk
      split at hj
      · rename_i hji
        split at hk
        · rename_i hki
          rw [hji, hki]
        · rw [hji] at hname
          exact absurd hname.symm (hother k hk)
      · split at hk
        · rename_i hki
          rw [hki] at hname
          exact absurd hname (hother j hj)
        · exact h.exclusive j k hj hk hname
  | @giveUp i e hi hlock =>
    refine h.advance ⟨shelf, hmemory⟩ rfl ?_
    intro g hg
    cases hg
  | @load i g old hi hload =>
    refine h.advance ⟨shelf, hmemory⟩ rfl ?_
    rw [hi]
    exact fun _ hg => hg
  | @write i g old before store hi hbefore hwrite =>
    obtain ⟨shelf', hwrite', -⟩ := (updates i).exists_write_memory hmemory
    rw [hwrite] at hwrite'
    cases hwrite'
    refine h.advance ⟨shelf', rfl⟩ rfl ?_
    rw [hi]
    exact fun _ hg => hg
  | @announce i g old before hi =>
    have hbackend : ((updates i).tell c.service old).backend = c.service.backend := by
      rw [Update.tell_eq]
    have hsay : Guarded updates (c.say ((updates i).announcements i old before)) :=
      ⟨h.memory, h.holds, h.exclusive⟩
    refine hsay.advance ⟨shelf, hbackend ▸ hmemory⟩ (congrArg Backend.locks hbackend) ?_
    change ∀ g' ∈ some g, g' ∈ (c.stage i).grant?
    rw [hi]
    exact fun _ hg => hg
  | @unlock i g hi =>
    rw [Backend.unlock_of_memory hmemory]
    have hmine : g ∈ (c.stage i).grant? := by
      rw [hi]
      rfl
    refine h.of_grants ⟨shelf, hmemory⟩ fun j g' hg' => ?_
    rw [System.stage_advance] at hg'
    split at hg'
    · cases hg'
    · rename_i hj
      obtain ⟨hheld, hkey⟩ := h.holds j g' hg'
      refine ⟨hg', Locks.mem_held_unlock.mpr ⟨hheld, ?_⟩⟩
      -- The grant that is given back is for another name.
      rintro rfl
      have hname := h.name_ne hj (Option.isSome_of_mem hg') (Option.isSome_of_mem hmine)
      rw [← hkey, (h.holds i g' hmine).2] at hname
      exact hname rfl

/-- Of all requests that want to change one name at most one is past its lock, at any time. -/
theorem Guarded.of_reachable {s : Service} (hs : s.backend = .memory)
    (h : Relation.ReflTransGen (Step updates) (System.start s) c) : Guarded updates c := by
  induction h with
  | refl => exact .start hs
  | tail _ hstep ih => exact ih.step hstep

end Guards

end TapeMachine.Service
