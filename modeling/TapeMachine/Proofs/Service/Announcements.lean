import TapeMachine.Proofs.Program.Shorthand
import TapeMachine.Proofs.Service.Updates
import TapeMachine.Proofs.Table.Patching

/-!
# Following tables by what is announced

Whoever takes in all differences that are announced under a name, in their order and from nothing
on, has the table under the name whenever its lock is free. `Consistent` says what is true in
between: a request that is past its lock has loaded the table that is there, and one that has
written but not announced yet is the only thing that listeners are behind by. The law of differences
(`Replica.replica_patch_between`) then says that announcing brings them up to date.

The main statement, `announcements_replay_stored_tables`, is about every interleaving of any number
of requests.
-/

namespace TapeMachine.Service

/-! ## Taking announcements in -/

section Replay

variable {ι : Type} {engine : Engine}

/-- What becomes of the empty replica by the differences announced under a name. -/
def replay (log : List (Announcement ι)) (name : Bytes) : Replica :=
  ((log.filter fun a => a.name == name).map Announcement.diff).foldl Replica.patch .empty

/-- All that is sent to those who listen. -/
def broadcastAll (streams : Streams) (log : List (Announcement ι)) : Streams :=
  log.foldl (fun s a => s.broadcast a.name a.diff.toJson.render) streams

/-- Announcements are sent one after the other, so a log can be cut anywhere. -/
lemma broadcastAll_append (streams : Streams) (log log' : List (Announcement ι)) :
    broadcastAll streams (log ++ log') = broadcastAll (broadcastAll streams log) log' :=
  List.foldl_append

/-- An announcement is taken in by those who follow its name. -/
lemma replay_append_announcements (log : List (Announcement ι)) (u : Update engine) (i : ι)
    (old before : Option Table) :
    replay (log ++ u.announcements i old before) u.name =
      (u.announced? old).elim (replay log u.name) (replay log u.name).patch := by
  unfold replay Update.announcements
  cases u.announced? old with
  | none => simp
  | some d => simp

/-- An announcement means nothing to those who follow another name. -/
lemma replay_append_of_ne (log : List (Announcement ι)) {u : Update engine} {name : Bytes}
    (hname : name ≠ u.name) (i : ι) (old before : Option Table) :
    replay (log ++ u.announcements i old before) name = replay log name := by
  unfold replay Update.announcements
  cases u.announced? old with
  | none => simp
  | some d => simp [hname.symm]

/-- What is announced is what is sent. -/
lemma streams_tell (u : Update engine) (s : Service) (i : ι) (old before : Option Table) :
    (u.tell s old).streams = broadcastAll s.streams (u.announcements i old before) := by
  rw [Update.tell_eq]
  unfold broadcastAll Update.announcements
  cases u.announced? old <;> rfl

/-- An empty difference need not be announced. -/
lemma elim_filter_patch (m : Replica) (d : TableDiff) :
    ((some d).filter fun d => !d.isEmpty).elim m m.patch = m.patch d := by
  rw [Option.filter_some]
  cases h : d.isEmpty with
  | true => exact (m.patch_of_isEmpty h).symm
  | false => rfl

/-- What is announced leads from the table that was loaded to the one that was written. -/
theorem Update.patch_announced (u : Update engine) (old : Option Table) :
    (u.announced? old).elim (Replica.ofTable? old) (Replica.ofTable? old).patch =
      Replica.ofTable? u.result := by
  unfold announced? diff? result
  cases u.change with
  | put source t compiles =>
    simp only
    have hwellFormed : t.WellFormed := Program.wellFormed_of_compile compiles
    rw [elim_filter_patch, Replica.replica_patch_between old hwellFormed]
    rfl
  | delete =>
    cases old with
    | none => rfl
    | some t =>
      simp only [Option.map_some]
      rw [elim_filter_patch, Replica.replica_patch_between (some t) Table.wellFormed_empty]
      rfl

end Replay

/-! ## What is true between the steps -/

section Consistency

variable {ι : Type} {engine : Engine} {updates : ι → Update engine} {streams : Streams}
  {shelf : Shelf} {c c' : System ι}

/-- Whether a request has written and not announced yet. -/
def Stage.Pending : Stage → Prop
  | .written _ _ _ => True
  | _ => False

/-- A request stands well between its steps: it has loaded what is stored, and until it announces
what it has written, those who follow have what it loaded. -/
def Stage.Fits (u : Update engine) (stored : Option Table) (followed : Replica) : Stage → Prop
  | .loaded _ old => old = stored
  | .written _ old before =>
    old = before ∧ followed = Replica.ofTable? old ∧ stored = u.result
  | _ => True

/-- What is true of the store, the requests and the announcements at any time. -/
structure Consistent (updates : ι → Update engine) (streams : Streams) (shelf : Shelf)
    (c : System ι) : Prop where
  memory : c.service.backend.store = .memory shelf
  fits : ∀ i, (c.stage i).Fits (updates i) (shelf.load (updates i).name)
    (replay c.log (updates i).name)
  settled : ∀ name, (∀ i, (updates i).name = name → ¬ (c.stage i).Pending) →
    replay c.log name = Replica.ofTable? (shelf.load name)
  recorded : ∀ a ∈ c.log, a.name = (updates a.request).name ∧
    (updates a.request).diff? a.before = some a.diff
  sent : c.service.streams = broadcastAll streams c.log

/-- A request that has written is past its lock. -/
lemma Stage.Pending.isSome_grant? {stage : Stage} (h : stage.Pending) : stage.grant?.isSome := by
  cases stage with
  | written g old before => rfl
  | _ => cases h

/-- Only requests that are past their lock care about what is stored. -/
lemma Stage.Fits.of_eq {u : Update engine} {stage : Stage} {stored stored' : Option Table}
    {followed followed' : Replica} (h : stage.Fits u stored followed)
    (hstored : stage.grant?.isSome → stored' = stored)
    (hfollowed : stage.grant?.isSome → followed' = followed) :
    stage.Fits u stored' followed' := by
  cases stage with
  | waiting => trivial
  | locked g => trivial
  | loaded g old => exact h.trans (hstored rfl).symm
  | written g old before =>
    obtain ⟨hbefore, hreplay, hresult⟩ := h
    exact ⟨hbefore, (hfollowed rfl).trans hreplay, (hstored rfl).trans hresult⟩
  | announced g => trivial
  | finished => trivial

variable [DecidableEq ι]

/-- It stays true when a request goes on and neither the store nor the announcements change. -/
lemma Consistent.advance (h : Consistent updates streams shelf c) {i : ι} {stage : Stage}
    {service : Service} (hstore : service.backend.store = c.service.backend.store)
    (hstreams : service.streams = c.service.streams)
    (hfits : stage.Fits (updates i) (shelf.load (updates i).name)
      (replay c.log (updates i).name))
    (hpending : ¬ (c.stage i).Pending) :
    Consistent updates streams shelf (c.advance i stage service) := by
  refine ⟨hstore.trans h.memory, ?_, ?_, h.recorded, hstreams.trans h.sent⟩
  · intro j
    rw [System.stage_advance]
    split
    · rename_i hj
      rw [hj]
      exact hfits
    · exact h.fits j
  · intro name hname
    refine h.settled name fun j hj hwritten => hname j hj ?_
    have hji : j ≠ i := by
      rintro rfl
      exact hpending hwritten
    rwa [System.stage_advance, if_neg hji]

/-- The step of a request makes no difference to who is pending under another name. -/
lemma not_pending_of_advance {i : ι} {stage : Stage} {service : Service} {name : Bytes}
    (hne : name ≠ (updates i).name)
    (h : ∀ j, (updates j).name = name → ¬ ((c.advance i stage service).stage j).Pending) :
    ∀ j, (updates j).name = name → ¬ (c.stage j).Pending := by
  intro j hj hpending
  have hji : j ≠ i := by
    rintro rfl
    exact hne hj.symm
  refine h j hj ?_
  rwa [System.stage_advance, if_neg hji]

/-- A write is made by the only request that is past the lock on its name. -/
lemma Consistent.write (h : Consistent updates streams shelf c) (hguarded : Guarded updates c)
    {i : ι} {g : Grant} {old before : Option Table} {store : Store}
    (hi : c.stage i = .loaded g old)
    (hbefore : c.service.current (updates i).caller (updates i).name = .ok before)
    (hwrite : (updates i).write c.service.backend.store = (store, none)) :
    ∃ shelf', Consistent updates streams shelf'
      (c.advance i (.written g old before) (c.service.withStore store)) := by
  obtain ⟨shelf', hshelf, hload⟩ := (updates i).exists_write_memory h.memory
  rw [hshelf] at hwrite
  cases hwrite
  rw [current_of_memory h.memory] at hbefore
  cases hbefore
  have hgrant : (c.stage i).grant?.isSome := by
    rw [hi]
    rfl
  have hold : old = shelf.load (updates i).name := by
    have hfits := h.fits i
    rwa [hi] at hfits
  have hsettled : replay c.log (updates i).name = Replica.ofTable? old := by
    rw [hold]
    refine h.settled _ fun j hj hpending => ?_
    have hji : j = i := hguarded.exclusive j i hpending.isSome_grant? hgrant hj
    rw [hji, hi] at hpending
    exact hpending
  refine ⟨shelf', rfl, ?_, ?_, h.recorded, h.sent⟩
  · intro j
    rw [System.stage_advance]
    split
    · rename_i hj
      rw [hj]
      exact ⟨hold, hsettled, by rw [hload, if_pos rfl]⟩
    · rename_i hj
      refine (h.fits j).of_eq (fun hother => ?_) fun _ => rfl
      rw [hload, if_neg (hguarded.name_ne hj hother hgrant)]
  · intro name hname
    have hne : name ≠ (updates i).name := by
      intro heq
      refine hname i heq.symm ?_
      rw [System.stage_advance, if_pos rfl]
      trivial
    rw [hload, if_neg hne]
    exact h.settled name (not_pending_of_advance hne hname)

/-- What is announced brings those who follow up to date. -/
lemma Consistent.announce (h : Consistent updates streams shelf c) (hguarded : Guarded updates c)
    {i : ι} {g : Grant} {old before : Option Table} (hi : c.stage i = .written g old before) :
    Consistent updates streams shelf
      ((c.say ((updates i).announcements i old before)).advance i (.announced g)
        ((updates i).tell c.service old)) := by
  have hgrant : (c.stage i).grant?.isSome := by
    rw [hi]
    rfl
  obtain ⟨rfl, hfollowed, hstored⟩ : old = before ∧
      replay c.log (updates i).name = Replica.ofTable? old ∧
      shelf.load (updates i).name = (updates i).result := by
    have hfits := h.fits i
    rwa [hi] at hfits
  refine ⟨?_, ?_, ?_, ?_, ?_⟩
  · change ((updates i).tell c.service old).backend.store = _
    rw [Update.tell_eq]
    exact h.memory
  · intro j
    rw [System.stage_advance]
    split
    · trivial
    · rename_i hj
      refine (h.fits j).of_eq (fun _ => rfl) fun hother => ?_
      exact replay_append_of_ne c.log (hguarded.name_ne hj hother hgrant) i old old
  · intro name hname
    change replay (c.log ++ (updates i).announcements i old old) name = _
    by_cases hne : name = (updates i).name
    · rw [hne, replay_append_announcements, hfollowed, Update.patch_announced, hstored]
    · have hnone := not_pending_of_advance hne hname
      rw [replay_append_of_ne c.log hne]
      exact h.settled name hnone
  · intro a ha
    rcases List.mem_append.mp ha with ha | ha
    · exact h.recorded a ha
    · obtain ⟨hrequest, hname, hbefore, hdiff⟩ := Update.of_mem_announcements ha
      rw [hrequest, hbefore]
      exact ⟨hname, hdiff⟩
  · change ((updates i).tell c.service old).streams = broadcastAll streams (c.log ++ _)
    rw [broadcastAll_append, ← h.sent]
    exact streams_tell (updates i) c.service i old old

/-- Every step keeps the store, the requests and the announcements consistent. -/
theorem Consistent.step (h : Consistent updates streams shelf c) (hguarded : Guarded updates c)
    (hs : Step updates c c') : ∃ shelf', Consistent updates streams shelf' c' := by
  cases hs with
  | @lock i backend g hi hlock =>
    obtain ⟨locks, -, rfl⟩ := (Backend.lock_eq_ok_iff h.memory).mp hlock
    refine ⟨shelf, h.advance rfl rfl trivial ?_⟩
    rw [hi]
    exact not_false
  | @giveUp i e hi hlock =>
    refine ⟨shelf, h.advance rfl rfl trivial ?_⟩
    rw [hi]
    exact not_false
  | @load i g old hi hload =>
    rw [current_of_memory h.memory] at hload
    refine ⟨shelf, h.advance rfl rfl (Except.ok.inj hload).symm ?_⟩
    rw [hi]
    exact not_false
  | write hi hbefore hwrite => exact h.write hguarded hi hbefore hwrite
  | announce hi => exact ⟨shelf, h.announce hguarded hi⟩
  | @unlock i g hi =>
    rw [Backend.unlock_of_memory h.memory]
    refine ⟨shelf, h.advance rfl rfl trivial ?_⟩
    rw [hi]
    exact not_false

/-- The store, the requests and the announcements are consistent at any time. -/
theorem Consistent.of_reachable {s : Service} (hs : s.backend = .memory)
    (h : Relation.ReflTransGen (Step updates) (System.start s) c) :
    ∃ shelf, Consistent updates s.streams shelf c := by
  induction h with
  | refl =>
    have hmemory : s.backend.store = .memory {} := by
      rw [hs]
      rfl
    refine ⟨{}, hmemory, fun _ => trivial, fun _ _ => rfl, ?_, rfl⟩
    intro a ha
    cases ha
  | tail hrun hstep ih =>
    obtain ⟨shelf, hshelf⟩ := ih
    exact hshelf.step (Guarded.of_reachable hs hrun) hstep

/-- However the steps of any number of requests interleave: whenever the lock on a name is free, the
differences announced under it make up the table that is stored there; each of them was taken
against what was stored right before the request wrote; they are what was sent, in this order; and a
request that is not interrupted is answered as the service answers it. -/
theorem announcements_replay_stored_tables (service : Service) (hmemory : service.backend = .memory)
    (updates : ι → Update service.engine)
    (hrun : Relation.ReflTransGen (Step updates) (System.start service) c) :
    (∀ name, c.service.backend.locks.isHeld name = false →
      ∃ stored, c.service.current .patient name = .ok stored ∧
        replay c.log name = Replica.ofTable? stored) ∧
    (∀ a ∈ c.log, a.name = (updates a.request).name ∧
      (updates a.request).diff? a.before = some a.diff) ∧
    c.service.streams = broadcastAll service.streams c.log ∧
    ∀ i s r, c.stage i = .waiting →
      c.service.underLock (updates i).caller (updates i).name (updates i).act = some (s, r) →
      ∃ log, Relation.ReflTransGen (Step updates) c
        ⟨s, Function.update c.stage i .finished, log⟩ := by
  have hguarded := Guarded.of_reachable hmemory hrun
  obtain ⟨shelf, hshelf⟩ := Consistent.of_reachable hmemory hrun
  refine ⟨?_, hshelf.recorded, hshelf.sent, ?_⟩
  · intro name hfree
    refine ⟨shelf.load name, current_of_memory hshelf.memory _ _, ?_⟩
    refine hshelf.settled name fun i hi hpending => ?_
    have hnone := hguarded.grant?_eq_none (hi ▸ hfree)
    have hsome := hpending.isSome_grant?
    rw [hnone] at hsome
    cases hsome
  · intro i s r hi h
    exact exists_steps_of_underLock hshelf.memory hi h

/-- The table of a program that writes a mark for ever. -/
def doorbell : Table where
  initial := "ring"
  groups := [("ring", [⟨"ring", "*", "1", "*", "ring"⟩])]
  frozen := true

/-- The program of this table. -/
lemma compile_doorbell : Engine.compile {} "ring -> write 1\n" = .ok doorbell := by
  have hrender := Program.compile_render [⟨⟨⟨['r', 'i', 'n', 'g'], by decide, by decide, by decide⟩,
    ⟨'*', by decide⟩, [.write ⟨'1', by decide⟩]⟩, .bare, 0, by decide⟩] 0
  exact hrender

/-- Two requests: to put the table, and to delete another one that is not there. -/
def bellAndDoor : Bool → Update {}
  | true => ⟨"bell", .patient, .put "ring -> write 1\n" doorbell compile_doorbell⟩
  | false => ⟨"door", .patient, .delete⟩

/-- In the middle of the deletion, those who follow the first name have the table. -/
theorem announcements_replay_stored_tables_doorbell :
    ∃ c, Relation.ReflTransGen (Step bellAndDoor) (System.start {}) c ∧
      c.service.backend.locks.isHeld "bell" = false ∧
      c.service.backend.locks.isHeld "door" = true ∧
      replay c.log "bell" = doorbell.replica := by
  obtain ⟨c, hrun, hbell, hdoor, hcurrent⟩ :
      ∃ c, Relation.ReflTransGen (Step bellAndDoor) (System.start {}) c ∧
        c.service.backend.locks.isHeld "bell" = false ∧
        c.service.backend.locks.isHeld "door" = true ∧
        c.service.current .patient "bell" = .ok (some doorbell.thaw) := by
    have hstart : Relation.ReflTransGen (Step bellAndDoor) (System.start {}) (System.start {}) :=
      .refl
    have hdoorLocked := hstart.tail (.lock (i := false) rfl ((Backend.lock_eq_ok_iff rfl).mpr
      ⟨_, Locks.lock_eq_ok_iff.mpr ⟨rfl, rfl, rfl⟩, rfl⟩))
    have hbellLocked := hdoorLocked.tail (.lock (i := true) rfl ((Backend.lock_eq_ok_iff rfl).mpr
      ⟨_, Locks.lock_eq_ok_iff.mpr ⟨rfl, rfl, rfl⟩, rfl⟩))
    have hbellLoaded := hbellLocked.tail (.load (i := true) rfl (current_of_memory rfl _ _))
    have hdoorLoaded := hbellLoaded.tail (.load (i := false) rfl (current_of_memory rfl _ _))
    have hbellWritten := hdoorLoaded.tail
      (.write (i := true) rfl (current_of_memory rfl _ _) rfl)
    have hdoorWritten := hbellWritten.tail
      (.write (i := false) rfl (current_of_memory rfl _ _) rfl)
    have hbellAnnounced := hdoorWritten.tail (.announce (i := true) rfl)
    have hbellFree := hbellAnnounced.tail (.unlock (i := true) rfl)
    refine ⟨_, hbellFree, rfl, rfl, ?_⟩
    rfl
  have hempty : ({} : Service).backend = .memory := rfl
  obtain ⟨stored, hstored, hreplay⟩ :=
    (announcements_replay_stored_tables {} hempty bellAndDoor hrun).1 "bell" hbell
  rw [hcurrent] at hstored
  cases hstored
  exact ⟨c, hrun, hbell, hdoor, hreplay⟩

end Consistency

end TapeMachine.Service
