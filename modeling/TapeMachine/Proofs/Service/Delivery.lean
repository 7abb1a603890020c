import Mathlib.Data.List.Nodup
import TapeMachine.Proofs.Keyed
import TapeMachine.Streams

/-!
# Messages that reach their subscribers

Streams lose a message for one reason only: the channel was full. `Operation` lists what can be done
with streams, and `Sound` says what every operation keeps: a name is entered once and only with
someone under it, and the places under it are those of its subscribers that have not cancelled
(`Sound.performAll`).

So a subscriber sees the operations that concern it and no others: `follow` says what each of them
does to it, whatever else is in the streams (`Sound.getElem?_performAll`). What it has received and
what waits for it are then found by looking at its own life (`Sound.received_append_waiting`).
-/

namespace TapeMachine.Streams

/-! ## Operations -/

/-- What can be done with streams. -/
inductive Operation where
  | subscribe (name : Bytes)
  | broadcast (name : Bytes) (message : String)
  | receive (i : ℕ)
  | cancel (i : ℕ)
deriving DecidableEq

/-- What an operation makes of streams. -/
def perform (s : Streams) : Operation → Streams
  | .subscribe name => (s.subscribe name).1
  | .broadcast name message => s.broadcast name message
  | .receive i => (s.receive i).1
  | .cancel i => s.cancel i

/-- What operations one after the other make of streams. -/
def performAll (s : Streams) (ops : List Operation) : Streams :=
  ops.foldl perform s

/-- What operations come to one after the other, each in the streams that it finds. -/
def collect {α : Type} (f : Streams → Operation → List α) : Streams → List Operation → List α
  | _, [] => []
  | s, op :: ops => f s op ++ collect f (s.perform op) ops

/-- The message a subscriber takes by an operation. -/
def taken (i : ℕ) (s : Streams) : Operation → List String
  | .receive j =>
    if j = i then
      match (s.receive i).2 with
      | .message m => [m]
      | _ => []
    else []
  | _ => []

/-- The message an operation broadcasts under a name, and how many wait for the subscriber then. -/
def offered (i : ℕ) (name : Bytes) (s : Streams) : Operation → List (String × ℕ)
  | .broadcast n m => if n = name then [(m, s.waitingAt i)] else []
  | _ => []

/-- The messages a subscriber receives. -/
def received (i : ℕ) (s : Streams) (ops : List Operation) : List String :=
  collect (taken i) s ops

/-- The messages broadcast under a name, each with the number of those that wait for the subscriber
at that moment. -/
def offers (i : ℕ) (name : Bytes) (s : Streams) (ops : List Operation) : List (String × ℕ) :=
  collect (offered i name) s ops

/-- The messages broadcast under a name. -/
def broadcasts (name : Bytes) (ops : List Operation) : List String :=
  ops.filterMap fun
    | .broadcast n m => if n = name then some m else none
    | _ => none

/-- The operations before a subscriber cancels. -/
def lifetime (i : ℕ) (ops : List Operation) : List Operation :=
  ops.takeWhile (· ≠ .cancel i)

/-! ## Names and places -/

section Enter

variable (listeners : List (Bytes × List ℕ)) (name other : Bytes) {places : List ℕ}

/-- A table that nobody listens to any more is not listed. -/
lemma enter_nil : enter listeners name [] = listeners.filter fun e => e.1 != name :=
  List.append_nil _

/-- A table that somebody listens to is listed once, behind all others. -/
lemma enter_of_ne_nil (h : places ≠ []) :
    enter listeners name places = (listeners.filter fun e => e.1 != name) ++ [(name, places)] := by
  rw [enter, List.isEmpty_eq_false_iff.mpr h]
  rfl

/-- Entering places changes what is under one name. -/
lemma getD_lookup_enter :
    ((enter listeners name places).lookup other).getD [] =
      if other = name then places else (listeners.lookup other).getD [] := by
  by_cases h : places = []
  · rw [h, enter_nil, lookup_filter_ne, apply_ite (Option.getD · [])]
    rfl
  · rw [enter_of_ne_nil _ _ h, lookup_filter_ne_append, apply_ite (Option.getD · [])]
    rfl

end Enter

/-- What every operation keeps: a name is entered once, with someone under it, and the places under
it are those of its subscribers whose channels are open. -/
structure Sound (s : Streams) : Prop where
  names_nodup : (s.listeners.map (·.1)).Nodup
  places_ne_nil : ∀ e ∈ s.listeners, e.2 ≠ []
  places_nodup : ∀ name, (s.listening name).Nodup
  mem_listening_iff : ∀ name i, i ∈ s.listening name ↔
    ∃ x, s.subscribers[i]? = some x ∧ x.name = name ∧ x.closed = false

variable {s : Streams} {i : ℕ} {x : Subscriber}

/-- Streams without subscribers are sound. -/
lemma sound_empty : Sound {} where
  names_nodup := .nil
  places_ne_nil := by simp
  places_nodup name := .nil
  mem_listening_iff name i := by simp [listening]

/-- Entering places under a name keeps names and places in order. -/
lemma Sound.enter {s' : Streams} (h : s.Sound) (name : Bytes) {places : List ℕ}
    (hlisteners : s'.listeners = Streams.enter s.listeners name places) (hnodup : places.Nodup)
    (hmem : ∀ other i, (i ∈ if other = name then places else s.listening other) ↔
      ∃ x, s'.subscribers[i]? = some x ∧ x.name = other ∧ x.closed = false) : s'.Sound := by
  have hlistening : ∀ other, s'.listening other =
      if other = name then places else s.listening other := by
    intro other
    rw [listening, hlisteners, getD_lookup_enter]
    rfl
  refine ⟨?_, ?_, ?_, ?_⟩
  · rw [hlisteners]
    by_cases hplaces : places = []
    · rw [hplaces, enter_nil]
      exact nodup_keys_filter h.names_nodup _
    · rw [enter_of_ne_nil _ _ hplaces]
      exact nodup_keys_filter_append h.names_nodup name _
  · intro e he
    rw [hlisteners] at he
    by_cases hplaces : places = []
    · rw [hplaces, enter_nil] at he
      exact h.places_ne_nil e (List.mem_filter.mp he).1
    · rw [enter_of_ne_nil _ _ hplaces] at he
      rcases List.mem_append.mp he with he | he
      · exact h.places_ne_nil e (List.mem_filter.mp he).1
      · rw [List.mem_singleton.mp he]
        exact hplaces
  · intro other
    rw [hlistening]
    split
    · exact hnodup
    · exact h.places_nodup other
  · intro other i
    rw [hlistening]
    exact hmem other i

/-- What enters nothing and closes nothing keeps everything in order. -/
lemma Sound.of_map {s' : Streams} (h : s.Sound) (hlisteners : s'.listeners = s.listeners)
    (f : ℕ → Subscriber → Subscriber)
    (hsubscribers : ∀ i : ℕ, s'.subscribers[i]? = (s.subscribers[i]?).map (f i))
    (hname : ∀ i x, (f i x).name = x.name) (hclosed : ∀ i x, (f i x).closed = x.closed) :
    s'.Sound := by
  have hlistening : ∀ name, s'.listening name = s.listening name := by
    intro name
    rw [listening, hlisteners]
    rfl
  refine ⟨hlisteners ▸ h.names_nodup, hlisteners ▸ h.places_ne_nil, ?_, ?_⟩
  · intro name
    rw [hlistening]
    exact h.places_nodup name
  · intro name i
    rw [hlistening, h.mem_listening_iff, hsubscribers]
    simp [Option.map_eq_some_iff, hname, hclosed]

/-! ## One subscriber -/

/-- What an operation does to the subscriber at a place. -/
def follow (i : ℕ) (x : Subscriber) : Operation → Subscriber
  | .subscribe _ => x
  | .broadcast name message => if x.name = name ∧ x.closed = false then send message x else x
  | .receive j => if j = i then { x with waiting := x.waiting.tail } else x
  | .cancel j => if j = i then { x with closed := true } else x

/-- Sending a message leaves the name of the table that is listened to. -/
lemma name_send (message : String) (x : Subscriber) : (send message x).name = x.name := by
  unfold send
  split <;> rfl

/-- Sending a message closes nothing. -/
lemma closed_send (message : String) (x : Subscriber) : (send message x).closed = x.closed := by
  unfold send
  split <;> rfl

section Subscribers

variable (j : ℕ)

/-- Subscribing adds one subscriber at the end and leaves the others. -/
lemma getElem?_subscribe (s : Streams) (name : Bytes) :
    (s.subscribe name).1.subscribers[j]? =
      if j = s.subscribers.length then some { name } else s.subscribers[j]? := by
  change (s.subscribers ++ [_])[j]? = _
  split
  · rename_i hj
    rw [hj, List.getElem?_concat_length]
  · rw [List.getElem?_append, List.getElem?_singleton]
    grind

/-- A change that leaves the subscriber at its place as it is changes nothing. -/
lemma getElem?_eq_map_ite {xs : List Subscriber} {f : Subscriber → Subscriber}
    (h : ∀ x, xs[i]? = some x → f x = x) :
    xs[j]? = (xs[j]?).map fun x => if i = j then f x else x := by
  cases hx : xs[j]? with
  | none => rfl
  | some x =>
    by_cases hj : i = j
    · subst hj
      simp [h x hx]
    · simp [hj]

/-- Receiving takes the first message that waits from one subscriber and leaves the others. -/
lemma getElem?_receive (s : Streams) (i : ℕ) :
    (s.receive i).1.subscribers[j]? = (s.subscribers[j]?).map fun x =>
      if i = j then { x with waiting := x.waiting.tail } else x := by
  unfold receive
  split
  · rename_i hnone
    exact getElem?_eq_map_ite j fun x hx => by simp [hnone] at hx
  · rename_i x hx
    split
    · exact List.getElem?_modify _ _ _ _
    · rename_i hwaiting
      refine getElem?_eq_map_ite j fun y hy => ?_
      obtain rfl : x = y := Option.some.inj (hx.symm.trans hy)
      rw [hwaiting]
      exact congrArg (Subscriber.mk x.name · x.closed) hwaiting.symm

/-- Receiving leaves the lists of listeners. -/
lemma listeners_receive (s : Streams) (i : ℕ) : (s.receive i).1.listeners = s.listeners := by
  unfold receive
  split
  · rfl
  · split <;> rfl

/-- Receiving leaves the number of subscribers. -/
lemma length_receive (s : Streams) (i : ℕ) :
    (s.receive i).1.subscribers.length = s.subscribers.length := by
  unfold receive
  split
  · rfl
  · split
    · exact List.length_modify _ _ _
    · rfl

/-- Cancelling leaves the number of subscribers: the place of one that is gone is not used again. -/
lemma length_cancel (s : Streams) (i : ℕ) :
    (s.cancel i).subscribers.length = s.subscribers.length := by
  unfold cancel
  split
  · rfl
  · split
    · exact List.length_modify _ _ _
    · rfl

/-- A broadcast goes to the open subscribers of its table, and leaves all others. -/
lemma Sound.getElem?_broadcast (h : s.Sound) (name : Bytes) (message : String) :
    (s.broadcast name message).subscribers[j]? = (s.subscribers[j]?).map fun x =>
      if x.name = name ∧ x.closed = false then send message x else x := by
  rw [broadcast, List.getElem?_mapIdx]
  cases hx : s.subscribers[j]? with
  | none => rfl
  | some x =>
    have hmem : j ∈ s.listening name ↔ x.name = name ∧ x.closed = false := by
      rw [h.mem_listening_iff]
      simp [hx]
    simp [hmem]

/-- Cancelling closes one subscriber and leaves the others. -/
lemma Sound.getElem?_cancel (h : s.Sound) (i : ℕ) :
    (s.cancel i).subscribers[j]? = (s.subscribers[j]?).map fun x =>
      if i = j then { x with closed := true } else x := by
  unfold cancel
  split
  · rename_i hnone
    exact getElem?_eq_map_ite j fun x hx => by simp [hnone] at hx
  · rename_i x hx
    split
    · exact List.getElem?_modify _ _ _ _
    · -- Whoever is not entered has cancelled before.
      rename_i hmem
      refine getElem?_eq_map_ite j fun y hy => ?_
      obtain rfl : x = y := Option.some.inj (hx.symm.trans hy)
      have hclosed : x.closed = true := by
        by_contra hopen
        exact hmem ((h.mem_listening_iff x.name i).mpr ⟨x, hx, rfl, by simpa using hopen⟩)
      exact congrArg (Subscriber.mk x.name x.waiting) hclosed.symm

end Subscribers

/-- A subscriber sees the operations that concern it, whatever else is in the streams. -/
lemma Sound.getElem?_perform (h : s.Sound) (hx : s.subscribers[i]? = some x) (op : Operation) :
    (s.perform op).subscribers[i]? = some (follow i x op) := by
  cases op with
  | subscribe name =>
    obtain ⟨hi, -⟩ := List.getElem?_eq_some_iff.mp hx
    exact (List.getElem?_append_left hi).trans hx
  | broadcast name message =>
    rw [perform, h.getElem?_broadcast, hx]
    rfl
  | receive j =>
    rw [perform, getElem?_receive, hx]
    rfl
  | cancel j =>
    rw [perform, h.getElem?_cancel, hx]
    rfl

/-! ## What every operation keeps -/

/-- Subscribing enters a new place. -/
lemma Sound.subscribe (h : s.Sound) (name : Bytes) : (s.subscribe name).1.Sound := by
  have hnew : ∀ other, s.subscribers.length ∉ s.listening other := by
    intro other
    rw [h.mem_listening_iff]
    rintro ⟨x, hx, -⟩
    rw [List.getElem?_eq_none (Nat.le_refl _)] at hx
    cases hx
  refine h.enter name rfl ?_ ?_
  · exact List.nodup_append.mpr ⟨h.places_nodup name, List.nodup_singleton _,
      fun a ha b hb hab => hnew name (List.mem_singleton.mp hb ▸ hab ▸ ha)⟩
  · intro other i
    rw [getElem?_subscribe]
    by_cases hi : i = s.subscribers.length
    · subst hi
      by_cases hother : other = name
      · subst hother
        simp
      · have hno : s.subscribers.length ∉ s.listening other := hnew other
        simp [hother, hno, Ne.symm hother]
    · rw [if_neg hi, ← h.mem_listening_iff]
      split
      · rename_i hother
        subst hother
        simp [hi]
      · rfl

/-- Cancelling takes a place out. -/
lemma Sound.cancel (h : s.Sound) (i : ℕ) : (s.cancel i).Sound := by
  cases hx : s.subscribers[i]? with
  | none =>
    have hsame : s.cancel i = s := by rw [Streams.cancel, hx]
    rw [hsame]
    exact h
  | some x =>
    by_cases hmem : i ∈ s.listening x.name
    · have hlisteners : (s.cancel i).listeners =
          Streams.enter s.listeners x.name ((s.listening x.name).erase i) := by
        simp [Streams.cancel, hx, hmem]
      refine h.enter x.name hlisteners ((h.places_nodup x.name).erase i) fun other j => ?_
      rw [h.getElem?_cancel]
      by_cases hj : i = j
      · subst hj
        -- The channel is closed, so its place must be gone.
        refine iff_of_false ?_ (by simp [hx])
        split
        · exact (h.places_nodup x.name).not_mem_erase
        · rename_i hother
          rw [h.mem_listening_iff]
          rintro ⟨y, hy, hname, -⟩
          obtain rfl : x = y := Option.some.inj (hx.symm.trans hy)
          exact hother hname.symm
      · have hstays : (j ∈ if other = x.name then (s.listening x.name).erase i
            else s.listening other) ↔ j ∈ s.listening other := by
          split
          · rename_i hother
            rw [hother]
            exact List.mem_erase_of_ne (Ne.symm hj)
          · rfl
        rw [hstays, h.mem_listening_iff]
        simp [hj]
    · have hsame : s.cancel i = s := by simp [Streams.cancel, hx, hmem]
      rw [hsame]
      exact h

/-- Every operation keeps names and places in order. -/
theorem Sound.perform (h : s.Sound) (op : Operation) : (s.perform op).Sound := by
  cases op with
  | subscribe name => exact h.subscribe name
  | broadcast name message =>
    refine h.of_map rfl _ (fun j => h.getElem?_broadcast j name message) ?_ ?_
    · intro j x
      rw [apply_ite Subscriber.name, name_send, ite_self]
    · intro j x
      rw [apply_ite Subscriber.closed, closed_send, ite_self]
  | receive i =>
    refine h.of_map (listeners_receive s i) _ (fun j => getElem?_receive j s i) ?_ ?_
    · intro j x
      rw [apply_ite Subscriber.name, ite_self]
    · intro j x
      rw [apply_ite Subscriber.closed, ite_self]
  | cancel i => exact h.cancel i

/-- Any number of operations keeps the streams sound. -/
lemma Sound.performAll (h : s.Sound) (ops : List Operation) : (s.performAll ops).Sound := by
  induction ops generalizing s with
  | nil => exact h
  | cons op ops ih => exact ih (h.perform op)

/-- A subscriber sees its own operations, one after the other. -/
theorem Sound.getElem?_performAll (h : s.Sound) (hx : s.subscribers[i]? = some x)
    (ops : List Operation) :
    (s.performAll ops).subscribers[i]? = some (ops.foldl (follow i) x) := by
  induction ops generalizing s x with
  | nil => exact hx
  | cons op ops ih => exact ih (h.perform op) (h.getElem?_perform hx op)

/-! ## The life of a subscriber -/

/-- A subscriber listens to the same table all along. -/
lemma name_follow (i : ℕ) (x : Subscriber) (op : Operation) : (follow i x op).name = x.name := by
  cases op with
  | subscribe name => rfl
  | broadcast name message => rw [follow, apply_ite Subscriber.name, name_send, ite_self]
  | receive j => rw [follow, apply_ite Subscriber.name, ite_self]
  | cancel j => rw [follow, apply_ite Subscriber.name, ite_self]

/-- A subscriber is closed when it is cancelled, and is never opened again. -/
lemma closed_follow (i : ℕ) (x : Subscriber) (op : Operation) :
    (follow i x op).closed = (x.closed || decide (op = .cancel i)) := by
  cases op with
  | subscribe name => simp [follow]
  | broadcast name message =>
    rw [follow, apply_ite Subscriber.closed, closed_send, ite_self]
    simp
  | receive j =>
    rw [follow, apply_ite Subscriber.closed, ite_self]
    simp
  | cancel j =>
    rw [follow, apply_ite Subscriber.closed]
    by_cases hj : j = i
    · simp [hj]
    · simp [hj]

/-- The message of a broadcast that finds room in an open channel. -/
def accepted (x : Subscriber) : Operation → List String
  | .broadcast name message =>
    if x.name = name ∧ x.closed = false ∧ x.waiting.length ≠ capacity then [message] else []
  | _ => []

/-- A channel loses its first message to its receiver, and takes in what it accepts. -/
lemma waiting_follow (i : ℕ) (hle : x.waiting.length ≤ capacity) (op : Operation) :
    (follow i x op).waiting =
      (if op = .receive i then x.waiting.tail else x.waiting) ++ accepted x op := by
  cases op with
  | subscribe name => simp [follow, accepted]
  | broadcast name message =>
    have hroom : x.waiting.length < capacity ↔ x.waiting.length ≠ capacity := by omega
    simp only [follow, send, accepted, hroom, reduceCtorEq, if_false]
    by_cases hlistens : x.name = name ∧ x.closed = false
    · by_cases hfull : x.waiting.length = capacity
      · simp [hfull]
      · simp [hlistens, hfull]
    · have hno : ¬ (x.name = name ∧ x.closed = false ∧ x.waiting.length ≠ capacity) :=
        fun hall => hlistens ⟨hall.1, hall.2.1⟩
      rw [if_neg hlistens, if_neg hno, List.append_nil]
  | receive j =>
    by_cases hj : j = i
    · simp [follow, accepted, hj]
    · simp [follow, accepted, hj]
  | cancel j =>
    by_cases hj : j = i
    · simp [follow, accepted, hj]
    · simp [follow, accepted, hj]

/-- No more messages wait than there is room for. -/
lemma length_waiting_follow (i : ℕ) (hle : x.waiting.length ≤ capacity) (op : Operation) :
    (follow i x op).waiting.length ≤ capacity := by
  rw [waiting_follow i hle]
  cases op with
  | broadcast name message =>
    rw [if_neg (by simp), accepted]
    split
    · rw [List.length_append, List.length_singleton]
      omega
    · simpa using hle
  | subscribe name => simpa [accepted] using hle
  | receive j =>
    have htail : x.waiting.tail.length ≤ x.waiting.length := by simp
    simp only [accepted, List.append_nil]
    split
    · omega
    · exact hle
  | cancel j => simpa [accepted] using hle

/-- By one operation, what is taken from a channel and what waits in it grow by what it accepts. -/
lemma taken_append_waiting (hx : s.subscribers[i]? = some x) (hle : x.waiting.length ≤ capacity)
    (op : Operation) :
    taken i s op ++ (follow i x op).waiting = x.waiting ++ accepted x op := by
  have hfirst : taken i s op ++ (if op = .receive i then x.waiting.tail else x.waiting) =
      x.waiting := by
    by_cases hop : op = .receive i
    · subst hop
      cases hwaiting : x.waiting with
      | nil => cases hclosed : x.closed <;> simp [taken, receive, hx, hwaiting, hclosed]
      | cons m ms => simp [taken, receive, hx, hwaiting]
    · rw [if_neg hop]
      cases op with
      | receive j =>
        have hj : j ≠ i := fun hj => hop (hj ▸ rfl)
        simp [taken, hj]
      | subscribe name => rfl
      | broadcast name message => rfl
      | cancel j => rfl
  rw [waiting_follow i hle, ← List.append_assoc, hfirst]

/-- An open channel accepts what is offered under its name, unless it is full. -/
lemma accepted_eq (hx : s.subscribers[i]? = some x) (hopen : x.closed = false) (op : Operation) :
    accepted x op = ((offered i x.name s op).filter (·.2 ≠ capacity)).map (·.1) := by
  cases op with
  | broadcast name message =>
    have hwaiting : s.waitingAt i = x.waiting.length := by simp [waitingAt, hx]
    rw [accepted, offered, hwaiting]
    by_cases hname : x.name = name
    · by_cases hfull : x.waiting.length = capacity
      · simp [hname, hfull]
      · simp [hname, hopen, hfull]
    · simp [hname, Ne.symm hname]
  | subscribe name => rfl
  | receive j => rfl
  | cancel j => rfl

/-- A closed subscriber accepts no message. -/
lemma accepted_of_closed (hclosed : x.closed = true) (op : Operation) : accepted x op = [] := by
  cases op with
  | broadcast name message => simp [accepted, hclosed]
  | subscribe name => rfl
  | receive j => rfl
  | cancel j => rfl

/-- What a subscriber has received and what waits for it is what was waiting and, if its channel was
open, what has been broadcast before it cancels, without the messages that found the channel full.
-/
theorem Sound.received_append_waiting (h : s.Sound) (hx : s.subscribers[i]? = some x)
    (hle : x.waiting.length ≤ capacity) (ops : List Operation) :
    received i s ops ++ (ops.foldl (follow i) x).waiting = x.waiting ++
      if x.closed then []
      else ((offers i x.name s (lifetime i ops)).filter (·.2 ≠ capacity)).map (·.1) := by
  induction ops generalizing s x with
  | nil => simp [received, offers, lifetime, collect]
  | cons op ops ih =>
    have hrest := ih (h.perform op) (h.getElem?_perform hx op) (length_waiting_follow i hle op)
    have hstep := taken_append_waiting hx hle op
    rw [closed_follow, name_follow] at hrest
    change taken i s op ++ received i (s.perform op) ops ++
      (ops.foldl (follow i) (follow i x op)).waiting = _
    rw [List.append_assoc, hrest, ← List.append_assoc, hstep, List.append_assoc]
    congr 1
    cases hclosed : x.closed with
    | true => simp [accepted_of_closed hclosed]
    | false =>
      by_cases hop : op = .cancel i
      · simp [hop, accepted, lifetime, offers, collect]
      · have hlife : lifetime i (op :: ops) = op :: lifetime i ops :=
          List.takeWhile_cons_of_pos (by simpa using hop)
        rw [hlife, accepted_eq hx hclosed]
        simp [hop, offers, collect]

/-- Every message broadcast under the name is offered. -/
lemma map_fst_offers (i : ℕ) (name : Bytes) (s : Streams) (ops : List Operation) :
    (offers i name s ops).map (·.1) = broadcasts name ops := by
  induction ops generalizing s with
  | nil => rfl
  | cons op ops ih =>
    have hcons : offers i name s (op :: ops) =
        offered i name s op ++ offers i name (s.perform op) ops := rfl
    rw [hcons, List.map_append, ih]
    cases op with
    | broadcast n m =>
      by_cases hn : n = name
      · simp [offered, broadcasts, hn]
      · simp [offered, broadcasts, hn]
    | subscribe n => rfl
    | receive j => rfl
    | cancel j => rfl

/-- A channel is closed once its subscriber has cancelled. -/
lemma closed_foldl_follow (i : ℕ) (x : Subscriber) (ops : List Operation) :
    (ops.foldl (follow i) x).closed = (x.closed || decide (.cancel i ∈ ops)) := by
  induction ops generalizing x with
  | nil => simp
  | cons op ops ih =>
    rw [List.foldl_cons, ih, closed_follow, Bool.or_assoc]
    congr 1
    simp [eq_comm]

/-- A subscriber listens to the same table after any operations. -/
lemma name_foldl_follow (i : ℕ) (x : Subscriber) (ops : List Operation) :
    (ops.foldl (follow i) x).name = x.name := by
  induction ops generalizing x with
  | nil => rfl
  | cons op ops ih => rw [List.foldl_cons, ih, name_follow]

/-! ## Cancelling -/

/-- Who has cancelled can do so again, without any effect. -/
lemma Sound.cancel_eq_self (h : s.Sound) (hx : s.subscribers[i]? = some x)
    (hclosed : x.closed = true) :
    s.cancel i = s := by
  have hno : i ∉ s.listening x.name := by
    rw [h.mem_listening_iff]
    rintro ⟨y, hy, -, hopen⟩
    obtain rfl : x = y := Option.some.inj (hx.symm.trans hy)
    rw [hclosed] at hopen
    cases hopen
  simp [Streams.cancel, hx, hno]

/-- Draining receives message after message, until one has to wait or the stream is closed. -/
lemma drain_eq (s : Streams) (i : ℕ) :
    s.drain i = match (s.receive i).2 with
      | .message m =>
        let r := (s.receive i).1.drain i
        (r.1, m :: r.2.1, r.2.2)
      | .nothing => (s, [], true)
      | .closed => (s, [], false) := by
  rw [drain]
  split <;> simp_all

/-- Receiving until nothing comes gives all that waits. -/
lemma exists_drain_eq (hx : s.subscribers[i]? = some x) :
    ∃ s', s.drain i = (s', x.waiting, !x.closed) ∧
      s'.subscribers[i]? = some { x with waiting := [] } := by
  generalize hwaiting : x.waiting = waiting
  induction waiting generalizing s x with
  | nil =>
    have hreceive : (s.receive i).2 = if x.closed then .closed else .nothing := by
      simp [receive, hx, hwaiting]
    refine ⟨s, ?_, by rw [hx, ← hwaiting]⟩
    rw [drain_eq, hreceive]
    cases x.closed <;> rfl
  | cons m ms ih =>
    have hreceive : (s.receive i).2 = .message m := by simp [receive, hx, hwaiting]
    have hnext : (s.receive i).1.subscribers[i]? = some { x with waiting := ms } := by
      rw [getElem?_receive, hx]
      simp [hwaiting]
    obtain ⟨s', hdrain, hs'⟩ := ih hnext rfl
    refine ⟨s', ?_, hs'⟩
    rw [drain_eq, hreceive, hdrain]

/-- What is received depends on the subscriber alone. -/
lemma receive_congr {t : Streams} {j : ℕ} (hj : t.subscribers[j]? = s.subscribers[j]?) :
    (t.receive j).2 = (s.receive j).2 := by
  unfold receive
  rw [hj]
  split
  · rfl
  · split <;> rfl

/-- How many subscribers an operation adds depends on the operation alone. -/
lemma exists_length_perform (op : Operation) :
    ∃ n, ∀ s : Streams, (s.perform op).subscribers.length = s.subscribers.length + n := by
  cases op with
  | subscribe name => exact ⟨1, fun s => by simp [perform, subscribe]⟩
  | broadcast name message => exact ⟨0, fun s => by simp [perform, broadcast]⟩
  | receive i => exact ⟨0, fun s => length_receive s i⟩
  | cancel i => exact ⟨0, fun s => length_cancel s i⟩

/-- Streams that look alike to one subscriber do so after any operation. -/
lemma Sound.perform_congr {t : Streams} {j : ℕ} (hs : s.Sound) (ht : t.Sound)
    (hlength : t.subscribers.length = s.subscribers.length)
    (hj : t.subscribers[j]? = s.subscribers[j]?) (op : Operation) :
    (t.perform op).subscribers[j]? = (s.perform op).subscribers[j]? := by
  cases op with
  | subscribe name =>
    rw [Streams.perform, Streams.perform, getElem?_subscribe, getElem?_subscribe, hlength, hj]
  | broadcast name message =>
    rw [Streams.perform, Streams.perform, hs.getElem?_broadcast, ht.getElem?_broadcast, hj]
  | receive i =>
    rw [Streams.perform, Streams.perform, getElem?_receive, getElem?_receive, hj]
  | cancel i =>
    rw [Streams.perform, Streams.perform, hs.getElem?_cancel, ht.getElem?_cancel, hj]

/-- Streams that look alike to one subscriber do so for ever, and it receives the same from them. -/
theorem Sound.performAll_congr {t : Streams} {j : ℕ} (hs : s.Sound) (ht : t.Sound)
    (hlength : t.subscribers.length = s.subscribers.length)
    (hj : t.subscribers[j]? = s.subscribers[j]?) (ops : List Operation) :
    received j t ops = received j s ops ∧
      (t.performAll ops).subscribers[j]? = (s.performAll ops).subscribers[j]? := by
  induction ops generalizing s t with
  | nil => exact ⟨rfl, hj⟩
  | cons op ops ih =>
    have hlength' : (t.perform op).subscribers.length = (s.perform op).subscribers.length := by
      obtain ⟨n, hn⟩ := exists_length_perform op
      rw [hn, hn, hlength]
    have htaken : taken j t op = taken j s op := by
      cases op with
      | receive i => rw [taken, taken, receive_congr hj]
      | subscribe name => rfl
      | broadcast name message => rfl
      | cancel i => rfl
    obtain ⟨hreceived, hlast⟩ :=
      ih (hs.perform op) (ht.perform op) hlength' (hs.perform_congr ht hlength hj op)
    refine ⟨?_, hlast⟩
    change taken j t op ++ received j (t.perform op) ops = taken j s op ++ _
    rw [htaken, hreceived]
    rfl

/-- Cancelling is seen by one subscriber: it can be repeated at any time without effect, what waits
can still be received and then comes the end, and everyone else goes on as without it. -/
theorem Sound.cancel_spec (h : s.Sound) (hx : s.subscribers[i]? = some x) (ops : List Operation) :
    ((s.cancel i).performAll ops).cancel i = (s.cancel i).performAll ops ∧
      (∃ s', (s.cancel i).drain i = (s', x.waiting, false) ∧ (s'.receive i).2 = .closed) ∧
      ∀ j, j ≠ i → received j (s.cancel i) ops = received j s ops ∧
        ((s.cancel i).performAll ops).subscribers[j]? = (s.performAll ops).subscribers[j]? := by
  have hclosed : (s.cancel i).subscribers[i]? = some { x with closed := true } := by
    rw [h.getElem?_cancel, hx]
    simp
  refine ⟨?_, ?_, fun j hj => ?_⟩
  · have hlater := (h.cancel i).getElem?_performAll hclosed ops
    refine ((h.cancel i).performAll ops).cancel_eq_self hlater ?_
    rw [closed_foldl_follow]
    rfl
  · obtain ⟨s', hdrain, hs'⟩ := exists_drain_eq hclosed
    refine ⟨s', hdrain, ?_⟩
    simp [receive, hs']
  · refine h.performAll_congr (h.cancel i) (length_cancel s i) ?_ ops
    rw [h.getElem?_cancel]
    simp [Ne.symm hj]

/-- A name is entered exactly while it has a subscriber that has not cancelled. -/
lemma Sound.mem_names_iff (h : s.Sound) (name : Bytes) :
    name ∈ s.listeners.map (·.1) ↔ ∃ x ∈ s.subscribers, x.name = name ∧ x.closed = false := by
  constructor
  · intro hname
    cases hplaces : s.listeners.lookup name with
    | none => exact absurd hname (lookup_eq_none_iff.mp hplaces)
    | some places =>
      have hne : places ≠ [] := h.places_ne_nil _ (mem_of_lookup_eq_some hplaces)
      obtain ⟨i, hi⟩ := List.exists_mem_of_ne_nil places hne
      have hmem : i ∈ s.listening name := by simpa [listening, hplaces] using hi
      obtain ⟨x, hx, hlives⟩ := (h.mem_listening_iff name i).mp hmem
      exact ⟨x, List.mem_of_getElem? hx, hlives⟩
  · rintro ⟨x, hx, hlives⟩
    obtain ⟨i, hi⟩ := List.getElem?_of_mem hx
    have hmem : i ∈ s.listening name := (h.mem_listening_iff name i).mpr ⟨x, hi, hlives⟩
    by_contra hname
    rw [listening, lookup_eq_none_iff.mpr hname] at hmem
    cases hmem

/-- Streams lose nothing but overflow. Whatever is done with them, what a subscriber has received
and what waits for it are the messages broadcast under its name from its subscription until it
cancels, in that order, without those that came while ten were waiting. Cancelling can be repeated
at any later time without effect, leaves to be received what waits and then ends, and nobody else
sees it. Every channel to which a broadcast goes is open, and a name is entered exactly while it has
a subscriber that has not cancelled. -/
theorem streams_lose_only_overflow (ops : List Operation) :
    (∀ before name after, ops = before ++ .subscribe name :: after →
      let s := performAll {} (before ++ [.subscribe name])
      let i := (performAll {} before).subscribers.length
      ∃ x, (performAll {} ops).subscribers[i]? = some x ∧ x.name = name ∧
        x.closed = decide (.cancel i ∈ after) ∧
        (offers i name s (lifetime i after)).map (·.1) = broadcasts name (lifetime i after) ∧
        received i s after ++ x.waiting =
          ((offers i name s (lifetime i after)).filter (·.2 ≠ 10)).map (·.1)) ∧
    (∀ i x, (performAll {} ops).subscribers[i]? = some x → ∀ later,
      (((performAll {} ops).cancel i).performAll later).cancel i =
          ((performAll {} ops).cancel i).performAll later ∧
        (∃ s', ((performAll {} ops).cancel i).drain i = (s', x.waiting, false) ∧
          (s'.receive i).2 = .closed) ∧
        ∀ j, j ≠ i → received j ((performAll {} ops).cancel i) later =
            received j (performAll {} ops) later ∧
          (((performAll {} ops).cancel i).performAll later).subscribers[j]? =
            ((performAll {} ops).performAll later).subscribers[j]?) ∧
    (∀ name, ∀ i ∈ (performAll {} ops).listening name,
      ∃ x, (performAll {} ops).subscribers[i]? = some x ∧ x.closed = false) ∧
    ∀ name, name ∈ (performAll {} ops).listeners.map (·.1) ↔
      ∃ x ∈ (performAll {} ops).subscribers, x.name = name ∧ x.closed = false := by
  have hsound : (performAll {} ops).Sound := sound_empty.performAll ops
  refine ⟨?_, fun i x hx later => hsound.cancel_spec hx later, fun name i hi => ?_,
    hsound.mem_names_iff⟩
  · rintro before name after rfl s i
    have hs : s.Sound := sound_empty.performAll _
    have hsubscribed : s = (performAll {} before).perform (.subscribe name) := by
      simp [s, performAll]
    have hx : s.subscribers[i]? = some { name } := by
      rw [hsubscribed, perform, getElem?_subscribe, if_pos rfl]
    have hall : performAll {} (before ++ .subscribe name :: after) = s.performAll after := by
      simp [s, performAll]
    refine ⟨after.foldl (follow i) { name }, ?_, name_foldl_follow i _ after, ?_,
      map_fst_offers i name s _, ?_⟩
    · rw [hall]
      exact hs.getElem?_performAll hx after
    · rw [closed_foldl_follow]
      rfl
    · exact hs.received_append_waiting hx (Nat.zero_le _) after
  · obtain ⟨x, hx, -, hopen⟩ := (hsound.mem_listening_iff name i).mp hi
    exact ⟨x, hx, hopen⟩

/-- Eleven messages for a channel with room for ten, one that comes after there is room again, and
one that comes too late. -/
theorem streams_lose_only_overflow_eleven :
    let after : List Operation := .subscribe "b" :: List.replicate 11 (.broadcast "a" "m") ++
      [.receive 0, .broadcast "a" "n", .cancel 0, .broadcast "a" "o"]
    let s := performAll {} (.subscribe "a" :: after)
    (∃ x, s.subscribers[0]? = some x ∧ x.closed = true ∧
      "m" :: x.waiting = List.replicate 10 "m" ++ ["n"] ∧
      (s.cancel 0).cancel 0 = s.cancel 0 ∧
      (s.cancel 0).subscribers[1]? = s.subscribers[1]?) ∧
    (∃ x, s.subscribers[1]? = some x ∧ x.closed = false) ∧
    Text.bytes "a" ∉ s.listeners.map (·.1) := by
  intro after s
  obtain ⟨hlife, hcancel, hopen, hnames⟩ := streams_lose_only_overflow (.subscribe "a" :: after)
  have hplace : (performAll {} []).subscribers.length = 0 := rfl
  have hlife := hlife [] "a" after rfl
  simp only [hplace, List.nil_append] at hlife
  obtain ⟨x, hx, -, hclosed, -, hreceived⟩ := hlife
  obtain ⟨hagain, -, hothers⟩ := hcancel 0 x hx []
  have hother := (hothers 1 (by decide)).2
  simp only [performAll, List.foldl_nil] at hagain hother
  have hfirst : received 0 (performAll {} [.subscribe "a"]) after = ["m"] := by decide +kernel
  have hkept : ((offers 0 "a" (performAll {} [.subscribe "a"]) (lifetime 0 after)).filter
      (·.2 ≠ 10)).map (·.1) = List.replicate 10 "m" ++ ["n"] := by decide +kernel
  have hcancelled : decide (.cancel 0 ∈ after) = true := by decide +kernel
  rw [hfirst, hkept] at hreceived
  rw [hcancelled] at hclosed
  refine ⟨⟨x, hx, hclosed, hreceived, hagain, hother⟩, ?_, ?_⟩
  · exact hopen "b" 1 (by decide +kernel)
  · rw [hnames]
    decide +kernel

end TapeMachine.Streams
