import TapeMachine.Text.Bytes

/-!
# Streams of messages

Anyone can subscribe to a name and then receives what is broadcast under it. A subscription makes a
channel with a bounded number of places and enters it under the name. A message is put into every
channel that is entered under its name; one that finds the channel full is lost to that subscriber.
Cancelling takes the channel out and closes it: what waits in it can still be received. A name under
which nothing is entered any more is given up.
-/

namespace TapeMachine

/-- A subscriber: the name it listens to, the messages that wait in its channel, and whether the
channel has been closed. -/
structure Subscriber where
  name : Bytes
  waiting : List String := []
  closed : Bool := false
deriving DecidableEq

/-- What a subscriber receives: a message, nothing as long as none waits, or the end. -/
inductive Received where
  | message (text : String)
  | nothing
  | closed
deriving DecidableEq

/-- All subscribers there ever were, each known by its place, and the places of those who listen,
under their names. -/
structure Streams where
  subscribers : List Subscriber := []
  listeners : List (Bytes × List Nat) := []
deriving DecidableEq

namespace Streams

/-- The number of messages that can wait in a channel. -/
def capacity : Nat := 10

/-- The places entered under a name. -/
def listening (s : Streams) (name : Bytes) : List Nat :=
  (s.listeners.lookup name).getD []

/-- Enters places under a name in place of those before; a name without any is given up. -/
def enter (listeners : List (Bytes × List Nat)) (name : Bytes) (places : List Nat) :
    List (Bytes × List Nat) :=
  listeners.filter (·.1 != name) ++ if places.isEmpty then [] else [(name, places)]

/-- Subscribes to a name, and says which subscriber that makes. -/
def subscribe (s : Streams) (name : Bytes) : Streams × Nat :=
  let i := s.subscribers.length
  ({ subscribers := s.subscribers ++ [{ name }]
     listeners := enter s.listeners name (s.listening name ++ [i]) }, i)

/-- Puts a message into a channel, unless it is full. -/
def send (message : String) (x : Subscriber) : Subscriber :=
  if x.waiting.length < capacity then { x with waiting := x.waiting ++ [message] } else x

/-- Sends a message to everyone who listens to the name. -/
def broadcast (s : Streams) (name : Bytes) (message : String) : Streams :=
  { s with subscribers := s.subscribers.mapIdx fun i x =>
      if i ∈ s.listening name then send message x else x }

/-- Sends messages one after the other. -/
def broadcastAll (s : Streams) (name : Bytes) (messages : List String) : Streams :=
  messages.foldl (fun s m => s.broadcast name m) s

/-- Ends a subscription; ending it again changes nothing. -/
def cancel (s : Streams) (i : Nat) : Streams :=
  match s.subscribers[i]? with
  | none => s
  | some x =>
    if i ∈ s.listening x.name then
      { subscribers := s.subscribers.modify i fun x => { x with closed := true }
        listeners := enter s.listeners x.name ((s.listening x.name).erase i) }
    else s

/-- Receives from the channel of a subscriber, without waiting. -/
def receive (s : Streams) (i : Nat) : Streams × Received :=
  match s.subscribers[i]? with
  | none => (s, .closed)
  | some x =>
    match x.waiting with
    | m :: _ =>
      ({ s with
        subscribers := s.subscribers.modify i fun x => { x with waiting := x.waiting.tail } },
        .message m)
    | [] => (s, if x.closed then .closed else .nothing)

/-- The number of messages that wait for a subscriber. -/
def waitingAt (s : Streams) (i : Nat) : Nat :=
  ((s.subscribers[i]?).map (·.waiting.length)).getD 0

/-- Who receives a message has one fewer waiting. -/
theorem waitingAt_receive_lt {s : Streams} {i : Nat} {m : String}
    (h : (s.receive i).2 = .message m) : (s.receive i).1.waitingAt i < s.waitingAt i := by
  unfold receive at h ⊢
  split at h
  · cases h
  · rename_i x hx
    split at h
    · rename_i m' ms hwaiting
      simp [waitingAt, hx, hwaiting]
    · split at h
      · cases h
      · cases h

/-- Receives the messages that wait for a subscriber, and says whether more can come. -/
def drain (s : Streams) (i : Nat) : Streams × List String × Bool :=
  match _h : (s.receive i).2 with
  | .message m =>
    let (s, ms, more) := drain (s.receive i).1 i
    (s, m :: ms, more)
  | .nothing => (s, [], true)
  | .closed => (s, [], false)
termination_by s.waitingAt i
decreasing_by exact waitingAt_receive_lt _h

end Streams

end TapeMachine
