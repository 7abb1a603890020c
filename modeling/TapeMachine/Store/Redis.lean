import TapeMachine.Caller
import TapeMachine.Text.Bytes

/-!
# Key servers

What stores and locks need of a Redis server: texts under keys, which may have a limited life, and
rankings, sets of members that are ordered by score. Keys and members are bytes.

A command is about one key, and what it does depends on what stands under that key only
(`Command.act`). Stores and locks work with any server that takes such commands (`KeyServer`). A
server of that kind is a list of keys and what stands under them (`Server`).
-/

namespace TapeMachine.Redis

/-! ### What stands under a key -/

/-- What a key holds. The members of a ranking are in order. -/
inductive Item where
  | text (s : String)
  | ranking (members : List (Bytes × Int))
deriving DecidableEq

/-- An item, and the seconds it has left to live. -/
structure Slot where
  item : Item
  life : Option Nat := none
deriving DecidableEq

/-- A slot after some time, if its life is not over. -/
def Slot.age (seconds : Nat) (x : Slot) : Option Slot :=
  match x.life with
  | none => some x
  | some n => if n ≤ seconds then none else some { x with life := some (n - seconds) }

/-- Why a command is not carried out. -/
inductive Error where
  | reply (text : String)
  | stopped (cause : StopCause)
deriving DecidableEq

/-- The wording of an error. -/
def Error.message : Error → String
  | .reply text => text
  | .stopped cause => cause.message

/-- The answer to a command on a key that holds another kind of value. -/
def wrongType : Error :=
  .reply "WRONGTYPE Operation against a key holding the wrong kind of value"

/-- The text that stands under a key, if anything does. -/
def textAt : Option Slot → Except Error (Option String)
  | none => .ok none
  | some ⟨.text t, _⟩ => .ok (some t)
  | some ⟨.ranking _, _⟩ => .error wrongType

/-- The members of the ranking that stands under a key; where nothing stands, it is empty. -/
def rankingAt : Option Slot → Except Error (List (Bytes × Int))
  | none => .ok []
  | some ⟨.ranking ms, _⟩ => .ok ms
  | some ⟨.text _, _⟩ => .error wrongType

/-- Members go by score, and by name where scores are equal. -/
def goesBefore (a b : Bytes × Int) : Bool :=
  a.2 < b.2 || (a.2 == b.2 && a.1 ≤ b.1)

/-! ### Commands -/

/-- What a server can be told to do with a key. -/
inductive Command where
  /-- Asks for the text. -/
  | get
  /-- Puts a text there, whatever stands there. -/
  | set (text : String) (life : Option Nat)
  /-- Puts a text there if nothing stands there. -/
  | setNew (text : String) (life : Option Nat)
  | delete
  /-- Deletes the key if this text stands there. -/
  | deleteText (text : String)
  /-- Gives a member of the ranking a score. -/
  | rank (member : Bytes) (score : Int)
  /-- Takes a member out of the ranking. -/
  | unrank (member : Bytes)
  /-- Takes the members with at most a score out of the ranking. -/
  | prune (bound : Int)
  /-- Asks for the members of the ranking. -/
  | members

/-- What a server answers to a command that it carries out. -/
inductive Reply where
  | done
  | nothing
  | text (s : String)
  | members (names : List Bytes)
deriving DecidableEq

/-- Changes the ranking that stands under a key. It lives as long as before, and if it has become
empty it does not stand there any more. -/
def changeRanking (x : Option Slot) (change : List (Bytes × Int) → List (Bytes × Int)) :
    Option Slot × Except Error Reply :=
  match rankingAt x with
  | .error e => (x, .error e)
  | .ok ms =>
    let ms := change ms
    (if ms.isEmpty then none else some ⟨.ranking ms, x.bind (·.life)⟩, .ok .done)

/-- What a command makes of what stands under its key, and the answer to it. -/
def Command.act (x : Option Slot) : Command → Option Slot × Except Error Reply
  | .get => (x, (textAt x).map (fun t => t.elim .nothing .text))
  | .set text life => (some ⟨.text text, life⟩, .ok .done)
  | .setNew text life =>
    if x.isSome then (x, .ok .nothing) else (some ⟨.text text, life⟩, .ok .done)
  | .delete => (none, .ok .done)
  | .deleteText text =>
    match textAt x with
    | .error e => (x, .error e)
    | .ok t => (if t = some text then none else x, .ok .done)
  | .rank member score =>
    changeRanking x (fun ms =>
      (ms.filter (fun m => m.1 != member) ++ [(member, score)]).mergeSort goesBefore)
  | .unrank member => changeRanking x (fun ms => ms.filter (fun m => m.1 != member))
  | .prune bound => changeRanking x (fun ms => ms.filter (fun m => bound < m.2))
  | .members => (x, (rankingAt x).map (fun ms => .members (ms.map (·.1))))

/-! ### Servers -/

/-- A kind of servers. -/
class KeyServer (σ : Type) where
  /-- Tells a server to carry out a caller's command on a key. -/
  run : σ → Caller → Bytes → Command → σ × Except Error Reply
  /-- Asks a server for any answer at all. -/
  ping : σ → Caller → Except Error Unit
  /-- What stands under a key. -/
  slot? : σ → Bytes → Option Slot
  /-- Whether a server carries out the commands of those who are there. -/
  Works : σ → Prop
  /-- A server after so many seconds in which it was told nothing. -/
  advance : σ → Nat → σ

/-- Carries out commands in one go, each on its own key. They are all carried out, even if one of
them fails; the first failure is told. -/
def transact {σ : Type} [KeyServer σ] (s : σ) (caller : Caller) :
    List (Bytes × Command) → σ × Option Error
  | [] => (s, none)
  | (key, c) :: cs =>
    let (s, reply) := KeyServer.run s caller key c
    let (s, failure) := transact s caller cs
    (s, match reply with
      | .error e => some e
      | .ok _ => failure)

/-- A server that lists its keys. While `failure` is not empty, every command is answered with
it. -/
structure Server where
  slots : List (Bytes × Slot) := []
  failure : String := ""

namespace Server

/-- Whether a command of this caller is looked at. -/
def accept (s : Server) (caller : Caller) : Except Error Unit :=
  match caller.absent? with
  | some cause => .error (.stopped cause)
  | none => if s.failure == "" then .ok () else .error (.reply s.failure)

/-- What stands under a key. -/
def slot? (s : Server) (key : Bytes) : Option Slot :=
  s.slots.lookup key

/-- Puts a slot under a key, or takes the key away. -/
def put (s : Server) (key : Bytes) (x : Option Slot) : Server :=
  { s with slots := s.slots.filter (fun y => y.1 != key) ++ x.toList.map (fun x => (key, x)) }

/-- Carries out a command on a key. -/
def run (s : Server) (caller : Caller) (key : Bytes) (c : Command) :
    Server × Except Error Reply :=
  match s.accept caller with
  | .error e => (s, .error e)
  | .ok () =>
    let (x, reply) := c.act (s.slot? key)
    (if x = s.slot? key then s else s.put key x, reply)

/-- Lets time pass; what has no life left is gone. -/
def advance (s : Server) (seconds : Nat) : Server :=
  { s with slots := s.slots.filterMap (fun x =>
      ((s.slot? x.1).bind (·.age seconds)).map (fun y => (x.1, y))) }

end Server

instance : KeyServer Server where
  run := Server.run
  ping := Server.accept
  slot? := Server.slot?
  Works s := s.failure = ""
  advance := Server.advance

end TapeMachine.Redis
