import TapeMachine.Store.Redis

/-!
# Locks

A lock on a key is granted to one holder at a time. A grant is given back by the holder, once or
more often; giving back a grant that is no longer held changes nothing. In one process, the holders
are kept in a list. On a server, the holder's token stands under a key and may expire.
-/

namespace TapeMachine

/-- A lock that was granted: its key, and a token that no other grant has. -/
structure Grant where
  key : Bytes
  token : Nat
deriving DecidableEq

/-- Why a lock is not granted. -/
inductive LockError where
  | stopped (cause : StopCause)
  | server (e : Redis.Error)
deriving DecidableEq

/-- The wording of each error. -/
def LockError.message : LockError → String
  | .stopped cause => cause.message
  | .server e => "failed to acquire distributed lock: " ++ e.message

/-! ### Locks in one process -/

/-- The grants that are held, and the token of the next one. -/
structure Locks where
  held : List Grant := []
  next : Nat := 0

namespace Locks

/-- Whether the lock on a key is held. -/
def isHeld (l : Locks) (key : Bytes) : Bool :=
  l.held.any (fun g => g.key == key)

/-- Asks for the lock on a key. Only a caller who has to wait can give up; one who waits for ever
gets no answer. -/
def lock (l : Locks) (caller : Caller) (key : Bytes) : Option (Except LockError (Locks × Grant)) :=
  if l.isHeld key then caller.givesUp?.map (fun cause => .error (.stopped cause))
  else
    let g : Grant := ⟨key, l.next⟩
    some (.ok ({ held := g :: l.held, next := l.next + 1 }, g))

/-- Gives a grant back. -/
def unlock (l : Locks) (g : Grant) : Locks :=
  { l with held := l.held.filter (· != g) }

end Locks

/-! ### Locks on a server -/

namespace Redis

variable {σ : Type} [KeyServer σ]

/-- The text that stands for a token. -/
def tokenText (token : Nat) : String := toString token

/-- The seconds that something lives which is kept for so many; zero means for ever. -/
def term? (life : Nat) : Option Nat := if life = 0 then none else some life

/-- Asks for the lock under a key of a server, until it is granted. -/
def lock (s : σ) (caller : Caller) (key : Bytes) (token life : Nat) :
    Option (Except LockError σ) :=
  match KeyServer.run s caller key (.setNew (tokenText token) (term? life)) with
  | (_, .error (.stopped cause)) => some (.error (.stopped cause))
  | (_, .error e) => some (.error (.server e))
  | (s, .ok .done) => some (.ok s)
  | (_, .ok _) => caller.givesUp?.map (fun cause => .error (.stopped cause))

/-- Gives back the lock under a key, if it is still held under the token. -/
def unlock (s : σ) (caller : Caller) (key : Bytes) (token : Nat) : Except Error σ :=
  match KeyServer.run s caller key (.deleteText (tokenText token)) with
  | (_, .error e) => .error e
  | (s, .ok _) => .ok s

end Redis

end TapeMachine
