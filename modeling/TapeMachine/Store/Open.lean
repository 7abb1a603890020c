import TapeMachine.Store

/-!
# Opening a store

Which store to use is a matter of settings. A folder needs no preparation; a key server has to
answer a first command.
-/

namespace TapeMachine

/-- The settings of a store. -/
structure StoreSettings where
  kind : String := "memory"
  dir : String := ".turing/tables"
  address : String := "localhost:6379"
  password : String := ""
  database : Int := 0
  keyStart : String := "turing:"
  /-- How long a table lives on a key server, in nanoseconds; zero means for ever. -/
  life : Int := 0
deriving DecidableEq

namespace StoreSettings

/-- The folder that is used when none is named. -/
def defaultDir : String := ".turing/tables"

/-- The folder of the tables. -/
def folder (s : StoreSettings) : String :=
  if s.dir == "" then defaultDir else s.dir

/-- How tables are kept on a key server. -/
def shared (s : StoreSettings) : Shared :=
  { keyStart := Text.bytes s.keyStart, life := (s.life / 1000000000).toNat }

/-- Opens the store. `files` is where folders are, and `server` answers at the address, unless
connecting to it fails. -/
def openStore {σ : Type} [Redis.KeyServer σ] (s : StoreSettings) (caller : Caller) (files : Files)
    (server : Except Redis.Error σ) : Except StoreError (Backend σ) :=
  match s.kind with
  | "file" => .ok { store := .folder s.folder files }
  | "redis" =>
    match server.bind (fun r => (Redis.KeyServer.ping r caller).map (fun _ => r)) with
    | .ok r => .ok { store := .redis s.shared r }
    | .error e => .error (.server ("failed to connect to redis at " ++ s.address) e)
  | "memory" => .ok .memory
  | "" => .ok .memory
  | kind => .error (.unknownKind kind)

end StoreSettings

end TapeMachine
