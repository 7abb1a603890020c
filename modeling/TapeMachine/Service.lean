import TapeMachine.Metrics
import TapeMachine.Service.Answer
import TapeMachine.Service.Route
import TapeMachine.Store.Open
import TapeMachine.Streams
import TapeMachine.Version

/-!
# The web service

A service compiles and runs programs, and keeps tables that can be put, fetched, deleted and run.
A change of a table is made under the lock on its name, and its difference to the old table is sent
to everyone who listens to the name. A request that would wait for ever has no answer.
-/

namespace TapeMachine

open Text (Json)

/-- A service: its engine, its tables and locks, who listens, what has been counted, and the router
that tells what is asked for. Tables may be kept on a key server of the kind `σ`. -/
structure Service (σ : Type := Redis.Server) where
  engine : Engine := {}
  backend : Backend σ := .memory
  streams : Streams := {}
  metrics : Metrics := {}
  router : Service.Router := .byParts
  /-- Whether the counts can be asked for. -/
  withMetrics : Bool := false
  /-- How many nanoseconds a request may take; zero means no limit. -/
  timeout : Nat := 0

/-- What is sent back: a status, the type of the body, and the body. -/
structure Response where
  status : Nat
  type : String := ""
  body : String := ""
deriving DecidableEq

namespace Service

/-! ### Responses -/

/-- What a web page from elsewhere may do: from where, with which methods and which headers. -/
def openHeaders : List (String × String) :=
  [("Access-Control-Allow-Origin", "*"),
    ("Access-Control-Allow-Methods", "GET, POST, PUT, DELETE, OPTIONS"),
    ("Access-Control-Allow-Headers", "Content-Type")]

/-- The headers that are sent before the body. -/
def headers (r : Response) : List (String × String) :=
  if r.type == "" then openHeaders else openHeaders ++ [("Content-Type", r.type)]

/-- A JSON body. -/
def json (status : Nat) (v : Json) : Response :=
  { status, type := "application/json", body := v.render ++ "\n" }

/-- The type of plain text. -/
def plainText : String := "text/plain; charset=utf-8"

/-- A failure. -/
def failure (status : Nat) (message : String) : Response :=
  json status (errorAnswer message)

/-- The answer to a body that is not an order. -/
def badBody : Response := failure 400 "invalid request body"

/-- The answer to a program that does not compile, if compiling it comes to an end. -/
def badProgram : Program.Error → Option Response
  | .endless => none
  | .namelessCall => some { status := 500 }
  | e => some (json 422 (compileErrorAnswer e))

/-- The answer to a request for nothing. -/
def RouteError.response : RouteError → Response
  | .malformed => { status := 400, type := plainText, body := "400 Bad Request" }
  | .notFound => { status := 404, type := plainText, body := "404 page not found\n" }
  | .notAllowed => { status := 405 }

/-! ### Programs -/

/-- Reads a body as an order with the given fields. -/
def order (fields : List String) (body : Bytes) : Option Order :=
  (Json.parseFirst? (Text.shown body)).bind (Order.ofJson? fields)

variable {σ : Type} [Redis.KeyServer σ]

/-- Runs a table on the arguments of a request. -/
def runTable (s : Service σ) (caller : Caller) (t : Table) (args : List String) :
    Option (Service σ × Response) :=
  (s.engine.measure caller.interrupt? t s.metrics (args.map normalizeInput)).map
    (fun (results, cause, metrics) =>
      ({ s with metrics }, match cause with
        | some c => failure 504 c.message
        | none => json 200 (runAnswer (args.zip results))))

/-- Compiles the program of a request. -/
def compile (s : Service σ) (body : Bytes) : Option Response :=
  match order ["source"] body with
  | none => some badBody
  | some o =>
    match s.engine.compile o.source with
    | .error e => badProgram e
    | .ok t => some (json 200 (compiledAnswer t))

/-- Compiles and runs the program of a request. -/
def run (s : Service σ) (caller : Caller) (body : Bytes) : Option (Service σ × Response) :=
  match order ["source", "inputs"] body with
  | none => some (s, badBody)
  | some o =>
    match s.engine.compile o.source with
    | .error e => (badProgram e).map (fun r => (s, r))
    | .ok t => s.runTable caller t o.inputs.items

/-! ### Tables -/

/-- The answer when a table cannot be loaded. -/
def loadFailure : StoreError → Response
  | .notFound => failure 404 StoreError.notFound.message
  | e => failure 500 e.message

/-- The seconds for which the lock on a table is asked for. -/
def lockLife : Nat := 10

/-- Tells everyone who listens to a name what has changed, if anything has. -/
def announce (s : Service σ) (name : Bytes) (d : TableDiff) : Service σ :=
  if d.isEmpty then s
  else { s with streams := s.streams.broadcast name d.toJson.render }

/-- Does something under the lock on a name. -/
def underLock (s : Service σ) (caller : Caller) (name : Bytes)
    (act : Service σ → Service σ × Response) : Option (Service σ × Response) :=
  match s.backend.lock caller name lockLife with
  | none => none
  | some (.error e) => some (s, failure 503 e.message)
  | some (.ok (backend, grant)) =>
    let (s, r) := act { s with backend }
    some ({ s with backend := (s.backend.unlock .patient grant).1 }, r)

/-- The table under a name, or nothing if there is none. -/
def current (s : Service σ) (caller : Caller) (name : Bytes) : Except StoreError (Option Table) :=
  match s.backend.store.load caller name with
  | .ok t => .ok (some t)
  | .error .notFound => .ok none
  | .error e => .error e

/-- A service with another store. -/
def withStore (s : Service σ) (store : Store σ) : Service σ :=
  { s with backend := { s.backend with store } }

/-- Puts a table under a name. -/
def put (s : Service σ) (caller : Caller) (name : Bytes) (t : Table) : Service σ × Response :=
  match s.current caller name with
  | .error e => (s, failure 500 e.message)
  | .ok old =>
    match s.backend.store.save caller name t with
    | (store, some e) => (s.withStore store, failure 500 e.message)
    | (store, none) =>
      let d := TableDiff.between old t
      ((s.withStore store).announce name d,
        json (if old.isNone then 201 else 200) (putAnswer name d))

/-- Deletes the table under a name. -/
def delete (s : Service σ) (caller : Caller) (name : Bytes) : Service σ × Response :=
  match s.current caller name with
  | .error e => (s, failure 500 e.message)
  | .ok old =>
    match s.backend.store.delete caller name with
    | (store, some e) => (s.withStore store, failure 500 e.message)
    | (store, none) =>
      let s := s.withStore store
      (match old with
        | some t => s.announce name (TableDiff.between (some t) .empty)
        | none => s, { status := 204 })

/-- Puts the program of a request under a name. -/
def putProgram (s : Service σ) (caller : Caller) (name body : Bytes) :
    Option (Service σ × Response) :=
  match order ["source"] body with
  | none => some (s, badBody)
  | some o =>
    match s.engine.compile o.source with
    | .error e => (badProgram e).map (fun r => (s, r))
    | .ok t => s.underLock caller name (fun s => s.put caller name t)

/-- The names of all tables. -/
def list (s : Service σ) (caller : Caller) : Service σ × Response :=
  match s.backend.store.list caller with
  | (store, .ok names) => (s.withStore store, json 200 (tablesAnswer names))
  | (store, .error e) => (s.withStore store, failure 500 e.message)

/-- The table under a name, as JSON or as canonical text. -/
def get (s : Service σ) (caller : Caller) (name : Bytes) (canonical : Bool) : Response :=
  match s.backend.store.load caller name with
  | .error e => loadFailure e
  | .ok t =>
    if canonical then { status := 200, type := plainText, body := Canonical.encode t }
    else json 200 t.toJson

/-- Runs the table under a name. -/
def runStored (s : Service σ) (caller : Caller) (name body : Bytes) :
    Option (Service σ × Response) :=
  match order ["source", "inputs"] body with
  | none => some (s, badBody)
  | some o =>
    match s.backend.store.load caller name with
    | .error e => some (s, loadFailure e)
    | .ok t => s.runTable caller (s.engine.adopt t) o.inputs.items

/-! ### Requests -/

/-- What a listener is told at first. -/
def greeting : String := "event: ping\ndata: connected\n\n"

/-- How a message is sent to a listener. -/
def event (message : String) : String := "event: diff\ndata: " ++ message ++ "\n\n"

/-- Answers a request for a route. -/
def serve (s : Service σ) (caller : Caller) (r : Request) : Route → Option (Service σ × Response)
  | .health => some (s, json 200 (.object [("status", .string "ok")]))
  | .info =>
    some (s, json 200 (.object [("app", .string "turing-http"), ("version", .string version)]))
  | .metrics =>
    some (s, { status := 200, type := "", body := String.join (s.metrics.lines.map (· ++ "\n")) })
  | .compile => (s.compile r.body).map (fun a => (s, a))
  | .run => s.run caller r.body
  | .listTables => some (s.list caller)
  | .putTable name => s.putProgram caller name r.body
  | .getTable name =>
    some (s, s.get caller name (r.query.lookup ("format" : Bytes) == some ("canonical" : Bytes)))
  | .deleteTable name => s.underLock caller name (fun s => s.delete caller name)
  | .runTable name => s.runStored caller name r.body
  | .events name =>
    some ({ s with streams := (s.streams.subscribe name).1 },
      { status := 200, type := "text/event-stream", body := greeting })

/-- What a method and a path stand for. -/
def find (s : Service σ) : String → Bytes → Except RouteError Route :=
  s.router.find (mounts s.withMetrics)

/-- Answers a request. -/
def handle (s : Service σ) (caller : Caller) (r : Request) : Option (Service σ × Response) :=
  if r.method == "OPTIONS" && r.path?.isSome then some (s, { status := 200 })
  else
    match r.route s.find with
    | .error e => some (s, e.response)
    | .ok route => s.serve (caller.limited s.timeout) r route

end Service

end TapeMachine
