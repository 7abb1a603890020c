import TapeMachine.Text.Percent

/-!
# Routes

Which request a path and a method stand for. What a service can be asked for is registered with a
router (`mounts`), and a router finds for a method and a path what is registered (`Router`). A
target that is not written properly stands for nothing.

The router `Router.byParts` compares paths part by part. A path that is known for other methods only
is told apart from a path that is not known at all, and a slash at the end makes no difference
behind the collection of tables or behind the name of a table.
-/

namespace TapeMachine.Service

/-- A request as it arrives. -/
structure Request where
  method : String := "GET"
  /-- The path as it is written, with the query. -/
  target : Bytes
  body : Bytes := []

/-- What can be asked for. -/
inductive Route where
  | health
  | info
  | metrics
  | compile
  | run
  | listTables
  | putTable (name : Bytes)
  | getTable (name : Bytes)
  | deleteTable (name : Bytes)
  | runTable (name : Bytes)
  | events (name : Bytes)
deriving DecidableEq

/-- Why a request is for nothing. -/
inductive RouteError where
  | malformed
  | notFound
  | notAllowed
deriving DecidableEq

/-- A part of a pattern of paths: a word, or any name. -/
inductive Segment where
  | word (text : Bytes)
  | name
deriving DecidableEq

/-- What is registered for a method and a pattern of paths. It says what a request is for, given the
name in its path. Some patterns also fit with a slash at the end. -/
structure Mount where
  method : String
  pattern : List Segment
  slash : Bool := false
  route : Bytes → Route

/-- A page without a name. -/
def page (method : String) (word : Bytes) (route : Route) (slash : Bool := false) : Mount :=
  { method, pattern := [.word word], slash, route := fun _ => route }

/-- All that a service is asked for. -/
def mounts (withMetrics : Bool) : List Mount :=
  [page "GET" "health" .health, page "GET" "info" .info] ++
  (if withMetrics then [page "GET" "metrics" .metrics] else []) ++
  [page "POST" "compile" .compile, page "POST" "run" .run, page "GET" "tables" .listTables true,
    { method := "PUT", pattern := [.word "tables", .name], slash := true, route := .putTable },
    { method := "GET", pattern := [.word "tables", .name], slash := true, route := .getTable },
    { method := "DELETE", pattern := [.word "tables", .name], slash := true,
      route := .deleteTable },
    { method := "POST", pattern := [.word "tables", .name, .word "run"], route := .runTable },
    { method := "GET", pattern := [.word "tables", .name, .word "events"], route := .events }]

/-- A router: it finds what a method and a path stand for among all that is registered. -/
structure Router where
  find (ms : List Mount) (method : String) (path : Bytes) : Except RouteError Route
  /-- What is found is registered for the method. -/
  registered {ms : List Mount} {method : String} {path : Bytes} {route : Route} :
    find ms method path = .ok route →
      ∃ m ∈ ms, m.method = method ∧ ∃ name, route = m.route name

/-! ### A router -/

/-- The methods there are. -/
def methods : List String :=
  ["CONNECT", "DELETE", "GET", "HEAD", "OPTIONS", "PATCH", "POST", "PUT", "TRACE"]

/-- The name in the parts of a path that fit a pattern, or the empty name if the pattern has none.
-/
def fit? : List Segment → List Bytes → Option Bytes
  | [], [] => some []
  | .word w :: ss, p :: ps => if p == w then fit? ss ps else none
  | .name :: ss, p :: ps => (fit? ss ps).map (fun _ => p)
  | _, _ => none

/-- The name in a path that fits what is registered. -/
def Mount.name? (m : Mount) (path : Bytes) : Option Bytes :=
  match Text.pieces (· == 0x2F) path with
  | [] :: ps =>
    if ps.getLast? == some [] then (if m.slash then fit? m.pattern ps.dropLast else none)
    else fit? m.pattern ps
  | _ => none

/-- What the methods of a path stand for; a path without methods is not known. -/
def routesAt (ms : List Mount) (path : Bytes) : List (String × Route) :=
  ms.filterMap (fun m => (m.name? path).map (fun name => (m.method, m.route name)))

/-- Finds what a method and a path stand for. -/
def findRoute (ms : List Mount) (method : String) (path : Bytes) : Except RouteError Route :=
  if !methods.contains method then .error .notAllowed
  else
    match routesAt ms path with
    | [] => .error .notFound
    | routes =>
      match routes.lookup method with
      | some route => .ok route
      | none => .error .notAllowed

/-- What is found is registered for the method. -/
theorem of_findRoute_eq_ok {ms : List Mount} {method : String} {path : Bytes} {route : Route}
    (h : findRoute ms method path = .ok route) :
    ∃ m ∈ ms, m.method = method ∧ ∃ name, route = m.route name := by
  have hlookup : (routesAt ms path).lookup method = some route := by
    unfold findRoute at h
    split at h
    · cases h
    · split at h
      · cases h
      · split at h
        · cases h
          assumption
        · cases h
  obtain ⟨before, after, hroutes, -⟩ := List.lookup_eq_some_iff.mp hlookup
  have hmem : (method, route) ∈ routesAt ms path := by
    rw [hroutes]
    exact List.mem_append_right _ List.mem_cons_self
  obtain ⟨m, hm, hname⟩ := List.mem_filterMap.mp hmem
  obtain ⟨name, -, heq⟩ := Option.map_eq_some_iff.mp hname
  cases heq
  exact ⟨m, hm, rfl, name, rfl⟩

/-- The router that compares paths part by part. -/
def Router.byParts : Router where
  find := findRoute
  registered := of_findRoute_eq_ok

/-! ### Requests -/

/-- The path of a request, if its target is written properly. -/
def Request.path? (r : Request) : Option Bytes :=
  if r.target.any Text.Percent.isBroken then none
  else Text.Percent.path? (r.target.takeWhile (· != 0x3F))

/-- The pairs of a request's query. -/
def Request.query (r : Request) : List (Bytes × Bytes) :=
  Text.Percent.pairs ((r.target.dropWhile (· != 0x3F)).drop 1)

/-- What a request asks for, where `find` says what methods and paths stand for. -/
def Request.route (find : String → Bytes → Except RouteError Route) (r : Request) :
    Except RouteError Route :=
  match r.path? with
  | none => .error .malformed
  | some path => find r.method path

end TapeMachine.Service
