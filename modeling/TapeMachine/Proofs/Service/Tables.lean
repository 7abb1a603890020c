import TapeMachine.Proofs.Canonical.Compiled
import TapeMachine.Proofs.Program.Faults
import TapeMachine.Proofs.Run.Observers
import TapeMachine.Proofs.Service.Announcements
import TapeMachine.Proofs.Store.Keeper

/-!
# The tables of a service

Whoever puts, fetches, lists, deletes and runs the tables of a service sees a map from names to
compiled programs. `Answered` says what the map answers to each request, what becomes of it, and
what is announced. `Keeps` ties a service to the map, wherever it keeps its tables; one request is
answered as the map answers it (`Keeps.handle_table`), and so is one after the other
(`Keeps.handleAll_tables`). The main statement, `tables_are_map_of_programs`, is about services in
memory, which serve everybody.

A program with a call that names nothing does not compile, and is not told so: the request comes to
an end with a bare failure (`put_blank_call_fails`).
-/

namespace TapeMachine

/-! ## Compiled tables -/

namespace Engine

variable {e : Engine} {source : String} {t : Table}

/-- A table that was compiled by an engine and copied is the same again when the engine adopts it.
-/
lemma adopt_thaw_of_compile (h : e.compile source = .ok t) : e.adopt t.thaw = t := by
  obtain ⟨is, -, -, rfl⟩ := Program.compile_eq_ok_iff.mp h
  unfold adopt
  by_cases hs : e.start = "" <;> simp [hs, Table.thaw, Table.freeze]

/-- A compiled table can be written as JSON and read back, wherever it starts. -/
lemma storable_of_compile (h : e.compile source = .ok t) : t.Storable := by
  refine ⟨(Program.wellFormed_of_compile h).reachable, ?_⟩
  by_cases hs : e.start = ""
  · rw [compile, hs] at h
    rcases Canonical.initial_of_compile h with ⟨hnil, -⟩ | hword
    · exact Or.inr hnil
    · refine Or.inl fun hempty => ?_
      rw [hempty] at hword
      exact hword.1 rfl
  · obtain ⟨is, -, -, rfl⟩ := Program.compile_eq_ok_iff.mp h
    exact Or.inl (by simp [hs])

end Engine

/-- For a difference it makes no difference whether the old table is a copy. -/
lemma TableDiff.between_map_thaw (old : Option Table) (t : Table) :
    TableDiff.between (old.map Table.thaw) t = TableDiff.between old t := by
  cases old <;> rfl

namespace Service

variable {σ : Type} [Redis.KeyServer σ]

/-! ## Routes -/

/-- Nothing is registered for those who ask for options. -/
lemma method_ne_options (withMetrics : Bool) : ∀ m ∈ mounts withMetrics, m.method ≠ "OPTIONS" := by
  intro m hm
  have hmethod : m.method ∈ (mounts withMetrics).map Mount.method := List.mem_map_of_mem hm
  cases withMetrics <;> exact fun heq => absurd (heq ▸ hmethod) (by decide)

/-- A request for a route is served by it, within the time that it may take. -/
lemma handle_of_route {s : Service σ} {r : Request} {route : Route}
    (h : r.route s.find = .ok route) (caller : Caller) :
    s.handle caller r = s.serve (caller.limited s.timeout) r route := by
  have hmethod : r.method ≠ "OPTIONS" := by
    intro hoptions
    unfold Request.route at h
    split at h
    · cases h
    · obtain ⟨m, hm, hmethod, -⟩ := s.router.registered h
      exact method_ne_options s.withMetrics m hm (hmethod.trans hoptions)
  unfold handle
  rw [if_neg (by simp [hmethod]), h]

/-! ## Runs -/

/-- What is answered when a table has been run on some arguments, if all runs come to an end. -/
def ran (engine : Engine) (caller : Caller) (t : Table) (args : List String) : Option Response :=
  (engine.report caller.interrupt? t args).map fun
    | (_, some cause) => failure 504 cause.message
    | (rs, none) => json 200 (runAnswer rs)

omit [Redis.KeyServer σ] in
/-- Running a table changes nothing but the counts. -/
lemma exists_runTable_eq (s : Service σ) (caller : Caller) (t : Table) (args : List String) :
    ∃ metrics, s.runTable caller t args =
      (ran s.engine caller t args).map fun response => ({ s with metrics }, response) := by
  have hmeasure := s.engine.measure_eq caller.interrupt? t s.metrics (args.map normalizeInput)
  unfold runTable ran Engine.report
  rw [← hmeasure]
  cases s.engine.measure caller.interrupt? t s.metrics (args.map normalizeInput) with
  | none => exact ⟨s.metrics, rfl⟩
  | some o =>
    refine ⟨o.2.2, ?_⟩
    simp only [Option.map_some]
    cases o.2.1 <;> rfl

/-! ## What a map answers -/

/-- What can be asked of the tables. -/
inductive TableAsk where
  | put (name body : Bytes)
  | get (name : Bytes) (canonical : Bool)
  | delete (name : Bytes)
  | list
  | run (name body : Bytes)

/-- The name that is asked about. -/
def TableAsk.name? : TableAsk → Option Bytes
  | .put name _ => some name
  | .get name _ => some name
  | .delete name => some name
  | .list => none
  | .run name _ => some name

/-- What a request asks of the tables, if it is about tables. What methods and paths stand for is
told by a router. -/
def Request.tableAsk? (find : String → Bytes → Except RouteError Route) (r : Request) :
    Option TableAsk :=
  match r.route find with
  | .ok (.putTable name) => some (.put name r.body)
  | .ok (.getTable name) =>
    some (.get name (r.query.lookup ("format" : Bytes) == some ("canonical" : Bytes)))
  | .ok (.deleteTable name) => some (.delete name)
  | .ok .listTables => some .list
  | .ok (.runTable name) => some (.run name r.body)
  | _ => none

/-- What is announced: a difference under a name, unless it is empty. -/
def newsOf (name : Bytes) (d : TableDiff) : List (Bytes × TableDiff) :=
  if d.isEmpty then [] else [(name, d)]

/-- What a map from names to compiled tables answers, what becomes of it, and what is announced. A
program on which the compiler works for ever has no answer, and neither have runs that never end. -/
inductive Answered (engine : Engine) (caller : Caller) (m : Contents) :
    TableAsk → Option Response → Contents → List (Bytes × TableDiff) → Prop
  | putMalformed {name body : Bytes} (hbody : order ["source"] body = none) :
      Answered engine caller m (.put name body) (some (failure 400 "invalid request body")) m []
  | putFaulty {name body : Bytes} {o : Order} {line : ℤ} {cause : Program.Cause}
      (hbody : order ["source"] body = some o)
      (hfault : engine.compile o.source = .error (.at line cause)) :
      Answered engine caller m (.put name body)
        (some (json 422 (compileErrorAnswer (.at line cause)))) m []
  | putBroken {name body : Bytes} {o : Order} (hbody : order ["source"] body = some o)
      (hfault : engine.compile o.source = .error .namelessCall) :
      Answered engine caller m (.put name body) (some { status := 500 }) m []
  | putEndless {name body : Bytes} {o : Order} (hbody : order ["source"] body = some o)
      (hfault : engine.compile o.source = .error .endless) :
      Answered engine caller m (.put name body) none m []
  | put {name body : Bytes} {o : Order} {t : Table} (hbody : order ["source"] body = some o)
      (hcompiles : engine.compile o.source = .ok t) :
      Answered engine caller m (.put name body)
        (some (json (if (m name).isNone then 201 else 200) (putAnswer name (.between (m name) t))))
        (Function.update m name (some t)) (newsOf name (.between (m name) t))
  | getMissing {name : Bytes} {canonical : Bool} (hmissing : m name = none) :
      Answered engine caller m (.get name canonical) (some (failure 404 "table not found")) m []
  | getJson {name : Bytes} {t : Table} (hfound : m name = some t) :
      Answered engine caller m (.get name false) (some (json 200 t.toJson)) m []
  | getCanonical {name : Bytes} {t : Table} (hfound : m name = some t) :
      Answered engine caller m (.get name true)
        (some { status := 200, type := plainText, body := Canonical.encode t }) m []
  | deleteMissing {name : Bytes} (hmissing : m name = none) :
      Answered engine caller m (.delete name) (some { status := 204 })
        (Function.update m name none) []
  | delete {name : Bytes} {t : Table} (hfound : m name = some t) :
      Answered engine caller m (.delete name) (some { status := 204 })
        (Function.update m name none) (newsOf name (.between (some t) .empty))
  | list {names : List Bytes} (hmem : ∀ name, name ∈ names ↔ (m name).isSome)
      (horder : names.Pairwise (· < ·)) :
      Answered engine caller m .list (some (json 200 (tablesAnswer names))) m []
  | runMalformed {name body : Bytes} (hbody : order ["source", "inputs"] body = none) :
      Answered engine caller m (.run name body) (some (failure 400 "invalid request body")) m []
  | runMissing {name body : Bytes} {o : Order} (hbody : order ["source", "inputs"] body = some o)
      (hmissing : m name = none) :
      Answered engine caller m (.run name body) (some (failure 404 "table not found")) m []
  | run {name body : Bytes} {o : Order} {t : Table}
      (hbody : order ["source", "inputs"] body = some o) (hfound : m name = some t) :
      Answered engine caller m (.run name body) (ran engine caller t o.inputs.items) m []

/-- Nothing changes under a name that is not asked about. -/
lemma Answered.apply_of_ne {engine : Engine} {caller : Caller} {m m' : Contents} {ask : TableAsk}
    {response : Option Response} {news : List (Bytes × TableDiff)}
    (h : Answered engine caller m ask response m' news) {other : Bytes}
    (hother : ask.name? ≠ some other) : m' other = m other := by
  cases h with
  | put | deleteMissing | delete =>
    exact Function.update_of_ne (fun heq => hother (congrArg some heq.symm)) _ _
  | _ => rfl

/-- A program that compiles is put, and nothing else can be the answer. -/
lemma Answered.of_compile {engine : Engine} {caller : Caller} {m m' : Contents} {name body : Bytes}
    {response : Option Response} {news : List (Bytes × TableDiff)}
    (h : Answered engine caller m (.put name body) response m' news) {o : Order} {t : Table}
    (hbody : order ["source"] body = some o) (hcompiles : engine.compile o.source = .ok t) :
    response.map (·.status) = some (if (m name).isNone then 201 else 200) ∧
      m' = Function.update m name (some t) := by
  cases h with
  | putMalformed hbody' => cases hbody.symm.trans hbody'
  | putFaulty hbody' hfault | putBroken hbody' hfault | putEndless hbody' hfault =>
    cases hbody.symm.trans hbody'
    cases hcompiles.symm.trans hfault
  | put hbody' hcompiles' =>
    cases hbody.symm.trans hbody'
    cases hcompiles.symm.trans hcompiles'
    exact ⟨rfl, rfl⟩

/-! ## Services that keep a map -/

/-- A service with the settings of `s₀` keeps the tables of a map, all of which its engine has
compiled. -/
structure Keeps (keeper : Keeper) (m : Contents) (s₀ s : Service σ) : Prop where
  holds : keeper.Holds m none s.backend
  compiled : ∀ name t, m name = some t → ∃ source, s₀.engine.compile source = .ok t
  engine : s.engine = s₀.engine
  find : s.find = s₀.find
  timeout : s.timeout = s₀.timeout

/-- All announcements are sent to those who listen. -/
def sendAll (streams : Streams) (news : List (Bytes × TableDiff)) : Streams :=
  news.foldl (fun s x => s.broadcast x.1 x.2.toJson.render) streams

/-- What a service has become when it has dealt with a request, and its answer. A request that has
no answer leaves the service as it was. -/
def settled (s : Service σ) : Option (Service σ × Response) → Service σ × Option Response
  | some (s', response) => (s', some response)
  | none => (s, none)

/-- A service has answered as a map answers, and keeps what the map has become. -/
def AnsweredFrom (keeper : Keeper) (m : Contents) (s₀ s : Service σ) (caller : Caller)
    (ask : TableAsk) (result : Option (Service σ × Response)) : Prop :=
  ∃ s' response m' news, s.settled result = (s', response) ∧
    Answered s₀.engine caller m ask response m' news ∧ Keeps keeper m' s₀ s' ∧
    s'.streams = sendAll s.streams news

/-- What a request leaves under its name. -/
def Update.bound {engine : Engine} (u : Update engine) : Option Table :=
  match u.change with
  | .put _ t _ => some t
  | .delete => none

/-- A request does not care whether it has loaded a table or a copy of it. -/
lemma Update.map_thaw {engine : Engine} (u : Update engine) (old : Option Table) :
    u.announced? (old.map Table.thaw) = u.announced? old ∧
      u.answer (old.map Table.thaw) = u.answer old := by
  unfold announced? diff? answer
  cases u.change with
  | put _ t _ => simp only [TableDiff.between_map_thaw, Option.isNone_map, and_self]
  | delete => cases old <;> exact ⟨rfl, rfl⟩

namespace Keeps

variable {keeper : Keeper} {m : Contents} {s₀ s : Service σ}

/-- The tables of the map can be written as JSON and read back. -/
lemma storable (h : Keeps keeper m s₀ s) {name : Bytes} {t : Table} (ht : m name = some t) :
    t.Storable := by
  obtain ⟨source, hsource⟩ := h.compiled name t ht
  exact Engine.storable_of_compile hsource

/-- A service that changes neither its settings nor what its backend holds keeps the map. -/
lemma of_holds (h : Keeps keeper m s₀ s) {s' : Service σ}
    (hholds : keeper.Holds m none s'.backend) (hengine : s'.engine = s.engine)
    (hfind : s'.find = s.find) (htimeout : s'.timeout = s.timeout) : Keeps keeper m s₀ s' :=
  ⟨hholds, h.compiled, hengine.trans h.engine, hfind.trans h.find,
    htimeout.trans h.timeout⟩

/-- A request for a route is served by it, with the settings of `s₀`. -/
lemma handle_of_route (h : Keeps keeper m s₀ s) {r : Request} {route : Route}
    (hroute : r.route s₀.find = .ok route) (caller : Caller) :
    s.handle caller r = s.serve (caller.limited s₀.timeout) r route := by
  rw [← h.find] at hroute
  rw [Service.handle_of_route hroute, h.timeout]

end Keeps

section

variable [Redis.LawfulKeyServer σ]

/-- Writing a change into a backend puts it into the map. -/
lemma Update.exists_write_of_holds {engine : Engine} (u : Update engine) {keeper : Keeper}
    {m : Contents} {held : Option Grant} {b : Backend σ} (h : keeper.Holds m held b)
    (hcaller : keeper.Admits u.caller) :
    ∃ store, u.write b.store = (store, none) ∧
      keeper.Holds (Function.update m u.name u.bound) held { b with store } := by
  unfold write bound
  cases u.change with
  | put _ t _ => exact h.save hcaller u.name t
  | delete => exact h.delete hcaller u.name

/-- The tables that are current are copies of those that the backend holds. -/
lemma current_of_holds {s : Service σ} {keeper : Keeper} {m : Contents} {held : Option Grant}
    (h : keeper.Holds m held s.backend) {caller : Caller} (hcaller : keeper.Admits caller)
    {name : Bytes} (hm : ∀ t, m name = some t → t.Storable) :
    s.current caller name = .ok ((m name).map Table.thaw) := by
  rw [current, h.load hcaller hm]
  cases m name <;> rfl

namespace Keeps

variable {keeper : Keeper} {m : Contents} {s₀ s : Service σ} {caller : Caller}

/-- A change is made under the lock on its name, and then the map has it. -/
lemma update (h : Keeps keeper m s₀ s) (u : Update s₀.engine) (hcaller : keeper.Admits u.caller) :
    ∃ s', s.underLock u.caller u.name u.act = some (s', u.answer (m u.name)) ∧
      Keeps keeper (Function.update m u.name u.bound) s₀ s' ∧
      s'.streams =
        sendAll s.streams ((u.announced? (m u.name)).toList.map fun d => (u.name, d)) := by
  obtain ⟨b, g, hlock, hlocked⟩ := h.holds.lock hcaller u.name lockLife
  obtain ⟨store, hwrite, hwritten⟩ := u.exists_write_of_holds hlocked hcaller
  obtain ⟨hannounced, hanswer⟩ := u.map_thaw (m u.name)
  have hcurrent : ({ s with backend := b } : Service σ).current u.caller u.name =
      .ok ((m u.name).map Table.thaw) :=
    current_of_holds hlocked hcaller fun t ht => h.storable ht
  have hact := u.act_of_current hcurrent hwrite
  rw [Update.tell_eq, hannounced, hanswer] at hact
  let streams := (u.announced? (m u.name)).elim s.streams
    fun d => s.streams.broadcast u.name d.toJson.render
  refine ⟨{ s with backend := (({ b with store } : Backend σ).unlock .patient g).1, streams }, ?_,
    ⟨hwritten.unlock, ?_, h.engine, h.find, h.timeout⟩, ?_⟩
  · unfold underLock
    rw [hlock]
    simp only [hact]
    rfl
  · intro name t ht
    rw [Function.update_apply] at ht
    split at ht
    · unfold Update.bound at ht
      split at ht
      · rename_i source t' compiles hchange
        cases ht
        exact ⟨source, compiles⟩
      · cases ht
    · exact h.compiled name t ht
  · change (u.announced? (m u.name)).elim s.streams _ = _
    cases u.announced? (m u.name) <;> rfl

/-! ## One request -/

/-- A program is put under a name, or refused. -/
lemma putProgram (h : Keeps keeper m s₀ s) (hcaller : keeper.Admits caller) (name body : Bytes) :
    AnsweredFrom keeper m s₀ s caller (.put name body) (s.putProgram caller name body) := by
  unfold Service.putProgram
  cases hbody : order ["source"] body with
  | none => exact ⟨s, some badBody, m, [], rfl, .putMalformed hbody, h, rfl⟩
  | some o =>
    simp only [h.engine]
    cases hcompile : s₀.engine.compile o.source with
    | error e =>
      cases e with
      | «at» line cause =>
        exact ⟨s, badProgram (.at line cause), m, [], rfl, .putFaulty hbody hcompile, h, rfl⟩
      | namelessCall => exact ⟨s, _, m, [], rfl, .putBroken hbody hcompile, h, rfl⟩
      | endless => exact ⟨s, none, m, [], rfl, .putEndless hbody hcompile, h, rfl⟩
    | ok t =>
      obtain ⟨s', hs', hkeeps, hstreams⟩ :=
        h.update ⟨name, caller, .put o.source t hcompile⟩ hcaller
      refine ⟨s', _, _, _, congrArg s.settled hs', .put hbody hcompile, hkeeps,
        hstreams.trans ?_⟩
      unfold newsOf Update.announced? Update.diff?
      simp only [Option.filter_some]
      cases (TableDiff.between (m name) t).isEmpty <;> rfl

/-- The table under a name is deleted, if there is one. -/
lemma delete (h : Keeps keeper m s₀ s) (hcaller : keeper.Admits caller) (name : Bytes) :
    AnsweredFrom keeper m s₀ s caller (.delete name)
      (s.underLock caller name fun s => s.delete caller name) := by
  obtain ⟨s', hs', hkeeps, hstreams⟩ := h.update ⟨name, caller, .delete⟩ hcaller
  cases hname : m name with
  | none =>
    refine ⟨s', _, _, _, congrArg s.settled hs', .deleteMissing hname, hkeeps,
      hstreams.trans ?_⟩
    simp only [Update.announced?, Update.diff?, hname]
    rfl
  | some t =>
    refine ⟨s', _, _, _, congrArg s.settled hs', .delete hname, hkeeps, hstreams.trans ?_⟩
    simp only [newsOf, Update.announced?, Update.diff?, hname, Option.map_some, Option.filter_some]
    cases (TableDiff.between (some t) .empty).isEmpty <;> rfl

/-- The names are listed. -/
lemma list (h : Keeps keeper m s₀ s) (hcaller : keeper.Admits caller) :
    AnsweredFrom keeper m s₀ s caller .list (some (s.list caller)) := by
  obtain ⟨store, names, hlist, hholds, hmem, horder⟩ := h.holds.list hcaller
  refine ⟨s.withStore store, _, m, [], ?_, .list hmem horder, h.of_holds hholds rfl rfl rfl, rfl⟩
  simp only [Service.list, hlist]
  rfl

/-- The table under a name is fetched, if there is one. -/
lemma get (h : Keeps keeper m s₀ s) (hcaller : keeper.Admits caller) (name : Bytes)
    (canonical : Bool) :
    AnsweredFrom keeper m s₀ s caller (.get name canonical)
      (some (s, s.get caller name canonical)) := by
  have hload := h.holds.load hcaller fun t (ht : m name = some t) => h.storable ht
  unfold Service.get
  cases hname : m name with
  | none =>
    rw [hload, hname]
    exact ⟨s, _, m, [], rfl, .getMissing hname, h, rfl⟩
  | some t =>
    rw [hload, hname]
    cases canonical with
    | false => exact ⟨s, some (json 200 t.toJson), m, [], rfl, .getJson hname, h, rfl⟩
    | true =>
      exact ⟨s, some ⟨200, plainText, Canonical.encode t⟩, m, [], rfl, .getCanonical hname, h, rfl⟩

/-- The table under a name is run, if there is one: as the engine has compiled it. -/
lemma runStored (h : Keeps keeper m s₀ s) (hcaller : keeper.Admits caller) (name body : Bytes) :
    AnsweredFrom keeper m s₀ s caller (.run name body) (s.runStored caller name body) := by
  have hload := h.holds.load hcaller fun t (ht : m name = some t) => h.storable ht
  unfold Service.runStored
  cases hbody : order ["source", "inputs"] body with
  | none => exact ⟨s, _, m, [], rfl, .runMalformed hbody, h, rfl⟩
  | some o =>
    rw [hload]
    cases hname : m name with
    | none => exact ⟨s, _, m, [], rfl, .runMissing hbody hname, h, rfl⟩
    | some t =>
      obtain ⟨source, hsource⟩ := h.compiled name t hname
      rw [← h.engine] at hsource
      have hadopt : s.engine.adopt t.thaw = t := Engine.adopt_thaw_of_compile hsource
      obtain ⟨metrics, hrun⟩ := s.exists_runTable_eq caller t o.inputs.items
      have hanswered : Answered s₀.engine caller m (.run name body)
          (ran s.engine caller t o.inputs.items) m [] := by
        rw [h.engine]
        exact .run hbody hname
      simp only [hadopt, hrun]
      cases hran : ran s.engine caller t o.inputs.items with
      | none =>
        rw [hran] at hanswered
        exact ⟨s, none, m, [], rfl, hanswered, h, rfl⟩
      | some response =>
        rw [hran] at hanswered
        exact ⟨{ s with metrics }, some response, m, [], rfl, hanswered,
          h.of_holds h.holds rfl rfl rfl, rfl⟩

/-- A request about tables is answered as the map answers it. -/
theorem handle_table (h : Keeps keeper m s₀ s) (hcaller : keeper.Admits caller) {r : Request}
    {ask : TableAsk} (hask : r.tableAsk? s₀.find = some ask) :
    AnsweredFrom keeper m s₀ s (caller.limited s₀.timeout) ask (s.handle caller r) := by
  have hlimited : keeper.Admits (caller.limited s₀.timeout) := hcaller.limited s₀.timeout
  unfold Request.tableAsk? at hask
  split at hask
  · rename_i name hroute
    cases hask
    rw [h.handle_of_route hroute]
    exact h.putProgram hlimited name r.body
  · rename_i name hroute
    cases hask
    rw [h.handle_of_route hroute]
    exact h.get hlimited name _
  · rename_i name hroute
    cases hask
    rw [h.handle_of_route hroute]
    exact h.delete hlimited name
  · rename_i hroute
    cases hask
    rw [h.handle_of_route hroute]
    exact h.list hlimited
  · rename_i name hroute
    cases hask
    rw [h.handle_of_route hroute]
    exact h.runStored hlimited name r.body
  · cases hask

end Keeps

/-! ## Many requests -/

/-- Deals with a request, which may have no answer. -/
def attend (s : Service σ) (caller : Caller) (r : Request) : Service σ × Option Response :=
  s.settled (s.handle caller r)

/-- Deals with requests one after the other. One that has no answer keeps none of the others
waiting. -/
def attendAll (s : Service σ) : List (Caller × Request) → Service σ × List (Option Response)
  | [] => (s, [])
  | (caller, r) :: rs =>
    let (s', response) := s.attend caller r
    let (s'', responses) := s'.attendAll rs
    (s'', response :: responses)

/-- What a map answers to requests one after the other, what becomes of it, and all that is
announced. The settings are those of a service. -/
inductive AnsweredAll (s₀ : Service σ) : Contents → List (Caller × Request) →
    List (Option Response) → Contents → List (Bytes × TableDiff) → Prop
  | nil (m : Contents) : AnsweredAll s₀ m [] [] m []
  | cons {m m₁ m₂ : Contents} {caller : Caller} {r : Request} {ask : TableAsk}
      {response : Option Response} {news news' : List (Bytes × TableDiff)}
      {rs : List (Caller × Request)} {responses : List (Option Response)}
      (hask : r.tableAsk? s₀.find = some ask)
      (hfirst : Answered s₀.engine (caller.limited s₀.timeout) m ask response m₁ news)
      (hrest : AnsweredAll s₀ m₁ rs responses m₂ news') :
      AnsweredAll s₀ m ((caller, r) :: rs) (response :: responses) m₂ (news ++ news')

/-- News is sent piece by piece, so a list of it can be cut anywhere. -/
lemma sendAll_append (streams : Streams) (news news' : List (Bytes × TableDiff)) :
    sendAll streams (news ++ news') = sendAll (sendAll streams news) news' :=
  List.foldl_append

/-- Requests about tables are answered as the map answers them, one after the other. -/
theorem Keeps.attendAll_tables {keeper : Keeper} {m : Contents} {s₀ s : Service σ}
    (h : Keeps keeper m s₀ s) {rs : List (Caller × Request)}
    (hcallers : ∀ x ∈ rs, keeper.Admits x.1)
    (hrs : ∀ x ∈ rs, (x.2.tableAsk? s₀.find).isSome = true) :
    ∃ s' responses m' news, s.attendAll rs = (s', responses) ∧
      AnsweredAll s₀ m rs responses m' news ∧ Keeps keeper m' s₀ s' ∧
      s'.streams = sendAll s.streams news := by
  induction rs generalizing m s with
  | nil => exact ⟨s, [], m, [], rfl, .nil m, h, rfl⟩
  | cons x rs ih =>
    obtain ⟨caller, r⟩ := x
    obtain ⟨ask, hask⟩ := Option.isSome_iff_exists.mp (hrs _ List.mem_cons_self)
    obtain ⟨s₁, response, m₁, news, hfirst, hanswered, hkeeps, hstreams⟩ :=
      h.handle_table (hcallers _ List.mem_cons_self) hask
    obtain ⟨s₂, responses, m₂, news', hrest, hanswered', hkeeps', hstreams'⟩ :=
      ih hkeeps (fun x hx => hcallers x (List.mem_cons_of_mem _ hx))
        fun x hx => hrs x (List.mem_cons_of_mem _ hx)
    refine ⟨s₂, response :: responses, m₂, news ++ news', ?_, .cons hask hanswered hanswered',
      hkeeps', ?_⟩
    · simp only [attendAll, attend, hfirst, hrest]
    · rw [hstreams', hstreams, sendAll_append]

end

/-- A service that has not been used keeps the empty map. -/
lemma Keeps.of_fresh {keeper : Keeper} {s : Service σ} (h : keeper.Fresh s.backend) :
    Keeps keeper (fun _ => none) s s := by
  refine ⟨h.holds, fun name t ht => ?_, rfl, rfl, rfl⟩
  cases ht

/-- Requests of any number about the tables of a service in memory are answered as a map from names
to compiled programs answers them: what is stored in the end is what the map has come to, and what
was announced in between is what has been sent. A further request changes nothing under another name
than its own. -/
theorem tables_are_map_of_programs (s : Service) (hmemory : s.backend = .memory)
    (rs : List (Caller × Request))
    (hrs : ∀ x ∈ rs, (x.2.tableAsk? s.find).isSome = true) :
    ∃ s' responses m news,
      s.attendAll rs = (s', responses) ∧
      AnsweredAll s (fun _ => none) rs responses m news ∧
      (∀ caller name, s'.current caller name = .ok ((m name).map Table.thaw)) ∧
      s'.streams = sendAll s.streams news ∧
      ∀ caller r ask, r.tableAsk? s.find = some ask →
        ∀ other, ask.name? ≠ some other →
          (s'.attend caller r).1.current .patient other = s'.current .patient other := by
  have hfresh : Keeper.memory.Fresh s.backend := by
    rw [hmemory]
    exact .memory
  obtain ⟨s', responses, m, news, hall, hanswered, hkeeps, hstreams⟩ :=
    (Keeps.of_fresh hfresh).attendAll_tables (fun _ _ => trivial) hrs
  have hcurrent : ∀ {m' : Contents} {s'' : Service}, Keeps .memory m' s s'' → ∀ caller name,
      s''.current caller name = .ok ((m' name).map Table.thaw) :=
    fun hkeeps' caller name =>
      current_of_holds hkeeps'.holds trivial fun t ht => hkeeps'.storable ht
  refine ⟨s', responses, m, news, hall, hanswered, hcurrent hkeeps, hstreams, ?_⟩
  intro caller r ask hask other hother
  have hadmits : Keeper.memory.Admits caller := trivial
  obtain ⟨s'', response, m', news', hattend, hnext, hkeeps', -⟩ :=
    hkeeps.handle_table hadmits hask
  rw [attend, hattend, hcurrent hkeeps', hcurrent hkeeps, hnext.apply_of_ne hother]

/-- A request to put a program that writes a mark for ever. -/
def putBell : Request :=
  ⟨"PUT", "/tables/bell", "\x7b\"source\":\"ring -> write 1\\n\"\x7d"⟩

/-- A program that is put is created, and its table is stored. -/
theorem tables_are_map_of_programs_doorbell :
    ∃ s response, attendAll ({} : Service) [(.patient, putBell)] = (s, [some response]) ∧
      response.status = 201 ∧ s.current .patient "bell" = .ok (some doorbell.thaw) := by
  have hask : putBell.tableAsk? ({} : Service).find = some (.put "bell" putBell.body) := by
    have hroute : putBell.route ({} : Service).find = .ok (.putTable "bell") := by decide +kernel
    rw [Request.tableAsk?, hroute]
  have hsource : (order ["source"] putBell.body).map (·.source) = some "ring -> write 1\n" := by
    decide +kernel
  have hrs : ∀ x ∈ [(Caller.patient, putBell)],
      (x.2.tableAsk? ({} : Service).find).isSome = true := by
    intro x hx
    rw [List.mem_singleton.mp hx, hask]
    rfl
  obtain ⟨s, responses, m, news, hall, hanswered, hcurrent, -⟩ :=
    tables_are_map_of_programs ({} : Service) rfl [(.patient, putBell)] hrs
  cases hanswered with
  | cons hask' hfirst hrest =>
    cases hrest
    cases hask.symm.trans hask'
    obtain ⟨o, ho, hosource⟩ := Option.map_eq_some_iff.mp hsource
    have hcompiles : Engine.compile {} o.source = .ok doorbell := by
      rw [hosource]
      exact compile_doorbell
    obtain ⟨hstatus, rfl⟩ := hfirst.of_compile ho hcompiles
    obtain ⟨response, rfl, hresponse⟩ := Option.map_eq_some_iff.mp hstatus
    have hstored := hcurrent .patient "bell"
    rw [Function.update_self] at hstored
    exact ⟨s, response, hall, hresponse, hstored⟩

/-- A request to put a program in which a no-break space stands between braces. -/
def putBlankCall : Request :=
  ⟨"PUT", "/tables/a", "\x7b\"source\":\"\x7b\u00a0\x7d\"\x7d"⟩

/-- A program with a call that names nothing comes to a bare failure when it is put. -/
lemma handle_of_namelessCall {s : Service σ} {r : Request} {name : Bytes} {o : Order}
    (hroute : r.route s.find = .ok (.putTable name))
    (hbody : order ["source"] r.body = some o)
    (hfault : s.engine.compile o.source = .error .namelessCall) (caller : Caller) :
    s.handle caller r = some (s, { status := 500 }) := by
  rw [handle_of_route hroute]
  simp only [serve, putProgram, hbody, hfault, badProgram, Option.map_some]

/-- A program that does not compile because of a call that names nothing is not told so. -/
theorem put_blank_call_fails :
    (order ["source"] putBlankCall.body).map (·.source) = some "\x7b\u00a0\x7d" ∧
      (¬ ∃ t, Engine.compile {} "\x7b\u00a0\x7d" = .ok t) ∧
      handle ({} : Service) .patient putBlankCall = some ({}, { status := 500 }) ∧
      ∀ s response, handle ({} : Service) .patient putBlankCall = some (s, response) →
        response.status ≠ 422 := by
  have hsource : (order ["source"] putBlankCall.body).map (·.source) = some "\x7b\u00a0\x7d" := by
    decide +kernel
  have hcompile : Engine.compile {} "\x7b\u00a0\x7d" = .error .namelessCall :=
    Program.compile_eq_namelessCall_iff.mpr ⟨['{', '\u00a0', '}'], [], by decide, by decide⟩
  have hroute : putBlankCall.route ({} : Service).find = .ok (.putTable "a") := by decide +kernel
  have hhandle : handle ({} : Service) .patient putBlankCall = some ({}, { status := 500 }) := by
    obtain ⟨o, ho, hosource⟩ := Option.map_eq_some_iff.mp hsource
    rw [← hosource] at hcompile
    exact handle_of_namelessCall hroute ho hcompile .patient
  refine ⟨hsource, by simp [hcompile], hhandle, ?_⟩
  intro s response h
  obtain ⟨-, rfl⟩ := Prod.mk.inj (Option.some.inj (hhandle.symm.trans h))
  decide

end Service

end TapeMachine
