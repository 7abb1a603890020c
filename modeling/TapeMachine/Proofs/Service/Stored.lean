import TapeMachine.Proofs.Run.CutShort
import TapeMachine.Proofs.Service.Tables
import TapeMachine.Proofs.Text.Bytes

/-!
# Programs that are stored

Storing a program does not change what it computes. A service keeps the tables of a map whatever it
is asked for and by whomever (`Keeps.attendAll`), and a name keeps its table as long as no request
puts or deletes it. So a program that was put under a name, at any time and wherever the tables are
kept, is there as the engine has compiled it, and running it from there answers just as running it
directly does (`stored_program_runs_alike`).
-/

namespace TapeMachine

namespace Engine

variable {e : Engine} (hlimit : 0 < e.limit) (interrupt : Option Interrupt) (t : Table)
include hlimit

/-- A run that has a limit ends, and by itself if nobody interrupts it. -/
lemma exists_run_of_limit (input : String) :
    ∃ r cause, e.run interrupt t input = some (r, cause) ∧ (interrupt = none → cause = none) := by
  obtain ⟨n, -, q, reason, label, hstops⟩ : ∃ n ≤ e.limit, ∃ q reason label,
      StopsAt t (e.options interrupt) ⟨t.initial, .ofInput input, 0⟩ n q reason label :=
    exists_stopsAt_of_limit (e.options interrupt) hlimit rfl
  have htrace : traceRun t (e.options interrupt) (.ofInput input) =
      some ⟨q, reason, label, Snapshot.trace t n _⟩ :=
    traceRun_eq_some_iff.mpr ⟨n, hstops, rfl⟩
  refine ⟨_, _, by rw [run_eq, htrace, Option.map_some], ?_⟩
  rintro rfl
  rw [Ending.cause?]
  split <;> rfl

/-- So do all runs. -/
lemma exists_runAll_of_limit (inputs : List String) :
    ∃ rs cause, e.runAll interrupt t inputs = some (rs, cause) ∧
      (interrupt = none → cause = none) := by
  induction inputs with
  | nil => exact ⟨[], none, rfl, fun _ => rfl⟩
  | cons input inputs ih =>
    obtain ⟨r, cause, hrun, hcause⟩ := exists_run_of_limit hlimit interrupt t input
    obtain ⟨rs, cause', hruns, hcause'⟩ := ih
    refine ⟨r :: rs, cause.or cause', by rw [runAll_cons, hrun, hruns]; rfl, fun hnone => ?_⟩
    rw [hcause hnone, hcause' hnone]
    rfl

end Engine

namespace Service

variable {σ : Type} [Redis.KeyServer σ]

/-- Runs that have a limit have an answer, and are reported if nobody interrupts them. -/
lemma exists_ran_of_limit {engine : Engine} (hlimit : 0 < engine.limit) (caller : Caller)
    (t : Table) (args : List String) :
    ∃ response, ran engine caller t args = some response ∧
      (caller.interrupt? = none → response.status = 200) := by
  obtain ⟨rs, cause, hruns, hcause⟩ :=
    Engine.exists_runAll_of_limit hlimit caller.interrupt? t (args.map normalizeInput)
  refine ⟨_, by rw [ran, Engine.report, hruns]; rfl, fun hnone => ?_⟩
  rw [hcause hnone]
  rfl

/-! ## Whatever is asked for -/

/-- When a request has been dealt with, a service keeps a map in which the names that are spared
have the tables they had. -/
def Sparing (keeper : Keeper) (m : Contents) (s₀ s : Service σ) (spared : Bytes → Prop)
    (result : Option (Service σ × Response)) : Prop :=
  ∃ m', Keeps keeper m' s₀ (s.settled result).1 ∧ ∀ name, spared name → m' name = m name

section Sparing

variable {keeper : Keeper} {m : Contents} {s₀ s : Service σ} {spared : Bytes → Prop}

/-- An answer that changes nothing spares all names, and so does no answer at all. -/
lemma Keeps.sparing_map (h : Keeps keeper m s₀ s) (response : Option Response) :
    Sparing keeper m s₀ s spared (response.map fun r => (s, r)) := by
  refine ⟨m, ?_, fun _ _ => rfl⟩
  cases response <;> exact h

/-- An answer after which the map is still kept spares all names. -/
lemma Keeps.sparing {s' : Service σ} (h : Keeps keeper m s₀ s') (response : Response) :
    Sparing keeper m s₀ s spared (some (s', response)) :=
  ⟨m, h, fun _ _ => rfl⟩

/-- An answer about one name spares the others. -/
lemma AnsweredFrom.sparing {caller : Caller} {ask : TableAsk}
    {result : Option (Service σ × Response)} (h : AnsweredFrom keeper m s₀ s caller ask result)
    (hspared : ∀ name, spared name → ask.name? ≠ some name) :
    Sparing keeper m s₀ s spared result := by
  obtain ⟨s', response, m', news, hresult, hanswered, hkeeps, -⟩ := h
  refine ⟨m', ?_, fun name hname => hanswered.apply_of_ne (hspared name hname)⟩
  rwa [hresult]

end Sparing

namespace Keeps

variable {keeper : Keeper} {m : Contents} {s₀ s : Service σ} {caller : Caller}

/-- Running a table spares all names. -/
lemma sparing_runTable (h : Keeps keeper m s₀ s) (caller : Caller) (t : Table)
    (args : List String) {spared : Bytes → Prop} :
    Sparing keeper m s₀ s spared (s.runTable caller t args) := by
  obtain ⟨metrics, hrun⟩ := s.exists_runTable_eq caller t args
  have hkeeps : Keeps keeper m s₀ { s with metrics } := h.of_holds h.holds rfl rfl rfl
  rw [hrun]
  cases ran s.engine caller t args with
  | none => exact h.sparing_map none
  | some response => exact hkeeps.sparing response

/-- Running a program that is handed in, or failing to, spares all names. -/
lemma sparing_run (h : Keeps keeper m s₀ s) (caller : Caller) (body : Bytes)
    {spared : Bytes → Prop} : Sparing keeper m s₀ s spared (s.run caller body) := by
  unfold Service.run
  split
  · exact h.sparing _
  · split
    · exact h.sparing_map _
    · exact h.sparing_runTable caller _ _

/-- Running a table that is stored, or failing to, spares all names. -/
lemma sparing_runStored (h : Keeps keeper m s₀ s) (caller : Caller) (name body : Bytes)
    {spared : Bytes → Prop} : Sparing keeper m s₀ s spared (s.runStored caller name body) := by
  unfold Service.runStored
  split
  · exact h.sparing _
  · split
    · exact h.sparing _
    · exact h.sparing_runTable caller _ _

variable [Redis.LawfulKeyServer σ]

/-- A caller who is not served gets no lock and changes nothing. -/
lemma underLock_of_not_admits (h : Keeps keeper m s₀ s) (hcaller : ¬ keeper.Admits caller)
    (name : Bytes) (act : Service σ → Service σ × Response) :
    ∃ response, s.underLock caller name act = some (s, response) := by
  obtain ⟨e, he⟩ := h.holds.lock_of_not_admits hcaller name lockLife
  exact ⟨failure 503 e.message, by rw [underLock, he]⟩

/-- Putting a program, or failing to, spares all other names. -/
lemma sparing_putProgram (h : Keeps keeper m s₀ s) (caller : Caller) (name body : Bytes) :
    Sparing keeper m s₀ s (· ≠ name) (s.putProgram caller name body) := by
  by_cases hcaller : keeper.Admits caller
  · exact (h.putProgram hcaller name body).sparing
      fun other hother heq => hother (Option.some_inj.mp heq).symm
  · unfold Service.putProgram
    split
    · exact h.sparing _
    · split
      · exact h.sparing_map _
      · obtain ⟨response, hs⟩ := h.underLock_of_not_admits hcaller name _
        rw [hs]
        exact h.sparing response

/-- Deleting a table, or failing to, spares all other names. -/
lemma sparing_delete (h : Keeps keeper m s₀ s) (caller : Caller) (name : Bytes) :
    Sparing keeper m s₀ s (· ≠ name) (s.underLock caller name fun s => s.delete caller name) := by
  by_cases hcaller : keeper.Admits caller
  · exact (h.delete hcaller name).sparing
      fun other hother heq => hother (Option.some_inj.mp heq).symm
  · obtain ⟨response, hs⟩ := h.underLock_of_not_admits hcaller name fun s => s.delete caller name
    rw [hs]
    exact h.sparing response

/-- Listing the names, or failing to, spares all of them. -/
lemma sparing_list (h : Keeps keeper m s₀ s) (caller : Caller) {spared : Bytes → Prop} :
    Sparing keeper m s₀ s spared (some (s.list caller)) := by
  by_cases hcaller : keeper.Admits caller
  · exact (h.list hcaller).sparing fun _ _ heq => by cases heq
  · obtain ⟨e, hlist⟩ := h.holds.list_of_not_admits hcaller
    have hs : s.list caller = (s, failure 500 e.message) := by
      simp only [Service.list, hlist]
      rfl
    rw [hs]
    exact h.sparing _

/-- Whatever route is asked for and by whomever, all names are spared but one that is put or
deleted. -/
theorem serve (h : Keeps keeper m s₀ s) (caller : Caller) (r : Request) (route : Route) :
    Sparing keeper m s₀ s (fun name => route ≠ .putTable name ∧ route ≠ .deleteTable name)
      (s.serve caller r route) := by
  cases route with
  | health | info | metrics => exact h.sparing _
  | compile => exact h.sparing_map _
  | run => exact h.sparing_run caller r.body
  | listTables => exact h.sparing_list caller
  | putTable name =>
    obtain ⟨m', hkeeps, hspares⟩ := h.sparing_putProgram caller name r.body
    refine ⟨m', hkeeps, fun other hother => hspares other ?_⟩
    exact fun heq => hother.1 (congrArg Route.putTable heq.symm)
  | getTable name => exact h.sparing _
  | deleteTable name =>
    obtain ⟨m', hkeeps, hspares⟩ := h.sparing_delete caller name
    refine ⟨m', hkeeps, fun other hother => hspares other ?_⟩
    exact fun heq => hother.2 (congrArg Route.deleteTable heq.symm)
  | runTable name => exact h.sparing_runStored caller name r.body
  | events name =>
    have hkeeps : Keeps keeper m s₀ { s with streams := (s.streams.subscribe name).1 } :=
      h.of_holds h.holds rfl rfl rfl
    exact hkeeps.sparing _

end Keeps

/-- A request neither puts nor deletes the table under a name. -/
def Request.Spares (find : String → Bytes → Except RouteError Route) (name : Bytes)
    (r : Request) : Prop :=
  r.route find ≠ .ok (.putTable name) ∧ r.route find ≠ .ok (.deleteTable name)

namespace Keeps

variable [Redis.LawfulKeyServer σ] {keeper : Keeper} {m : Contents} {s₀ s : Service σ}

/-- Every request spares all names that it neither puts nor deletes. -/
theorem handle (h : Keeps keeper m s₀ s) (caller : Caller) (r : Request) :
    Sparing keeper m s₀ s (r.Spares s₀.find) (s.handle caller r) := by
  unfold Service.handle
  split
  · exact h.sparing _
  · split
    · exact h.sparing _
    · rename_i route hroute
      rw [h.find] at hroute
      obtain ⟨m', hkeeps, hspares⟩ := h.serve (caller.limited s.timeout) r route
      refine ⟨m', hkeeps, fun name hname => hspares name ⟨?_, ?_⟩⟩
      · exact fun heq => hname.1 (heq ▸ hroute)
      · exact fun heq => hname.2 (heq ▸ hroute)

/-- When requests have been dealt with, one after the other, a name that they all spare has the
table it had. -/
theorem attendAll (h : Keeps keeper m s₀ s) (rs : List (Caller × Request)) :
    ∃ m', Keeps keeper m' s₀ (s.attendAll rs).1 ∧
      ∀ name, (∀ x ∈ rs, x.2.Spares s₀.find name) → m' name = m name := by
  induction rs generalizing m s with
  | nil => exact ⟨m, h, fun _ _ => rfl⟩
  | cons x rs ih =>
    obtain ⟨caller, r⟩ := x
    obtain ⟨m₁, hkeeps, hspares⟩ := h.handle caller r
    obtain ⟨m₂, hkeeps', hspares'⟩ := ih hkeeps
    refine ⟨m₂, hkeeps', fun name hname => ?_⟩
    rw [hspares' name fun x hx => hname x (List.mem_cons_of_mem _ hx),
      hspares name (hname _ List.mem_cons_self)]

end Keeps

/-! ## Orders as they are handed in -/

open Text Text.Json

/-- The body in which a program and inputs are handed in. -/
def orderBody (source : String) (inputs : List String) : Bytes :=
  (Json.object [("source", .string source), ("inputs", .strings inputs)]).render

/-- Such a body is read as it was written. -/
lemma parseFirst?_orderBody (source : String) (inputs : List String) :
    parseFirst? (shown (orderBody source inputs)) =
      some (.object [("source", .string source), ("inputs", .strings inputs)]) := by
  have hitems : ∀ v ∈ inputs.map Json.string, Readable true 1 9998 v := by
    intro v hv
    obtain ⟨input, -, rfl⟩ := List.mem_map.mp hv
    exact readable_string true 9998 input
  have harray : Readable true (inputs.length + 2) 9999 (.strings inputs) := by
    refine (Readable.array hitems).mono ?_
    rw [List.length_map]
    omega
  have hobject : Readable true (inputs.length + 5) maxDepth
      (.object [("source", .string source), ("inputs", .strings inputs)]) := by
    refine (Readable.object (inputs.length + 2) (List.cons_ne_nil _ _) ?_).mono (by simp)
    intro m hm
    simp only [List.mem_cons, List.not_mem_nil, or_false] at hm
    rcases hm with rfl | rfl
    · exact (readable_string true 9999 source).mono (by omega)
    · exact harray
  rw [orderBody, Text.shown_bytes]
  refine parseFirst?_render hobject ?_
  have hlength : inputs.length ≤ (writeItems true (inputs.map Json.string)).length := by
    rw [← List.length_map (f := Json.string)]
    refine length_le_length_writeItems ?_
    intro v hv
    obtain ⟨c, cs, hwrite, -⟩ := (hitems v hv).opens
    rw [hwrite]
    exact List.cons_ne_nil c cs
  have hname : (writeString true "source".toList).length = 8 := by decide
  rw [write, writeMembers, writeMembers, Json.strings, write, write]
  simp only [List.length_append, List.length_cons, hname]
  omega

/-- The inputs are read along with the program where both are asked for. -/
lemma order_orderBody (source : String) (inputs : List String) :
    ∃ o, order ["source", "inputs"] (orderBody source inputs) = some o ∧ o.source = source ∧
      o.inputs.items = inputs := by
  have hstring : ∀ old a, stringOver old (.string a) = some a := fun _ _ => rfl
  obtain ⟨slots, hslots, hitems⟩ := items_of_slotsOver hstring "" inputs
  have hother : namesField "source" "inputs" = false := by decide
  refine ⟨{ source, inputs := slots }, ?_, rfl, hitems⟩
  simp [order, parseFirst?_orderBody, Order.ofJson?, recordOver, Order.member, namesField_self,
    hother, stringOver, Json.strings, hslots]

/-- Only the program is read where inputs are not asked for. -/
lemma order_source_orderBody (source : String) (inputs : List String) :
    ∃ o, order ["source"] (orderBody source inputs) = some o ∧ o.source = source := by
  have hother : namesField "source" "inputs" = false := by decide
  refine ⟨{ source }, ?_, rfl⟩
  simp [order, parseFirst?_orderBody, Order.ofJson?, recordOver, Order.member, namesField_self,
    hother, stringOver]

/-! ## Stored programs -/

/-- Three requests: to put a program under a name, to run on some inputs what is stored under the
name, and to run the program on these inputs. -/
structure Trial (find : String → Bytes → Except RouteError Route) (name : Bytes)
    (source : String) (inputs : List String) where
  put : Request
  stored : Request
  direct : Request
  put_route : put.route find = .ok (.putTable name)
  put_body : ∃ o, order ["source"] put.body = some o ∧ o.source = source
  stored_route : stored.route find = .ok (.runTable name)
  stored_body : ∃ o, order ["source", "inputs"] stored.body = some o ∧ o.inputs.items = inputs
  direct_route : direct.route find = .ok .run
  direct_body : ∃ o, order ["source", "inputs"] direct.body = some o ∧ o.source = source ∧
    o.inputs.items = inputs

namespace Trial

variable {keeper : Keeper} {m : Contents} {s₀ s : Service σ} {caller : Caller} {name : Bytes}
  {source : String} {inputs : List String}

/-- The program is run. -/
lemma attend_direct (trial : Trial s₀.find name source inputs) (h : Keeps keeper m s₀ s)
    {t : Table} (hcompiles : s₀.engine.compile source = .ok t) (caller : Caller) :
    (s.attend caller trial.direct).2 = ran s₀.engine (caller.limited s₀.timeout) t inputs := by
  obtain ⟨o, ho, hsource, hinputs⟩ := trial.direct_body
  obtain ⟨metrics, hrun⟩ := s.exists_runTable_eq (caller.limited s₀.timeout) t inputs
  have hhandle : s.handle caller trial.direct =
      (ran s₀.engine (caller.limited s₀.timeout) t inputs).map
        fun response => ({ s with metrics }, response) := by
    rw [h.handle_of_route trial.direct_route, ← h.engine, ← hrun]
    simp only [serve, Service.run, ho, hsource, h.engine, hcompiles, hinputs]
  rw [attend, hhandle]
  cases ran s₀.engine (caller.limited s₀.timeout) t inputs <;> rfl

variable [Redis.LawfulKeyServer σ]

/-- A program that compiles is put. -/
lemma attend_put (trial : Trial s₀.find name source inputs) (h : Keeps keeper m s₀ s)
    (hcaller : keeper.Admits caller) {t : Table} (hcompiles : s₀.engine.compile source = .ok t) :
    ∃ s' answer, s.attend caller trial.put = (s', some answer) ∧
      (answer.status = 200 ∨ answer.status = 201) ∧
      Keeps keeper (Function.update m name (some t)) s₀ s' := by
  obtain ⟨o, ho, hsource⟩ := trial.put_body
  have hask : trial.put.tableAsk? s₀.find = some (.put name trial.put.body) := by
    rw [Request.tableAsk?, trial.put_route]
  obtain ⟨s', answer?, m', news, hs', hanswered, hkeeps, -⟩ := h.handle_table hcaller hask
  rw [← hsource] at hcompiles
  obtain ⟨hstatus, rfl⟩ := hanswered.of_compile ho hcompiles
  obtain ⟨answer, rfl, hanswer⟩ := Option.map_eq_some_iff.mp hstatus
  refine ⟨s', answer, hs', ?_, hkeeps⟩
  rw [hanswer]
  cases (m name).isNone with
  | true => exact Or.inr rfl
  | false => exact Or.inl rfl

/-- The table under the name is run. -/
lemma attend_stored (trial : Trial s₀.find name source inputs) (h : Keeps keeper m s₀ s)
    (hcaller : keeper.Admits caller) {t : Table} (ht : m name = some t) :
    (s.attend caller trial.stored).2 =
      ran s₀.engine (caller.limited s₀.timeout) t inputs := by
  obtain ⟨o, ho, hinputs⟩ := trial.stored_body
  have hask : trial.stored.tableAsk? s₀.find = some (.run name trial.stored.body) := by
    rw [Request.tableAsk?, trial.stored_route]
  obtain ⟨s', answer, m', news, hs', hanswered, -⟩ := h.handle_table hcaller hask
  rw [attend, hs']
  cases hanswered with
  | runMalformed hbody => cases ho.symm.trans hbody
  | runMissing hbody hmissing => cases ht.symm.trans hmissing
  | run hbody hfound =>
    cases ho.symm.trans hbody
    cases ht.symm.trans hfound
    rw [hinputs]

end Trial

/-- A program that compiles computes the same when it is stored as when it is handed in, wherever
tables are kept for ever: whatever the service has been asked before, the program can be put, and
whatever else it is asked after that, the stored program answers like the program. With a limit on
its steps it does answer, and to a caller who waits with results. -/
theorem stored_program_runs_alike [Redis.LawfulKeyServer σ] {keeper : Keeper} {s₀ : Service σ}
    (hfresh : keeper.Fresh s₀.backend) {name : Bytes} {source : String} {inputs : List String}
    {t : Table}
    (hcompiles : s₀.engine.compile source = .ok t)
    (trial : Trial s₀.find name source inputs) {putter runner : Caller}
    (hputter : keeper.Admits putter) (hrunner : keeper.Admits runner)
    (before later : List (Caller × Request))
    (hlater : ∀ x ∈ later, x.2.Spares s₀.find name) :
    ∃ s₁ s₂ s₃ answer, (s₀.attendAll before).1 = s₁ ∧
      s₁.attend putter trial.put = (s₂, some answer) ∧
      (answer.status = 200 ∨ answer.status = 201) ∧
      (s₂.attendAll later).1 = s₃ ∧
      (s₃.attend runner trial.stored).2 = (s₃.attend runner trial.direct).2 ∧
      (0 < s₀.engine.limit → ∃ response, (s₃.attend runner trial.stored).2 = some response ∧
        (runner = .patient → s₀.timeout = 0 → response.status = 200)) := by
  obtain ⟨m₁, hkeeps₁, -⟩ := (Keeps.of_fresh hfresh).attendAll before
  obtain ⟨s₂, answer, hput, hstatus, hkeeps₂⟩ := trial.attend_put hkeeps₁ hputter hcompiles
  obtain ⟨m₃, hkeeps₃, hspared⟩ := hkeeps₂.attendAll later
  have hname : m₃ name = some t := by
    rw [hspared name hlater, Function.update_self]
  have hstored := trial.attend_stored hkeeps₃ hrunner hname
  have hdirect := trial.attend_direct hkeeps₃ hcompiles runner
  refine ⟨_, s₂, _, answer, rfl, hput, hstatus, rfl, hstored.trans hdirect.symm, ?_⟩
  intro hlimit
  obtain ⟨response, hresponse, hreported⟩ :=
    exists_ran_of_limit hlimit (runner.limited s₀.timeout) t inputs
  refine ⟨response, hstored.trans hresponse, fun hpatient htimeout => hreported ?_⟩
  rw [hpatient, htimeout]
  rfl

/-- What a request is for does not depend on its body. -/
lemma Request.route_withBody {find : String → Bytes → Except RouteError Route}
    {method : String} {target : Bytes} {route : Route}
    (h : (⟨method, target, []⟩ : Request).route find = .ok route) (body : Bytes) :
    (⟨method, target, body⟩ : Request).route find = .ok route :=
  h

/-- Requests for any program and any inputs, about the name of a bell. -/
def bellTrial (source : String) (inputs : List String) :
    Trial ({} : Service).find "bell" source inputs where
  put := ⟨"PUT", "/tables/bell", orderBody source inputs⟩
  stored := ⟨"POST", "/tables/bell/run", orderBody source inputs⟩
  direct := ⟨"POST", "/run", orderBody source inputs⟩
  put_route := by
    refine Request.route_withBody ?_ _
    decide +kernel
  put_body := by
    dsimp only
    exact order_source_orderBody source inputs
  stored_route := by
    refine Request.route_withBody ?_ _
    decide +kernel
  stored_body := by
    obtain ⟨o, ho, -, hinputs⟩ := order_orderBody source inputs
    dsimp only
    exact ⟨o, ho, hinputs⟩
  direct_route := by
    refine Request.route_withBody ?_ _
    decide +kernel
  direct_body := by
    dsimp only
    exact order_orderBody source inputs

/-- On a key server, a program that would run for ever is stored and cut short. -/
theorem stored_program_runs_alike_doorbell :
    let s₀ : Service := { engine := { limit := 3 }, backend := { store := .redis {} {} } }
    let trial := bellTrial "ring -> write 1\n" ["0", "epsilon"]
    ∃ s answer response, s₀.attend .patient trial.put = (s, some answer) ∧
      (s.attend .patient trial.stored).2 = some response ∧
      (s.attend .patient trial.direct).2 = some response ∧ response.status = 200 := by
  intro s₀ trial
  have hfresh : (Keeper.server {}).Fresh s₀.backend :=
    .server rfl ⟨rfl, fun _ => rfl, rfl⟩ fun _ => rfl
  have hadmits : (Keeper.server {}).Admits .patient := rfl
  have hcompiles : s₀.engine.compile "ring -> write 1\n" = .ok doorbell := compile_doorbell
  obtain ⟨s₁, s₂, s₃, answer, hbefore, hput, -, hlater, halike, hanswers⟩ :=
    stored_program_runs_alike hfresh hcompiles trial hadmits hadmits [] [] fun x hx => by cases hx
  obtain ⟨response, hresponse, hstatus⟩ := hanswers (by decide)
  cases hbefore
  cases hlater
  exact ⟨s₂, answer, response, hput, hresponse, halike ▸ hresponse, hstatus rfl rfl⟩

end Service

end TapeMachine
