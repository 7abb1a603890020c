import TapeMachine.Program.Compile
import TapeMachine.Run

/-!
# Engines

An engine is a set of options shared by everything it compiles and runs. It turns program text or
a table into a table ready to run, and runs one input or many. Several inputs may be run at once,
but their results come in the order of the inputs, and each is the result of running that input
alone; so many runs are just one run after another.
-/

namespace TapeMachine

/-- The options of an engine. -/
structure Engine where
  /-- The most steps a run may take; zero means no limit. -/
  limit : Nat := 0
  /-- Whether tapes are shown from left to right. -/
  sorted : Bool := false
  /-- The state in which runs start, if it is not empty. -/
  start : String := ""

namespace Engine

/-- Compiles program text. -/
def compile (e : Engine) (source : String) : Except Program.Error Table :=
  Program.compile source e.start

/-- The wording of an error in the program with the given name. -/
def errorIn (name : String) (e : Program.Error) : String :=
  match e with
  | .namelessCall => e.message
  | _ => name ++ ": " ++ e.message

/-- Prepares an existing table, with the engine's start state. -/
def adopt (e : Engine) (t : Table) : Table :=
  (if e.start == "" then t else { t with initial := e.start }).freeze

/-- The options of a run. -/
def options (e : Engine) (interrupt : Option Interrupt) : RunOptions :=
  { limit := e.limit, sorted := e.sorted, interrupt }

/-- The outcome of one run: its result, what interrupted it, and what an observer has seen. -/
structure Outcome (α : Type) where
  result : Result
  cause : Option StopCause
  seen : α

/-- Runs a table on one input, with an observer. A run that never ends has no outcome. -/
def observe {α : Type} (e : Engine) (interrupt : Option Interrupt) (table : Table) (input : String)
    (see : α → StepEvent → α) (seen : α) : Option (Outcome α) :=
  let opts := e.options interrupt
  (observeRun table opts (Tape.ofInput input) see seen).map (fun end_ =>
    { result := end_.result opts input, cause := end_.cause? opts, seen := end_.seen })

/-- Runs a table on one input. -/
def run (e : Engine) (interrupt : Option Interrupt) (table : Table) (input : String) :
    Option (Result × Option StopCause) :=
  (e.observe interrupt table input (fun u _ => u) ()).map (fun o => (o.result, o.cause))

/-- Runs a table on every input. The cause is that of the first run that was interrupted. -/
def runAll (e : Engine) (interrupt : Option Interrupt) (table : Table) (inputs : List String) :
    Option (List Result × Option StopCause) :=
  (inputs.mapM (e.run interrupt table)).map (fun rs => (rs.map (·.1), rs.findSome? (·.2)))

/-- Why handing out results ended early. -/
inductive EachError (ε : Type) where
  | refused (e : ε)
  | interrupted (cause : StopCause)

/-- Hands results to `yield` in order until it refuses one. Handing out never gets past the result
of a run that never ends. -/
def handOut {ε σ : Type} (yield : σ → Nat → Result → σ × Option ε) :
    σ → Nat → List (Option Result) → Option (σ × Option ε)
  | s, _, [] => some (s, none)
  | _, _, none :: _ => none
  | s, i, some r :: rs =>
    match yield s i r with
    | (s', none) => handOut yield s' (i + 1) rs
    | (s', some e) => some (s', some e)

/-- Runs a table on every input and hands each result to `yield`, in the order of the inputs. If
`yield` refuses one, that ends the work; otherwise the error is the first interruption. -/
def runEach {ε σ : Type} (e : Engine) (interrupt : Option Interrupt) (table : Table)
    (inputs : List String) (yield : σ → Nat → Result → σ × Option ε) (s : σ) :
    Option (σ × Option (EachError ε)) :=
  let runs := inputs.map (e.run interrupt table)
  (handOut yield s 0 (runs.map (·.map (·.1)))).map (fun
    | (s', some err) => (s', some (.refused err))
    | (s', none) => (s', (runs.findSome? (·.bind (·.2))).map .interrupted))

end Engine

/-! ### Result lines -/

/-- The line for a result: the argument as it was given, the final tape and the final state. -/
def Result.line (r : Result) (arg : String) : String :=
  arg ++ " -> " ++ r.tape ++ ": " ++ r.state

/-- Runs a table on every argument, where the arguments for the empty tape stand for it, and gives
the results with one line each. -/
def Engine.report (e : Engine) (interrupt : Option Interrupt) (table : Table) (args : List String) :
    Option (List (String × Result) × Option StopCause) :=
  (e.runAll interrupt table (args.map normalizeInput)).map (fun (results, cause) =>
    (args.zip results, cause))

/-- How the line for a result is written, given the argument. -/
abbrev Renderer := String → Result → String

/-- Lines without styles. -/
def plainRenderer : Renderer := fun arg r => r.line arg

/-- The lines of a report, each with its newline. -/
def reportLines (rs : List (String × Result)) (render : Renderer := plainRenderer) : String :=
  String.join (rs.map (fun r => render r.1 r.2 ++ "\n"))

/-- What is said when there is nowhere to print result lines. -/
def noOutputMessage : String := "output writer must be set (use os.Stdout)"

/-- Runs a table on every argument and prints the lines of the report, if there is somewhere to
print them. -/
def Engine.print (e : Engine) (hasOutput : Bool) (interrupt : Option Interrupt) (table : Table)
    (args : List String) :
    Option (Except String (String × List (String × Result) × Option StopCause)) :=
  if hasOutput then
    (e.report interrupt table args).map (fun (rs, cause) => .ok (reportLines rs, rs, cause))
  else some (.error noOutputMessage)

end TapeMachine
