import TapeMachine.Command.Session
import TapeMachine.Report.Styled

/-!
# Running a program

Running compiles the program, writes its table in canonical form, and prints a line for each input.
Watching does so again whenever the program changes; a run that is still going on then is broken
off, and the lines it had held back are printed first.
-/

namespace TapeMachine.Command

/-- What is to be run. -/
structure RunOrder where
  program : String
  inputs : List String := []
  /-- The file the table is written to; an empty name means none. -/
  output : String := ""
  engine : Engine := {}
  /-- How many nanoseconds the inputs may take; zero means no limit. -/
  timeout : Int := 0
  /-- Whether the lines are coloured. -/
  colors : Bool := false

/-- The lines of some results. -/
def RunOrder.lines (order : RunOrder) (results : List (String × Result)) : String :=
  reportLines results (Styled.renderer order.colors)

/-- What the inputs came to, and what broke them off. -/
structure Ran where
  results : List (String × Result)
  cause : Option StopCause

/-- Runs a table on an argument and logs every step. -/
def runLogged (order : RunOrder) (interrupt : Option Interrupt) (t : Table) (arg : String) :
    Act (String × Result × Option StopCause) := do
  let s ← get
  let o ← orNever
    (order.engine.observe interrupt t (normalizeInput arg) (fun es e => e :: es) [])
  note (Log.runRecords s.runId o.seen.reverse o.result)
  pure (arg, o.result, o.cause)

/-- Runs a table on every argument. -/
def runInputs (order : RunOrder) (interrupt : Option Interrupt) (t : Table) : Act Ran := do
  if (← get).journal.detailed then
    let rs ← order.inputs.mapM (runLogged order interrupt t)
    pure ⟨rs.map (fun r => (r.1, r.2.1)), rs.findSome? (fun r => r.2.2)⟩
  else
    let (results, cause) ← orNever (order.engine.report interrupt t order.inputs)
    pure ⟨results, cause⟩

/-- Compiles the program, writes its table and runs it. -/
def runOnce (order : RunOrder) (interrupt : Option Interrupt) : Act Ran := do
  let t ← compileFile order.engine order.program
  if order.output != "" then
    let s ← get
    setFiles (← orFail (.files (some ("failed to write " ++ order.output)))
      (s.files.write order.output (Canonical.encode t)))
  runInputs order interrupt t

/-- Runs a program for a caller. It is no error if the caller has gone. -/
def execute (caller : Caller) (order : RunOrder) : Act Unit := do
  let ran ← runOnce order (caller.limited order.timeout.toNat).interrupt?
  say (order.lines ran.results)
  if ran.cause = some .deadline then throw (.timedOut order.timeout)

/-! ### Watching -/

/-- A program that is watched. -/
structure Watch where
  order : RunOrder
  /-- The results that are held back as long as a run goes on; there are none once it has ended. -/
  held : List (String × Result) := []

namespace Watch

/-- A message about the watching itself. -/
def notice (text : String) : Act Unit := say (">>> " ++ text ++ "\n")

/-- How many steps a run is followed before it counts as going on. -/
def horizon : Nat := Caller.stepsIn 200000000

/-- What ends a run: its time, if that is limited, and else the next change. -/
def interrupt (order : RunOrder) : Interrupt :=
  if 0 < order.timeout then ⟨Caller.stepsIn order.timeout.toNat, .deadline⟩
  else ⟨horizon, .cancelled⟩

/-- Runs the program once and gives the results that are held back. -/
def attempt (order : RunOrder) : Act (List (String × Result)) := do
  let ran ← runOnce order (some (interrupt order))
  match ran.cause with
  | some .cancelled =>
    let finished (r : String × Result) := r.2.reason != .interrupted
    say (order.lines (ran.results.takeWhile finished))
    pure (ran.results.dropWhile finished)
  | some .deadline =>
    say (order.lines ran.results)
    throw (.timedOut order.timeout)
  | none =>
    say (order.lines ran.results)
    pure []

/-- Reports a run that failed. What ends the program at once, or keeps it for ever, is no such
run. -/
def complain (e : Error) : Act (List (String × Result)) := do
  if e.isCrash || e.isEndless then throw e
  note [{ level := .error, message := "Run failed", attrs := [("err", .text e.message)] }]
  notice ("Error: " ++ e.message)
  pure []

/-- Runs the program, and waits if the run has come to its end. -/
def round (order : RunOrder) : Act Watch := do
  let held ← tryCatch (attempt order) complain
  if held.isEmpty then notice "Waiting for changes..."
  pure { order, held }

/-- The folder that is watched, as a path from the root. -/
def folder (fs : Files) (program : String) : String :=
  Files.folderName (fs.absolute program)

/-- Starts to watch a program. Its folder has to exist, but not the program. -/
def start (order : RunOrder) : Act Watch := do
  let fs := (← get).files
  let dir := folder fs order.program
  match fs.place dir with
  | .error f => throw (.unwatchable dir f)
  | .ok p =>
    if (fs.entryAt p).isNone then throw (.unwatchable dir .notExist)
    inform "Starting watcher" [("path", .text order.program)]
    notice ("Watching '" ++ order.program ++ "'.")
    round order

/-- Goes on when the program has changed. -/
def changed (w : Watch) : Act Watch := do
  say (w.order.lines w.held)
  notice ("Change detected in '" ++ w.order.program ++ "'.")
  inform "Watcher restarting"
  round w.order

/-- Ends the watching. -/
def stop (w : Watch) : Act Unit := say (w.order.lines w.held)

end Watch

end TapeMachine.Command
