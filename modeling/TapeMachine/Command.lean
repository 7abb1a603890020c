import TapeMachine.Command.Execute
import TapeMachine.Report.Diagram
import TapeMachine.Report.Lint
import TapeMachine.Report.Outline
import TapeMachine.Service
import TapeMachine.Tools
import TapeMachine.Version

/-!
# The command line

What each verb does. Most commands have then done their work; some go on with a task until they are
told to stop: they watch a program, or answer requests.
-/

namespace TapeMachine.Command

/-- What a command goes on with. -/
inductive Task where
  | watch (w : Watch)
  /-- Answers requests at an address. -/
  | serve (address : String) (service : Service)
  /-- Answers messages, each on a line of the standard input. -/
  | answer (tools : Tools)
  /-- Answers messages at an address. -/
  | answerAt (address : String) (tools : Tools)

/-- The steps a run for others may take if nothing else is said. -/
def guestSteps : Nat := 1000000

/-- The limit for runs for others. -/
def guestLimit (c : Config) : Nat :=
  if c.maxSteps = 0 then guestSteps else c.maxSteps.toNat

/-- The path of the program, which an argument may name. -/
def programPath (c : Config) (arg : Option String) : String := arg.getD c.program

/-- A table in canonical form, perhaps with its start state before it. -/
def canonicalText (header : Bool) (t : Table) : String :=
  (if header then Canonical.header t else "") ++ Canonical.encode t

/-! ### Programs -/

/-- What a line asks to be run. -/
def runOrder (s : Shell) (g : Given) (c : Config) : RunOrder :=
  { program := c.program
    inputs := if g.args.isEmpty then c.inputs else g.args
    output := if c.output == "-" then "" else c.output
    engine := { limit := c.maxSteps.toNat, sorted := c.sortedTape, start := c.start }
    timeout := c.timeout
    colors := s.colors g }

/-- Runs a program, or watches it. -/
def run (g : Given) : Act (Option Task) := do
  let c ← setUp g
  let order := runOrder (← get).toShell g c
  if g.isOn "watch" then
    pure (some (.watch (← Watch.start order)))
  else
    execute .patient order
    pure none

/-- Compiles a program and prints its table or writes it to a file. -/
def compile (g : Given) : Act Unit := do
  let c ← setUp g
  let t ← compileFile { start := c.start } (programPath c g.args.head?)
  let text := canonicalText (g.isOn "header") t
  match (g.text? "output").getD "" with
  | "" => say text
  | path =>
    let fs ← orFail (.files none) ((← get).files.create path)
    setFiles fs
    if text != "" then
      setFiles (← orFail (.files (some ("failed to write " ++ path))) (fs.append path text))

/-- What is laid over a diagram for a run, when the run has taken one more step. -/
def extendOverlay (o : Diagram.Overlay) (e : StepEvent) : Diagram.Overlay :=
  let visit (vs : List String) (s : String) := if vs.contains s then vs else vs ++ [s]
  { visited := visit (visit o.visited e.transition.state) e.transition.next
    final := e.transition.next }

/-- The steps a run for a diagram may take if nothing else is said. -/
def traceSteps : Int := 1000000

/-- Prints the diagram of a program, perhaps with a run laid over it. -/
def graph (g : Given) : Act Unit := do
  let c ← setUp g
  let limit := if c.maxSteps = 0 then (g.integer? "max-steps").getD traceSteps else c.maxSteps
  let engine : Engine := { limit := limit.toNat, start := c.start }
  let t ← compileFile engine (programPath c g.args.head?)
  match g.text? "trace" with
  | none => say (Diagram.render t)
  | some input =>
    let start : Diagram.Overlay := { visited := [t.initial], final := t.initial }
    let o ← orNever (engine.observe none t (normalizeInput input) extendOverlay start)
    note [Log.haltedRecord (← get).runId o.result]
    say (Diagram.render t (some o.seen))

/-- Looks for mistakes in the table of a program. -/
def validate (g : Given) : Act Unit := do
  let c ← setUp g
  let t ← compileFile { start := c.start } (programPath c g.args.head?)
  match Lint.report t with
  | some report => throw (.findings report)
  | none =>
    say ("Table is valid (" ++ toString t.states.length ++ " states, " ++ toString t.size ++
      " transitions)\n")

/-- Describes the table of a program, or a stored table. -/
def inspect (g : Given) : Act Unit := do
  let c ← setUp g
  match (g.text? "table").getD "" with
  | "" =>
    let path := programPath c g.args.head?
    let t ← compileFile {} path
    say (Outline.render (Files.baseName path) t)
  | name =>
    let backend ← openBackend (lastingStore g c)
    let t ← orFail (.storedTable name) (backend.store.load .patient name)
    say (Outline.render name t)

/-! ### Stored tables -/

/-- Opens the store of a command that does not log. -/
def tableStore (g : Given) : Act Store := do
  let c ← settings g
  pure (← openBackend (lastingStore g c)).store

/-- Lists the stored tables. -/
def listTables (g : Given) : Act Unit := do
  let (store, names) := (← tableStore g).list .patient
  keepStore store
  match ← orFail .store names with
  | [] => say "No stored tables found.\n"
  | names => say (String.join (names.map (fun n => "- " ++ Text.shown n ++ "\n")))

/-- Prints a stored table. -/
def showTable (g : Given) (name : String) : Act Unit := do
  let store ← tableStore g
  let t ← orFail (.storedTable name) (store.load .patient name)
  say (canonicalText true t)

/-- Compiles a program and stores its table. -/
def putTable (g : Given) (name : String) : Act Unit := do
  let c ← setUp g
  let t ← compileFile {} (programPath c (g.args.drop 1).head?)
  let backend ← openBackend (lastingStore g c)
  let (store, e) := backend.store.save .patient name t
  keepStore store
  match e with
  | some e => throw (.store e)
  | none =>
    say ("Stored table '" ++ name ++ "' (" ++ toString t.size ++ " transitions)\n")

/-- Removes stored tables, one after the other, and gives what went wrong. -/
def removeEach : Store → List String → Act (List StoreError)
  | store, [] => do
    keepStore store
    pure []
  | store, name :: names => do
    let (store, e) := store.delete .patient name
    match e with
    | some e => do
      warn ("Error removing '" ++ name ++ "': " ++ e.message ++ "\n")
      pure (e :: (← removeEach store names))
    | none => do
      say ("Removed table '" ++ name ++ "'\n")
      removeEach store names

/-- Removes stored tables. One that cannot be removed does not keep the others. -/
def removeTables (g : Given) : Act Unit := do
  let store ← tableStore g
  match ← removeEach store g.args with
  | [] => pure ()
  | es => throw (.removals es)

/-! ### Services -/

/-- Fails if an address cannot be listened on. -/
def checkAddress (attempt : Option String) (address : String) : Act Unit :=
  match Address.fault? address with
  | some e => throw (.unlistenable attempt e)
  | none => pure ()

/-- Starts the web service. Without an address it listens where web pages are served. -/
def serve (g : Given) : Act Task := do
  let c ← setUp g
  let backend ← openBackend c.store
  let limit := guestLimit c
  inform "Starting Turing Server"
    [("addr", .text c.listen), ("store", .text c.store.kind), ("max_steps", .int limit)]
  checkAddress (some "server error") (if c.listen == "" then ":http" else c.listen)
  pure (.serve c.listen
    { engine := { limit, sorted := c.sortedTape }
      backend
      withMetrics := true
      timeout := c.timeout.toNat })

/-- Starts to answer messages about tools. -/
def serveTools (g : Given) : Act Task := do
  let c ← setUp g
  let backend ← openBackend (lastingStore g c)
  let tools : Tools := { engine := { limit := guestLimit c }, store? := some backend.store }
  match (g.text? "transport").getD "stdio" with
  | "stdio" =>
    inform "Starting Turing MCP Server (Stdio)"
    pure (.answer tools)
  | "sse" =>
    let address := ":" ++ toString ((g.integer? "port").getD 8080)
    inform "MCP Server listening (SSE)" [("address", .text address)]
    checkAddress none address
    pure (.answerAt address tools)
  | other => throw (.transport other)

/-- A signal that ends a task. -/
inductive Signal where
  | interrupt
  | terminate
deriving DecidableEq

/-- What a signal is called. -/
def Signal.name : Signal → String
  | .interrupt => "interrupt"
  | .terminate => "terminated"

/-- Ends a task when a signal has come. -/
def Task.stop (t : Task) (signal : Signal) : Act Unit :=
  match t with
  | .watch w => w.stop
  | .serve _ _ => do
    inform "Start shutdown" [("signal", .text signal.name)]
    inform "Turing Server stopped gracefully"
  | .answer _ => pure ()
  | .answerAt _ _ => inform "MCP Server stopped gracefully"

/-! ### Lines -/

/-- What is said about a verb. -/
def helpText (v : Verb) : String :=
  let names := v.parts.map (fun p => "  " ++ p.1 ++ "  " ++ p.2.about ++ "\n")
  let flags := (v.flags ++ [Verb.helpFlag]).map (fun f => "  " ++ f.title ++ "\n")
  v.about ++ "\n\nUsage:\n  " ++ v.path ++ " [flags]\n" ++
    (if names.isEmpty then "" else "\nAvailable Commands:\n" ++ String.join names) ++
    "\nFlags:\n" ++ String.join flags

/-- Does what a verb says. -/
def obey (v : Verb) (g : Given) : Act (Option Task) := do
  match v with
  | .default => run g
  | .run => run g
  | .serve => pure (some (← serve g))
  | .mcp => pure (some (← serveTools g))
  | _ =>
    match v with
    | .compile => compile g
    | .graph => graph g
    | .validate => validate g
    | .inspect => inspect g
    | .listTables => listTables g
    | .showTable => showTable g (g.args.head?.getD "")
    | .putTable => putTable g (g.args.head?.getD "")
    | .removeTables => removeTables g
    | .version => say ("turing version " ++ version ++ "\n")
    | _ => say (helpText v)
    pure none

/-- Carries out a command line. -/
def carryOut (args : List String) : Act (Option Task) := do
  let (v, args) := Verb.choose args
  let g ← orFail .usage (Given.ofArgs (v.flags ++ [Verb.helpFlag]) args)
  if g.isOn "help" || v.isGroup then
    say (helpText v)
    pure none
  else
    match v.countFault? g.args with
    | some e => throw (.usage e)
    | none => obey v g

/-- Carries out an action in a shell, and shows its log. -/
def Act.inShell {α : Type} (a : Act α) (shell : Shell) : Except Error α × Session :=
  let (r, s) := a.perform { toShell := shell }
  (r, s.flush)

/-- What is said on the error channel in the end: the log, warnings, and the error, which is told
twice. -/
def Session.complaints {α : Type} (s : Session) (r : Except Error α) : String :=
  s.console ++ s.warnings ++
    match r with
    | .ok _ => ""
    | .error .endless => ""
    | .error e =>
      let line := "Error: " ++ e.message ++ "\n"
      line ++ line

end TapeMachine.Command
