import TapeMachine.Command.Address
import TapeMachine.Command.Verb
import TapeMachine.Config
import TapeMachine.Engine
import TapeMachine.Log.Run

/-!
# Sessions

A command finds files, environment variables and perhaps a key server around it, and it leaves
behind what it has printed, what it has logged and changed files. All of this is a session, and a
command is an action in it: it changes the session and may fail. What has happened before it fails
stays.
-/

namespace TapeMachine.Command

open Text (quoted)

/-! ### Errors -/

/-- Why a command fails. -/
inductive Error where
  | usage (e : UsageError)
  | config (e : Config.Error)
  | level (given : String) (e : Log.Level.ParseError)
  /-- An operation on files failed, while something was attempted that has a name. -/
  | files (attempt : Option String) (e : FileError)
  | program (path : String) (e : Program.Error)
  /-- The table of a program has findings. -/
  | findings (report : String)
  | store (e : StoreError)
  | storedTable (name : String) (e : StoreError)
  | removals (es : List StoreError)
  /-- A run took longer than it may, in nanoseconds. -/
  | timedOut (after : Int)
  | unwatchable (folder : String) (fault : FileFault)
  | transport (name : String)
  /-- What the command has begun never ends. -/
  | endless
  | unlistenable (attempt : Option String) (e : AddressError)

/-- A message, and before it what was attempted. -/
def attempted (attempt : Option String) (message : String) : String :=
  match attempt with
  | some a => a ++ ": " ++ message
  | none => message

/-- The wording of each error. -/
def Error.message : Error → String
  | .usage e => e.message
  | .config e => e.message
  | .level given e => e.message given
  | .files attempt e => attempted attempt e.message
  | .program path e => Engine.errorIn path e
  | .findings report => "validation failed: " ++ report
  | .store e => e.message
  | .storedTable name e => "table " ++ quoted name ++ ": " ++ e.message
  | .removals es => "\n".intercalate (es.map StoreError.message)
  | .timedOut after =>
    "run timed out after " ++ Text.Duration.render after ++ ": " ++ StopCause.deadline.message
  | .unwatchable folder fault => "failed to watch " ++ folder ++ ": " ++ fault.message
  | .transport name => "unknown transport: " ++ name ++ ". Supported: stdio, sse"
  | .endless => ""
  | .unlistenable attempt e => attempted attempt e.message

/-- Whether an error ends the program at once. -/
def Error.isCrash : Error → Bool
  | .config e => e.isCrash
  | .program _ e => e.isCrash
  | _ => false

/-- Whether an error stands for work that never ends. -/
def Error.isEndless : Error → Bool
  | .endless => true
  | _ => false

/-! ### Journals -/

/-- Where a command logs: on the console from a level on, and perhaps in a file. -/
structure Journal where
  least : Log.Level := .info
  file : String := ""

/-- Whether details are logged anywhere. -/
def Journal.detailed (j : Journal) : Bool := j.file != "" || j.least.shows .debug

/-! ### Sessions -/

/-- What stays when a command has ended. -/
structure Shell where
  files : Files := Files.fresh
  env : List (String × String) := []
  /-- The key server, unless it cannot be reached. -/
  server : Except Redis.Error Redis.Server := .ok {}
  /-- The name under which runs are logged. -/
  runId : String := "ID"
  /-- Whether a terminal shows what is printed. -/
  terminal : Bool := false

/-- Whether result lines are coloured: only on a terminal, and only where nobody objects. -/
def Shell.colors (s : Shell) (g : Given) : Bool :=
  !g.isOn "no-color" && (s.env.lookup "NO_COLOR").getD "" == "" && s.terminal

/-- A command at work. -/
structure Session extends Shell where
  journal : Journal := {}
  /-- What has been printed. -/
  output : String := ""
  /-- What has been said besides. -/
  warnings : String := ""
  /-- What the console has shown of the log. -/
  console : String := ""
  /-- What is still to be shown and written to the log file. -/
  records : List Log.Record := []

/-- An action in a session. -/
abbrev Act := ExceptT Error (StateM Session)

/-- Runs an action in a session. -/
def Act.perform {α : Type} (a : Act α) (s : Session) : Except Error α × Session :=
  Id.run (StateT.run (ExceptT.run a) s)

/-- Takes the result of something that can fail. -/
def orFail {ε α : Type} (wrap : ε → Error) (r : Except ε α) : Act α :=
  match r with
  | .ok a => pure a
  | .error e => throw (wrap e)

/-- Takes the outcome of something that need not end. -/
def orNever {α : Type} : Option α → Act α
  | some a => pure a
  | none => throw .endless

/-- Prints a text. -/
def say (text : String) : Act Unit :=
  modify (fun s => { s with output := s.output ++ text })

/-- Says something that is no part of what is printed. -/
def warn (text : String) : Act Unit :=
  modify (fun s => { s with warnings := s.warnings ++ text })

/-- Logs records. -/
def note (rs : List Log.Record) : Act Unit :=
  modify (fun s => { s with records := s.records ++ rs })

/-- Logs a message for the user. -/
def inform (message : String) (attrs : List (String × Log.Value) := []) : Act Unit :=
  note [{ level := .info, message, attrs }]

/-- Puts changed files in place. -/
def setFiles (fs : Files) : Act Unit :=
  modify (fun s => { s with files := fs })

/-- Shows the log and writes it to its file, if there is one. A log that cannot be written is
lost. -/
def Session.flush (s : Session) : Session :=
  let files :=
    if s.journal.file == "" then s.files
    else
      match s.files.append s.journal.file (Log.file s.records) with
      | .ok fs => fs
      | .error _ => s.files
  { s with files, console := s.console ++ Log.console s.journal.least s.records, records := [] }

/-! ### Settings -/

/-- Lays flags over settings. -/
def applyFlags (g : Given) (c : Config) : Config :=
  { c with
    logLevel := (g.text? "log-level").getD c.logLevel
    logFile := (g.text? "log-file").getD c.logFile
    program := (g.text? "program").getD c.program
    output := (g.text? "output").getD c.output
    start := (g.text? "start").getD c.start
    listen := (g.text? "listen").getD c.listen
    store := { c.store with kind := (g.text? "store").getD c.store.kind }
    maxSteps := (g.integer? "max-steps").getD c.maxSteps
    parallel := (g.integer? "parallel").getD c.parallel
    timeout := (g.duration? "timeout").getD c.timeout
    sortedTape := (g.switch? "sorted").getD c.sortedTape }

/-- The settings of a command: from the file, the environment and the flags, each over the one
before. They are checked before the flags are looked at, and again with them. -/
def settings (g : Given) : Act Config := do
  let s ← get
  let c ← orFail .config (Config.load s.files s.env ((g.text? "config").getD ""))
  let c := applyFlags g c
  match c.defect? with
  | some message => throw (.config (.invalid message))
  | none => pure c

/-- Starts to log. -/
def openJournal (c : Config) : Act Unit := do
  let least ← orFail (.level c.logLevel) (Log.Level.parse c.logLevel)
  if c.logFile != "" then
    let s ← get
    let folder := Files.folderName c.logFile
    let fs ← if folder == "." then pure s.files
      else orFail (.files (some "failed to create log directory")) (s.files.makeFolders folder)
    setFiles (← orFail (.files (some "failed to open log file")) (fs.touch c.logFile))
  modify (fun s => { s with journal := { least, file := c.logFile } })

/-- The settings of a command that logs. -/
def setUp (g : Given) : Act Config := do
  let c ← settings g
  openJournal c
  pure c

/-! ### Programs and stores -/

/-- The error of a command whose program does not compile. -/
def programError (path : String) : Program.Error → Error
  | .endless => .endless
  | e => .program path e

/-- Reads and compiles the program at a path. -/
def compileFile (e : Engine) (path : String) : Act Table := do
  let s ← get
  let source ← orFail (.files (some "failed to read program")) (s.files.read path)
  let t ← orFail (programError path) (e.compile source)
  note [Log.compiledRecord t]
  pure t

/-- The settings of the store of a command whose tables are to be kept: a folder takes the place of
the memory, unless the memory was asked for. -/
def lastingStore (g : Given) (c : Config) : StoreSettings :=
  if (g.text? "store").isNone && c.store.kind == "memory" then { c.store with kind := "file" }
  else c.store

/-- Opens a store. -/
def openBackend (settings : StoreSettings) : Act Backend := do
  let s ← get
  orFail .store (settings.openStore .patient s.files s.server)

/-- Puts the files or the server of a changed store in place. -/
def keepStore (store : Store) : Act Unit :=
  modify (fun s =>
    match store with
    | .memory _ => s
    | .folder _ files => { s with files }
    | .redis _ server => { s with server := .ok server })

end TapeMachine.Command
