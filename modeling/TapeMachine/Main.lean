import TapeMachine.Command
import TapeMachine.Command.Reach

/-!
# The program

Fetches the files a command line can touch, carries the line out, prints what it says, and makes
the changes it has made. A command that goes on is followed: messages are answered line by line, and
a watched program is looked at again and again.
-/

namespace TapeMachine.Command.Terminal

/-- Fetches what stands at a path. -/
def fetchEntry (fs : Files) (path : String) : IO Files := do
  let names := (Files.names path).filter (· != "")
  let here ← IO.currentDir
  if ← (here / path).isDir then
    return if (fs.entryAt names).isSome then fs else fs.put names .folder
  try
    return fs.put names (.file (← IO.FS.readFile path))
  catch _ => return fs

/-- Fetches what stands at a path and on the way to it. -/
def fetch (fs : Files) (path : String) : IO Files :=
  (Files.stages (fs.absolute path)).foldlM fetchEntry fs

/-- Fetches what stands in a folder. -/
def fetchFolder (fs : Files) (path : String) : IO Files := do
  let mut fs ← fetch fs path
  let here ← IO.currentDir
  if ← (here / path).isDir then
    for e in ← (here / path).readDir do
      fs ← fetch fs (Files.join path e.fileName)
  return fs

/-- The working folder, and the devices. -/
def startingFiles : IO Files := do
  let home := (Files.names (← IO.currentDir).toString).filter (· != "")
  let fs : Files := { Files.fresh with home }
  fetch fs (Files.pathTo home)

/-- The environment variables that hold settings, and the one that turns colours off. -/
def environment : IO (List (String × String)) :=
  ("NO_COLOR" :: Config.environmentKeys.map Config.environmentName).filterMapM (fun name => do
    return (← IO.getEnv name).map (name, ·))

/-- Fetches all that a command line can touch. The settings file is fetched first, since it can name
more files. -/
def fetchAll (args : List String) : IO Shell := do
  let mut shell : Shell :=
    { files := ← startingFiles
      env := ← environment
      terminal := ← (← IO.getStdout).isTty
      server := .error (.reply "no key server can be reached from here") }
  for _ in [0, 1] do
    let (paths, folder) := reach shell args
    let files ← paths.foldlM fetch shell.files
    shell := { shell with files := ← fetchFolder files folder }
  return shell

/-- Makes a change. -/
def make : Files.Change → IO Unit
  | .folder path => IO.FS.createDirAll path
  | .file path text => IO.FS.writeFile path text
  | .gone path => IO.FS.removeFile path

/-- Makes the changes of a session and prints what it says. -/
def settle {α : Type} (before : Files) (r : Except Error α) (s : Session) : IO Unit := do
  (Files.changes before s.files).forM make
  (← IO.getStdout).putStr s.output
  (← IO.getStdout).flush
  (← IO.getStderr).putStr (s.complaints r)

/-- Answers messages until the input ends. -/
partial def answerLines (tools : Tools) : IO Unit := do
  let line ← (← IO.getStdin).getLine
  unless line.isEmpty do
    if let some reply := tools.answerLine line then
      (← IO.getStdout).putStr (reply.render ++ "\n")
      (← IO.getStdout).flush
    answerLines tools

/-- Waits for ever. -/
partial def hang : IO UInt32 := do
  IO.sleep 1000
  hang

/-- Ends with an error, unless it stands for work that never ends. -/
def quit (e : Error) : IO UInt32 :=
  if e.isEndless then hang else return 1

/-- A session that goes on where another has been settled. -/
def next (s : Session) : Session := { s with output := "", warnings := "", console := "" }

/-- Looks at a program again and again, and goes on when it has changed, until one of its runs ends
the program. -/
partial def follow (w : Watch) (s : Session) (seen : Option String) : IO UInt32 := do
  IO.sleep 100
  let files ← fetch s.files w.order.program
  let now := (files.read w.order.program).toOption
  if now == seen then follow w s seen
  else
    let (r, s) := w.changed.perform { next s with files }
    let s := s.flush
    settle files r s
    match r with
    | .ok w => follow w s now
    | .error e => quit e

/-- Goes on with a task. -/
def goOn (s : Session) : Task → IO UInt32
  | .watch w => follow w s ((s.files.read w.order.program).toOption)
  | .answer tools => do
    answerLines tools
    return 0
  | _ => do
    (← IO.getStderr).putStrLn "Error: this build does not listen on the network"
    return 1

end TapeMachine.Command.Terminal

/-- Carries out the command line. -/
def main (args : List String) : IO UInt32 := do
  let shell ← TapeMachine.Command.Terminal.fetchAll args
  let (r, s) := (TapeMachine.Command.carryOut args).inShell shell
  TapeMachine.Command.Terminal.settle shell.files r s
  match r with
  | .ok none => return 0
  | .ok (some task) => TapeMachine.Command.Terminal.goOn s task
  | .error e => TapeMachine.Command.Terminal.quit e
