import TapeMachine.Command.Session

/-!
# What a command can touch

A command works on a tree of files. Whoever carries it out for real has to fetch the part of the
tree that the command can touch, and afterwards to make the changes that it made.
-/

namespace TapeMachine

/-- A change of a tree of files. -/
inductive Files.Change where
  | folder (path : String)
  | file (path text : String)
  | gone (path : String)
deriving DecidableEq

/-- The path from the root to a place. -/
def Files.pathTo (place : List String) : String := "/" ++ "/".intercalate place

/-- The changes that make one tree of another, folders first. -/
def Files.changes (before after : Files) : List Files.Change :=
  let new := after.entries.filter (fun e => before.entries.lookup e.1 != some e.2)
  let gone := before.entries.filter (fun e => (after.entries.lookup e.1).isNone)
  new.filterMap (fun e =>
    match e.2 with
    | .folder => some (.folder (Files.pathTo e.1))
    | _ => none) ++
  new.filterMap (fun e =>
    match e.2 with
    | .file text => some (.file (Files.pathTo e.1) text)
    | _ => none) ++
  gone.map (fun e => .gone (Files.pathTo e.1))

namespace Command

/-- The paths of the files a command line can touch, and of the folder of its store, as far as what
is known of the files tells. -/
def reach (shell : Shell) (args : List String) : List String × String :=
  let (v, rest) := Verb.choose args
  match Given.ofArgs (v.flags ++ [Verb.helpFlag]) rest with
  | .error _ => ([], StoreSettings.defaultDir)
  | .ok g =>
    let configPath := (g.text? "config").getD Config.defaultPath
    let c := applyFlags g
      (((Config.load shell.files shell.env ((g.text? "config").getD "")).toOption).getD {})
    ((configPath :: c.program :: c.output :: c.logFile :: g.args).filter (· != ""),
      c.store.folder)

end Command

end TapeMachine
