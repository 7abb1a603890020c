import TapeMachine.Command.Flag

/-!
# Verbs

The first plain arguments of a command line name what is to be done. Without such a name the whole
line is about running a program. Each verb has its own flags and takes so many other arguments.
-/

namespace TapeMachine.Command

/-- What can be done. -/
inductive Verb where
  /-- Runs the program, without having been asked to by name. -/
  | default
  | run
  | compile
  | graph
  | validate
  | inspect
  | tables
  | listTables
  | showTable
  | putTable
  | removeTables
  | serve
  | mcp
  | version
  | help
  | completion
deriving DecidableEq

namespace Verb

/-- The name of the program, and of everything below it. -/
def path : Verb → String
  | .default => "turing"
  | .run => "turing run"
  | .compile => "turing compile"
  | .graph => "turing graph"
  | .validate => "turing validate"
  | .inspect => "turing inspect"
  | .tables => "turing tables"
  | .listTables => "turing tables ls"
  | .showTable => "turing tables show"
  | .putTable => "turing tables put"
  | .removeTables => "turing tables rm"
  | .serve => "turing serve"
  | .mcp => "turing mcp"
  | .version => "turing version"
  | .help => "turing help"
  | .completion => "turing completion"

/-- What a verb is about. -/
def about : Verb → String
  | .default => "Turing compiles and runs Turing machine programs"
  | .run => "Compile the program and run it on each input"
  | .compile => "Compile a program to its canonical five-field table"
  | .graph => "Export the state diagram"
  | .validate => "Check the transition table for consistency"
  | .inspect => "Describe a program's transition table"
  | .tables => "Manage stored transition tables"
  | .listTables => "List stored tables"
  | .showTable => "Print a stored table in canonical form"
  | .putTable => "Compile a program and store its table"
  | .removeTables => "Remove one or more stored tables"
  | .serve => "Start the HTTP API"
  | .mcp => "Run the Model Context Protocol (MCP) server"
  | .version => "Print the version number of turing"
  | .help => "Help about any command"
  | .completion => "Generate the autocompletion script for the specified shell"

/-- The verbs directly below a verb, by name. -/
def parts : Verb → List (String × Verb)
  | .default =>
    [("run", .run), ("compile", .compile), ("graph", .graph), ("validate", .validate),
      ("inspect", .inspect), ("tables", .tables), ("serve", .serve), ("mcp", .mcp),
      ("version", .version), ("help", .help), ("completion", .completion)]
  | .tables =>
    [("ls", .listTables), ("show", .showTable), ("put", .putTable), ("rm", .removeTables)]
  | _ => []

/-! ### Flags -/

/-- The flags every verb has. -/
def sharedFlags : List Flag :=
  [⟨"config", none, .text⟩, ⟨"log-level", none, .text⟩, ⟨"log-file", none, .text⟩,
    ⟨"no-color", none, .switch⟩]

/-- The flags of a run. -/
def runFlags : List Flag :=
  [⟨"program", some 'p', .text⟩, ⟨"output", some 'o', .text⟩, ⟨"start", none, .text⟩,
    ⟨"max-steps", none, .integer⟩, ⟨"timeout", none, .duration⟩, ⟨"parallel", none, .integer⟩,
    ⟨"sorted", none, .switch⟩, ⟨"watch", some 'w', .switch⟩]

/-- The flag that chooses a store. -/
def storeFlag : Flag := ⟨"store", none, .text⟩

/-- The flags a verb does not share with all others. -/
def ownFlags : Verb → List Flag
  | .default => runFlags
  | .run => runFlags
  | .compile =>
    [⟨"output", some 'o', .text⟩, ⟨"start", none, .text⟩, ⟨"header", none, .switch⟩]
  | .graph =>
    [⟨"trace", none, .text⟩, ⟨"start", none, .text⟩, ⟨"max-steps", none, .integer⟩]
  | .validate => [⟨"start", none, .text⟩]
  | .inspect => [⟨"table", none, .text⟩, storeFlag]
  | .tables => [storeFlag]
  | .listTables => [storeFlag]
  | .showTable => [storeFlag]
  | .putTable => [storeFlag]
  | .removeTables => [storeFlag]
  | .serve =>
    [⟨"listen", none, .text⟩, storeFlag, ⟨"max-steps", none, .integer⟩,
      ⟨"timeout", none, .duration⟩, ⟨"parallel", none, .integer⟩]
  | .mcp =>
    [⟨"transport", none, .text⟩, ⟨"port", none, .integer⟩, storeFlag,
      ⟨"max-steps", none, .integer⟩]
  | _ => []

/-- The flags by which the words of a line are told from values of flags. -/
def flags (v : Verb) : List Flag := v.ownFlags ++ sharedFlags

/-- The flag that asks for help. -/
def helpFlag : Flag := ⟨"help", some 'h', .switch⟩

/-! ### Choosing a verb -/

/-- Whether the argument behind this one is its value, as far as can be told without reading it: it
has no equals sign, and it is a long name or a single letter of something that is not known to be
a switch. -/
def takesNext (flags : List Flag) (arg : String) : Bool :=
  let isSwitch (f : Option Flag) := (f.map (·.kind)) == some .switch
  if arg.toList.contains '=' then false
  else
    match arg.toList with
    | '-' :: '-' :: cs => !isSwitch (named? flags (String.ofList cs))
    | ['-', c] => c.toNat < 0x80 && !isSwitch (lettered? flags c)
    | _ => false

/-- The first word of a line, what stands before it, and what behind it. A flag that takes a value
hides it, and so it does the last argument but one. -/
def firstWord (flags : List Flag) :
    List String → List String → Option (List String × String × List String)
  | _, [] => none
  | before, s :: rest =>
    if s == "--" then none
    else if takesNext flags s then
      match rest with
      | [] => none
      | [_] => none
      | v :: rest => firstWord flags (before ++ [s, v]) rest
    else if s == "" || s.toList.head? == some '-' then firstWord flags (before ++ [s]) rest
    else some (before, s, rest)

/-- The verb below `v` that a line names, and the line without the name. -/
def below? (v : Verb) (args : List String) : Option (Verb × List String) :=
  match firstWord v.flags [] args with
  | none => none
  | some (before, word, rest) => (v.parts.lookup word).map (·, before ++ rest)

/-- The verb that a line names, and what is left of the line. Names go two deep. -/
def choose (args : List String) : Verb × List String :=
  match below? .default args with
  | none => (.default, args)
  | some (v, args) => (below? v args).getD (v, args)

/-! ### Other arguments -/

/-- What is wrong with the number of other arguments. -/
def countFault? (v : Verb) (args : List String) : Option UsageError :=
  let got := args.length
  let atMostOne := if 1 < got then some (UsageError.tooMany 1 got) else none
  let noneAtAll := args.head?.map (fun arg => UsageError.unknownCommand arg v.path)
  match v with
  | .compile => atMostOne
  | .graph => atMostOne
  | .validate => atMostOne
  | .inspect => atMostOne
  | .showTable => if got = 1 then none else some (.notExactly 1 got)
  | .putTable => if 1 ≤ got && got ≤ 2 then none else some (.outside 1 2 got)
  | .removeTables => if got = 0 then some (.tooFew 1 got) else none
  | .listTables => noneAtAll
  | .serve => noneAtAll
  | .mcp => noneAtAll
  | .version => noneAtAll
  | _ => none

/-- Whether a verb only groups others. -/
def isGroup (v : Verb) : Bool := v = .tables || v = .help || v = .completion

end Verb

end TapeMachine.Command
