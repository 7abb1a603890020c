import TapeMachine.Config.Yaml
import TapeMachine.Store.Open
import TapeMachine.Text.UpperCase

/-!
# Settings

The settings of the program come from a file, which need not exist, and from environment variables,
which win over the file; what neither sets has a default. A file whose name ends in `.json` is read
as JSON, and any other as YAML.
-/

namespace TapeMachine

open Text (Json quoted)

/-- All settings. -/
structure Config where
  program : String := "program.btm"
  inputs : List String := []
  output : String := "morphett.txt"
  start : String := ""
  maxSteps : Int := 0
  /-- How long a run may take, in nanoseconds; zero means no limit. -/
  timeout : Int := 0
  parallel : Int := 0
  sortedTape : Bool := false
  logLevel : String := "info"
  logFile : String := ""
  listen : String := ":8080"
  store : StoreSettings := {}
deriving DecidableEq

namespace Config

/-! ### Fields -/

/-- The settings of a store by key. -/
def storeFields (d : Decoder) : List (Field StoreSettings) :=
  [.of "kind" d.text? (fun x s => { s with kind := x }),
    .of "dir" d.text? (fun x s => { s with dir := x }),
    .of "redis_addr" d.text? (fun x s => { s with address := x }),
    .of "redis_password" d.text? (fun x s => { s with password := x }),
    .of "redis_db" d.integer? (fun x s => { s with database := x }),
    .of "prefix" d.text? (fun x s => { s with keyStart := x }),
    .of "ttl" d.duration? (fun x s => { s with life := x })]

/-- Reads the settings of a store over others. -/
def readStore (d : Decoder) (v : Value) (s : StoreSettings) : Option StoreSettings :=
  match v with
  | .mapping ms _ => d.record? (storeFields d) ms s
  | .date => some s
  | _ => none

/-- All settings by key. -/
def fields (d : Decoder) : List (Field Config) :=
  [.of "program" d.text? (fun x c => { c with program := x }),
    .of "inputs" d.texts? (fun x c => { c with inputs := x }),
    .of "output" d.text? (fun x c => { c with output := x }),
    .of "start" d.text? (fun x c => { c with start := x }),
    .of "max_steps" d.integer? (fun x c => { c with maxSteps := x }),
    .of "timeout" d.duration? (fun x c => { c with timeout := x }),
    .of "parallel" d.integer? (fun x c => { c with parallel := x }),
    .of "sorted_tape" d.bool? (fun x c => { c with sortedTape := x }),
    .of "log_level" d.text? (fun x c => { c with logLevel := x }),
    .of "log_file" d.text? (fun x c => { c with logFile := x }),
    .of "listen" d.text? (fun x c => { c with listen := x }),
    { key := "store"
      set := fun v c => (readStore d v c.store).map (fun s => { c with store := s }) }]

/-! ### Files -/

/-- Why there are no settings. -/
inductive Error where
  | unreadable (e : FileError)
  /-- The file is not JSON or YAML, or not a mapping. -/
  | unparsable
  /-- A key is unknown, or a value does not fit its key. -/
  | undecodable
  /-- The settings contradict themselves. -/
  | invalid (message : String)
  /-- A JSON file that holds nothing has no place for environment variables. -/
  | noPlace
  /-- A key that is a collection cannot be looked up. -/
  | unhashable (kind : Yaml.Collection)
  /-- A key of the store is no text. -/
  | strangeKey (kind : KeyKind)

/-- The name of a collection in a message. -/
def collectionName : Yaml.Collection → String
  | .list => "[]interface {}"
  | .textMapping => "map[string]interface {}"
  | .mixedMapping => "map[interface {}]interface {}"

/-- The name of a kind of keys in a message. -/
def keyKindName : KeyKind → String
  | .nothing => "nil"
  | .truth => "bool"
  | .integer => "int"
  | .unsigned => "uint64"
  | .fraction => "float64"
  | .date => "time.Time"

/-- The wording of an error whose wording is known. -/
def Error.message : Error → String
  | .unreadable e => "failed to read config: " ++ e.message
  | .unparsable => "failed to parse config"
  | .undecodable => "invalid config"
  | .invalid message => "invalid config: " ++ message
  | .noPlace => "assignment to entry in nil map"
  | .unhashable kind => "runtime error: hash of unhashable type " ++ collectionName kind
  | .strangeKey kind =>
    "interface conversion: interface {} is " ++ keyKindName kind ++ ", not string"

/-- Whether an error ends the program at once. -/
def Error.isCrash : Error → Bool
  | .noPlace | .unhashable _ | .strangeKey _ => true
  | _ => false

/-- A JSON number. -/
def jsonNumber? (digits : List Char) : Option Number := Yaml.fraction? digits

mutual

/-- A JSON value as the value of a setting. Of members with one name the last counts. -/
def ofJson? : Json → Option Value
  | .null => some .nothing
  | .bool b => some (.bool b)
  | .number ds => (jsonNumber? ds).map .number
  | .string s => some (.text s)
  | .bytes bs => some (.text (Text.shown bs))
  | .array vs => (ofItems? vs).map .list
  | .object ms => (ofMembers? ms).map (fun ms => .mapping ms .textual)

/-- The items of an array. -/
def ofItems? : List Json → Option (List Value)
  | [] => some []
  | v :: vs =>
    match ofJson? v, ofItems? vs with
    | some a, some as => some (a :: as)
    | _, _ => none

/-- The members of an object. -/
def ofMembers? : List (String × Json) → Option (List (String × Value))
  | [] => some []
  | (k, v) :: ms =>
    match ofJson? v, ofMembers? ms with
    | some a, some as => some (if as.any (fun m => m.1 == k) then as else (k, a) :: as)
    | _, _ => none

end

/-- What a file says: its members, or nothing at all. -/
abbrev Said := Option (List (String × Value))

/-- Whether a file is read as JSON. -/
def isJsonFile (path : String) : Bool :=
  let name := ((Files.names path).getLast?.getD "").toList
  ".json".toList.isSuffixOf (name.map Char.toLower)

/-- A library that reads YAML: the members that a text holds, or none of them. -/
abbrev YamlReader := String → Except Yaml.Fault (List (String × Value))

/-- Reads the text of a file. A YAML file without a value is an empty mapping. -/
def parse (path text : String) (yaml : YamlReader := Yaml.parse) : Except Error Said :=
  if isJsonFile path then
    match (Json.parse? text).bind ofJson? with
    | some .nothing => .ok none
    | some (.mapping ms _) => .ok (some ms)
    | _ => .error .unparsable
  else
    match yaml text with
    | .ok ms => .ok (some ms)
    | .error .refused => .error .unparsable
    | .error (.unhashable kind) => .error (.unhashable kind)

/-! ### Environment -/

/-- The keys of all settings that environment variables can set. -/
def environmentKeys : List String :=
  ["program", "inputs", "output", "start", "max_steps", "timeout", "parallel", "sorted_tape",
    "log_level", "log_file", "listen", "store.kind", "store.dir", "store.redis_addr",
    "store.redis_password", "store.redis_db", "store.prefix", "store.ttl"]

/-- The environment variable for a key. -/
def environmentName (key : String) : String :=
  "TURING_" ++ String.ofList (key.toList.map (fun c => if c == '.' then '_' else Text.upper c))

/-- Puts a member into a mapping, in place of one with the same name. -/
def putMember (ms : List (String × Value)) (name : String) (v : Value) : List (String × Value) :=
  if ms.any (fun m => m.1 == name) then ms.map (fun m => if m.1 == name then (name, v) else m)
  else ms ++ [(name, v)]

/-- Puts a text under a key, where a point in the key leads into an inner mapping. Something that
is not a mapping makes room for one. -/
def putText (ms : List (String × Value)) (key text : String) : List (String × Value) :=
  match (Text.pieces (· == '.') key.toList).map String.ofList with
  | [outer, inner] =>
    let members := match ms.lookup outer with
      | some (.mapping members .textual) => members
      | _ => []
    putMember ms outer (.mapping (putMember members inner (.text text)) .textual)
  | _ => putMember ms key (.text text)

/-- The environment variables that are set, by key. -/
def overrides (env : List (String × String)) : List (String × String) :=
  environmentKeys.filterMap (fun key => (env.lookup (environmentName key)).map (fun v => (key, v)))

/-- Lays environment variables over what a file says. -/
def overlay (said : Said) (env : List (String × String)) : Except Error (List (String × Value)) :=
  match said, overrides env with
  | some ms, vs => .ok (vs.foldl (fun ms v => putText ms v.1 v.2) ms)
  | none, [] => .ok []
  | none, _ => .error .noPlace

/-! ### Loading -/

/-- The kinds of stores. -/
def storeKinds : List String := ["memory", "file", "redis"]

/-- What is wrong with settings, if anything. -/
def defect? (c : Config) : Option String :=
  if !storeKinds.contains c.store.kind then
    some ("unknown store kind " ++ quoted c.store.kind)
  else if c.maxSteps < 0 then some "max_steps must not be negative"
  else if c.parallel < 0 then some "parallel must not be negative"
  else if c.timeout < 0 then some "timeout must not be negative"
  else none

/-- A key of the store that is no text. -/
def strangeKey? (members : List (String × Value)) : Option KeyKind :=
  match memberFor members "store" with
  | some (_, .mapping _ (.mixed (k :: _))) => some k
  | _ => none

/-- The settings of some members over the defaults. Keys of the store that are no texts count more
than any other fault. -/
def decode (members : List (String × Value)) (d : Decoder := .weak) : Except Error Config :=
  match strangeKey? members, d.record? (fields d) members {} with
  | some k, _ => .error (.strangeKey k)
  | none, none => .error .undecodable
  | none, some c =>
    match c.defect? with
    | some message => .error (.invalid message)
    | none => .ok c

/-- The file that is read if none is named. -/
def defaultPath : String := "turing.yaml"

/-- What the settings file says; the default file need not exist. -/
def readFile (fs : Files) (path : String) (yaml : YamlReader := Yaml.parse) :
    Except Error Said :=
  let explicit := path != ""
  let path := if explicit then path else defaultPath
  match fs.read path with
  | .ok text => parse path text yaml
  | .error e =>
    if e.fault = .notExist && !explicit then .ok (some []) else .error (.unreadable e)

/-- Loads the settings from a file and the environment, with a decoder and a reader of YAML. -/
def load (fs : Files) (env : List (String × String)) (path : String) (d : Decoder := .weak)
    (yaml : YamlReader := Yaml.parse) : Except Error Config := do
  let said ← readFile fs path yaml
  decode (← overlay said env) d

end Config

end TapeMachine
