import TapeMachine.Report.Diagram
import TapeMachine.Service.Answer
import TapeMachine.Text.Binary
import TapeMachine.Version

/-!
# Tools for language models

The compiler, the engine and the stored tables as tools that are called by name with JSON arguments,
and as messages of the remote procedure protocol that carries such calls.
-/

namespace TapeMachine

open Text (Binary Json)
open Service

/-- The tools' engine, and the tables they can use, if any. -/
structure Tools where
  engine : Engine := {}
  store? : Option Store := none

namespace Tools

/-! ### What there is -/

/-- What an answer holds. -/
inductive Shape where
  | text (description : String)
  | integer (description : String)
  | texts (description : String)
  | objects (description : String) (members : List (String × Shape))

/-- A tool: its name, what it does, the arguments it needs, and what its answers hold. -/
structure Description where
  name : String
  text : String
  required : List String := []
  answer : List (String × Shape) := []

/-- What the answer about runs holds. -/
def runShape : List (String × Shape) :=
  [("results", .objects "One result per input, in order"
    [("input", .text ""), ("tape", .text ""), ("state", .text ""), ("reason", .text ""),
      ("steps", .integer ""), ("line", .text "The result as '<input> -> <tape>: <state>'")])]

/-- The tools that need no stored tables. -/
def programTools : List Description :=
  [⟨"compile_program",
      "Compile a Turing machine program and return its canonical five-field table.", ["source"],
      [("initial_state", .text "The state the machine starts in"),
        ("transitions", .integer "Number of transitions in the table"),
        ("canonical", .text "The table as five-field lines")]⟩,
    ⟨"graph_program", "Render a program's state diagram as a Mermaid flowchart.", ["source"], []⟩,
    ⟨"run_program",
      "Compile a program and run it on each input tape. Use 'epsilon' for the empty tape.",
      ["source", "inputs"], runShape⟩]

/-- The tools for stored tables. -/
def tableTools : List Description :=
  [⟨"list_tables", "List the names of stored tables.", [],
      [("tables", .texts "Names of stored tables")]⟩,
    ⟨"run_table", "Run a stored table on each input tape.", ["name", "inputs"], runShape⟩]

/-- All tools, by name. -/
def descriptions (ts : Tools) : List Description :=
  (programTools ++ if ts.store?.isSome then tableTools else []).mergeSort
    (fun a b => a.name ≤ b.name)

/-! ### Schemas -/

/-- A schema for one type, with a description unless that is empty. -/
def typeSchema (type description : String) (more : List (String × Json) := []) : Json :=
  .object (more ++ [("type", .string type)] ++
    if description == "" then [] else [("description", .string description)])

/-- A schema for objects that hold certain members. -/
def objectSchema (members : List (String × Json)) (names : List String) : Json :=
  .object ([("properties", .object members)] ++
    (if names.isEmpty then [] else [("required", .strings names)]) ++ [("type", .string "object")])

mutual

/-- The schema of a part of an answer. -/
def Shape.schema : Shape → Json
  | .text d => typeSchema "string" d
  | .integer d => typeSchema "integer" d
  | .texts d => typeSchema "array" d [("items", typeSchema "string" "")]
  | .objects d ms => typeSchema "array" d [("items", objectSchema (schemas ms) (ms.map (·.1)))]

/-- The schemas of the members of an answer. -/
def schemas : List (String × Shape) → List (String × Json)
  | [] => []
  | (name, s) :: ms => (name, s.schema) :: schemas ms

end

/-- The schema of an argument. -/
def argumentSchema (name : String) : Json :=
  match name with
  | "inputs" => typeSchema "array" "Input tapes" [("items", typeSchema "string" "")]
  | "name" => typeSchema "string" "Table name"
  | _ => typeSchema "string" "Program text"

/-- What is told about how a tool acts. -/
def annotations : Json :=
  .object [("readOnlyHint", .bool false), ("destructiveHint", .bool true),
    ("idempotentHint", .bool false), ("openWorldHint", .bool true)]

/-- A tool as it is listed. -/
def Description.toJson (d : Description) : Json :=
  .object ([("annotations", annotations), ("description", .string d.text),
    ("inputSchema",
      objectSchema (d.required.map (fun name => (name, argumentSchema name))) d.required),
    ("name", .string d.name)] ++
    if d.answer.isEmpty then []
    else [("outputSchema", objectSchema (schemas d.answer) (d.answer.map (·.1)))])

/-! ### Results -/

/-- A piece of text. -/
def content (text : String) : String × Json :=
  ("content", .array [.object [("type", .string "text"), ("text", .string text)]])

/-- A result that is only text. -/
def textResult (text : String) : Json := .object [content text]

/-- A failure. -/
def errorResult (text : String) : Json := .object [content text, ("isError", .bool true)]

/-- A result with a structure, which is also given as text. -/
def structuredResult (v : Json) : Json :=
  .object [content v.render, ("structuredContent", v)]

/-- The result of a tool whose answers have a structure. -/
def result : Except String Json → Json
  | .ok v => structuredResult v
  | .error message => errorResult ("tool execution failed: " ++ message)

/-- Why a request has no result. -/
inductive Failure where
  | rpc (code : Int) (message : String)
  /-- The program ends at once. -/
  | crash (message : String)
  /-- What the request asks for never ends. -/
  | endless
deriving DecidableEq

/-! ### Calls -/

/-- The wording of a compile error. -/
def compileMessage : Program.Error → String
  | .at line cause => "compile failed at line " ++ toString line ++ ": " ++ cause.message
  | e => "compile failed: " ++ e.message

/-- Compiles a program and goes on with its table, or with the wording of the error. -/
def withTable (ts : Tools) (source : String) (act : Except String Table → Except Failure Json) :
    Except Failure Json :=
  match ts.engine.compile source with
  | .ok t => act (.ok t)
  | .error .endless => .error .endless
  | .error e => if e.isCrash then .error (.crash e.message) else act (.error (compileMessage e))

/-- Runs a table on some arguments. -/
def runTable (ts : Tools) (t : Table) (args : List String) : Except Failure Json :=
  match ts.engine.report none t args with
  | none => .error .endless
  | some (_, some cause) => .ok (result (.error ("run failed: " ++ cause.message)))
  | some (rs, none) => .ok (result (.ok (runAnswer rs)))

/-- The program of some arguments; arguments that hold no text there hold the empty program. -/
def sourceOf (arguments : Json) : String :=
  match arguments with
  | .object ms =>
    match ms.reverse.lookup "source" with
    | some (.string s) => s
    | _ => ""
  | _ => ""

/-- Reads the arguments of a call. -/
def withOrder (fields : List String) (arguments : Json) (act : Order → Except Failure Json) :
    Except Failure Json :=
  match Order.ofJson? fields arguments with
  | none => .ok (errorResult "failed to bind arguments")
  | some o => act o

/-- Calls a tool that needs no stored tables. -/
def callProgramTool (ts : Tools) (tool : String) (arguments : Json) :
    Option (Except Failure Json) :=
  match tool with
  | "compile_program" =>
    some (withOrder ["source"] arguments (fun o =>
      ts.withTable o.source (fun r => .ok (result (r.map summaryAnswer)))))
  | "run_program" =>
    some (withOrder ["source", "inputs"] arguments (fun o =>
      ts.withTable o.source (fun r =>
        match r with
        | .error message => .ok (result (.error message))
        | .ok t => ts.runTable t o.inputs.items)))
  | "graph_program" =>
    some (ts.withTable (sourceOf arguments) (fun r =>
      match r with
      | .error message => .ok (errorResult message)
      | .ok t => .ok (textResult (Diagram.render t))))
  | _ => none

/-- Calls a tool for stored tables. -/
def callTableTool (ts : Tools) (store : Store) (tool : String) (arguments : Json) :
    Option (Except Failure Json) :=
  match tool with
  | "list_tables" =>
    some (withOrder [] arguments (fun _ =>
      .ok (result (match (store.list .patient).2 with
        | .ok names => .ok (tablesAnswer names)
        | .error e => .error ("list failed: " ++ e.message)))))
  | "run_table" =>
    some (withOrder ["name", "inputs"] arguments (fun o =>
      match store.load .patient o.name with
      | .error e => .ok (result (.error ("load " ++ Text.quoted o.name ++ ": " ++ e.message)))
      | .ok t => ts.runTable (ts.engine.adopt t) o.inputs.items))
  | _ => none

/-- Calls a tool. -/
def call (ts : Tools) (tool : String) (arguments : Json) : Except Failure Json :=
  ((ts.callProgramTool tool arguments).or
      (ts.store?.bind (fun store => ts.callTableTool store tool arguments))).getD
    (.error (.rpc (-32602) ("tool '" ++ tool ++ "' not found: tool not found")))

/-! ### Resources -/

/-- The address of the list of tables. -/
def tablesAddress : String := "turing://tables"

/-- The format of the list of tables. -/
def tablesFormat : String × Json := ("mimeType", .string "application/json")

/-- A request for something that is not offered. -/
def unsupported (what : String) : Except Failure Json :=
  .error (.rpc (-32601) (what ++ " not supported"))

/-- Reads a resource. -/
def read (ts : Tools) (address : String) : Except Failure Json :=
  match ts.store? with
  | none => unsupported "resources"
  | some store =>
    if address != tablesAddress then
      .error (.rpc (-32002)
        ("handler not found for resource URI '" ++ address ++ "': resource not found"))
    else
      match (store.list .patient).2 with
      | .error e => .error (.rpc (-32603) ("failed to list tables: " ++ e.message))
      | .ok names =>
        .ok (.object [("contents", .array [.object [("uri", .string tablesAddress), tablesFormat,
          ("text", .string (tablesAnswer names).render)]])])

/-- Lists the resources, or, with `templates`, the patterns of their addresses. -/
def resources (ts : Tools) (templates : Bool) : Except Failure Json :=
  match ts.store?, templates with
  | none, _ => unsupported "resources"
  | some _, true => .ok (.object [("resourceTemplates", .array [])])
  | some _, false =>
    .ok (.object [("resources", .array [.object [("uri", .string tablesAddress),
      ("name", .string "Stored Tables"), tablesFormat]])])

/-! ### Messages -/

/-- What a value is called in a message. -/
def kindName : Json → String
  | .null => "null"
  | .bool _ => "bool"
  | .number _ => "number"
  | .string _ => "string"
  | .bytes _ => "string"
  | .array _ => "array"
  | .object _ => "object"

/-- The failure of a method whose parameters hold a value of a wrong kind. -/
def misfit (method : String) (v : Json) (place type : String) : Failure :=
  .rpc (-32600) ("unparsable " ++ method ++ " request: json: cannot unmarshal " ++ kindName v ++
    " into Go struct field " ++ place ++ " of type " ++ type)

/-- The parameters of a method that holds a text in a field, and perhaps arguments. -/
structure Params where
  text : String := ""
  arguments : Json := .null

/-- What the parameters of a method are called in messages: the record they belong to, the record
they are, and their field that holds a text. -/
structure ParamNames where
  method : String
  request : String
  params : String
  field : String

/-- The parameters of a call. -/
def callNames : ParamNames := ⟨"tools/call", "CallToolRequest", "CallToolParams", "name"⟩

/-- The parameters of a reading. -/
def readNames : ParamNames :=
  ⟨"resources/read", "ReadResourceRequest", "ReadResourceParams", "uri"⟩

/-- The parameters at the start of a conversation. -/
def greetNames : ParamNames :=
  ⟨"initialize", "InitializeRequest", "InitializeParams", "protocolVersion"⟩

/-- Reads the parameters of a method. -/
def paramsOf (names : ParamNames) (v : Json) : Except Failure Params :=
  match v with
  | .null => .ok {}
  | .object ms =>
    ms.foldlM (fun p m =>
      if Json.namesField names.field.toLower m.1 || names.field == m.1 then
        match Json.stringOver p.text m.2 with
        | some s => .ok { p with text := s }
        | none =>
          .error (misfit names.method m.2 (names.params ++ ".params." ++ names.field) "string")
      else if Json.namesField "arguments" m.1 then .ok { p with arguments := m.2 }
      else .ok p) {}
  | v => .error (misfit names.method v (names.request ++ ".params") ("mcp." ++ names.params))

/-- The versions of the protocol, the latest first. -/
def protocolVersions : List String := ["2025-06-18", "2025-03-26", "2024-11-05"]

/-- The version that is spoken with someone who asks for one. Who asks for none gets the one from
before it could be asked for. -/
def spokenVersion (asked : String) : String :=
  let asked := if asked == "" then "2025-03-26" else asked
  if protocolVersions.contains asked then asked else protocolVersions.headD asked

/-- What is told at the start of a conversation. -/
def greeting (ts : Tools) (asked : String) : Json :=
  .object [("protocolVersion", .string (spokenVersion asked)),
    ("capabilities", .object ((if ts.store?.isSome then [("resources", .object [])] else []) ++
      [("tools", .object [("listChanged", .bool true)])])),
    ("serverInfo", .object [("name", .string "turing-mcp"), ("version", .string version)])]

/-- The answer of a method. -/
def dispatch (ts : Tools) (method : String) (params : Json) : Except Failure Json :=
  match method with
  | "initialize" => (paramsOf greetNames params).map (fun p => ts.greeting p.text)
  | "ping" => .ok (.object [])
  | "tools/list" => .ok (.object [("tools", .array (ts.descriptions.map Description.toJson))])
  | "tools/call" => (paramsOf callNames params).bind (fun p => ts.call p.text p.arguments)
  | "resources/list" => ts.resources false
  | "resources/templates/list" => ts.resources true
  | "resources/read" =>
    if ts.store?.isNone then unsupported "resources"
    else (paramsOf readNames params).bind (fun p => ts.read p.text)
  | "prompts/list" => unsupported "prompts"
  | "prompts/get" => unsupported "prompts"
  | "logging/setLevel" => unsupported "logging"
  | _ => .error (.rpc (-32601) ("Method " ++ method ++ " not found"))

/-- The message that answers the request with an identifier. -/
def reply (id : Json) (r : Except (Int × String) Json) : Json :=
  .object [("jsonrpc", .string "2.0"), ("id", id),
    match r with
    | .ok v => ("result", v)
    | .error (code, message) =>
      ("error", .object [("code", .int code), ("message", .string message)])]

/-- A message: a request, or, without an identifier, a notice. -/
structure Message where
  version : String := ""
  method : String := ""
  id : Json := .null
  result : Json := .null
  params : Json := .null

/-- An identifier as it is given back: a number is a binary fraction. -/
def identifier? : Json → Option Json
  | .number ds =>
    let negative := ds.head? == some '-'
    ((Binary.decimal? (if negative then ds.drop 1 else ds)).bind Binary.ofDecimal?).map
      (fun b => .number ((if negative then ['-'] else []) ++ b.shortest.number.toList))
  | v => some v

/-- Reads one member of a message. -/
def Message.member (name : String) (v : Json) (m : Message) : Option Message :=
  if Json.namesField "jsonrpc" name then
    (Json.stringOver m.version v).map (fun s => { m with version := s })
  else if Json.namesField "method" name then
    (Json.stringOver m.method v).map (fun s => { m with method := s })
  else if Json.namesField "id" name then (identifier? v).map (fun v => { m with id := v })
  else if Json.namesField "result" name then some { m with result := v }
  else if Json.namesField "params" name then some { m with params := v }
  else some m

/-- Whether a value is there. -/
def isGiven : Json → Bool
  | .null => false
  | _ => true

/-- Answers one line of messages. Neither a notice nor the answer to a request has an answer. -/
def answerLine (ts : Tools) (line : String) : Option Json :=
  match Json.parse? line with
  | none => some (reply .null (.error (-32700, "Parse error")))
  | some v =>
    match Json.recordOver Message.member {} v with
    | none => some (reply .null (.error (-32700, "Failed to parse message")))
    | some m =>
      if m.version != "2.0" then
        some (reply m.id (.error (-32600, "Invalid JSON-RPC version")))
      else if !isGiven m.id || isGiven m.result then none
      else
        match ts.dispatch m.method m.params with
        | .ok v => some (reply m.id (.ok v))
        | .error (.rpc code message) => some (reply m.id (.error (code, message)))
        | .error (.crash _) => none
        | .error .endless => none

end Tools

end TapeMachine
