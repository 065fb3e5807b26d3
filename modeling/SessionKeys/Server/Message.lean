import SessionKeys.Json.Reading
import SessionKeys.Server

/-!
Messages between clients and a server: one JSON object on a line. A message that has an id asks for an
answer under this id; one without an id only tells something, and is not answered.
-/

namespace SessionKeys.Server

/-- What a message asks for. -/
inductive Method where
  /-- to agree on a version of the protocol -/
  | greet (version : String)
  | listTools
  | callTool (c : ToolCall)
  /-- something that the server does not do -/
  | unknown (name : String)

/-- A message that asks for something. -/
structure Message where
  id : Option Json
  method : Method

def fieldsOf : Option Json → List (String × Json)
  | some (.object fields) => fields
  | _ => []

def textField? (fields : List (String × Json)) (name : String) : Option String :=
  match Json.field? fields name with
  | some (.string s) => some s
  | _ => none

/-- The version of the protocol that is spoken unless a client asks for another one. -/
def defaultVersion : String := "2025-06-18"

/-- A method by name, with its parameters. -/
def Method.ofName (name : String) (parameters : List (String × Json)) : Method :=
  match name with
  | "initialize" => .greet ((textField? parameters "protocolVersion").getD defaultVersion)
  | "tools/list" => .listTools
  | "tools/call" =>
    .callTool ⟨(textField? parameters "name").getD "", Json.field? parameters "arguments"⟩
  | other => .unknown other

/-- The message on a line, if there is one. -/
def Message.ofLine? (line : String) : Option Message := do
  let fields := fieldsOf (← Json.ofText? line)
  let name ← textField? fields "method"
  some ⟨Json.field? fields "id", .ofName name (fieldsOf (Json.field? fields "params"))⟩

/-! ### Answers -/

/-- An answer of a tool as JSON. -/
def answerJson (answer : ToolAnswer) : Json :=
  .object ([("content", .array [.object [("type", .string "text"), ("text", .string answer.text)]])] ++
    (answer.isError.map fun b => ("isError", Json.bool b)).toList)

/-- What is told about the server when it is greeted. -/
def greetingJson (version : String) : Json :=
  .object [("protocolVersion", .string version),
    ("capabilities", .object [("tools", .object [])]),
    ("serverInfo", .object [("name", .string "sessionguard-mcp"), ("version", .string "0.1.0")])]

/-- Why a message cannot be answered. -/
inductive MessageError where
  | notAMessage
  | unknownMethod (name : String)
deriving DecidableEq, Repr

namespace MessageError

def code : MessageError → Int
  | notAMessage => -32600
  | unknownMethod _ => -32601

def message : MessageError → String
  | notAMessage => "Invalid request"
  | unknownMethod name => s!"Method not found: {name}"

def json (e : MessageError) : Json :=
  .object [("code", .ofInt e.code), ("message", .string e.message)]

end MessageError

/-- The line that answers a message. -/
def answerLine (id : Json) (result : Except MessageError Json) : String :=
  let outcome := match result with
    | .ok value => ("result", value)
    | .error e => ("error", e.json)
  (Json.object [("jsonrpc", .string "2.0"), ("id", id), outcome]).compact

/-- What follows from a line: the line that answers it, if it is answered, the engine after it, and
the events that report its changes. -/
structure Reply where
  line : Option String
  engine : Engine
  events : List Event

/-- Does what a method asks for. -/
def perform (e : Engine) : Method → Except MessageError Json × Engine × List Event
  | .greet version => (.ok (greetingJson version), e, [])
  | .listTools => (.ok (.object [("tools", .array (Tool.all.map Tool.descriptor))]), e, [])
  | .callTool c =>
    let run := call e c
    (.ok (answerJson run.answer), run.engine, run.events)
  | .unknown name => (.error (.unknownMethod name), e, [])

/-- Answers a line. -/
def respond (e : Engine) (line : String) : Reply :=
  match Message.ofLine? line with
  | none => { line := some (answerLine .null (.error .notAMessage)), engine := e, events := [] }
  | some m =>
    let (result, engine, events) := perform e m.method
    { line := m.id.map fun id => answerLine id result, engine, events }

end SessionKeys.Server
