import SessionKeys.Log
import SessionKeys.Tool.Descriptor
import SessionKeys.Tool.Run

/-!
A server: an engine that is configured from an environment, and that answers calls of tools by name.
Every call is answered; a call that cannot be run is answered with an error, and changes nothing.
-/

namespace SessionKeys

/-- A call of a tool by name. The arguments may be missing. -/
structure ToolCall where
  name : String
  arguments : Option Json

namespace Server

/-- The engine that an environment configures. -/
def start (env : Environment) : Except ConfigError Engine :=
  (Config.load env).map Engine.ofConfig

/-- How the owner of a started engine is shown. -/
def ownerText (config : Config) : String :=
  match Engine.ownerValidator? config with
  | some (_, owner) => owner.text
  | none => "(none, permits disabled)"

def startedLine (config : Config) : String :=
  s!"SessionGuard MCP v0.1.0 started. Wallet: {config.walletAddress.text} | " ++
  s!"Validator: {config.validatorAddress.text} | Chain: {config.chainId.text} | " ++
  s!"Owner: {ownerText config}"

def fatalLine (error : ConfigError) : String :=
  s!"Fatal error starting SessionGuard MCP: {error.message}"

/-- The answer to a call of a tool that there is not. -/
def unknownToolAnswer (name : String) : ToolAnswer :=
  { text := "❌ Unknown tool: \"" ++ name ++ "\". Available tools: " ++
      ", ".intercalate (Tool.all.map Tool.name)
    isError := some true
    fault := some .unknownTool }

/-- The answer to a call with arguments that the tool does not take. -/
def badArgumentsAnswer (tool : Tool) (issues : List Issue) : ToolAnswer :=
  { text := "❌ Tool \"" ++ tool.name ++ "\" failed: " ++
      (Json.array (issues.map Issue.json)).pretty 0
    isError := some true
    fault := some (.badArguments issues) }

/-- Answers a call. -/
def call (e : Engine) (c : ToolCall) : ToolRun :=
  match Tool.ofName? c.name with
  | none => { answer := unknownToolAnswer c.name, engine := e, events := [] }
  | some tool =>
    match ToolRequest.reader tool [] c.arguments with
    | .ok request => e.run request
    | .soft issues | .hard issues =>
      { answer := badArgumentsAnswer tool issues, engine := e, events := [] }

def calls (e : Engine) : List ToolCall → List (ToolAnswer × List Event) × Engine
  | [] => ([], e)
  | c :: rest =>
    let run := call e c
    let (answers, last) := calls run.engine rest
    ((run.answer, run.events) :: answers, last)

end Server

end SessionKeys
