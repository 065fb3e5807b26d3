import SessionKeys.Engine
import SessionKeys.Report
import SessionKeys.Tool.Request

/-!
What the tools do. A run of a request gives an answer, the engine after it and the events that report
its changes. A change that was made stays made even if the answer to it cannot be written, because a
time has no date.
-/

namespace SessionKeys

/-- Why a tool answers with an error. -/
inductive ToolFault where
  | unknownTool
  | badArguments (issues : List Issue)
  | failed (failure : Failure)
  /-- an operation is not signed by its operator or owner -/
  | badSignature
deriving DecidableEq, Repr

/-- What a tool answers. -/
structure ToolAnswer where
  text : String
  /-- whether the answer is marked as an error, if it is marked at all -/
  isError : Option Bool
  fault : Option ToolFault
deriving DecidableEq, Repr

namespace ToolAnswer

/-- An answer that is not marked. -/
def plain (text : String) : ToolAnswer :=
  { text, isError := none, fault := none }

/-- The answer to a request that failed. -/
def failure (tool : Tool) (f : Failure) : ToolAnswer :=
  { text := f.report.text tool.name, isError := some true, fault := some (.failed f) }

/-- The answer to a request that may have failed. -/
def ofExcept (tool : Tool) (x : Except Failure String) : ToolAnswer :=
  match x with
  | .ok text => plain text
  | .error f => failure tool f

end ToolAnswer

/-- A request that was run. -/
structure ToolRun where
  answer : ToolAnswer
  engine : Engine
  events : List Event

namespace Engine

/-! ### Sessions -/

/-- What is shown of a committed session. -/
def leafJson (tree : SessionTree) (index : Nat) (s : Session) : Except Failure Json := do
  let leaf ← orFail s.leaf
  let proof ← orFail (tree.proof s)
  return .object [("index", .ofInt index), ("to", .string s.target.text),
    ("selector", .string s.selector.text), ("allowedArguments", .string s.allowedArguments.text),
    ("leaf", .string leaf.text), ("proof", .array (proof.map fun h => .string h.text))]

/-- The tree of some sessions as it is shown. -/
def treeText (sessions : List Session) : Except Failure String := do
  let tree ← SessionTree.ofSessions sessions
  let leaves ← sessions.zipIdx.mapM fun (s, index) => leafJson tree index s
  let headline := successText s!"Built session tree with {sessions.length} session(s)"
    [("Root", tree.root.text)]
  return headline ++ "\n\n" ++ (Json.array leaves).pretty 0

/-- The answer about a call that is checked against a session. -/
def checkText (session : Session) (target : Address) (data : Hex) (value : Int)
    (actualArguments : Hex) : Except Failure String := do
  SessionKeys.checkArguments session target data value actualArguments
  return successText "Call is allowed by the session"
    [("To", target.text), ("Selector", session.selector.text), ("Value", toString value)]

/-! ### Management -/

/-- Runs a request that changes nothing. -/
def query (e : Engine) (tool : Tool) (x : Except Failure String) : ToolRun :=
  { answer := .ofExcept tool x, engine := e, events := [] }

/-- Runs management calls in order, and answers with the engine after them. -/
def change (e : Engine) (tool : Tool) (calls : List ManagementCall)
    (text : Engine → Except Failure String) : ToolRun :=
  match calls with
  | [] => e.query tool (text e)
  | call :: rest =>
    match e.manage call with
    | .error r => { answer := .failure tool (.refused r), engine := e, events := [] }
    | .ok (next, events) =>
      let run := next.change tool rest text
      { run with events := events ++ run.events }

/-- The answer about a permission that was set. -/
def permissionSetText (operator : Address) (permission : OperatorPermission) (limitCount : Nat) :
    Except Failure String := do
  return successText "Operator permission set"
    ([("Operator", operator.text)] ++ (← permission.details) ++
      [("Spending limits", toString limitCount)])

/-- The permission of an operator as it is shown. -/
def permissionText (e : Engine) (operator : Address) : Except Failure String := do
  let wallet := e.config.walletAddress
  let details ← (e.store.permission wallet operator).details
  return s!"🔑 **Operator Permission**\n\n📍 Wallet:   {wallet.text}\n👤 Operator: {operator.text}\n\n" ++
    String.join (details.map fun d => s!"  {d.1}: {d.2}\n") ++
    s!"  Permit nonce: {e.store.permitNonce wallet operator}\n"

/-- The management call that a request about a spending limit makes. A limit needs an allowance. -/
def limitCall (wallet operator token : Address) (allowance : Option Int) :
    LimitAction → Except Failure ManagementCall
  | .set =>
    match allowance with
    | some a => .ok (.setSpendingLimit wallet operator token a)
    | none => .error .noAllowance
  | .reset => .ok (.resetSpendingLimit wallet operator token)
  | .delete => .ok (.deleteSpendingLimit wallet operator token)

/-- The answer about a spending limit that was changed. -/
def limitChangedText (operator token : Address) (action : LimitAction) (e : Engine) : String :=
  successText s!"Spending limit {action.name} done"
    [("Operator", operator.text), ("Token", token.text),
     ("Limit", limitText (e.store.spendingLimit? e.config.walletAddress operator token))]

/-- The spending limits of an operator on some tokens as they are shown. -/
def limitsText (e : Engine) (operator : Address) (tokens : List Address) : String :=
  let wallet := e.config.walletAddress
  let line (token : Address) : String :=
    let label := if token = Address.zero then "Native" else token.text
    s!"  {label}: {limitText (e.store.spendingLimit? wallet operator token)}\n"
  s!"💸 **Spending Limits** ({operator.text})\n\n" ++ String.join (tokens.map line) ++
    s!"\n  Gas remaining: {budgetText (e.store.permission wallet operator).gasRemaining}\n"

/-- The answer about a permit that was revoked. -/
def revokedText (alreadyRevoked : Bool) (hash : Hex) : String :=
  successText (if alreadyRevoked then "Signature was already revoked" else "Signature revoked")
    [("Hash", hash.text)]

/-- The message of a permit as it is shown. -/
def permitHashText (e : Engine) (operator : Address) (permission : OperatorPermission)
    (spendingLimits : List SpendingLimit) : Except Failure String := do
  let wallet := e.config.walletAddress
  let hash ← orFail (e.permitMessageHash wallet operator permission spendingLimits)
  return successText "Permit hash computed"
    [("Hash", hash.text), ("Nonce", toString (e.store.permitNonce wallet operator)),
     ("Chain ID", e.config.chainId.text),
     ("Revoked", if e.store.isHashUsed wallet hash then "yes" else "no")]

/-! ### Validation -/

/-- A number in base sixteen. -/
def hexNumber (n : Int) : String :=
  "0x" ++ (if n < 0 then "-" else "") ++ String.ofList (Nat.toDigits 16 n.natAbs)

/-- The answer about the result of a validation. -/
def validationAnswer (hash : Hex) (mode : String) (data : ValidationData) : ToolAnswer :=
  match data.details, data.pack with
  | .error f, _ => .failure .validateUserOp f
  | _, .error e => .failure .validateUserOp (.encoding e)
  | .ok result, .ok packed =>
    let details := [("User op hash", hash.text), ("Mode", mode)] ++ result ++
      [("Validation data", hexNumber packed)]
    if data.failed then
      { text := refusalText "User operation rejected (bad signature)" details
        isError := some true
        fault := some .badSignature }
    else
      { text := successText "User operation authorized" details
        isError := some false
        fault := none }

/-- The answer about a validation that failed. -/
def validationFailure (mode : String) (f : Failure) : ToolAnswer :=
  let answer := ToolAnswer.failure .validateUserOp f
  { answer with text := answer.text ++ s!"\n\n  Mode: {mode}\n  Validation data: 1" }

/-- Validates a user operation, as a dry run unless it is to be committed. -/
def runValidation (e : Engine) (op : UserOperation) (commit : Bool) : ToolRun :=
  match e.userOpHash op with
  | .error x => { answer := .failure .validateUserOp (.encoding x), engine := e, events := [] }
  | .ok hash =>
    let mode := if commit then "committed" else "dry run"
    let outcome := e.tryValidateUserOp .silent op hash (!commit)
    { answer :=
        match outcome.result with
        | .error f => validationFailure mode f
        | .ok data => validationAnswer hash mode data
      engine := { e with store := outcome.store }
      events := outcome.events }

/-! ### Requests -/

def run (e : Engine) (request : ToolRequest) : ToolRun :=
  let wallet := e.config.walletAddress
  match request with
  | .buildSessionTree sessions => e.query request.tool (treeText sessions)
  | .checkArguments session target data value actualArguments =>
    e.query request.tool (checkText session target data value actualArguments)
  | .setSessionRoot operator sessionRoot =>
    e.change request.tool [.setSessionRoot wallet operator sessionRoot] fun _ =>
      .ok (successText "Session root set" [("Operator", operator.text), ("Root", sessionRoot.text)])
  | .setOperatorPermission operator permission limits =>
    e.change request.tool
      [.setOperatorPermission wallet operator permission,
       .batchSetSpendingLimit wallet operator (limits.getD [])]
      fun _ => permissionSetText operator permission (limits.getD []).length
  | .getOperatorPermission operator => e.query request.tool (e.permissionText operator)
  | .setSpendingLimit operator token allowance action =>
    let token := token.getD Address.zero
    match limitCall wallet operator token allowance action with
    | .error f => e.query request.tool (.error f)
    | .ok call => e.change request.tool [call] fun e => .ok (e.limitChangedText operator token action)
  | .getSpendingLimit operator tokens =>
    let asked := tokens.getD []
    let shown := if asked.isEmpty then [Address.zero] else asked
    e.query request.tool (.ok (e.limitsText operator shown))
  | .revokeSignature hash =>
    let alreadyRevoked := e.store.isHashUsed wallet hash
    e.change request.tool [.revokeSignature wallet hash] fun _ =>
      .ok (revokedText alreadyRevoked hash)
  | .getPermitHash operator permission limits =>
    e.query request.tool (e.permitHashText operator permission limits)
  | .validateUserOp op commit => e.runValidation op commit

end Engine

/-- The answer to a request where nothing is configured. Only sessions can be committed then. -/
def ToolRequest.answerUnconfigured (error : ConfigError) (request : ToolRequest) : ToolAnswer :=
  match request with
  | .buildSessionTree sessions => .ofExcept request.tool (Engine.treeText sessions)
  | _ => .failure request.tool (.configuration error)

end SessionKeys
