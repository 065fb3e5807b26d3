import SessionKeys.Config
import SessionKeys.JsonForm.Reading
import SessionKeys.Registry
import SessionKeys.Report
import SessionKeys.SessionSignature
import SessionKeys.Spending
import SessionKeys.Tool.Request

/-!
Reading records from their JSON forms, part by part, and requests to tools from the forms of their
arguments. Parts that are not asked for are ignored.
-/

namespace SessionKeys.OfJson

/-! ### Names -/

instance : OfJson ExecutionMode := ⟨choice [("single", .single), ("batch", .batch)]⟩
instance : OfJson ValidatorClass := ⟨choice [("sudo", .sudo), ("normal", .normal)]⟩
instance : OfJson LimitAction := ⟨choice LimitAction.byName⟩
instance : OfJson Tool := ⟨choice (Tool.all.map fun tool => (tool.name, tool))⟩

/-! ### Records -/

instance : OfJson ValidityWindow where
  ofJson j := do return ⟨← j.part Number "validUntil", ← j.part Number "validAfter"⟩

instance : OfJson ValidationData where
  ofJson j := do
    return ⟨← j.part Bool "failed", ← j.part Number "validUntil", ← j.part Number "validAfter"⟩

instance : OfJson Session where
  ofJson j := do
    return {
      target := ← j.part Address "to"
      selector := ← j.part Hex "selector"
      allowedArguments := ← j.part Hex "allowedArguments"
      paymaster := ← j.part Address "paymaster"
      validUntil := ← j.part Number "validUntil"
      validAfter := ← j.part Number "validAfter"
      timesLimit := ← j.part Int "timesLimit" }

instance : OfJson OperatorPermission where
  ofJson j := do
    return {
      sessionRoot := ← j.part Hex "sessionRoot"
      paymaster := ← j.part Address "paymaster"
      validUntil := ← j.part Number "validUntil"
      validAfter := ← j.part Number "validAfter"
      gasRemaining := ← j.part Int "gasRemaining"
      timesRemaining := ← j.part Int "timesRemaining" }

instance : OfJson SpendingLimit where
  ofJson j := do return ⟨← j.part Address "token", ← j.part Int "allowance"⟩

instance : OfJson SpendingLimitInfo where
  ofJson j := do return ⟨← j.part Int "allowance", ← j.part Int "spent"⟩

instance : OfJson TokenSpend where
  ofJson j := do return ⟨← j.part Address "token", ← j.part Int "amount"⟩

instance : OfJson WalletCall where
  ofJson j := do
    return ⟨← j.part Address "to", ← j.part Int "value", ← j.part Hex "data",
      ← j.part Number "operation"⟩

instance : OfJson UserOperation where
  ofJson j := do
    return {
      sender := ← j.part Address "sender"
      nonce := ← j.part Int "nonce"
      initCode := ← j.part Hex "initCode"
      callData := ← j.part Hex "callData"
      callGasLimit := ← j.part Int "callGasLimit"
      verificationGasLimit := ← j.part Int "verificationGasLimit"
      preVerificationGas := ← j.part Int "preVerificationGas"
      maxFeePerGas := ← j.part Int "maxFeePerGas"
      maxPriorityFeePerGas := ← j.part Int "maxPriorityFeePerGas"
      paymasterAndData := ← j.part Hex "paymasterAndData"
      signature := ← j.part Hex "signature" }

instance : OfJson Permit where
  ofJson j := do
    return ⟨← j.part Hex "signature", ← j.part OperatorPermission "permission",
      ← j.part (List SpendingLimit) "spendingLimits"⟩

instance : OfJson SignatureParts where
  ofJson j := do
    return {
      validator := ← j.part Address "validator"
      proofs := ← j.part (List (List Hex)) "proofs"
      operator := ← j.part Address "operator"
      sessions := ← j.part (List Session) "sessions"
      arguments := ← j.part (List Hex) "arguments"
      operatorSignature := ← j.part Hex "operatorSignature"
      permit := ← j.part? Permit "permit" }

instance : OfJson PermitMessage where
  ofJson j := do
    return {
      wallet := ← j.part Address "wallet"
      operator := ← j.part Address "operator"
      permission := ← j.part OperatorPermission "permission"
      spendingLimits := ← j.part (List SpendingLimit) "spendingLimits"
      chainId := ← j.part Number "chainId"
      nonce := ← j.part Int "nonce" }

def address? (j : Json) (name : String) : Except FormError (Option Address) := do
  return (← j.part? Address name).filter fun a => !a.hex.text.isEmpty

instance : OfJson Config where
  ofJson j := do
    return {
      walletAddress := ← j.part Address "walletAddress"
      validatorAddress := ← j.part Address "validatorAddress"
      chainId := ← j.part Number "chainId"
      entryPointAddress := ← j.part Address "entryPointAddress"
      ownerAddress := ← address? j "ownerAddress"
      sudoValidatorAddress := ← address? j "sudoValidatorAddress" }

/-- A report with a code and a message, with a message alone, or a bare text. -/
instance : OfJson ErrorReport where
  ofJson j := do
    match ← j.part? String "code", ← j.part? String "message" with
    | some code, some m => return .coded code m
    | none, some m => return .plain m
    | _, none => return .bare (← j.part String "text")

/-- An environment: every field that holds a text is a variable. -/
instance : OfJson Environment where
  ofJson j := .ok fun name =>
    match j.member? name with
    | some (.string s) => some s
    | _ => none

/-! ### Details -/

/-- The number of a name that writes one without zeros in front, up to `2 ^ 32 - 2`. -/
def index? (name : String) : Option Nat :=
  (decimal? name.toList).filter fun n => toString n == name && n < 0xffffffff

/-- Details in the order in which they are shown: names that are numbers come first and in order, and
of values with one name the last one counts. -/
def arranged (pairs : Details) : Details :=
  let (numbered, named) := (pairs.map (·.1)).eraseDups.partition fun name => (index? name).isSome
  let sorted := numbered.mergeSort fun a b => (index? a).getD 0 ≤ (index? b).getD 0
  (sorted ++ named).filterMap fun name => pairs.reverse.find? fun d => d.1 == name

instance : OfJson Details where
  ofJson j := do
    let pairs ← (ofJson j : Except FormError (List (List String)))
    return arranged (pairs.filterMap fun
      | [name, value] => some (name, value)
      | _ => none)

/-! ### Requests -/

/-- Reads a request to a tool. -/
def request (tool : Tool) (j : Json) : Except FormError ToolRequest := do
  match tool with
  | .buildSessionTree => return .buildSessionTree (← j.part (List Session) "sessions")
  | .checkArguments =>
    return .checkArguments (← j.part Session "session") (← j.part Address "to")
      (← j.part Hex "data") (← j.part Int "value") (← j.part Hex "actual_arguments")
  | .setSessionRoot =>
    return .setSessionRoot (← j.part Address "operator") (← j.part Hex "session_root")
  | .setOperatorPermission =>
    return .setOperatorPermission (← j.part Address "operator")
      (← j.part OperatorPermission "permission")
      (← j.part? (List SpendingLimit) "spending_limits")
  | .getOperatorPermission => return .getOperatorPermission (← j.part Address "operator")
  | .setSpendingLimit =>
    return .setSpendingLimit (← j.part Address "operator") (← j.part? Address "token")
      (← j.part? Int "allowance") (← j.part LimitAction "action")
  | .getSpendingLimit =>
    return .getSpendingLimit (← j.part Address "operator") (← j.part? (List Address) "tokens")
  | .revokeSignature => return .revokeSignature (← j.part Hex "hash")
  | .getPermitHash =>
    return .getPermitHash (← j.part Address "operator") (← j.part OperatorPermission "permission")
      (← j.part (List SpendingLimit) "spending_limits")
  | .validateUserOp =>
    return .validateUserOp (← j.part UserOperation "user_op") ((← j.part? Bool "commit").getD false)

end SessionKeys.OfJson
