import SessionKeys.Config
import SessionKeys.Event
import SessionKeys.Json
import SessionKeys.Rlp
import SessionKeys.SessionSignature
import SessionKeys.Spending
import SessionKeys.Tool.Request

/-!
The JSON forms of values and records. Byte strings and addresses are texts. Amounts and other numbers
that may be large are decimal texts, while times and kinds of call are numbers. A part that is not
there is left out.
-/

namespace SessionKeys

class JsonForm (α : Type) where
  json : α → Json

export JsonForm (json)

namespace JsonForm

variable {α : Type} [JsonForm α]

/-- A part of a record. -/
def part (name : String) (value : α) : List (String × Json) :=
  [(name, json value)]

/-- A part of a record that may be left out. -/
def part? (name : String) (value : Option α) : List (String × Json) :=
  (value.map fun v => (name, json v)).toList

/-- A number, with the fewest digits that read back; none if it is infinite. -/
def number : Number → Json
  | .finite value => .number (Binary64.shortest value)
  | .infinite _ => .null

/-- A part of a record that is a number. -/
def numberPart (name : String) (value : Number) : List (String × Json) :=
  [(name, number value)]

mutual

/-- A value whose numbers are all of 64 binary digits. -/
def rounded : Json → Json
  | .number d => number (Binary64.ofDecimal d)
  | .array items => .array (roundedItems items)
  | .object fields => .object (roundedFields fields)
  | other => other

def roundedItems : List Json → List Json
  | [] => []
  | item :: items => rounded item :: roundedItems items

def roundedFields : List (String × Json) → List (String × Json)
  | [] => []
  | (name, value) :: fields => (name, rounded value) :: roundedFields fields

end

instance : JsonForm Json := ⟨id⟩
instance : JsonForm Bool := ⟨.bool⟩
instance : JsonForm String := ⟨.string⟩
instance : JsonForm Hex := ⟨fun h => .string h.text⟩
instance : JsonForm Address := ⟨fun a => .string a.text⟩
instance : JsonForm Int := ⟨fun n => .string (toString n)⟩
instance : JsonForm Nat := ⟨fun n => .string (toString n)⟩
instance : JsonForm (List α) := ⟨fun l => .array (l.map json)⟩

instance : JsonForm ExecutionMode where
  json
    | .single => .string "single"
    | .batch => .string "batch"

instance : JsonForm ValidityWindow where
  json w := .object (numberPart "validUntil" w.validUntil ++ numberPart "validAfter" w.validAfter)

instance : JsonForm ValidationData where
  json d := .object (part "failed" d.failed ++ numberPart "validUntil" d.validUntil ++
    numberPart "validAfter" d.validAfter)

instance : JsonForm Session where
  json s := .object (part "to" s.target ++ part "selector" s.selector ++
    part "allowedArguments" s.allowedArguments ++ part "paymaster" s.paymaster ++
    numberPart "validUntil" s.validUntil ++ numberPart "validAfter" s.validAfter ++
    part "timesLimit" s.timesLimit)

instance : JsonForm OperatorPermission where
  json p := .object (part "sessionRoot" p.sessionRoot ++ part "paymaster" p.paymaster ++
    numberPart "validUntil" p.validUntil ++ numberPart "validAfter" p.validAfter ++
    part "gasRemaining" p.gasRemaining ++ part "timesRemaining" p.timesRemaining)

instance : JsonForm SpendingLimit where
  json l := .object (part "token" l.token ++ part "allowance" l.allowance)

instance : JsonForm SpendingLimitInfo where
  json i := .object (part "allowance" i.allowance ++ part "spent" i.spent)

instance : JsonForm TokenSpend where
  json s := .object (part "token" s.token ++ part "amount" s.amount)

instance : JsonForm WalletCall where
  json c := .object (part "to" c.target ++ part "value" c.value ++ part "data" c.data ++
    numberPart "operation" c.operation)

instance : JsonForm WalletOperation where
  json o := .object (part "mode" o.mode ++ part "calls" o.calls)

instance : JsonForm UserOperation where
  json o := .object (part "sender" o.sender ++ part "nonce" o.nonce ++ part "initCode" o.initCode ++
    part "callData" o.callData ++ part "callGasLimit" o.callGasLimit ++
    part "verificationGasLimit" o.verificationGasLimit ++
    part "preVerificationGas" o.preVerificationGas ++ part "maxFeePerGas" o.maxFeePerGas ++
    part "maxPriorityFeePerGas" o.maxPriorityFeePerGas ++
    part "paymasterAndData" o.paymasterAndData ++ part "signature" o.signature)

instance : JsonForm Permit where
  json p := .object (part "signature" p.signature ++ part "permission" p.permission ++
    part "spendingLimits" p.spendingLimits)

instance : JsonForm SessionSignature where
  json s := .object (part "mode" s.mode ++ part "proofs" (s.entries.map (·.proof)) ++
    part "operator" s.operator ++ part "sessions" (s.entries.map (·.session)) ++
    part "arguments" (s.entries.map (·.arguments)) ++
    part "operatorSignature" s.operatorSignature ++ part? "permit" s.permit)

instance : JsonForm Config where
  json c := .object (part "walletAddress" c.walletAddress ++
    part "validatorAddress" c.validatorAddress ++ numberPart "chainId" c.chainId ++
    part "entryPointAddress" c.entryPointAddress ++ part? "ownerAddress" c.ownerAddress ++
    part? "sudoValidatorAddress" c.sudoValidatorAddress)

/-! ### Predicates -/

mutual

/-- The JSON form of a predicate. -/
def ofPredicate : Predicate → Json
  | .any => .object (part "op" PredicateTag.any.name)
  | .compare op literal => .object (part "op" op.name ++ part "value" literal)
  | .combine op children => .object (part "op" op.name ++ [("children", .array (ofPredicates children))])

def ofPredicates : List Predicate → List Json
  | [] => []
  | p :: ps => ofPredicate p :: ofPredicates ps

end

instance : JsonForm Predicate := ⟨ofPredicate⟩

/-! ### Nested byte strings -/

mutual

/-- The JSON form of a nested byte string. -/
def ofRlp : Rlp → Json
  | .bytes h => json h
  | .list items => .array (ofRlps items)

def ofRlps : List Rlp → List Json
  | [] => []
  | item :: items => ofRlp item :: ofRlps items

end

instance : JsonForm Rlp := ⟨ofRlp⟩

/-! ### Events and requests -/

/-- The parts of an event by name, in order. -/
def eventParts : Event → List (String × Json)
  | .sessionRootSet wallet operator sessionRoot =>
    part "wallet" wallet ++ part "operator" operator ++ part "sessionRoot" sessionRoot
  | .operatorRemainingGasSet wallet operator gasRemaining =>
    part "wallet" wallet ++ part "operator" operator ++ part "gasRemaining" gasRemaining
  | .operatorRemainingTimesSet wallet operator timesRemaining =>
    part "wallet" wallet ++ part "operator" operator ++ part "timesRemaining" timesRemaining
  | .operatorPermissionSet wallet operator permission =>
    part "wallet" wallet ++ part "operator" operator ++ part "permission" permission
  | .spendingLimitSet wallet operator token allowance =>
    part "wallet" wallet ++ part "operator" operator ++ part "token" token ++
      part "allowance" allowance
  | .spendingLimitReset wallet operator token | .spendingLimitDeleted wallet operator token =>
    part "wallet" wallet ++ part "operator" operator ++ part "token" token
  | .signatureRevoked wallet hash => part "wallet" wallet ++ part "hash" hash
  | .permitConsumed wallet operator hash nonce =>
    part "wallet" wallet ++ part "operator" operator ++ part "hash" hash ++ part "nonce" nonce

instance : JsonForm Event where
  json e := .object (part "type" e.kind ++ eventParts e)

instance : JsonForm ToolRequest where
  json r := .object (match r with
    | .buildSessionTree sessions => part "sessions" sessions
    | .checkArguments session target data value actualArguments =>
      part "session" session ++ part "to" target ++ part "data" data ++ part "value" value ++
        part "actual_arguments" actualArguments
    | .setSessionRoot operator sessionRoot =>
      part "operator" operator ++ part "session_root" sessionRoot
    | .setOperatorPermission operator permission limits =>
      part "operator" operator ++ part "permission" permission ++ part? "spending_limits" limits
    | .getOperatorPermission operator => part "operator" operator
    | .setSpendingLimit operator token allowance action =>
      part "operator" operator ++ part? "token" token ++ part? "allowance" allowance ++
        part "action" action.name
    | .getSpendingLimit operator tokens => part "operator" operator ++ part? "tokens" tokens
    | .revokeSignature hash => part "hash" hash
    | .getPermitHash operator permission limits =>
      part "operator" operator ++ part "permission" permission ++ part "spending_limits" limits
    | .validateUserOp op commit => part "user_op" op ++ part "commit" commit)

end JsonForm

end SessionKeys
