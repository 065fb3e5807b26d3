import SessionKeys.Config
import SessionKeys.Management
import SessionKeys.Validation.Outcome

/-!
An engine: one configured wallet with its store and its validators. Management and validation are
steps from an engine to an engine. A validation that needs an answer from outside is run to the point
where it asks (`Engine.request`), and ended when the answer is there (`Engine.finish`); one that needs
none is run in one step (`Engine.validateSignature`).
-/

namespace SessionKeys

/-- One configured wallet. -/
structure Engine where
  config : Config
  store : Store
  registry : Registry

/-- The answers of validators outside this library. -/
structure Outside where
  /-- whether a validator approves a signature of a hash on behalf of a wallet -/
  approves : (validator wallet : Address) → (hash signature : Hex) → Except Failure Bool
  /-- what a validator makes of an operation -/
  validates : (validator : Address) → (op : UserOperation) → (userOpHash : Hex) →
    Except Failure ValidationData

def Outside.silent : Outside where
  approves := fun _ _ _ _ => .ok false
  validates := fun _ _ _ => .ok .signatureFailed

namespace Engine

/-- The address and owner of the owner's validator, if an owner is configured. -/
def ownerValidator? (config : Config) : Option (Address × Address) :=
  match config.ownerAddress, config.sudoValidatorAddress with
  | some owner, some address => some (address, owner)
  | _, _ => none

/-- The validators of a new engine: the session-key validator is enabled as a normal one, and that
of the owner, if there is one, as sudo. -/
def initialRegistry (config : Config) : Registry :=
  let keys := ({} : Registry).enable config.walletAddress config.validatorAddress .sessionKeys .normal
  match ownerValidator? config with
  | none => keys
  | some (address, owner) =>
    let owners := (∅ : Table Address).put config.walletAddress.key owner
    keys.enable config.walletAddress address (.ecdsa owners) .sudo

def ofConfig (config : Config) : Engine where
  config := config
  store := .empty
  registry := initialRegistry config

/-- The hash of an operation for the configured entry point and chain. -/
def userOpHash (e : Engine) (op : UserOperation) : Except EncodingError Hex :=
  op.hash e.config.entryPointAddress e.config.chainId

def manage (e : Engine) (call : ManagementCall) : Except Refusal (Engine × List Event) := do
  let (store, events) ← call.apply e.store
  return ({ e with store }, events)

def permitMessageHash (e : Engine) (wallet operator : Address) (permission : OperatorPermission)
    (spendingLimits : List SpendingLimit) : Except EncodingError Hex :=
  e.store.permitMessageHash e.config.chainId wallet operator permission spendingLimits

/-! ### Validation by session keys -/

/-- Reads an operation that is addressed to the session-key validator. -/
def prepare (e : Engine) (op : UserOperation) (userOpHash : Hex) :
    Except Failure PreparedOperation :=
  PreparedOperation.ofOperation e.config.validatorAddress op userOpHash

/-- Reads the permit that an operation carries, if there is one. -/
def request (e : Engine) (p : PreparedOperation) : Except Failure (Option PermitRequest) :=
  match p.permit with
  | none => .ok none
  | some permit => do
    return some (← PermitRequest.ofPermit e.config.chainId e.store e.registry p.op.sender p.operator
      permit)

/-- What the signer of a permit answers. -/
def answer (outside : Outside) (p : PreparedOperation) (r : PermitRequest) : Except Failure Bool :=
  match r.answer with
  | some b => .ok b
  | none => outside.approves r.signer p.op.sender r.hash r.signature

/-- The permit that an operation carries, verified. -/
def verifiedPermit (e : Engine) (outside : Outside) (p : PreparedOperation) :
    Except Failure (Option VerifiedPermit) := do
  match ← e.request p with
  | none => return none
  | some r => return some (← orFail (r.verify (← answer outside p r)))

/-- Reads an operation and verifies its permit, so that it is ready to be carried out. -/
def ready (e : Engine) (outside : Outside) (op : UserOperation) (userOpHash : Hex) :
    Except Failure (PreparedOperation × Option VerifiedPermit) := do
  let p ← e.prepare op userOpHash
  return (p, ← e.verifiedPermit outside p)

/-- Validates an operation in one step. -/
def validateSignature (e : Engine) (outside : Outside) (op : UserOperation) (userOpHash : Hex)
    (simulate : Bool) : Outcome :=
  match e.ready outside op userOpHash with
  | .error f => .unchanged e.store (.error f)
  | .ok (p, permit) => p.finish permit simulate e.store

/-! ### Validation by any validator -/

/-- What a validator of owner keys makes of an operation. -/
def validateOwnerSignature (v : Validator) (op : UserOperation) (userOpHash : Hex) :
    Except Failure ValidationData := do
  let addressed ← splitValidatorSignature op.signature
  if v.isSignedByOwner op.sender userOpHash addressed.payload then return .valid ⟨0, 0⟩
  else return .signatureFailed

/-- What the validator that an operation is addressed to makes of it. -/
def validateRouted (e : Engine) (outside : Outside) (op : UserOperation) (userOpHash : Hex)
    (simulate : Bool) : Outcome :=
  match e.registry.route op with
  | .error f => .unchanged e.store (.error f)
  | .ok (_, .sessionKeys) => e.validateSignature outside op userOpHash simulate
  | .ok (_, .ecdsa owners) =>
    .unchanged e.store (validateOwnerSignature (.ecdsa owners) op userOpHash)
  | .ok (address, .external) => .unchanged e.store (outside.validates address op userOpHash)

/-- A failure as the registry reports it: whatever was raised is an error. -/
def reported : Failure → Failure
  | .foreignText text => .foreign text
  | f => f

/-- Validates an operation, and reports why it fails. -/
def tryValidateUserOp (e : Engine) (outside : Outside) (op : UserOperation) (userOpHash : Hex)
    (simulate : Bool) : Outcome :=
  let o := e.validateRouted outside op userOpHash simulate
  { o with result := o.result.mapError reported }

/-- The packed result of a validation; all failures look the same. -/
def validateUserOp (e : Engine) (outside : Outside) (op : UserOperation) (userOpHash : Hex)
    (simulate : Bool) : Except EncodingError Int :=
  ValidationData.packOutcome (e.tryValidateUserOp outside op userOpHash simulate).result

end Engine

end SessionKeys
