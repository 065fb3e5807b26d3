import SessionKeys.Abi.Encode
import SessionKeys.Abi.Decode
import SessionKeys.Permission
import SessionKeys.Session
import SessionKeys.WalletCall

/-!
What an operator puts into the signature of an operation: for each call a session, the proof that it
is committed and the arguments of the call; the signature itself; and perhaps a permit of the owner.
The form with a permit is the form without one and three more fields. Read without a permit, a
signature only has to have the length of its canonical encoding; read with one, it has to be that
encoding byte for byte.
-/

namespace SessionKeys

/-- A grant of the owner that is carried along. -/
structure Permit where
  /-- twenty bytes for the validator that signs, and its signature -/
  signature : Hex
  permission : OperatorPermission
  spendingLimits : List SpendingLimit
deriving DecidableEq, Repr

namespace Permit

abbrev fields : Abi.Fields :=
  .cons .bytes <| .cons (.tuple OperatorPermission.fields) <|
    .cons (.array (.tuple SpendingLimit.fields)) .nil

def values (p : Permit) : fields.Val :=
  (p.signature, p.permission.values, p.spendingLimits.map SpendingLimit.values, ())

def ofValues : fields.Val → Permit
  | (signature, permission, limits, ()) =>
    ⟨signature, OperatorPermission.ofValues permission, limits.map SpendingLimit.ofValues⟩

end Permit

/-- What is shown for one call. -/
structure SessionEntry where
  proof : List Hex
  session : Session
  arguments : Hex
deriving DecidableEq, Repr

/-- What an operator shows for an operation. -/
structure SessionSignature where
  mode : ExecutionMode
  entries : List SessionEntry
  operator : Address
  operatorSignature : Hex
  permit : Option Permit
deriving DecidableEq, Repr

/-! ### Forms -/

abbrev singleFields : Abi.Fields :=
  .cons (.array (.fixedBytes 32)) <| .cons .address <| .cons (.tuple Session.fields) <|
    .cons .bytes <| .cons .bytes .nil

abbrev batchFields : Abi.Fields :=
  .cons (.array (.array (.fixedBytes 32))) <| .cons .address <|
    .cons (.array (.tuple Session.fields)) <| .cons (.array .bytes) <| .cons .bytes .nil

/-- A form without a permit that was read: what is shown for each call, the operator and its
signature. -/
structure SignatureBase where
  entries : List SessionEntry
  operator : Address
  operatorSignature : Hex
deriving DecidableEq, Repr

def singleBase : singleFields.Val → Except Refusal SignatureBase
  | (proof, operator, session, arguments, operatorSignature, ()) =>
    .ok ⟨[⟨proof, Session.ofValues session, arguments⟩], operator, operatorSignature⟩

/-- Puts together what is shown for the calls of a batch, one from each place of three lists. -/
def zipEntries : List (List Hex) → List Session → List Hex → List SessionEntry
  | proof :: proofs, session :: sessions, arguments :: rest =>
    ⟨proof, session, arguments⟩ :: zipEntries proofs sessions rest
  | _, _, _ => []

/-- Reads the fields for a batch, which have to be lists of one length. -/
def batchBase : batchFields.Val → Except Refusal SignatureBase
  | (proofs, operator, sessions, arguments, operatorSignature, ()) =>
    if sessions.length ≠ proofs.length ∨ arguments.length ≠ proofs.length then
      .error .unevenSignature
    else
      .ok ⟨zipEntries proofs (sessions.map Session.ofValues) arguments, operator, operatorSignature⟩

/-! ### Reading -/

/-- Reads a payload in one of the two forms, whose fields without a permit are `fields`. -/
def decodePayload (mode : ExecutionMode) (fields : Abi.Fields)
    (base : fields.Val → Except Refusal SignatureBase) (payload : Hex) :
    Except Failure SessionSignature := do
  let values ← orFail (Abi.decodeFields fields payload)
  let b ← orFail (base values)
  let canonical ← orFail (Abi.encodeFields fields values)
  if canonical.size = payload.size then
    return ⟨mode, b.entries, b.operator, b.operatorSignature, none⟩
  let full := fields.append Permit.fields
  let values ← orFail (Abi.decodeFields full payload)
  let canonical ← orFail (Abi.encodeFields full values)
  unless canonical.same payload do throw (.refused .notCanonical)
  let permit := Permit.ofValues (fields.divide Permit.fields values).2
  return ⟨mode, b.entries, b.operator, b.operatorSignature, some permit⟩

/-- What a payload shows for an operation of a given mode. -/
def SessionSignature.decode (mode : ExecutionMode) (payload : Hex) :
    Except Failure SessionSignature :=
  reading "session signature" <|
    match mode with
    | .single => decodePayload .single singleFields singleBase payload
    | .batch => decodePayload .batch batchFields batchBase payload

/-! ### Writing -/

/-- What goes into the signature of an operation. -/
structure SignatureParts where
  validator : Address
  proofs : List (List Hex)
  operator : Address
  sessions : List Session
  arguments : List Hex
  operatorSignature : Hex
  permit : Option Permit
deriving DecidableEq, Repr

/-- Writes fields and perhaps a permit, behind the address of the validator. -/
def encodePayload (validator : Address) (fields : Abi.Fields) (values : fields.Val)
    (permit : Option Permit) : Except EncodingError Hex := do
  match permit with
  | none => return validator.hex ++ (← Abi.encodeFields fields values)
  | some p =>
    return validator.hex ++
      (← Abi.encodeFields (fields.append Permit.fields) (fields.join Permit.fields values p.values))

/-- The signature of an operation with a single call, from the first entry of each list. -/
def encodeSingleSignature (parts : SignatureParts) : Except Failure Hex :=
  match parts.proofs, parts.sessions, parts.arguments with
  | proof :: _, session :: _, arguments :: _ =>
    orFail (encodePayload parts.validator singleFields
      (proof, parts.operator, session.values, arguments, parts.operatorSignature, ()) parts.permit)
  | _, _, _ => .error (.refused .noSession)

def encodeBatchSignature (parts : SignatureParts) : Except Failure Hex :=
  orFail (encodePayload parts.validator batchFields
    (parts.proofs, parts.operator, parts.sessions.map Session.values, parts.arguments,
      parts.operatorSignature, ()) parts.permit)

end SessionKeys
