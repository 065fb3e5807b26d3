import SessionKeys.Abi.Function

/-!
Calls that a wallet makes, and the two functions of the wallet that make them: one call at a time, or
several in a batch.
-/

namespace SessionKeys

structure WalletCall where
  target : Address
  value : Int
  data : Hex
  /-- the kind of call; zero for a plain one -/
  operation : Number
deriving DecidableEq, Repr

/-- Whether calls are made one at a time or in a batch. -/
inductive ExecutionMode where
  | single
  | batch
deriving DecidableEq, Repr

/-- What a wallet is told to do. -/
structure WalletOperation where
  mode : ExecutionMode
  calls : List WalletCall
deriving DecidableEq, Repr

namespace WalletOperation

/-- `normalExecute(address,uint256,bytes,uint8)` -/
def normalExecute : Abi.Function where
  selector := [0xe3, 0x51, 0xc7, 0x5d]
  inputs := .cons .address <| .cons (.uint 256) <| .cons .bytes <| .cons (.number 8) .nil

/-- `batchNormalExecute(address[],uint256[],bytes[],uint8[])` -/
def batchNormalExecute : Abi.Function where
  selector := [0x52, 0x02, 0x37, 0xd1]
  inputs := .cons (.array .address) <| .cons (.array (.uint 256)) <| .cons (.array .bytes) <|
    .cons (.array (.number 8)) .nil

/-- Call data that makes one call. -/
def encodeNormalExecute (call : WalletCall) : Except EncodingError Hex :=
  normalExecute.encodeCall (call.target, call.value, call.data, call.operation, ())

/-- Call data that makes several calls. -/
def encodeBatchNormalExecute (calls : List WalletCall) : Except EncodingError Hex :=
  batchNormalExecute.encodeCall
    (calls.map (·.target), calls.map (·.value), calls.map (·.data), calls.map (·.operation), ())

def ofSingleArguments : normalExecute.inputs.Val → WalletOperation
  | (target, value, data, operation, ()) => ⟨.single, [⟨target, value, data, operation⟩]⟩

/-- Puts together the calls of a batch, one from each place of four lists. -/
def zipCalls : List Address → List Int → List Hex → List Number → List WalletCall
  | target :: targets, value :: values, data :: datas, operation :: operations =>
    ⟨target, value, data, operation⟩ :: zipCalls targets values datas operations
  | _, _, _, _ => []

/-- The calls with given arguments of `batchNormalExecute`, which have to be lists of one length. -/
def ofBatchArguments : batchNormalExecute.inputs.Val → Except Refusal WalletOperation
  | (targets, values, datas, operations, ()) =>
    if targets.isEmpty then .error .emptyBatch
    else if values.length ≠ targets.length ∨ datas.length ≠ targets.length ∨
        operations.length ≠ targets.length then .error .unevenBatch
    else .ok ⟨.batch, zipCalls targets values datas operations⟩

/-- What call data tells a wallet to do. Only the two functions above can be authorised. -/
def decode (callData : Hex) : Except Failure WalletOperation := do
  let selector := Abi.selectorOf callData
  if selector = normalExecute.writtenSelector then
    let arguments ← reading "wallet calldata" (orFail (normalExecute.decodeCall callData))
    return ofSingleArguments arguments
  else if selector = batchNormalExecute.writtenSelector then
    let arguments ← reading "wallet calldata" (orFail (batchNormalExecute.decodeCall callData))
    orFail (ofBatchArguments arguments)
  else throw (.refused (.walletOperation selector))

end WalletOperation

end SessionKeys
