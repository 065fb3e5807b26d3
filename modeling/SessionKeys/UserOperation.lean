import SessionKeys.Abi.Encode
import SessionKeys.Failure

/-!
User operations: what a wallet is asked to do through an entry point, what it may cost, and the hash
that is signed. The signature of an operation is no part of its hash.
-/

namespace SessionKeys

/-- An operation that is submitted to an entry point. -/
structure UserOperation where
  sender : Address
  nonce : Int
  initCode : Hex
  callData : Hex
  callGasLimit : Int
  verificationGasLimit : Int
  preVerificationGas : Int
  maxFeePerGas : Int
  maxPriorityFeePerGas : Int
  paymasterAndData : Hex
  signature : Hex
deriving DecidableEq, Repr

namespace UserOperation

/-- The paymaster of an operation; zero if there is none. -/
def paymaster (op : UserOperation) : Address :=
  if 20 ≤ op.paymasterAndData.size then ⟨op.paymasterAndData.take 20⟩ else Address.zero

/-- How often the gas for verification is paid: three times if a paymaster is attached. -/
def verificationFactor (op : UserOperation) : Int :=
  if op.paymasterAndData.size = 0 then 1 else 3

/-- The highest fee that an operation can cost. -/
def maxFee (op : UserOperation) : Int :=
  (op.callGasLimit + op.verificationGasLimit * op.verificationFactor + op.preVerificationGas) *
    op.maxFeePerGas

abbrev packedFields : Abi.Fields :=
  .cons .address <| .cons (.uint 256) <| .cons (.fixedBytes 32) <| .cons (.fixedBytes 32) <|
    .cons (.uint 256) <| .cons (.uint 256) <| .cons (.uint 256) <| .cons (.uint 256) <|
    .cons (.uint 256) <| .cons (.fixedBytes 32) .nil

def packedValues (op : UserOperation) : packedFields.Val :=
  (op.sender, op.nonce, op.initCode.keccak, op.callData.keccak, op.callGasLimit,
    op.verificationGasLimit, op.preVerificationGas, op.maxFeePerGas, op.maxPriorityFeePerGas,
    op.paymasterAndData.keccak, ())

abbrev hashFields : Abi.Fields :=
  .cons (.fixedBytes 32) <| .cons .address <| .cons (.uint 256) .nil

/-- The hash of an operation for an entry point on a chain. -/
def hash (op : UserOperation) (entryPoint : Address) (chainId : Number) : Except EncodingError Hex := do
  let packed ← Abi.encodeFields packedFields op.packedValues
  let chainId ← integral chainId
  return (← Abi.encodeFields hashFields (packed.keccak, entryPoint, chainId, ())).keccak

end UserOperation

/-! ### The validator of a signature -/

/-- A signature that is addressed to a validator, taken apart. -/
structure AddressedSignature where
  validator : Address
  payload : Hex
deriving DecidableEq, Repr

/-- Takes apart the signature of an operation: twenty bytes for a validator, and the rest for it. -/
def splitValidatorSignature (signature : Hex) : Except Failure AddressedSignature := do
  if signature.size < 20 then throw (.refused .shortSignature)
  return ⟨← orFail (Address.ofHex (signature.take 20)), signature.drop 20⟩

/-- Takes apart the signature of a permit, of which something has to be left for the validator. -/
def splitPermitSignature (signature : Hex) : Except Failure AddressedSignature := do
  if signature.size ≤ 20 then throw (.refused .shortPermitSignature)
  return ⟨← orFail (Address.ofHex (signature.take 20)), signature.drop 20⟩

end SessionKeys
