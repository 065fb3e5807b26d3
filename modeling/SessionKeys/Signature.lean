import SessionKeys.Permission
import SessionKeys.Secp256k1

/-!
The messages that operators and owners sign, and whether a signature is by a given signer.
-/

namespace SessionKeys

/-! ### Messages -/

/-- The message an operator signs: the hash of an operation, bound to one validator. -/
def operatorMessageHash (userOpHash : Hex) (validator : Address) : Except EncodingError Hex := do
  let fields : Abi.Fields := .cons (.fixedBytes 32) <| .cons .address .nil
  return (← Abi.encodeFields fields (userOpHash, validator, ())).keccak

/-- A grant that an owner signs for an operator of a wallet. -/
structure PermitMessage where
  wallet : Address
  operator : Address
  permission : OperatorPermission
  spendingLimits : List SpendingLimit
  chainId : Number
  nonce : Int
deriving DecidableEq, Repr

namespace PermitMessage

abbrev fields : Abi.Fields :=
  .cons .address <| .cons .address <| .cons (.fixedBytes 32) <| .cons (.fixedBytes 32) <|
    .cons (.uint 256) <| .cons (.uint 256) .nil

def hash (m : PermitMessage) : Except EncodingError Hex := do
  let permission ← m.permission.hash
  let limits ← SpendingLimit.hashAll m.spendingLimits
  let chainId ← integral m.chainId
  return (← Abi.encodeFields fields
    (m.wallet, m.operator, permission, limits, chainId, m.nonce, ())).keccak

end PermitMessage

/-! ### Signatures -/

/-- The hash that is signed for a message. -/
def personalMessageHash (message : Hex) : Bytes :=
  let header := s!"\x19Ethereum Signed Message:\n{message.size}"
  Keccak.digest (Hex.ofBytes header.toUTF8.toList ++ message).content

/-- The parity that the last byte of a signature tells. -/
def recoveryParity : (v : Nat) → Option Bool
  | 0 => some false
  | 1 => some true
  | 27 => some false
  | 28 => some true
  | _ => none

/-- The number that the digits of a text write. -/
def Hex.digitsNumber? (h : Hex) : Option Nat :=
  h.read?.map Bytes.toNat

/-- The address of the key that signed a message, if the signature is one of 65 bytes that has one. -/
def recoverSigner? (message signature : Hex) : Option Address := do
  guard (signature.size = 65)
  let written := signature.written
  guard (written.size = 65)
  let odd ← recoveryParity (← (written.drop 64).digitsNumber?)
  let r ← (written.take 32).digitsNumber?
  let s ← ((written.drop 32).take 32).digitsNumber?
  let key ← Secp256k1.recoverKey? (personalMessageHash message).toNat r s odd
  return Address.ofBytes (Secp256k1.addressOfKey key)

/-- Whether a signature of a hash is by a signer. -/
def isSignedBy (hash signature : Hex) (signer : Address) : Bool :=
  match recoverSigner? hash signature with
  | none => false
  | some recovered =>
    match recovered.same signer with
    | .ok b => b
    | .error _ => false

end SessionKeys
