import SessionKeys.Signature
import SessionKeys.Table
import SessionKeys.UserOperation

/-!
The validators of wallets. A wallet enables a validator as `sudo`, which may grant permits and do
anything else, or as `normal`. Three kinds of validator are told apart: the session-key validator, a
validator that knows one owner key for each wallet, and validators outside this library, whose
answers come from elsewhere.
-/

namespace SessionKeys

/-- What an enabled validator may do. -/
inductive ValidatorClass where
  | sudo
  | normal
deriving DecidableEq, Repr

inductive Validator where
  /-- validates operations of operators, and approves no message -/
  | sessionKeys
  /-- checks signatures against one owner key for each wallet -/
  | ecdsa (owners : Table Address)
  /-- answers from outside this library -/
  | external

namespace Validator

/-- The owner of a wallet, as far as a validator knows one. -/
def owner? (v : Validator) (wallet : Address) : Option Address :=
  match v with
  | ecdsa owners => owners.find? wallet.key
  | _ => none

/-- Whether a signature of a hash is by the owner of a wallet. -/
def isSignedByOwner (v : Validator) (wallet : Address) (hash signature : Hex) : Bool :=
  match v.owner? wallet with
  | none => false
  | some owner => isSignedBy hash signature owner

/-- Whether a validator approves a signature of a hash on behalf of a wallet. Nothing is known here
about the answers of a validator outside this library. -/
def approves? (v : Validator) (wallet : Address) (hash signature : Hex) : Option Bool :=
  match v with
  | sessionKeys => some false
  | ecdsa _ => some (v.isSignedByOwner wallet hash signature)
  | external => none

end Validator

/-- The known validators, and those that wallets have enabled. -/
structure Registry where
  /-- by address -/
  validators : Table Validator := ∅
  /-- by wallet and validator -/
  enabled : Table ValidatorClass := ∅

namespace Registry

def register (r : Registry) (address : Address) (v : Validator) : Registry :=
  { r with validators := r.validators.put address.key v }

def validator? (r : Registry) (address : Address) : Option Validator :=
  r.validators.find? address.key

/-- Makes a validator known, and enables it on a wallet. -/
def enable (r : Registry) (wallet address : Address) (v : Validator) (c : ValidatorClass) :
    Registry :=
  let known := r.register address v
  { known with enabled := known.enabled.put (wallet.key ++ address.key) c }

/-- Disables a validator on a wallet. It stays known. -/
def disable (r : Registry) (wallet address : Address) : Registry :=
  { r with enabled := r.enabled.remove (wallet.key ++ address.key) }

/-- What a validator may do on a wallet; nothing if it is disabled. -/
def class? (r : Registry) (wallet address : Address) : Option ValidatorClass :=
  r.enabled.find? (wallet.key ++ address.key)

/-- The owner that a validator knows of a wallet. -/
def owner? (r : Registry) (address wallet : Address) : Option Address :=
  (r.validator? address).bind fun v => v.owner? wallet

/-- Sets the owner of a wallet at a validator of owner keys. -/
def setOwner (r : Registry) (address wallet owner : Address) : Registry :=
  match r.validator? address with
  | some (.ecdsa owners) => r.register address (.ecdsa (owners.put wallet.key owner))
  | _ => r

/-- The validator that an operation is addressed to. It has to be enabled on the sending wallet. -/
def route (r : Registry) (op : UserOperation) : Except Failure (Address × Validator) := do
  let addressed ← splitValidatorSignature op.signature
  match r.validator? addressed.validator, r.class? op.sender addressed.validator with
  | some v, some _ => return (addressed.validator, v)
  | _, _ => throw (.notEnabled addressed.validator op.sender)

end Registry

end SessionKeys
