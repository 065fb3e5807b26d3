import SessionKeys.Registry
import SessionKeys.Store
import SessionKeys.Validation.Prepared

/-!
Permits on their way into the store. A permit is first read against the store and the registry, and
its signer is asked about it (`PermitRequest`). The answer may come later; with it the permit is
verified (`VerifiedPermit`), and it is installed together with the effects of the operation that
carries it. The nonce and the used hashes are looked at again then, because they may have changed.
-/

namespace SessionKeys

/-- A permit whose signer is asked about it. -/
structure PermitRequest where
  permit : Permit
  /-- the message that the signer has to have signed -/
  hash : Hex
  /-- how many permits of the operator were used when the permit was read -/
  nonce : Nat
  signer : Address
  /-- the signature that the signer is asked about -/
  signature : Hex
  /-- the answer of the signer, if it is known here -/
  answer : Option Bool
deriving DecidableEq, Repr

/-- A permit that its signer approved. -/
structure VerifiedPermit where
  permit : Permit
  hash : Hex
  nonce : Nat
deriving DecidableEq, Repr

/-- The message that the owner of a wallet signs to grant something to an operator, at the current
nonce of the operator. -/
def Store.permitMessageHash (s : Store) (chainId : Number) (wallet operator : Address)
    (permission : OperatorPermission) (spendingLimits : List SpendingLimit) :
    Except EncodingError Hex :=
  PermitMessage.hash {
    wallet, operator, permission, spendingLimits, chainId
    nonce := s.permitNonce wallet operator }

/-- Reads a permit of an operator of a wallet. It must not be used or revoked, and its signer has to
be a sudo validator of the wallet. -/
def PermitRequest.ofPermit (chainId : Number) (s : Store) (r : Registry) (wallet operator : Address)
    (permit : Permit) : Except Failure PermitRequest := do
  let nonce := s.permitNonce wallet operator
  let hash ← orFail
    (s.permitMessageHash chainId wallet operator permit.permission permit.spendingLimits)
  if s.isHashUsed wallet hash then throw (.refused (.permitRevoked hash))
  let addressed ← splitPermitSignature permit.signature
  let signer := addressed.validator
  match r.validator? signer, r.class? wallet signer with
  | some v, some .sudo =>
    let answer := v.approves? wallet hash addressed.payload
    return { permit, hash, nonce, signer, signature := addressed.payload, answer }
  | _, _ => throw (.refused (.notSudo signer wallet))

/-- Takes the answer of the signer. -/
def PermitRequest.verify (request : PermitRequest) (answer : Bool) : Except Refusal VerifiedPermit :=
  if answer then .ok { permit := request.permit, hash := request.hash, nonce := request.nonce }
  else .error .badPermitSignature

/-- Looks at the nonce and at the used hashes again, and at the window that is granted. -/
def VerifiedPermit.check (v : VerifiedPermit) (s : Store) (wallet operator : Address) :
    Except Refusal Unit := do
  if s.permitNonce wallet operator ≠ v.nonce then throw .staleNonce
  if s.isHashUsed wallet v.hash then throw (.permitRevoked v.hash)
  v.permit.permission.window.assertValid

/-- The store in which a verified permit is installed: it counts as used from now on, and what it grants
replaces what was granted before. -/
def VerifiedPermit.installed (v : VerifiedPermit) (s : Store) (wallet operator : Address) : Store :=
  (((s.markHashUsed wallet v.hash).incrementPermitNonce wallet operator).setPermission
    wallet operator v.permit.permission).startSpendingLimits wallet operator v.permit.spendingLimits

/-- Installs a verified permit, if nothing speaks against it. -/
def VerifiedPermit.install (v : VerifiedPermit) (s : Store) (wallet operator : Address) :
    Except Refusal Store := do
  v.check s wallet operator
  return v.installed s wallet operator

end SessionKeys
