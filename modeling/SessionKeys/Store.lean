import SessionKeys.Permission
import SessionKeys.Table

/-!
All that is remembered about wallets and their operators. Everything is filed under the writing of the
addresses and hashes it belongs to, in which the case of letters does not matter. What was never written
has a default: the empty permission, no spending limit, a nonce of zero, an unused hash, a session that
was never used.
-/

namespace SessionKeys

/-- What is remembered about wallets and their operators. -/
structure Store where
  /-- by wallet and operator -/
  permissions : Table OperatorPermission := ∅
  /-- by wallet, operator and token -/
  spendingLimits : Table SpendingLimitInfo := ∅
  /-- how many permits were used, by wallet and operator -/
  permitNonces : Table Nat := ∅
  /-- hashes of permits that were used or revoked, by wallet and hash -/
  usedHashes : Table Unit := ∅
  /-- how often a limited session was used, by wallet, operator and leaf -/
  sessionUses : Table Int := ∅

namespace Store

def empty : Store := {}

/-! ### Permissions -/

def permission (s : Store) (wallet operator : Address) : OperatorPermission :=
  (s.permissions.find? (wallet.key ++ operator.key)).getD OperatorPermission.empty

def setPermission (s : Store) (wallet operator : Address) (p : OperatorPermission) : Store :=
  { s with permissions := s.permissions.put (wallet.key ++ operator.key) p }

def updatePermission (s : Store) (wallet operator : Address)
    (change : OperatorPermission → OperatorPermission) : Store :=
  s.setPermission wallet operator (change (s.permission wallet operator))

/-! ### Spending limits -/

/-- The limit on a token; none if the token is unrestricted. -/
def spendingLimit? (s : Store) (wallet operator token : Address) : Option SpendingLimitInfo :=
  s.spendingLimits.find? (wallet.key ++ operator.key ++ token.key)

def setSpendingLimit (s : Store) (wallet operator token : Address) (info : SpendingLimitInfo) :
    Store :=
  { s with spendingLimits := s.spendingLimits.put (wallet.key ++ operator.key ++ token.key) info }

def deleteSpendingLimit (s : Store) (wallet operator token : Address) : Store :=
  { s with spendingLimits := s.spendingLimits.remove (wallet.key ++ operator.key ++ token.key) }

/-- Sets a cap on each of some tokens, with nothing spent so far. -/
def startSpendingLimits (s : Store) (wallet operator : Address) (limits : List SpendingLimit) :
    Store :=
  limits.foldl (fun s l => s.setSpendingLimit wallet operator l.token ⟨l.allowance, 0⟩) s

/-! ### Permits -/

/-- How many permits of an operator were used. -/
def permitNonce (s : Store) (wallet operator : Address) : Nat :=
  (s.permitNonces.find? (wallet.key ++ operator.key)).getD 0

def incrementPermitNonce (s : Store) (wallet operator : Address) : Store :=
  { s with
    permitNonces :=
      s.permitNonces.put (wallet.key ++ operator.key) (s.permitNonce wallet operator + 1) }

def isHashUsed (s : Store) (wallet : Address) (hash : Hex) : Bool :=
  (s.usedHashes.find? (wallet.key ++ hash.key)).isSome

def markHashUsed (s : Store) (wallet : Address) (hash : Hex) : Store :=
  { s with usedHashes := s.usedHashes.put (wallet.key ++ hash.key) () }

/-! ### Session uses -/

/-- How often a session was used, by its leaf. -/
def usesOfSession (s : Store) (wallet operator : Address) (leaf : Hex) : Int :=
  (s.sessionUses.find? (wallet.key ++ operator.key ++ leaf.key)).getD 0

def setUsesOfSession (s : Store) (wallet operator : Address) (leaf : Hex) (used : Int) : Store :=
  { s with sessionUses := s.sessionUses.put (wallet.key ++ operator.key ++ leaf.key) used }

end Store

end SessionKeys
