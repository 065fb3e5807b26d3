import SessionKeys.Permission

/-!
What is reported about changes: one event for each change that the owner of a wallet makes, and one
for each permit that an operator uses.
-/

namespace SessionKeys

/-- A change that is reported. -/
inductive Event where
  | sessionRootSet (wallet operator : Address) (sessionRoot : Hex)
  | operatorRemainingGasSet (wallet operator : Address) (gasRemaining : Int)
  | operatorRemainingTimesSet (wallet operator : Address) (timesRemaining : Int)
  | operatorPermissionSet (wallet operator : Address) (permission : OperatorPermission)
  | spendingLimitSet (wallet operator token : Address) (allowance : Int)
  | spendingLimitReset (wallet operator token : Address)
  | spendingLimitDeleted (wallet operator token : Address)
  | signatureRevoked (wallet : Address) (hash : Hex)
  | permitConsumed (wallet operator : Address) (hash : Hex) (nonce : Nat)
deriving DecidableEq, Repr

namespace Event

def kind : Event → String
  | sessionRootSet .. => "SessionRootSet"
  | operatorRemainingGasSet .. => "OperatorRemainingGasSet"
  | operatorRemainingTimesSet .. => "OperatorRemainingTimesSet"
  | operatorPermissionSet .. => "OperatorPermissionSet"
  | spendingLimitSet .. => "SpendingLimitSet"
  | spendingLimitReset .. => "SpendingLimitReset"
  | spendingLimitDeleted .. => "SpendingLimitDeleted"
  | signatureRevoked .. => "SignatureRevoked"
  | permitConsumed .. => "PermitConsumed"

end Event

end SessionKeys
