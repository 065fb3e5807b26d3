import SessionKeys.Event
import SessionKeys.Store
import SessionKeys.ValidityWindow

/-!
What the owner of a wallet may change, as data. A call either is refused or gives the new store and
the events that report the change; a call that finds nothing to change reports nothing.
-/

namespace SessionKeys

/-- A change to what an operator of a wallet may do. -/
inductive ManagementCall where
  | setSessionRoot (wallet operator : Address) (sessionRoot : Hex)
  | setOperatorRemainingGas (wallet operator : Address) (gasRemaining : Int)
  | setOperatorRemainingTimes (wallet operator : Address) (timesRemaining : Int)
  | setOperatorPermission (wallet operator : Address) (permission : OperatorPermission)
  /-- caps a token, with nothing spent so far -/
  | setSpendingLimit (wallet operator token : Address) (allowance : Int)
  | batchSetSpendingLimit (wallet operator : Address) (limits : List SpendingLimit)
  /-- forgets what was spent of a token -/
  | resetSpendingLimit (wallet operator token : Address)
  /-- leaves a token unrestricted -/
  | deleteSpendingLimit (wallet operator token : Address)
  | revokeSignature (wallet : Address) (hash : Hex)
deriving DecidableEq, Repr

namespace ManagementCall

/-- The store after a call, and the events that report it. -/
def apply (s : Store) : ManagementCall → Except Refusal (Store × List Event)
  | setSessionRoot wallet operator sessionRoot =>
    .ok (s.updatePermission wallet operator fun p => { p with sessionRoot },
      [.sessionRootSet wallet operator sessionRoot])
  | setOperatorRemainingGas wallet operator gasRemaining =>
    .ok (s.updatePermission wallet operator fun p => { p with gasRemaining },
      [.operatorRemainingGasSet wallet operator gasRemaining])
  | setOperatorRemainingTimes wallet operator timesRemaining =>
    .ok (s.updatePermission wallet operator fun p => { p with timesRemaining },
      [.operatorRemainingTimesSet wallet operator timesRemaining])
  | setOperatorPermission wallet operator permission => do
    permission.window.assertValid
    return (s.setPermission wallet operator permission,
      [.operatorPermissionSet wallet operator permission])
  | setSpendingLimit wallet operator token allowance =>
    .ok (s.setSpendingLimit wallet operator token ⟨allowance, 0⟩,
      [.spendingLimitSet wallet operator token allowance])
  | batchSetSpendingLimit wallet operator limits =>
    .ok (s.startSpendingLimits wallet operator limits,
      limits.map fun l => .spendingLimitSet wallet operator l.token l.allowance)
  | resetSpendingLimit wallet operator token =>
    match s.spendingLimit? wallet operator token with
    | none => .ok (s, [])
    | some info =>
      .ok (s.setSpendingLimit wallet operator token { info with spent := 0 },
        [.spendingLimitReset wallet operator token])
  | deleteSpendingLimit wallet operator token =>
    match s.spendingLimit? wallet operator token with
    | none => .ok (s, [])
    | some _ =>
      .ok (s.deleteSpendingLimit wallet operator token,
        [.spendingLimitDeleted wallet operator token])
  | revokeSignature wallet hash =>
    .ok (s.markHashUsed wallet hash, [.signatureRevoked wallet hash])

end ManagementCall

end SessionKeys
