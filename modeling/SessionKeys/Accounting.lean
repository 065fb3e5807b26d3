import SessionKeys.Session
import SessionKeys.Spending
import SessionKeys.Store
import SessionKeys.UserOperation

/-!
Charging an operation: its fee and one use to the budgets of the operator, one use to each limited
session, and what its calls spend to the limits on the tokens. Each charge is checked before it is
written, and a charge that is refused writes nothing.
-/

namespace SessionKeys

/-! ### Budgets -/

/-- What is left of a permission after an operation. The fee may use up the whole budget. -/
def OperatorPermission.afterOperation (p : OperatorPermission) (op : UserOperation) :
    Except Refusal OperatorPermission :=
  if p.gasRemaining < op.maxFee then .error (.gasExceeded op.maxFee p.gasRemaining)
  else if p.timesRemaining = 0 then .error .timesExhausted
  else
    .ok { p with
      gasRemaining := charge p.gasRemaining op.maxFee
      timesRemaining := charge p.timesRemaining 1 }

/-- What is left of a limit after some of the token was spent. -/
def SpendingLimitInfo.afterSpend (info : SpendingLimitInfo) (spend : TokenSpend) :
    Except Refusal SpendingLimitInfo :=
  if info.allowance < info.spent + spend.amount then
    .error (.overspending spend.token info.allowance info.spent spend.amount)
  else .ok { info with spent := info.spent + spend.amount }

namespace Store

/-- Charges an operation to the budgets of an operator. -/
def consumeBudget (s : Store) (wallet operator : Address) (op : UserOperation) :
    Except Refusal Store := do
  let p ← (s.permission wallet operator).afterOperation op
  return s.setPermission wallet operator p

/-- Counts one use of a session, unless its uses are not limited. -/
def consumeSessionUse (s : Store) (wallet operator : Address) (session : Session) :
    Except Failure Store := do
  if Session.isUnlimitedTimes session.timesLimit then return s
  let leaf ← orFail session.leaf
  let used := s.usesOfSession wallet operator leaf
  if session.timesLimit ≤ used then
    throw (.refused (.sessionExhausted used session.timesLimit))
  return s.setUsesOfSession wallet operator leaf (used + 1)

/-- Charges a spending to the limit on its token, if there is one. -/
def consumeAllowance (s : Store) (wallet operator : Address) (spend : TokenSpend) :
    Except Refusal Store :=
  match s.spendingLimit? wallet operator spend.token with
  | none => .ok s
  | some info => do
    return s.setSpendingLimit wallet operator spend.token (← info.afterSpend spend)

def consumeCallAllowances (s : Store) (wallet operator : Address) (call : WalletCall) :
    Except Failure Store := do
  let spends ← call.spends wallet
  orFail (spends.foldlM (fun s spend => s.consumeAllowance wallet operator spend) s)

end Store

end SessionKeys
