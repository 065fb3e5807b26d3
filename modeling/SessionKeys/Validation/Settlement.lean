import SessionKeys.Accounting
import SessionKeys.Event
import SessionKeys.Session.Call
import SessionKeys.Session.Tree
import SessionKeys.Validation.Permit

/-!
What an operation does as a whole: all checks and all charges in one step from a store to a store. An
operation that is refused gives no store.
-/

namespace SessionKeys

/-- What every call of an operation is checked against. -/
structure CallContext where
  wallet : Address
  operator : Address
  sessionRoot : Hex
  paymaster : Address
deriving DecidableEq, Repr

/-- Checks one call against the session that is shown for it. -/
def CallContext.checkCall (c : CallContext) (index : Nat) (call : WalletCall)
    (shown : SessionEntry) : Except Failure Unit := do
  if call.operation ≠ 0 then throw (.refused (.notPlainCall index))
  verifySessionMembership shown.proof c.sessionRoot shown.session
  validatePaymaster shown.session.paymaster c.paymaster
  checkArguments shown.session call.target call.data call.value shown.arguments

/-- Checks one call, and charges it. -/
def CallContext.settleCall (c : CallContext) (s : Store) (index : Nat) (call : WalletCall)
    (shown : SessionEntry) : Except Failure Store := do
  c.checkCall index call shown
  let s ← s.consumeSessionUse c.wallet c.operator shown.session
  s.consumeCallAllowances c.wallet c.operator call

/-- The window in which a session is valid. -/
def Session.window (s : Session) : ValidityWindow :=
  ⟨s.validUntil, s.validAfter⟩

/-- Settles the calls of an operation in order, from the one at `index` on, and narrows the window
to that of each session. -/
def CallContext.settleCalls (c : CallContext) :
    (index : Nat) → List (WalletCall × SessionEntry) → Store → ValidityWindow →
      Except Failure (Store × ValidityWindow)
  | _, [], s, w => .ok (s, w)
  | index, (call, shown) :: rest, s, w => do
    let s ← c.settleCall s index call shown
    let w ← orFail (w.intersect shown.session.window)
    c.settleCalls (index + 1) rest s w

namespace PreparedOperation

/-- The events that report an installed permit. -/
def permitEvents (p : PreparedOperation) : Option VerifiedPermit → List Event
  | none => []
  | some v => [.permitConsumed p.op.sender p.operator v.hash v.nonce]

/-- Installs the permit, if there is one. -/
def installPermit (p : PreparedOperation) (permit : Option VerifiedPermit) (s : Store) :
    Except Refusal Store :=
  match permit with
  | none => .ok s
  | some v => v.install s p.op.sender p.operator

/-- Checks and charges a whole operation. -/
def settle (p : PreparedOperation) (permit : Option VerifiedPermit) (s : Store) :
    Except Failure (Store × ValidityWindow) := do
  let s ← orFail (p.installPermit permit s)
  let permission := s.permission p.op.sender p.operator
  validatePaymaster permission.paymaster p.op.paymaster
  let s ← orFail (s.consumeBudget p.op.sender p.operator p.op)
  let context : CallContext :=
    { wallet := p.op.sender, operator := p.operator
      sessionRoot := permission.sessionRoot, paymaster := p.op.paymaster }
  context.settleCalls 0 p.steps s permission.window

end PreparedOperation

end SessionKeys
