import SessionKeys.Validation.Settlement
import SessionKeys.Validation.Transaction

/-!
Carrying out an operation, table by table, and what comes of it. All writing is done in one
transaction: an operation that is refused half-way leaves nothing behind, neither does a dry run, and
neither does an operation that its operator did not sign. The signature is looked at last, so an
operation that is refused for any other reason is refused whoever signed it.
-/

namespace SessionKeys

/-! ### Work in place -/

/-- Installs a verified permit. It counts as used from now on, and what it grants replaces what was
granted before. -/
def VerifiedPermit.apply (v : VerifiedPermit) (wallet operator : Address) : Work Unit := do
  Work.require (orFail (v.check (← Work.tables) wallet operator))
  Work.write fun s => s.markHashUsed wallet v.hash
  Work.write fun s => s.incrementPermitNonce wallet operator
  Work.write fun s => s.setPermission wallet operator v.permit.permission
  v.permit.spendingLimits.forM fun l =>
    Work.write fun s => s.setSpendingLimit wallet operator l.token ⟨l.allowance, 0⟩
  Work.announce (.permitConsumed wallet operator v.hash v.nonce)

namespace CallContext

/-- Checks one call, and makes its charges one after the other. -/
def applyCall (c : CallContext) (index : Nat) (call : WalletCall) (shown : SessionEntry) :
    Work Unit := do
  Work.require (c.checkCall index call shown)
  Work.change fun s => s.consumeSessionUse c.wallet c.operator shown.session
  let spends ← Work.require (call.spends c.wallet)
  spends.forM fun spend =>
    Work.change fun s => orFail (s.consumeAllowance c.wallet c.operator spend)

/-- Carries out the calls of an operation in order, from the one at `index` on, and narrows the window
to that of each session. -/
def applyCalls (c : CallContext) :
    (index : Nat) → List (WalletCall × SessionEntry) → ValidityWindow → Work ValidityWindow
  | _, [], w => return w
  | index, (call, shown) :: rest, w => do
    c.applyCall index call shown
    let w ← Work.require (orFail (w.intersect shown.session.window))
    c.applyCalls (index + 1) rest w

end CallContext

/-! ### Outcomes -/

/-- How a validation ends: its result, the store after it, and the events that are reported. -/
structure Outcome where
  result : Except Failure ValidationData
  store : Store
  events : List Event

/-- The outcome of a validation that writes nothing. -/
def Outcome.unchanged (s : Store) (result : Except Failure ValidationData) : Outcome :=
  { result, store := s, events := [] }

namespace PreparedOperation

/-- Carries out an operation, with the permit if there is one. -/
def apply (p : PreparedOperation) (permit : Option VerifiedPermit) : Work ValidityWindow := do
  if let some v := permit then v.apply p.op.sender p.operator
  let permission := (← Work.tables).permission p.op.sender p.operator
  Work.require (validatePaymaster permission.paymaster p.op.paymaster)
  Work.change fun s => orFail (s.consumeBudget p.op.sender p.operator p.op)
  let context : CallContext :=
    { wallet := p.op.sender, operator := p.operator
      sessionRoot := permission.sessionRoot, paymaster := p.op.paymaster }
  context.applyCalls 0 p.steps permission.window

/-- Carries out an operation, and looks at the signature of the operator. -/
def work (p : PreparedOperation) (permit : Option VerifiedPermit) : Work ValidationData := do
  let window ← p.apply permit
  unless p.signatureValid do throw .badSignature
  return .valid window

/-- Ends a validation. The events that wait are reported if the work was done to its end and the
validation is no dry run. -/
def finish (p : PreparedOperation) (permit : Option VerifiedPermit) (simulate : Bool) (s : Store) :
    Outcome :=
  let work := p.work permit
  match (if simulate then work.dryRun else work.transaction).on ⟨s, []⟩ with
  | (.ok data, d) =>
    { result := .ok data, store := d.store, events := if simulate then [] else d.waiting }
  | (.error .badSignature, d) => .unchanged d.store (.ok .signatureFailed)
  | (.error (.failed f), d) => .unchanged d.store (.error f)

end PreparedOperation

end SessionKeys
