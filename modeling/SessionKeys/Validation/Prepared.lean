import SessionKeys.SessionSignature
import SessionKeys.Signature
import SessionKeys.UserOperation

/-!
Reading an operation of an operator: the calls it makes, what is shown for each of them, and whether
the operator signed it. Nothing here depends on what is remembered about wallets.
-/

namespace SessionKeys

/-- An operation of an operator that was read. -/
structure PreparedOperation where
  op : UserOperation
  operator : Address
  /-- whether the operator signed the operation -/
  signatureValid : Bool
  /-- each call, with what is shown for it -/
  steps : List (WalletCall × SessionEntry)
  permit : Option Permit
deriving DecidableEq, Repr

namespace PreparedOperation

/-- Reads an operation that is addressed to the validator `self`. -/
def ofOperation (self : Address) (op : UserOperation) (userOpHash : Hex) :
    Except Failure PreparedOperation := do
  let addressed ← splitValidatorSignature op.signature
  unless ← orFail (addressed.validator.same self) do
    throw (.refused (.wrongAddressee addressed.validator self))
  let operation ← WalletOperation.decode op.callData
  let shown ← SessionSignature.decode operation.mode addressed.payload
  if shown.entries.length ≠ operation.calls.length then
    throw (.refused (.sessionCount operation.calls.length shown.entries.length))
  let message ← orFail (operatorMessageHash userOpHash self)
  return {
    op
    operator := shown.operator
    signatureValid := isSignedBy message shown.operatorSignature shown.operator
    steps := operation.calls.zip shown.entries
    permit := shown.permit }

end PreparedOperation

end SessionKeys
