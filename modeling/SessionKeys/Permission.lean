import SessionKeys.Abi.Encode
import SessionKeys.ValidityWindow

/-!
What the owner of a wallet grants to an operator: the root of its sessions, a paymaster, a window of
validity and two budgets; and limits on what the operator may spend of each token.
-/

namespace SessionKeys

/-- What an operator is granted. -/
structure OperatorPermission where
  /-- the root under which its sessions are committed -/
  sessionRoot : Hex
  /-- the paymaster that has to be attached; zero for any -/
  paymaster : Address
  /-- the last second of validity; zero for no end -/
  validUntil : Number
  /-- the first second of validity -/
  validAfter : Number
  /-- the fees left, in the smallest unit of the native token -/
  gasRemaining : Int
  timesRemaining : Int
deriving DecidableEq, Repr

namespace OperatorPermission

/-- The permission of an operator that was never granted anything. -/
def empty : OperatorPermission where
  sessionRoot := Hex.ofBytes (List.replicate 32 0)
  paymaster := Address.zero
  validUntil := 0
  validAfter := 0
  gasRemaining := 0
  timesRemaining := 0

def window (p : OperatorPermission) : ValidityWindow :=
  ⟨p.validUntil, p.validAfter⟩

abbrev fields : Abi.Fields :=
  .cons (.fixedBytes 32) <| .cons .address <| .cons (.number 48) <| .cons (.number 48) <|
    .cons (.uint 128) <| .cons (.uint 128) .nil

def values (p : OperatorPermission) : fields.Val :=
  (p.sessionRoot, p.paymaster, p.validUntil, p.validAfter, p.gasRemaining, p.timesRemaining, ())

def ofValues : fields.Val → OperatorPermission
  | (sessionRoot, paymaster, validUntil, validAfter, gasRemaining, timesRemaining, ()) =>
    { sessionRoot, paymaster, validUntil, validAfter, gasRemaining, timesRemaining }

@[simp] theorem ofValues_values (p : OperatorPermission) : ofValues p.values = p := rfl

@[simp] theorem values_ofValues (v : fields.Val) : (ofValues v).values = v := rfl

def hash (p : OperatorPermission) : Except EncodingError Hex := do
  return (← Abi.encodeFields (.cons (.tuple fields) .nil) (p.values, ())).keccak

end OperatorPermission

/-- A cap on what an operator may spend of a token; the zero address is the native token. -/
structure SpendingLimit where
  token : Address
  allowance : Int
deriving DecidableEq, Repr

namespace SpendingLimit

abbrev fields : Abi.Fields :=
  .cons .address <| .cons (.uint 256) .nil

def values (l : SpendingLimit) : fields.Val :=
  (l.token, l.allowance, ())

def ofValues : fields.Val → SpendingLimit
  | (token, allowance, ()) => { token, allowance }

@[simp] theorem ofValues_values (l : SpendingLimit) : ofValues l.values = l := rfl

@[simp] theorem values_ofValues (v : fields.Val) : (ofValues v).values = v := rfl

def hashAll (limits : List SpendingLimit) : Except EncodingError Hex := do
  return (← Abi.encodeFields (.cons (.array (.tuple fields)) .nil) (limits.map values, ())).keccak

end SpendingLimit

/-- A configured limit, and what was spent against it. -/
structure SpendingLimitInfo where
  allowance : Int
  spent : Int
deriving DecidableEq, Repr

end SessionKeys
