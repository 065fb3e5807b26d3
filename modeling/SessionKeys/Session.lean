import SessionKeys.Abi.Encode
import SessionKeys.Budget
import SessionKeys.Failure

/-!
A session: one kind of call that an operator may make. Sessions are not stored. They are committed
by their leaf, the doubly hashed encoding of all their fields, and shown with every operation.
-/

namespace SessionKeys

/-- One kind of call that an operator may make. -/
structure Session where
  target : Address
  /-- the function to call; four zero bytes for a plain transfer of value -/
  selector : Hex
  allowedArguments : Hex
  /-- the paymaster that has to be attached; zero for any -/
  paymaster : Address
  /-- the last second of validity; zero for no end -/
  validUntil : Number
  validAfter : Number
  /-- how often the session may be used; zero or `unlimited` for no limit -/
  timesLimit : Int
deriving DecidableEq, Repr

namespace Session

abbrev fields : Abi.Fields :=
  .cons .address <| .cons (.fixedBytes 4) <| .cons .bytes <| .cons .address <|
    .cons (.number 48) <| .cons (.number 48) <| .cons (.uint 256) .nil

def values (s : Session) : fields.Val :=
  (s.target, s.selector, s.allowedArguments, s.paymaster, s.validUntil, s.validAfter, s.timesLimit, ())

def ofValues : fields.Val → Session
  | (target, selector, allowedArguments, paymaster, validUntil, validAfter, timesLimit, ()) =>
    { target, selector, allowedArguments, paymaster, validUntil, validAfter, timesLimit }

@[simp] theorem ofValues_values (s : Session) : ofValues s.values = s := rfl

@[simp] theorem values_ofValues (v : fields.Val) : (ofValues v).values = v := rfl

/-- The leaf that commits a session. -/
def leaf (s : Session) : Except EncodingError Hex := do
  return (← Abi.encodeFields fields s.values).keccak.keccak

/-- Whether a limit on uses is none. -/
def isUnlimitedTimes (timesLimit : Int) : Bool :=
  timesLimit == 0 || timesLimit == unlimited

end Session

/-- Checks the paymaster of an operation against the one that is pinned. A pin that writes the number
zero accepts any. -/
def validatePaymaster (pinned actual : Address) : Except Failure Unit := do
  if (← pinned.hex.toInt) = 0 then return
  if ← orFail (pinned.same actual) then return
  throw (.refused (.wrongPaymaster pinned actual))

end SessionKeys
