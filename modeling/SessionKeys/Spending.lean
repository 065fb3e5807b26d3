import SessionKeys.WalletCall

/-!
What a call moves out of a wallet: its native value, and the amount of a token transfer or approval.
Amounts that the wallet sends or approves to itself, or moves between others, are no spending.
-/

namespace SessionKeys

/-- An amount of a token; the zero address is the native token. -/
structure TokenSpend where
  token : Address
  amount : Int
deriving DecidableEq, Repr

/-- The token functions that move tokens, or let others move them. -/
inductive TokenFunction where
  | transfer
  | transferFrom
  | approve
  | increaseAllowance
deriving DecidableEq, Repr

namespace TokenFunction

def all : List TokenFunction :=
  [transfer, transferFrom, approve, increaseAllowance]

def selector : TokenFunction → Bytes
  | transfer => [0xa9, 0x05, 0x9c, 0xbb]
  | transferFrom => [0x23, 0xb8, 0x72, 0xdd]
  | approve => [0x09, 0x5e, 0xa7, 0xb3]
  | increaseAllowance => [0x39, 0x50, 0x93, 0x51]

/-- `transfer(address,uint256)`, `approve(address,uint256)` or `increaseAllowance(address,uint256)` -/
def toRecipient (f : TokenFunction) : Abi.Function where
  selector := f.selector
  inputs := .cons .address <| .cons (.uint 256) .nil

/-- `transferFrom(address,address,uint256)` -/
def betweenHolders : Abi.Function where
  selector := transferFrom.selector
  inputs := .cons .address <| .cons .address <| .cons (.uint 256) .nil

def called? (data : Hex) : Option TokenFunction :=
  all.find? fun f => Abi.selectorOf data == f.toRecipient.writtenSelector

/-- The amount that a call takes from a wallet; none if the wallet does not part with it. -/
def amountTaken (f : TokenFunction) (wallet : Address) (data : Hex) :
    Except Failure (Option Int) := do
  match f with
  | transferFrom =>
    let (holder, recipient, amount, ()) ←
      reading "token call" (orFail (betweenHolders.decodeCall data))
    unless ← orFail (holder.same wallet) do return none
    if ← orFail (recipient.same wallet) then return none
    return some amount
  | f =>
    let (recipient, amount, ()) ← reading "token call" (orFail (f.toRecipient.decodeCall data))
    if ← orFail (recipient.same wallet) then return none
    return some amount

end TokenFunction

/-- What the native value of a call spends. -/
def nativeSpends (call : WalletCall) : List TokenSpend :=
  if 0 < call.value then [⟨Address.zero, call.value⟩] else []

/-- What the call data of a call spends of the token that is called. -/
def tokenSpends (wallet : Address) (call : WalletCall) : Except Failure (List TokenSpend) :=
  match TokenFunction.called? call.data with
  | none => .ok []
  | some f => do
    match ← f.amountTaken wallet call.data with
    | none => return []
    | some amount => return [⟨call.target, amount⟩]

def WalletCall.spends (wallet : Address) (call : WalletCall) : Except Failure (List TokenSpend) := do
  return nativeSpends call ++ (← tokenSpends wallet call)

end SessionKeys
