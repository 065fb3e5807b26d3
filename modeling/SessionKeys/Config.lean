import SessionKeys.Digits
import SessionKeys.Failure

/-!
The configuration of a server, read from an environment. A variable that is set to the empty text
counts as absent, except the chain number. The chain number is read from the start of its text:
white space, a sign and decimal digits; what follows the digits is not looked at.
-/

namespace SessionKeys

structure Config where
  walletAddress : Address
  validatorAddress : Address
  /-- the number of the chain; only a whole one can be signed for -/
  chainId : Number
  entryPointAddress : Address
  ownerAddress : Option Address
  sudoValidatorAddress : Option Address
deriving DecidableEq, Repr

/-- The variables of an environment, by name. -/
abbrev Environment := String → Option String

namespace Config

def variableNames : List String :=
  ["WALLET_ADDRESS", "VALIDATOR_ADDRESS", "CHAIN_ID", "ENTRY_POINT_ADDRESS", "OWNER_ADDRESS",
   "SUDO_VALIDATOR_ADDRESS"]

/-- The entry point that is used unless another one is given. -/
def defaultEntryPoint : Address :=
  Address.ofBytes
    [0x5f, 0xf1, 0x37, 0xd4, 0xb0, 0xfd, 0xcd, 0x49, 0xdc, 0xa3,
     0x0c, 0x7c, 0xf5, 0x7e, 0x57, 0x8a, 0x02, 0x6d, 0x27, 0x89]

/-- A variable that is set to some text. -/
def present? (env : Environment) (name : String) : Option String :=
  (env name).filter fun text => !text.isEmpty

def parseAddress (name text : String) : Except ConfigError Address :=
  match (Address.ofText text).checksummed? with
  | some a => .ok a
  | none => .error (.notAnAddress name)

def requireAddress (env : Environment) (name meaning : String) : Except ConfigError Address :=
  match present? env name with
  | some text => parseAddress name text
  | none => .error (.missing name meaning)

def optionalAddress (env : Environment) (name : String) : Except ConfigError (Option Address) :=
  match present? env name with
  | some text => do return some (← parseAddress name text)
  | none => .ok none

/-- The first integer that is too large for a chain number, `2 ^ 53`. -/
def chainIdBound : Int := 0x20000000000000

/-- The chain number that a text gives. -/
def parseChainId (text : String) : Except ConfigError Int :=
  match leadingInteger? text.toList with
  | some n => if 0 < n ∧ n < chainIdBound then .ok n else .error (.chainId text)
  | none => .error (.chainId text)

def load (env : Environment) : Except ConfigError Config := do
  let walletAddress ←
    requireAddress env "WALLET_ADDRESS" "the wallet whose operators are managed"
  let validatorAddress ←
    requireAddress env "VALIDATOR_ADDRESS" "the session-key validator address"
  let chainId ← parseChainId ((env "CHAIN_ID").getD "1")
  let entryPoint ← optionalAddress env "ENTRY_POINT_ADDRESS"
  let ownerAddress ← optionalAddress env "OWNER_ADDRESS"
  let sudoValidatorAddress ← optionalAddress env "SUDO_VALIDATOR_ADDRESS"
  if ownerAddress.isSome ∧ sudoValidatorAddress.isNone then throw .ownerWithoutValidator
  return {
    walletAddress, validatorAddress
    chainId := .ofInt chainId
    entryPointAddress := entryPoint.getD defaultEntryPoint
    ownerAddress, sudoValidatorAddress }

end Config

end SessionKeys
