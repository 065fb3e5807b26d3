import SessionKeys.Address
import SessionKeys.Predicate.Tag

/-!
Everything that can go wrong, by cause. A `Refusal` is a decision of this library about an operation
and carries a code; the other failures come from encoding, from configuration, from dates, or from a
validator outside this library. The wording of every cause stands here and nowhere else.
-/

namespace SessionKeys

/-! ### Decoding -/

/-- Why bytes cannot be decoded. -/
inductive DecodeError where
  | notBytes
  | noData
  | shortData
  | outOfBounds
  | tooManyRereads
  | unsafeInteger
  | invalidBool
  | invalidText
  | unknownSelector
  | unknownType
  | invalidPrefix
  | listOverrun
  | trailingBytes
  | nestedTooDeeply
deriving DecidableEq, Repr

def DecodeError.message : DecodeError → String
  | notBytes => "text does not write bytes"
  | noData => "there is nothing to decode"
  | shortData => "data is shorter than one word"
  | outOfBounds => "position is out of bounds"
  | tooManyRereads => "data is read too often"
  | unsafeInteger => "integer is too large"
  | invalidBool => "truth value is neither 0 nor 1"
  | invalidText => "text is not valid UTF-8"
  | unknownSelector => "unknown function selector"
  | unknownType => "unknown type"
  | invalidPrefix => "invalid prefix byte"
  | listOverrun => "list items overrun the list"
  | trailingBytes => "bytes follow the item"
  | nestedTooDeeply => "items are nested too deeply"

/-! ### Refusals -/

/-- The code of a refusal. -/
inductive RefusalCode where
  | malformedInput
  | invalidArgumentsLength
  | invalidCalldataPrefix
  | invalidBatchLength
  | invalidWalletOperation
  | valueMismatch
  | invalidSession
  | invalidTo
  | invalidSelector
  | calldataMismatch
  | argumentsNotAllowed
  | delegatecallNotAllowed
  | invalidPaymaster
  | gasExceeded
  | timesExhausted
  | sessionTimesExhausted
  | tokenOverspending
  | invalidValidationDuration
  | permitNotSudo
  | invalidPermitSignature
  | permitRevoked
  | stalePermitNonce
deriving DecidableEq, Repr

namespace RefusalCode

def name : RefusalCode → String
  | malformedInput => "MALFORMED_INPUT"
  | invalidArgumentsLength => "INVALID_ARGUMENTS_LENGTH"
  | invalidCalldataPrefix => "INVALID_CALLDATA_PREFIX"
  | invalidBatchLength => "INVALID_BATCH_LENGTH"
  | invalidWalletOperation => "INVALID_WALLET_OPERATION"
  | valueMismatch => "VALUE_MISMATCH"
  | invalidSession => "INVALID_SESSION"
  | invalidTo => "INVALID_TO"
  | invalidSelector => "INVALID_SELECTOR"
  | calldataMismatch => "CALLDATA_MISMATCH"
  | argumentsNotAllowed => "ARGUMENTS_NOT_ALLOWED"
  | delegatecallNotAllowed => "DELEGATECALL_NOT_ALLOWED"
  | invalidPaymaster => "INVALID_PAYMASTER"
  | gasExceeded => "GAS_EXCEEDED"
  | timesExhausted => "TIMES_EXHAUSTED"
  | sessionTimesExhausted => "SESSION_TIMES_EXHAUSTED"
  | tokenOverspending => "TOKEN_OVERSPENDING"
  | invalidValidationDuration => "INVALID_VALIDATION_DURATION"
  | permitNotSudo => "PERMIT_NOT_SUDO"
  | invalidPermitSignature => "INVALID_PERMIT_SIGNATURE"
  | permitRevoked => "PERMIT_REVOKED"
  | stalePermitNonce => "STALE_PERMIT_NONCE"

end RefusalCode

/-- Why an operation is refused. -/
inductive Refusal where
  | malformed (what reason : String)
  | notAList (what : String)
  | listArgument
  | nodeShape
  | tagShape
  | noChildren (op : Connective)
  | tooFewChildren (op : Connective)
  | listPayload (tag : PredicateTag)
  | shortWord
  | valueSlot
  | notAHash (text : String)
  | shortCallData
  | shortSignature
  | shortPermitSignature
  | notCanonical
  | wrongAddressee (named self : Address)
  | argumentCount (allowed actual : Nat)
  | unknownTag (tag : Hex)
  | emptyBatch
  | unevenBatch
  | unevenSignature
  | noSession
  | sessionCount (calls sessions : Nat)
  | walletOperation (selector : Hex)
  | valueMismatch
  | notALeaf
  | notCommitted
  | wrongTarget (allowed target : Address)
  | wrongSelector (allowed given : Hex)
  | calldataMismatch
  | argumentsNotAllowed
  | notPlainCall (index : Nat)
  | wrongPaymaster (pinned actual : Address)
  | gasExceeded (fee remaining : Int)
  | timesExhausted
  | sessionExhausted (used limit : Int)
  | overspending (token : Address) (allowance spent requested : Int)
  | emptyWindow (validUntil validAfter : Number)
  | notSudo (signer wallet : Address)
  | badPermitSignature
  | permitRevoked (hash : Hex)
  | staleNonce
deriving DecidableEq, Repr

namespace Refusal

def code : Refusal → RefusalCode
  | malformed .. | notAList _ | listArgument | nodeShape | tagShape | noChildren _
  | tooFewChildren _ | listPayload _ | shortWord | valueSlot | notAHash _ | shortCallData
  | shortSignature | shortPermitSignature | notCanonical | wrongAddressee .. => .malformedInput
  | argumentCount .. => .invalidArgumentsLength
  | unknownTag _ => .invalidCalldataPrefix
  | emptyBatch | unevenBatch | unevenSignature | noSession | sessionCount .. => .invalidBatchLength
  | walletOperation _ => .invalidWalletOperation
  | valueMismatch => .valueMismatch
  | notALeaf | notCommitted => .invalidSession
  | wrongTarget .. => .invalidTo
  | wrongSelector .. => .invalidSelector
  | calldataMismatch => .calldataMismatch
  | argumentsNotAllowed => .argumentsNotAllowed
  | notPlainCall _ => .delegatecallNotAllowed
  | wrongPaymaster .. => .invalidPaymaster
  | gasExceeded .. => .gasExceeded
  | timesExhausted => .timesExhausted
  | sessionExhausted .. => .sessionTimesExhausted
  | overspending .. => .tokenOverspending
  | emptyWindow .. => .invalidValidationDuration
  | notSudo .. => .permitNotSudo
  | badPermitSignature => .invalidPermitSignature
  | permitRevoked _ => .permitRevoked
  | staleNonce => .stalePermitNonce

def message : Refusal → String
  | malformed what reason => s!"malformed {what}: {reason}"
  | notAList what => s!"{what} must be an RLP list"
  | listArgument => "actual argument must be a byte string, not a list"
  | nodeShape => "predicate node must be a [tag, payload] list"
  | tagShape => "predicate tag must be a single byte"
  | noChildren op => s!"{op.name} node needs a non-empty list of children"
  | tooFewChildren op => s!"{op.name} needs at least two children"
  | listPayload tag => s!"{tag.name} node payload must be a byte string"
  | shortWord => "numeric comparison needs a 32-byte word"
  | valueSlot => "value slot must be a single 32-byte word"
  | notAHash text => s!"not a 32-byte hash: {text}"
  | shortCallData => "call data shorter than a selector"
  | shortSignature => "signature is shorter than the validator prefix"
  | shortPermitSignature => "permit signature must start with a validator address"
  | notCanonical => "session signature is not canonically encoded"
  | wrongAddressee named self => s!"signature is addressed to {named.text}, not {self.text}"
  | argumentCount allowed actual => s!"invalid arguments length: {allowed} allowed, {actual} actual"
  | unknownTag tag => s!"invalid calldata prefix: {tag.text}"
  | emptyBatch => "batch execute needs at least one call"
  | unevenBatch => "batch execute arrays differ in length"
  | unevenSignature => "proofs, sessions and arguments differ in length"
  | noSession => "single execute needs exactly one session"
  | sessionCount calls sessions => s!"batch length mismatch: {calls} calls, {sessions} sessions"
  | walletOperation selector => s!"invalid wallet operation: selector {selector.text}"
  | valueMismatch => "msg.value not corresponding to parsed value"
  | notALeaf => "session is not a leaf of this tree"
  | notCommitted => "session is not committed under the operator root"
  | wrongTarget allowed target =>
    s!"invalid to: session allows {allowed.text}, call targets {target.text}"
  | wrongSelector allowed given =>
    s!"invalid selector: session allows {allowed.text}, got {given.text}"
  | calldataMismatch => "rlp calldata is not equally encoded from execution data"
  | argumentsNotAllowed => "call arguments are not allowed by the session"
  | notPlainCall index => s!"call {index} is not a plain call"
  | wrongPaymaster pinned actual =>
    s!"invalid paymaster: expected {pinned.text}, got {actual.text}"
  | gasExceeded fee remaining =>
    s!"gas fee exceeds remaining gas: fee {fee}, remaining {remaining}"
  | timesExhausted => "operator has no remaining uses"
  | sessionExhausted used limit => s!"session used {used} of {limit} times"
  | overspending token allowance spent requested =>
    s!"token overspending: {token.text} allowance {allowance}, spent {spent}, requested {requested}"
  | emptyWindow validUntil validAfter =>
    s!"invalid validation duration: validUntil {validUntil.text} < validAfter {validAfter.text}"
  | notSudo signer wallet => s!"permit signer {signer.text} is not a sudo validator of {wallet.text}"
  | badPermitSignature => "permit signature does not verify"
  | permitRevoked hash => s!"permit {hash.text} was already used or revoked"
  | staleNonce => "permit nonce advanced while the permit was verified"

end Refusal

/-! ### Configuration -/

/-- Why an environment does not configure the server. -/
inductive ConfigError where
  | missing (name meaning : String)
  | notAnAddress (name : String)
  | chainId (text : String)
  | ownerWithoutValidator
deriving DecidableEq, Repr

def ConfigError.message : ConfigError → String
  | missing name meaning => s!"{name} environment variable is required. Set it to {meaning}."
  | notAnAddress name => s!"{name} must be a 0x-prefixed 20-byte hex string (42 chars total)."
  | chainId text => s!"CHAIN_ID must be a positive integer, got \"{text}\"."
  | ownerWithoutValidator => "SUDO_VALIDATOR_ADDRESS is required when OWNER_ADDRESS is set."

/-! ### Failures -/

/-- Everything that can go wrong. -/
inductive Failure where
  | refused (refusal : Refusal)
  | encoding (error : EncodingError)
  | decoding (error : DecodeError)
  | configuration (error : ConfigError)
  | noLeaves
  | notANumber (text : String)
  | dateOutOfRange
  | notEnabled (validator wallet : Address)
  | noAllowance
  /-- an error of a validator outside this library -/
  | foreign (message : String)
  /-- something a validator outside this library raised that is no error but a text -/
  | foreignText (text : String)
deriving DecidableEq, Repr

instance : Coe Refusal Failure := ⟨.refused⟩
instance : Coe EncodingError Failure := ⟨.encoding⟩
instance : Coe DecodeError Failure := ⟨.decoding⟩
instance : Coe ConfigError Failure := ⟨.configuration⟩

/-- A computation that fails for one cause, as one that fails for any. -/
def orFail {ε α : Type} [Coe ε Failure] (x : Except ε α) : Except Failure α :=
  x.mapError fun e : ε => (e : Failure)

/-- A failure as it is shown to others: with a code, as a message, or as a bare text. -/
inductive ErrorReport where
  | coded (code message : String)
  | plain (message : String)
  | bare (text : String)
deriving DecidableEq, Repr

namespace ErrorReport

def message : ErrorReport → String
  | coded _ m | plain m | bare m => m

def code? : ErrorReport → Option String
  | coded c _ => some c
  | plain _ | bare _ => none

/-- Why something could not be decoded: of a message the first line, of a bare text all of it. -/
def reason : ErrorReport → String
  | coded _ m | plain m => String.ofList (m.toList.takeWhile (· ≠ '\n'))
  | bare m => m

/-- Whether a report carries a code: any, or a given one. -/
def hasCode (report : ErrorReport) (code : Option String) : Bool :=
  match report.code?, code with
  | some _, none => true
  | some c, some d => c == d
  | none, _ => false

/-- A report about the decoding of something: one that carries a code stays as it is, any other
becomes one about malformed input. -/
def whileReading (what : String) (report : ErrorReport) : ErrorReport :=
  match report with
  | coded c m => coded c m
  | other => coded RefusalCode.malformedInput.name (Refusal.malformed what other.reason).message

end ErrorReport

namespace Failure

def report : Failure → ErrorReport
  | refused r => .coded r.code.name r.message
  | encoding e => .plain e.message
  | decoding e => .plain e.message
  | configuration e => .plain e.message
  | noLeaves => .plain "Expected non-zero number of leaves"
  | notANumber text => .plain s!"Cannot convert {text} to a BigInt"
  | dateOutOfRange => .plain "Invalid time value"
  | notEnabled validator wallet =>
    .plain s!"validator {validator.text} is not enabled on {wallet.text}"
  | noAllowance => .plain "allowance is required to set a spending limit"
  | foreign m => .plain m
  | foreignText t => .bare t

def message (f : Failure) : String :=
  f.report.message

/-- A failure met while something was decoded: a refusal stays as it is, any other one means that
the thing is malformed. -/
def whileReading (what : String) : Failure → Failure
  | refused r => refused r
  | other => refused (.malformed what other.report.reason)

theorem report_whileReading (what : String) (f : Failure) :
    (f.whileReading what).report = f.report.whileReading what := by
  cases f <;> rfl

end Failure

/-- The whole number that a text writes. -/
def Hex.toInt (h : Hex) : Except Failure Int :=
  match h.toInt? with
  | some n => .ok n
  | none => .error (.notANumber h.text)

theorem Hex.toInt_of_bytes? {h : Hex} {b : Bytes} (hb : h.bytes? = some b) (hne : b ≠ []) :
    h.toInt = .ok (b.toNat : Int) := by
  simp [toInt, toInt?_of_bytes? hb hne]

/-- Runs a decoder; what it fails for is reported as malformed input, refusals excepted. -/
def reading {α : Type} (what : String) (x : Except Failure α) : Except Failure α :=
  x.mapError (Failure.whileReading what)

end SessionKeys
