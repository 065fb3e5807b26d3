import SessionKeys.Proofs.SignatureForms

/-!
What a validator makes of a signature that was written for it. Whatever lists the parts have, reading ends
with what they show for the calls, or with the reason why they show nothing
(`SignatureParts.decode_of_encodeSignature`). The case of letters does not matter to the signature of the
operator (`isSignedBy_congr`). So an operation is read as its parts tell, and the signature of the operator
makes no difference but to whether it is valid (`SignatureParts.Writes.ofOperation`).
-/

namespace SessionKeys

/-! ### What is shown -/

namespace SignatureParts

/-- What the parts of a signature show for the calls of an operation: the first of each list, or one from
each place of lists of one length. -/
def entries (parts : SignatureParts) : ExecutionMode → Except Refusal (List SessionEntry)
  | .single =>
    match parts.proofs, parts.sessions, parts.arguments with
    | proof :: _, session :: _, arguments :: _ => .ok [⟨proof, session, arguments⟩]
    | _, _, _ => .error .noSession
  | .batch =>
    if parts.sessions.length ≠ parts.proofs.length ∨ parts.arguments.length ≠ parts.proofs.length then
      .error .unevenSignature
    else .ok (zipEntries parts.proofs parts.sessions parts.arguments)

end SignatureParts

/-! ### Reading -/

section Payload

variable {fields : Abi.Fields} {payload : Hex} {values : fields.Val} {permit : Option Permit}

/-- The fields before a permit are read as if there was none. -/
theorem decodeFields_of_form (readable : fields.isReadable = true) (enough : 32 ≤ fields.headSize)
    (fits : fields.Fits values) (granted : ∀ p ∈ permit, Permit.fields.Fits p.values)
    (written : payload.bytes? = some (Abi.Part.layout (formParts fields values permit)))
    (short : (Abi.Part.layout (formParts fields values permit)).length < Abi.Scan.smallBound) :
    Abi.decodeFields fields payload = .ok (fields.normal values) := by
  cases permit with
  | none => exact Abi.decodeFields_of_bytes? readable enough fits written short
  | some p =>
    have all := Abi.fits_join fields fits (granted p rfl)
    have readableAll := Abi.isReadable_append fields readable (b := Permit.fields) rfl
    have enoughAll : 32 ≤ (fields.append Permit.fields).headSize := by
      rw [Abi.headSize_append]
      exact Nat.le_add_left_of_le (by decide)
    rw [formParts, ← Abi.parts_join] at written short
    have read := Abi.decodeFields_divide (Abi.decodeFields_of_bytes? readableAll enoughAll all written short)
    rwa [Abi.normal_join, Abi.divide_join] at read

/-- A payload that is written behind the address of a validator is read as what is made of its fields. -/
theorem decodePayload_of_encodePayload (mode : ExecutionMode)
    (base : fields.Val → Except Refusal SignatureBase) {validator : Address} {signature : Hex}
    (readable : fields.isReadable = true) (enough : 32 ≤ fields.headSize) (fits : fields.Fits values)
    (granted : ∀ p ∈ permit, Permit.fields.Fits p.values) (addressed : validator.IsWellFormed)
    (encoded : encodePayload validator fields values permit = .ok signature)
    (short : signature.chars.length < textBound) :
    ∃ payload, splitValidatorSignature signature = .ok ⟨validator.normal, payload⟩ ∧
      decodePayload mode fields base payload = (orFail (base (fields.normal values))).map fun b =>
        ⟨mode, b.entries, b.operator, b.operatorSignature, permit.map Permit.normal⟩ := by
  obtain ⟨v, hv⟩ := addressed.exists_bytes
  obtain ⟨form, formed, rfl⟩ := encodePayload_eq_ok.1 encoded
  obtain ⟨form', formed', bytes⟩ := encodeForm_of_fits readable fits granted
  obtain rfl := Except.ok.inj (formed.symm.trans formed')
  obtain ⟨payload, split, written⟩ := splitValidatorSignature_append hv bytes
  refine ⟨payload, split, ?_⟩
  have whole := Hex.bytes?_append (Address.bytes?_eq_some_iff.1 hv).1 bytes
  rw [Hex.length_chars_of_bytes? whole, List.length_append] at short
  have small : (Abi.Part.layout (formParts fields values permit)).length < Abi.Scan.smallBound := by
    unfold textBound at short
    unfold Abi.Scan.smallBound
    omega
  cases checked : base (fields.normal values) with
  | ok b => exact decodePayload_of_form readable enough fits granted checked written small
  | error refusal =>
    unfold decodePayload
    rw [decodeFields_of_form readable enough fits granted written small, orFail_ok, ok_bind, checked]
    rfl

end Payload

namespace SignatureParts

variable {mode : ExecutionMode} {parts : SignatureParts} {signature : Hex}

/-- What is read from a written signature is what its parts show. -/
theorem decode_of_encodeSignature (encodable : parts.AreEncodable)
    (encoded : encodeSignature mode parts = .ok signature) (short : signature.chars.length < textBound) :
    ∃ payload, splitValidatorSignature signature = .ok ⟨parts.validator.normal, payload⟩ ∧
      SessionSignature.decode mode payload =
        (reading "session signature" (orFail (parts.normal.entries mode))).map fun entries =>
          ⟨mode, entries, parts.operator.normal, parts.operatorSignature.lower,
            parts.permit.map Permit.normal⟩ := by
  obtain ⟨validator, proofs, operator, sessions, arguments, operatorSignature, permit⟩ := parts
  cases mode with
  | single =>
    cases proofs with
    | nil => cases encoded
    | cons proof proofs =>
      cases sessions with
      | nil => cases encoded
      | cons session sessions =>
        cases arguments with
        | nil => cases encoded
        | cons given arguments =>
          have fits : singleFields.Fits
              (proof, operator, session.values, given, operatorSignature, ()) :=
            ⟨encodable.proofs proof (.head _), encodable.operator,
              (encodable.sessions session (.head _)).fits, encodable.arguments given (.head _),
              encodable.operatorSignature, trivial⟩
          obtain ⟨payload, split, read⟩ := decodePayload_of_encodePayload .single
            singleBase (by decide) (by decide) fits encodable.permit encodable.validator
            (orFail_eq_ok.1 encoded) short
          refine ⟨payload, split, ?_⟩
          exact congrArg (reading "session signature") read
  | batch =>
    obtain ⟨payload, split, read⟩ := decodePayload_of_encodePayload .batch
      batchBase (by decide) (by decide) encodable.fits_batch encodable.permit encodable.validator
      (orFail_eq_ok.1 encoded) short
    refine ⟨payload, split, ?_⟩
    have again : ((sessions.map Session.values).map Session.fields.normal).map Session.ofValues =
        sessions.map Session.normal := by
      rw [List.map_map, List.map_map]
      rfl
    have made : batchBase (batchFields.normal
        (proofs, operator, sessions.map Session.values, arguments, operatorSignature, ())) =
        ((SignatureParts.normal ⟨validator, proofs, operator, sessions, arguments, operatorSignature,
          permit⟩).entries .batch).map fun entries => ⟨entries, operator.normal, operatorSignature.lower⟩ := by
      change batchBase (proofs.map fun proof => proof.map Hex.lower, operator.normal,
        (sessions.map Session.values).map Session.fields.normal, arguments.map Hex.lower,
        operatorSignature.lower, ()) = _
      unfold batchBase entries normal
      simp only [again, List.length_map]
      split <;> rfl
    unfold SessionSignature.decode
    rw [read, made]
    cases (SignatureParts.normal ⟨validator, proofs, operator, sessions, arguments, operatorSignature,
      permit⟩).entries .batch <;> rfl

end SignatureParts

/-! ### Who signed -/

theorem Hex.digitsNumber?_of_bytes? {h : Hex} {b : Bytes} (hb : h.bytes? = some b) :
    h.digitsNumber? = some b.toNat := by
  unfold digitsNumber?
  rw [read?_of_bytes? hb]
  rfl

theorem Hex.written_of_bytes? {h : Hex} {b : Bytes} (hb : h.bytes? = some b) : h.written = h :=
  if_pos (hasDigits_of_bytes? hb)

/-- What a signature recovers to, as a function of its bytes. -/
theorem recoverSigner?_of_bytes? {message signature : Hex} {b : Bytes}
    (hb : signature.bytes? = some b) :
    recoverSigner? message signature = do
      guard (b.length = 65)
      let odd ← recoveryParity (Bytes.toNat (b.drop 64))
      let key ← Secp256k1.recoverKey? (personalMessageHash message).toNat (Bytes.toNat (b.take 32))
        (Bytes.toNat ((b.drop 32).take 32)) odd
      return Address.ofBytes (Secp256k1.addressOfKey key) := by
  unfold recoverSigner?
  simp only [Hex.written_of_bytes? hb, Hex.size_of_bytes? hb,
    Hex.digitsNumber?_of_bytes? (Hex.bytes?_drop hb 64),
    Hex.digitsNumber?_of_bytes? (Hex.bytes?_take hb 32),
    Hex.digitsNumber?_of_bytes? (Hex.bytes?_take (Hex.bytes?_drop hb 32) 32)]
  by_cases length : b.length = 65
  · simp [length, guard]
  · simp [length, guard]

/-- A signature of 65 bytes that has a key recovers to the address of the key. -/
theorem recoverSigner?_of_key {message signature : Hex} {b : Bytes} {odd : Bool} {key : Nat × Nat}
    (hb : signature.bytes? = some b) (length : b.length = 65)
    (parity : recoveryParity (Bytes.toNat (b.drop 64)) = some odd)
    (recovered : Secp256k1.recoverKey? (personalMessageHash message).toNat (Bytes.toNat (b.take 32))
      (Bytes.toNat ((b.drop 32).take 32)) odd = some key) :
    recoverSigner? message signature = some (Address.ofBytes (Secp256k1.addressOfKey key)) := by
  rw [recoverSigner?_of_bytes? hb, parity, guard, if_pos length]
  simp only [Option.bind_eq_bind, Option.bind_some, recovered]
  rfl

/-- Whether a signature is by a signer depends on the bytes of both alone. -/
theorem isSignedBy_congr {message x y : Hex} {b : Bytes} {signer other : Address} (hx : x.bytes? = some b)
    (hy : y.bytes? = some b) (same : signer.bytes? = other.bytes?) :
    isSignedBy message x signer = isSignedBy message y other := by
  rw [Bool.eq_iff_iff, isSignedBy_eq_true, isSignedBy_eq_true, recoverSigner?_of_bytes? hx,
    recoverSigner?_of_bytes? hy]
  unfold Address.Agrees
  rw [same]

/-- A signature and its signer are read in another case, which changes nothing. -/
theorem isSignedBy_normal {message signature : Hex} {signer : Address}
    (written : ∃ b, signature.bytes? = some b) (strict : signer.isStrict = true) :
    isSignedBy message signature.lower signer.normal = isSignedBy message signature signer := by
  obtain ⟨b, hb⟩ := written
  obtain ⟨a, ha⟩ := Address.exists_bytes_of_isStrict strict
  refine isSignedBy_congr (Hex.bytes?_lower hb) hb ?_
  rw [Address.normal_of_bytes? ha, ha, Address.bytes?_ofBytes (Address.bytes?_eq_some_iff.1 ha).2]

namespace SignatureParts

/-- The operator of some parts signed an operation for a validator with `x`. -/
def IsSigned (parts : SignatureParts) (self : Address) (userOpHash x : Hex) : Prop :=
  ∃ message, operatorMessageHash userOpHash self = .ok message ∧
    isSignedBy message x parts.operator = true

/-- A placeholder that has not the length of a signature is signed by nobody. -/
theorem not_isSigned_of_length {parts : SignatureParts} {self : Address} {userOpHash x : Hex} {b : Bytes}
    (written : x.bytes? = some b) (length : b.length ≠ 65) : ¬parts.IsSigned self userOpHash x := by
  rintro ⟨message, -, signed⟩
  obtain ⟨_, recovered, -⟩ := isSignedBy_eq_true.1 signed
  rw [recoverSigner?_of_bytes? written, guard, if_neg length] at recovered
  cases recovered

end SignatureParts

/-! ### Reading an operation -/

namespace SignatureParts

variable {mode : ExecutionMode} {parts : SignatureParts} {self : Address} {op : UserOperation}
  {userOpHash x signature : Hex}

/-- The same parts with another signature of the operator. -/
def signedWith (parts : SignatureParts) (x : Hex) : SignatureParts :=
  { parts with operatorSignature := x }

/-- A signature is written of some parts, with `x` as the signature of the operator. -/
structure Writes (parts : SignatureParts) (mode : ExecutionMode) (x signature : Hex) : Prop where
  encodable : (parts.signedWith x).AreEncodable
  encoded : encodeSignature mode (parts.signedWith x) = .ok signature
  short : signature.chars.length < textBound

/-- What is read of an operation apart from the signature of the operator: the message to be signed, and
the calls with what is shown for them. -/
def readFor (parts : SignatureParts) (mode : ExecutionMode) (self : Address) (callData userOpHash : Hex) :
    Except Failure (Hex × List (WalletCall × SessionEntry)) := do
  unless ← orFail (parts.validator.normal.same self) do
    throw (.refused (.wrongAddressee parts.validator.normal self))
  let operation ← WalletOperation.decode callData
  let entries ← reading "session signature" (orFail (parts.normal.entries mode))
  if entries.length ≠ operation.calls.length then
    throw (.refused (.sessionCount operation.calls.length entries.length))
  let message ← orFail (operatorMessageHash userOpHash self)
  return (message, operation.calls.zip entries)

theorem readFor_eq_ok {callData message : Hex} {steps : List (WalletCall × SessionEntry)} :
    parts.readFor mode self callData userOpHash = .ok (message, steps) ↔
      ∃ operation entries, parts.validator.normal.same self = .ok true ∧
        WalletOperation.decode callData = .ok operation ∧ parts.normal.entries mode = .ok entries ∧
        entries.length = operation.calls.length ∧ operatorMessageHash userOpHash self = .ok message ∧
        steps = operation.calls.zip entries := by
  unfold readFor
  simp only [bind_eq_ok, throw_eq_error, error_bind, error_ite_eq_ok, ite_error_eq_ok, pure_eq_ok,
    orFail_eq_ok, reading_eq_ok, Except.ok.injEq, Prod.mk.injEq, ne_eq, Decidable.not_not]
  constructor
  · rintro ⟨_, addressed, rfl, operation, decoded, entries, shows, lengths, _, hashed, rfl, rfl⟩
    exact ⟨operation, entries, addressed, decoded, shows, lengths, hashed, rfl⟩
  · rintro ⟨operation, entries, addressed, decoded, shows, lengths, hashed, rfl⟩
    exact ⟨true, addressed, rfl, operation, decoded, entries, shows, lengths, message, hashed, rfl, rfl⟩

/-- An operation as it is read from its parts. -/
def prepared (parts : SignatureParts) (op : UserOperation) (x message : Hex)
    (steps : List (WalletCall × SessionEntry)) : PreparedOperation where
  op := op
  operator := parts.operator.normal
  signatureValid := isSignedBy message x parts.operator
  steps := steps
  permit := parts.permit.map Permit.normal

/-- What the operator signed is looked at by nothing but the check of the signature. -/
theorem Writes.ofOperation (self : Address) (userOpHash : Hex) (writes : parts.Writes mode x signature)
    (matching : ∀ operation, WalletOperation.decode op.callData = .ok operation → operation.mode = mode) :
    PreparedOperation.ofOperation self { op with signature } userOpHash =
      (parts.readFor mode self op.callData userOpHash).map fun read =>
        parts.prepared { op with signature } x read.1 read.2 := by
  obtain ⟨payload, split, read⟩ := decode_of_encodeSignature writes.encodable writes.encoded writes.short
  have same : (parts.signedWith x).normal.entries mode = parts.normal.entries mode := by
    cases mode <;> rfl
  rw [show (parts.signedWith x).validator = parts.validator from rfl] at split
  rw [same] at read
  have signed (message : Hex) : isSignedBy message x.lower parts.operator.normal =
      isSignedBy message x parts.operator :=
    isSignedBy_normal writes.encodable.operatorSignature writes.encodable.operator
  unfold PreparedOperation.ofOperation readFor
  simp only [split, ok_bind]
  cases orFail (parts.validator.normal.same self) with
  | error f => rfl
  | ok addressed =>
    cases addressed with
    | false => rfl
    | true =>
      cases decoded : WalletOperation.decode op.callData with
      | error f => rfl
      | ok operation =>
        simp only [ok_bind, if_true, matching operation decoded, read]
        cases reading "session signature" (orFail (parts.normal.entries mode)) with
        | error f => rfl
        | ok entries =>
          by_cases uneven : entries.length ≠ operation.calls.length
          · simp only [Except.map, ok_bind, if_pos uneven]
            rfl
          · simp only [Except.map, ok_bind, if_neg uneven]
            cases operatorMessageHash userOpHash self with
            | error f => rfl
            | ok message => exact congrArg _ (congrArg (PreparedOperation.mk _ _ · _ _) (signed message))

end SignatureParts

end SessionKeys
