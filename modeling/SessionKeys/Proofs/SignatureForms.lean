import SessionKeys.Proofs.Preparation
import SessionKeys.Proofs.ReadingBack
import SessionKeys.Proofs.SessionEncoding

/-!
What is put into the signature of an operation is read from it again. The two forms of a payload are
told apart by their lengths alone: what is read without a permit from a payload that carries one has a
shorter encoding. Conversely, a payload from which a permit is read is the encoding of what is read from
it, and any other has at least the length of that encoding. Main statement:
`session_signature_roundtrip`.
-/

namespace SessionKeys

/-! ### Parts of signatures -/

def Session.normal (s : Session) : Session :=
  { s with
    target := s.target.normal
    selector := s.selector.lower
    allowedArguments := s.allowedArguments.lower
    paymaster := s.paymaster.normal }

def OperatorPermission.normal (p : OperatorPermission) : OperatorPermission :=
  { p with sessionRoot := p.sessionRoot.lower, paymaster := p.paymaster.normal }

def SpendingLimit.normal (l : SpendingLimit) : SpendingLimit :=
  { l with token := l.token.normal }

def Permit.normal (p : Permit) : Permit where
  signature := p.signature.lower
  permission := p.permission.normal
  spendingLimits := p.spendingLimits.map SpendingLimit.normal

theorem Permit.ofValues_normal_values (p : Permit) : ofValues (fields.normal p.values) = p.normal := by
  obtain ⟨signature, permission, limits⟩ := p
  have each : ((limits.map SpendingLimit.values).map SpendingLimit.fields.normal).map
      SpendingLimit.ofValues = limits.map SpendingLimit.normal := by
    rw [List.map_map, List.map_map]
    rfl
  exact congrArg (Permit.mk signature.lower permission.normal) each

theorem Permit.values_ofValues (w : fields.Val) : (ofValues w).values = w := by
  obtain ⟨signature, permission, limits, ⟨⟩⟩ := w
  have each : (limits.map SpendingLimit.ofValues).map SpendingLimit.values = limits := by
    rw [List.map_map]
    exact List.map_id limits
  exact congrArg (fun limits => (signature, permission, limits, ())) each

/-- The parts of a signature as they are read again: every address with its checksum, and every byte
string in small letters. -/
def SignatureParts.normal (parts : SignatureParts) : SignatureParts where
  validator := parts.validator.normal
  proofs := parts.proofs.map fun proof => proof.map Hex.lower
  operator := parts.operator.normal
  sessions := parts.sessions.map Session.normal
  arguments := parts.arguments.map Hex.lower
  operatorSignature := parts.operatorSignature.lower
  permit := parts.permit.map Permit.normal

/-- What a signature that is addressed to a validator shows, as the parts of one. -/
def SessionSignature.parts (shown : SessionSignature) (validator : Address) : SignatureParts where
  validator := validator
  proofs := shown.entries.map (·.proof)
  operator := shown.operator
  sessions := shown.entries.map (·.session)
  arguments := shown.entries.map (·.arguments)
  operatorSignature := shown.operatorSignature
  permit := shown.permit

/-- Parts whose fields can be encoded. -/
structure SignatureParts.AreEncodable (parts : SignatureParts) : Prop where
  validator : parts.validator.IsWellFormed
  proofs : ∀ proof ∈ parts.proofs, ∀ node ∈ proof, ∃ b, node.bytes? = some b ∧ b.length = 32
  operator : parts.operator.isStrict = true
  sessions : ∀ session ∈ parts.sessions, session.IsEncodable
  arguments : ∀ arguments ∈ parts.arguments, ∃ b, arguments.bytes? = some b
  operatorSignature : ∃ b, parts.operatorSignature.bytes? = some b
  permit : ∀ permit ∈ parts.permit, Permit.fields.Fits permit.values

/-- Parts for an operation of a given mode: for one call, or for several. -/
def SignatureParts.Suit (parts : SignatureParts) : ExecutionMode → Prop
  | .single => parts.proofs.length = 1 ∧ parts.sessions.length = 1 ∧ parts.arguments.length = 1
  | .batch =>
    parts.sessions.length = parts.proofs.length ∧ parts.arguments.length = parts.proofs.length

/-- The signature of an operation of a given mode. -/
def encodeSignature : ExecutionMode → SignatureParts → Except Failure Hex
  | .single => encodeSingleSignature
  | .batch => encodeBatchSignature

theorem Session.IsEncodable.fits {s : Session} (h : s.IsEncodable) : fields.Fits s.values := by
  obtain ⟨c, has⟩ := h.content
  exact has.fits h.target h.paymaster

/-- Parts that can be encoded fit in the fields for a batch, whatever the lengths of their lists. -/
theorem SignatureParts.AreEncodable.fits_batch {parts : SignatureParts} (h : parts.AreEncodable) :
    batchFields.Fits (parts.proofs, parts.operator, parts.sessions.map Session.values, parts.arguments,
      parts.operatorSignature, ()) := by
  refine ⟨h.proofs, h.operator, fun v hv => ?_, h.arguments, h.operatorSignature, trivial⟩
  obtain ⟨session, listed, rfl⟩ := List.mem_map.1 hv
  exact (h.sessions session listed).fits

/-! ### Payloads -/

section Payload

variable {mode : ExecutionMode} {fields : Abi.Fields} {base : fields.Val → Except Refusal SignatureBase}
  {payload : Hex} {shown : SessionSignature}

theorem decodePayload_eq_ok :
    decodePayload mode fields base payload = .ok shown ↔
      ∃ values b canonical, Abi.decodeFields fields payload = .ok values ∧ base values = .ok b ∧
        Abi.encodeFields fields values = .ok canonical ∧
        (canonical.size = payload.size ∧
            shown = ⟨mode, b.entries, b.operator, b.operatorSignature, none⟩ ∨
          canonical.size ≠ payload.size ∧ ∃ all again,
            Abi.decodeFields (fields.append Permit.fields) payload = .ok all ∧
            Abi.encodeFields (fields.append Permit.fields) all = .ok again ∧
            again.same payload = true ∧
            shown = ⟨mode, b.entries, b.operator, b.operatorSignature,
              some (Permit.ofValues (fields.divide Permit.fields all).2)⟩) := by
  unfold decodePayload
  constructor
  · intro h
    obtain ⟨values, read, h⟩ := bind_eq_ok.1 h
    obtain ⟨b, checked, h⟩ := bind_eq_ok.1 h
    obtain ⟨canonical, encoded, h⟩ := bind_eq_ok.1 h
    refine ⟨values, b, canonical, orFail_eq_ok.1 read, orFail_eq_ok.1 checked, orFail_eq_ok.1 encoded,
      ?_⟩
    split at h
    next same =>
      cases h
      exact .inl ⟨same, rfl⟩
    next differs =>
      obtain ⟨all, readAll, h⟩ := bind_eq_ok.1 h
      obtain ⟨again, encodedAll, h⟩ := bind_eq_ok.1 h
      simp only [throw_eq_error, error_bind, ite_error_eq_ok, pure_eq_ok] at h
      obtain ⟨same, h⟩ := h
      cases h
      exact .inr ⟨differs, all, again, orFail_eq_ok.1 readAll, orFail_eq_ok.1 encodedAll, same, rfl⟩
  · rintro ⟨values, b, canonical, read, checked, encoded, ⟨same, rfl⟩ | ⟨differs, all, again, readAll,
      encodedAll, same, rfl⟩⟩
    · simp only [read, checked, encoded, orFail_ok, ok_bind, if_pos same]
      rfl
    · simp only [read, checked, encoded, readAll, encodedAll, orFail_ok, ok_bind, if_neg differs, same,
        if_true]
      rfl

/-- The payload with some fields and perhaps a permit. -/
def encodeForm (fields : Abi.Fields) (values : fields.Val) : Option Permit → Except EncodingError Hex
  | none => Abi.encodeFields fields values
  | some permit =>
    Abi.encodeFields (fields.append Permit.fields) (fields.join Permit.fields values permit.values)

theorem encodePayload_eq_ok {validator : Address} {values : fields.Val} {permit : Option Permit}
    {h : Hex} : encodePayload validator fields values permit = .ok h ↔
      ∃ form, encodeForm fields values permit = .ok form ∧ h = validator.hex ++ form := by
  unfold encodePayload encodeForm
  cases permit <;> simp only [bind_eq_ok, pure_eq_ok, Except.ok.injEq, @eq_comm _ h]

/-- The row in which some fields and perhaps a permit are laid out. -/
def formParts (fields : Abi.Fields) (values : fields.Val) : Option Permit → List Abi.Part
  | none => fields.parts values
  | some permit => fields.parts values ++ Permit.fields.parts permit.values

theorem encodeForm_of_fits {values : fields.Val} {permit : Option Permit}
    (readable : fields.isReadable = true) (fits : fields.Fits values)
    (granted : ∀ p ∈ permit, Permit.fields.Fits p.values) :
    ∃ form, encodeForm fields values permit = .ok form ∧
      form.bytes? = some (Abi.Part.layout (formParts fields values permit)) := by
  cases permit with
  | none => exact Abi.encodeFields_of_fits readable fits
  | some p =>
    have both := Abi.fits_join fields fits (granted p rfl)
    have encoded := Abi.encodeFields_of_fits (Abi.isReadable_append fields readable rfl) both
    rwa [Abi.parts_join] at encoded

/-- Fields that fit are written behind the address of the validator, and the permit behind them. -/
theorem SignatureParts.AreEncodable.exists_encodePayload {parts : SignatureParts} {values : fields.Val}
    (h : parts.AreEncodable) (readable : fields.isReadable = true) (fits : fields.Fits values) :
    ∃ signature, encodePayload parts.validator fields values parts.permit = .ok signature := by
  obtain ⟨form, formed, -⟩ := encodeForm_of_fits readable fits h.permit
  exact ⟨_, encodePayload_eq_ok.2 ⟨form, formed, rfl⟩⟩

/-- A payload without a permit is read as what was put into it. -/
theorem decodePayload_of_fields {values : fields.Val} {b : SignatureBase}
    (readable : fields.isReadable = true) (enough : 32 ≤ fields.headSize) (fits : fields.Fits values)
    (checked : base (fields.normal values) = .ok b)
    (written : payload.bytes? = some (Abi.Part.layout (fields.parts values)))
    (short : (Abi.Part.layout (fields.parts values)).length < Abi.Scan.smallBound) :
    decodePayload mode fields base payload =
      .ok ⟨mode, b.entries, b.operator, b.operatorSignature, none⟩ := by
  have read := Abi.decodeFields_of_bytes? readable enough fits written short
  obtain ⟨again, same⟩ := Abi.normal_of_fields_fit fields fits
  obtain ⟨canonical, encoded, bytes⟩ := Abi.encodeFields_of_fits readable again
  rw [same] at bytes
  refine decodePayload_eq_ok.2 ⟨_, b, canonical, read, checked, encoded, .inl ⟨?_, rfl⟩⟩
  rw [Hex.size_of_bytes? bytes, Hex.size_of_bytes? written]

/-- A payload with a permit is read as what was put into it. Read without the permit, its fields have a
shorter encoding. -/
theorem decodePayload_of_permit {values : fields.Val} {b : SignatureBase} {permit : Permit}
    (readable : fields.isReadable = true) (fits : fields.Fits values)
    (granted : Permit.fields.Fits permit.values) (checked : base (fields.normal values) = .ok b)
    (written : payload.bytes? =
      some (Abi.Part.layout (fields.parts values ++ Permit.fields.parts permit.values)))
    (short : (Abi.Part.layout (fields.parts values ++ Permit.fields.parts permit.values)).length <
      Abi.Scan.smallBound) :
    decodePayload mode fields base payload =
      .ok ⟨mode, b.entries, b.operator, b.operatorSignature, some permit.normal⟩ := by
  have all := Abi.fits_join fields fits granted
  have readableAll := Abi.isReadable_append fields readable (b := Permit.fields) rfl
  have enough : 32 ≤ (fields.append Permit.fields).headSize := by
    rw [Abi.headSize_append]
    exact Nat.le_add_left_of_le (by decide)
  rw [← Abi.parts_join] at written short
  have readAll := Abi.decodeFields_of_bytes? readableAll enough all written short
  obtain ⟨againAll, sameAll⟩ := Abi.normal_of_fields_fit _ all
  obtain ⟨canonicalAll, encodedAll, bytesAll⟩ := Abi.encodeFields_of_fits readableAll againAll
  rw [sameAll] at bytesAll
  have read := Abi.decodeFields_divide readAll
  rw [Abi.normal_join, Abi.divide_join] at read
  obtain ⟨again, same⟩ := Abi.normal_of_fields_fit fields fits
  obtain ⟨canonical, encoded, bytes⟩ := Abi.encodeFields_of_fits readable again
  rw [same] at bytes
  refine decodePayload_eq_ok.2 ⟨_, b, canonical, read, checked, encoded, .inr ⟨?_, _, canonicalAll,
    readAll, encodedAll, (Hex.same_iff bytesAll written).2 rfl, ?_⟩⟩
  · have more : 0 < Abi.Part.headSizes (Permit.fields.parts permit.values) := by
      rw [Abi.headSizes_parts Permit.fields rfl granted]
      decide
    have shorter := Abi.Part.length_layout_lt_append (fields.parts values) more
    rw [Hex.size_of_bytes? bytes, Hex.size_of_bytes? written, Abi.parts_join]
    exact Nat.ne_of_lt shorter
  · rw [Abi.normal_join, Abi.divide_join, Permit.ofValues_normal_values]

/-- A payload is read as what was put into it. -/
theorem decodePayload_of_form {values : fields.Val} {b : SignatureBase} {permit : Option Permit}
    (readable : fields.isReadable = true) (enough : 32 ≤ fields.headSize) (fits : fields.Fits values)
    (granted : ∀ p ∈ permit, Permit.fields.Fits p.values)
    (checked : base (fields.normal values) = .ok b)
    (written : payload.bytes? = some (Abi.Part.layout (formParts fields values permit)))
    (short : (Abi.Part.layout (formParts fields values permit)).length < Abi.Scan.smallBound) :
    decodePayload mode fields base payload =
      .ok ⟨mode, b.entries, b.operator, b.operatorSignature, permit.map Permit.normal⟩ := by
  cases permit with
  | none => exact decodePayload_of_fields readable enough fits checked written short
  | some p => exact decodePayload_of_permit readable fits (granted p rfl) checked written short

theorem fits_permit_of_decodePayload {permit : Permit} (readable : fields.isReadable = true)
    (read : decodePayload mode fields base payload = .ok shown) (carried : shown.permit = some permit) :
    Permit.fields.Fits permit.values := by
  obtain ⟨values, b, canonical, -, -, -, ⟨-, rfl⟩ | ⟨-, all, again, second, encoded, -, rfl⟩⟩ :=
    decodePayload_eq_ok.1 read
  · cases carried
  · cases carried
    rw [Permit.values_ofValues]
    have readableAll := Abi.isReadable_append fields readable (b := Permit.fields) rfl
    exact Abi.fits_divide fields (Abi.fits_of_decodeFields readableAll second encoded)

/-- What is read from a payload is encoded again: with a permit as the payload itself, and without one
as something of its length. -/
theorem encodeForm_of_decodePayload {bytes : Bytes} (readable : fields.isReadable = true)
    (written : payload.bytes? = some bytes)
    (read : decodePayload mode fields base payload = .ok shown) :
    ∃ values b form x, base values = .ok b ∧
      shown = ⟨mode, b.entries, b.operator, b.operatorSignature, shown.permit⟩ ∧
      encodeForm fields values shown.permit = .ok form ∧ form.bytes? = some x ∧
      (shown.permit ≠ none → x = bytes) ∧ (shown.permit = none → x.length = bytes.length) := by
  obtain ⟨values, b, canonical, first, checked, encoded, form⟩ := decodePayload_eq_ok.1 read
  rcases form with ⟨same, rfl⟩ | ⟨-, all, again, second, encodedAll, same, rfl⟩
  · have fits := Abi.fits_of_decodeFields readable first encoded
    obtain ⟨canonical', encoded', bytes'⟩ := Abi.encodeFields_of_fits readable fits
    obtain rfl := Except.ok.inj (encoded.symm.trans encoded')
    refine ⟨values, b, canonical, _, checked, rfl, encoded, bytes', fun none => absurd rfl none,
      fun _ => ?_⟩
    rw [← Hex.size_of_bytes? bytes', ← Hex.size_of_bytes? written, same]
  · have readableAll := Abi.isReadable_append fields readable (b := Permit.fields) rfl
    have fits := Abi.fits_of_decodeFields readableAll second encodedAll
    obtain ⟨again', encoded', bytes'⟩ := Abi.encodeFields_of_fits readableAll fits
    obtain rfl := Except.ok.inj (encodedAll.symm.trans encoded')
    -- read without the permit, the fields before it are the same
    obtain rfl := Except.ok.inj (first.symm.trans (Abi.decodeFields_divide second))
    refine ⟨_, b, again, _, checked, rfl, ?_, bytes', fun _ => (Hex.same_iff bytes' written).1 same,
      fun none => by cases none⟩
    change Abi.encodeFields _ (fields.join Permit.fields _ (Permit.ofValues _).values) = _
    rw [Permit.values_ofValues, Abi.join_divide]
    exact encodedAll

end Payload

/-! ### Entries -/

section Entries

variable (proofs : List (List Hex)) {sessions : List Session} {arguments : List Hex}

theorem map_zipEntries (hs : sessions.length = proofs.length) (ha : arguments.length = proofs.length) :
    (zipEntries proofs sessions arguments).map (·.proof) = proofs ∧
      (zipEntries proofs sessions arguments).map (·.session) = sessions ∧
      (zipEntries proofs sessions arguments).map (·.arguments) = arguments := by
  induction proofs generalizing sessions arguments with
  | nil =>
    obtain rfl := List.eq_nil_of_length_eq_zero hs
    obtain rfl := List.eq_nil_of_length_eq_zero ha
    exact ⟨rfl, rfl, rfl⟩
  | cons proof proofs ih =>
    obtain ⟨session, sessions, rfl⟩ := List.exists_cons_of_length_eq_add_one hs
    obtain ⟨first, arguments, rfl⟩ := List.exists_cons_of_length_eq_add_one ha
    obtain ⟨hproofs, hsessions, harguments⟩ := ih (Nat.succ.inj hs) (Nat.succ.inj ha)
    unfold zipEntries
    exact ⟨congrArg _ hproofs, congrArg _ hsessions, congrArg _ harguments⟩

/-- The lists of a batch are read if they are of one length. -/
theorem batchBase_eq_ok {operator : Address} {values : List Session.fields.Val} {signature : Hex}
    {b : SignatureBase} :
    batchBase (proofs, operator, values, arguments, signature, ()) = .ok b ↔
      (values.length = proofs.length ∧ arguments.length = proofs.length) ∧
        b = ⟨zipEntries proofs (values.map Session.ofValues) arguments, operator, signature⟩ := by
  unfold batchBase
  rw [error_ite_eq_ok, not_or, not_not, not_not, Except.ok.injEq, eq_comm (b := b)]

end Entries

/-! ### Signatures -/

/-- How some parts are written and read in the form for the operations of a mode: as values of fields,
of which a reader makes what was shown. -/
structure SignatureParts.Form (mode : ExecutionMode) (parts : SignatureParts) where
  fields : Abi.Fields
  values : fields.Val
  base : fields.Val → Except Refusal SignatureBase
  result : SignatureBase
  readable : fields.isReadable = true
  enough : 32 ≤ fields.headSize
  fits : fields.Fits values
  checked : base (fields.normal values) = .ok result
  encodes : encodeSignature mode parts =
    orFail (encodePayload parts.validator fields values parts.permit)
  decodes : ∀ payload, SessionSignature.decode mode payload =
    reading "session signature" (decodePayload mode fields base payload)
  shows : (⟨mode, result.entries, result.operator, result.operatorSignature,
    parts.permit.map Permit.normal⟩ : SessionSignature).parts parts.validator.normal = parts.normal

section Forms

variable {mode : ExecutionMode} {parts : SignatureParts}

theorem SignatureParts.AreEncodable.exists_single (h : parts.AreEncodable) (suit : parts.Suit .single) :
    Nonempty (parts.Form .single) := by
  obtain ⟨validator, proofs, operator, sessions, arguments, operatorSignature, permit⟩ := parts
  obtain ⟨hproofs, hsessions, harguments⟩ := suit
  obtain ⟨proof, rfl⟩ := List.length_eq_one_iff.1 hproofs
  obtain ⟨session, rfl⟩ := List.length_eq_one_iff.1 hsessions
  obtain ⟨given, rfl⟩ := List.length_eq_one_iff.1 harguments
  exact ⟨{
    fields := singleFields
    values := (proof, operator, session.values, given, operatorSignature, ())
    base := singleBase
    result := ⟨[⟨proof.map Hex.lower, session.normal, given.lower⟩], operator.normal,
      operatorSignature.lower⟩
    readable := by decide
    enough := by decide
    fits := ⟨h.proofs proof (.head _), h.operator, (h.sessions session (.head _)).fits,
      h.arguments given (.head _), h.operatorSignature, trivial⟩
    checked := rfl
    encodes := rfl
    decodes := fun _ => rfl
    shows := rfl }⟩

theorem SignatureParts.AreEncodable.exists_batch (h : parts.AreEncodable) (suit : parts.Suit .batch) :
    Nonempty (parts.Form .batch) := by
  obtain ⟨validator, proofs, operator, sessions, arguments, operatorSignature, permit⟩ := parts
  obtain ⟨hsessions, harguments⟩ := suit
  have lengths : (sessions.map Session.normal).length = (proofs.map (List.map Hex.lower)).length ∧
      (arguments.map Hex.lower).length = (proofs.map (List.map Hex.lower)).length := by
    simpa only [List.length_map] using ⟨hsessions, harguments⟩
  obtain ⟨mapProofs, mapSessions, mapArguments⟩ := map_zipEntries _ lengths.1 lengths.2
  exact ⟨{
    fields := batchFields
    values := (proofs, operator, sessions.map Session.values, arguments, operatorSignature, ())
    base := batchBase
    result := ⟨zipEntries (proofs.map fun proof => proof.map Hex.lower) (sessions.map Session.normal)
      (arguments.map Hex.lower), operator.normal, operatorSignature.lower⟩
    readable := by decide
    enough := by decide
    fits := h.fits_batch
    checked := by
      have read : ((sessions.map Session.values).map Session.fields.normal).map Session.ofValues =
          sessions.map Session.normal := by
        rw [List.map_map, List.map_map]
        rfl
      change batchBase (proofs.map fun proof => proof.map Hex.lower, operator.normal,
        (sessions.map Session.values).map Session.fields.normal, arguments.map Hex.lower,
        operatorSignature.lower, ()) = _
      refine (batchBase_eq_ok _).2 ⟨?_, by rw [read]⟩
      simpa only [List.length_map] using ⟨hsessions, harguments⟩
    encodes := rfl
    decodes := fun _ => rfl
    shows := by
      unfold SessionSignature.parts normal
      rw [mapProofs, mapSessions, mapArguments] }⟩

theorem SignatureParts.AreEncodable.exists_form (h : parts.AreEncodable) (suit : parts.Suit mode) :
    Nonempty (parts.Form mode) := by
  cases mode with
  | single => exact h.exists_single suit
  | batch => exact h.exists_batch suit

/-- What is read from a payload is made of the values of a form, which make it up again. -/
structure SessionSignature.IsMadeOf (shown : SessionSignature) (mode : ExecutionMode)
    (fields : Abi.Fields) (values : fields.Val) : Prop where
  inMode : shown.mode = mode
  encodes : ∀ validator, encodeSignature mode (shown.parts validator) =
    orFail (encodePayload validator fields values shown.permit)

theorem SessionSignature.exists_of_decode {shown : SessionSignature} {payload : Hex} {bytes : Bytes}
    (written : payload.bytes? = some bytes) (read : SessionSignature.decode mode payload = .ok shown) :
    ∃ fields values form x, shown.IsMadeOf mode fields values ∧
      encodeForm fields values shown.permit = .ok form ∧ form.bytes? = some x ∧
      (shown.permit ≠ none → x = bytes) ∧ (shown.permit = none → x.length = bytes.length) := by
  unfold decode at read
  rw [reading_eq_ok] at read
  cases mode with
  | single =>
    obtain ⟨values, b, form, x, checked, same, rest⟩ :=
      encodeForm_of_decodePayload (by decide) written read
    obtain ⟨proof, operator, session, arguments, signature, ⟨⟩⟩ := values
    cases checked
    rw [same] at rest ⊢
    exact ⟨singleFields, _, form, x, ⟨rfl, fun _ => rfl⟩, rest⟩
  | batch =>
    obtain ⟨values, b, form, x, checked, same, rest⟩ :=
      encodeForm_of_decodePayload (by decide) written read
    obtain ⟨proofs, operator, sessions, arguments, signature, ⟨⟩⟩ := values
    obtain ⟨⟨hsessions, harguments⟩, rfl⟩ := (batchBase_eq_ok proofs).1 checked
    have length : (sessions.map Session.ofValues).length = proofs.length := by
      rw [List.length_map, hsessions]
    obtain ⟨mapProofs, mapSessions, mapArguments⟩ := map_zipEntries proofs length harguments
    have values : (sessions.map Session.ofValues).map Session.values = sessions := by
      rw [List.map_map]
      exact List.map_id sessions
    rw [same] at rest ⊢
    refine ⟨batchFields, _, form, x, ⟨rfl, fun validator => ?_⟩, rest⟩
    unfold parts
    rw [mapProofs, mapSessions, mapArguments]
    change orFail (encodePayload validator batchFields (proofs, operator,
      (sessions.map Session.ofValues).map Session.values, arguments, signature, ()) _) = _
    rw [values]

/-- Whatever a payload is, a permit that is read from it can be encoded. -/
theorem SessionSignature.fits_permit {shown : SessionSignature} {payload : Hex} {permit : Permit}
    (read : SessionSignature.decode mode payload = .ok shown) (carried : shown.permit = some permit) :
    Permit.fields.Fits permit.values := by
  unfold decode at read
  rw [reading_eq_ok] at read
  cases mode with
  | single => exact fits_permit_of_decodePayload (by decide) read carried
  | batch => exact fits_permit_of_decodePayload (by decide) read carried

end Forms

/-! ### Reading and writing -/

section Roundtrip

variable {validator : Address} {v x : Bytes} {form : Hex}

theorem Hex.length_chars_of_bytes? {h : Hex} {b : Bytes} (hb : h.bytes? = some b) :
    h.chars.length = 2 * b.length + 2 := by
  obtain ⟨d, rfl, hd⟩ := bytes?_eq_some_iff.1 hb
  have := length_of_bytesOfDigits? hd
  simp only [ofDigits, List.length_cons]
  omega

/-- No text has as many units: the length of a text is a number that is counted exactly. -/
def textBound : Nat :=
  2 ^ 53

/-- A byte string is taken apart behind its first twenty bytes. -/
theorem ofHex_take_of_bytes? {signature : Hex} (whole : signature.bytes? = some (v ++ x))
    (length : v.length = 20) :
    Address.ofHex (signature.take 20) = .ok (.ofBytes v) ∧ (signature.drop 20).bytes? = some x := by
  have start := Hex.bytes?_take whole 20
  rw [List.take_append_of_le_length (by omega), List.take_of_length_le (by omega)] at start
  have rest := Hex.bytes?_drop whole 20
  rw [List.drop_append, List.drop_eq_nil_of_le (by omega), length, Nat.sub_self] at rest
  exact ⟨Address.ofHex_eq_ok.2 ⟨v, Address.bytes?_eq_some_iff.2 ⟨start, length⟩, rfl⟩, rest⟩

/-- A payload behind the address of a validator is taken apart from it. -/
theorem splitValidatorSignature_append (hv : validator.bytes? = some v) (hx : form.bytes? = some x) :
    ∃ payload, splitValidatorSignature (validator.hex ++ form) = .ok ⟨validator.normal, payload⟩ ∧
      payload.bytes? = some x := by
  obtain ⟨hex, length⟩ := Address.bytes?_eq_some_iff.1 hv
  have whole := Hex.bytes?_append hex hx
  obtain ⟨named, rest⟩ := ofHex_take_of_bytes? whole length
  refine ⟨_, ?_, rest⟩
  unfold splitValidatorSignature
  rw [if_neg (by rw [Hex.size_of_bytes? whole, List.length_append]; omega), named,
    Address.normal_of_bytes? hv]
  rfl

end Roundtrip

/-- The signature of an operation shows exactly what was put into it, a permit included, with every
address checksummed and every byte string in small letters. And what is read from any payload makes up
that payload again if it shows a permit, and otherwise a payload of the same length. -/
theorem session_signature_roundtrip (mode : ExecutionMode) :
    (∀ parts : SignatureParts, parts.AreEncodable → parts.Suit mode →
      ∃ signature, encodeSignature mode parts = .ok signature ∧
        (signature.chars.length < textBound → ∃ payload shown,
          splitValidatorSignature signature = .ok ⟨parts.validator.normal, payload⟩ ∧
            SessionSignature.decode mode payload = .ok shown ∧
            shown.mode = mode ∧ shown.parts parts.validator.normal = parts.normal)) ∧
    ∀ payload bytes shown, payload.bytes? = some bytes →
      SessionSignature.decode mode payload = .ok shown →
      shown.mode = mode ∧
        ∀ validator : Address, validator.IsWellFormed → ∃ signature again,
          encodeSignature mode (shown.parts validator) = .ok signature ∧
            splitValidatorSignature signature = .ok ⟨validator.normal, again⟩ ∧
            (shown.permit ≠ none → again.bytes? = some bytes) ∧
            (shown.permit = none → again.size = payload.size) := by
  constructor
  · intro parts encodable suit
    obtain ⟨f⟩ := encodable.exists_form suit
    obtain ⟨v, hv⟩ := encodable.validator.exists_bytes
    obtain ⟨form, encoded, bytes⟩ := encodeForm_of_fits f.readable f.fits encodable.permit
    refine ⟨parts.validator.hex ++ form, ?_, fun short => ?_⟩
    · rw [f.encodes]
      exact orFail_eq_ok.2 (encodePayload_eq_ok.2 ⟨form, encoded, rfl⟩)
    · obtain ⟨payload, split, written⟩ := splitValidatorSignature_append hv bytes
      have whole := Hex.bytes?_append (Address.bytes?_eq_some_iff.1 hv).1 bytes
      rw [Hex.length_chars_of_bytes? whole, List.length_append] at short
      have small : (Abi.Part.layout (formParts f.fields f.values parts.permit)).length <
          Abi.Scan.smallBound := by
        unfold textBound at short
        unfold Abi.Scan.smallBound
        omega
      have read : decodePayload mode f.fields f.base payload = .ok _ :=
        decodePayload_of_form f.readable f.enough f.fits encodable.permit f.checked written small
      refine ⟨payload, _, split, ?_, rfl, f.shows⟩
      rw [f.decodes, reading_eq_ok]
      exact read
  · intro payload bytes shown written read
    obtain ⟨fields, values, form, x, made, encoded, hx, carried, plain⟩ :=
      SessionSignature.exists_of_decode written read
    refine ⟨made.inMode, fun validator wellFormed => ?_⟩
    obtain ⟨v, hv⟩ := wellFormed.exists_bytes
    obtain ⟨again, split, hagain⟩ := splitValidatorSignature_append hv hx
    refine ⟨_, again, ?_, split, fun some => ?_, fun none => ?_⟩
    · rw [made.encodes]
      exact orFail_eq_ok.2 (encodePayload_eq_ok.2 ⟨form, encoded, rfl⟩)
    · rw [hagain, carried some]
    · rw [Hex.size_of_bytes? hagain, Hex.size_of_bytes? written, plain none]

/-- A transfer of a token, and a permit for a hundred units of it. -/
def grantedTransfer : SignatureParts where
  validator := Address.zero
  proofs := [[Hex.ofBytes (List.replicate 32 1)]]
  operator := Address.zero
  sessions := [⟨Address.zero, Hex.ofBytes [0xa9, 0x05, 0x9c, 0xbb], Hex.empty, Address.zero, 0, 0, 1⟩]
  arguments := [Hex.ofText "0xC0"]
  operatorSignature := Hex.ofBytes (List.replicate 65 2)
  permit := some ⟨Hex.ofBytes (List.replicate 85 3), .empty, [⟨Address.zero, 100⟩]⟩

theorem areEncodable_grantedTransfer : grantedTransfer.AreEncodable := by
  have zero : Address.zero.bytes? = some (List.replicate 20 0) := by decide
  have strict : Address.zero.isStrict = true := by decide
  have now : ∃ m : Int, (0 : Number) = .ofInt m ∧ 0 ≤ m ∧ m < Abi.valueCount 48 :=
    ⟨0, rfl, by decide, by decide⟩
  have small {bits : Nat} {n : Int} (h : 0 ≤ n ∧ n < Abi.valueCount bits) :
      (Abi.Ty.uint bits).Fits n := h
  let c : SessionContent := ⟨List.replicate 20 0, [0xa9, 0x05, 0x9c, 0xbb], [], List.replicate 20 0,
    0, 0, 1, by decide, by decide, by decide, by decide, by decide, by decide⟩
  have limit : Abi.Fields.Fits SpendingLimit.fields (SpendingLimit.values ⟨Address.zero, 100⟩) :=
    ⟨strict, small (by decide), trivial⟩
  exact {
    validator := by decide
    proofs := by
      intro proof hp node hn
      obtain rfl := List.mem_singleton.1 hp
      obtain rfl := List.mem_singleton.1 hn
      exact ⟨_, Hex.bytes?_ofBytes _, rfl⟩
    operator := strict
    sessions := by
      intro session hs
      obtain rfl := List.mem_singleton.1 hs
      exact ⟨strict, strict, c, zero, Hex.bytes?_ofBytes _, Hex.bytes?_empty, zero, rfl, rfl, rfl⟩
    arguments := by
      intro arguments ha
      obtain rfl := List.mem_singleton.1 ha
      exact ⟨[0xc0], by decide⟩
    operatorSignature := ⟨_, Hex.bytes?_ofBytes _⟩
    permit := by
      rintro permit ⟨⟩
      exact ⟨⟨_, Hex.bytes?_ofBytes _⟩, ⟨⟨_, Hex.bytes?_ofBytes _, rfl⟩, strict, now, now,
        small (by decide), small (by decide), trivial⟩,
        fun v hv => List.mem_singleton.1 hv ▸ limit, trivial⟩ }

/-- A signature with a permit shows the transfer and the permit, and what it shows makes up its payload
again. -/
theorem grantedTransfer_shown :
    ∃ signature payload shown other again, encodeSignature .single grantedTransfer = .ok signature ∧
      splitValidatorSignature signature = .ok ⟨Address.zero.normal, payload⟩ ∧
      SessionSignature.decode .single payload = .ok shown ∧
      shown.parts Address.zero.normal = grantedTransfer.normal ∧
      encodeSignature .single (shown.parts Address.zero) = .ok other ∧
      splitValidatorSignature other = .ok ⟨Address.zero.normal, again⟩ ∧
      again.bytes? = payload.bytes? := by
  obtain ⟨signature, encoded, shows⟩ := (session_signature_roundtrip .single).1 grantedTransfer
    areEncodable_grantedTransfer ⟨rfl, rfl, rfl⟩
  have evaluated : (encodeSignature .single grantedTransfer).toOption.map
      (fun s => (s.chars.length, (s.drop 20).bytes?.isSome)) = some (2346, true) := by
    decide +kernel
  rw [encoded] at evaluated
  obtain ⟨length, writes⟩ := Prod.mk.inj (Option.some.inj evaluated)
  obtain ⟨payload, shown, split, read, -, same⟩ := shows (by rw [length]; decide)
  have rest : payload = signature.drop 20 := by
    unfold splitValidatorSignature at split
    simp only [throw_eq_error, error_bind, error_ite_eq_ok, bind_eq_ok, pure_eq_ok, Except.ok.injEq,
      AddressedSignature.mk.injEq] at split
    obtain ⟨-, _, -, -, same⟩ := split
    exact same.symm
  obtain ⟨bytes, written⟩ := Option.isSome_iff_exists.1 writes
  rw [← rest] at written
  obtain ⟨-, rewrites⟩ := (session_signature_roundtrip .single).2 payload bytes shown written read
  obtain ⟨other, again, encodedAgain, splitAgain, carried, -⟩ := rewrites Address.zero (by decide)
  have granted : shown.permit = grantedTransfer.normal.permit := congrArg SignatureParts.permit same
  refine ⟨signature, payload, shown, other, again, encoded, split, read, same, encodedAgain, splitAgain,
    ?_⟩
  rw [carried (by rw [granted]; exact Option.some_ne_none _), written]

end SessionKeys
