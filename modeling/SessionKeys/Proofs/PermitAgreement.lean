import SessionKeys.Proofs.Batches
import SessionKeys.Proofs.EncodableRequests
import SessionKeys.Proofs.SignedHashes

/-!
The hash of a permit that is answered to its owner is the one that the permit is checked against. What is
hashed are the values that were handed in, and what is checked are the same values after they were encoded,
read again and copied: with other letters in places, but laid out alike, and so hashed alike
(`PermitMessage.hash_rewritten`). So a permit that the owner signed is verified, and at another nonce it is a
different message that is checked. Main statement: `permit_hash_agrees`.
-/

namespace SessionKeys

theorem Address.Agrees.key_eq {a b : Address} (agrees : a.Agrees b) : a.key = b.key := by
  obtain ⟨bytes, ha, hb⟩ := agrees
  exact (Hex.key_inj (bytes?_eq_some_iff.1 ha).1 (bytes?_eq_some_iff.1 hb).1).2 rfl

theorem Address.agrees_normal {a : Address} (strict : a.isStrict = true) : a.normal.Agrees a := by
  obtain ⟨b, hb⟩ := exists_bytes_of_isStrict strict
  refine ⟨b, ?_, hb⟩
  rw [normal_of_bytes? hb, bytes?_ofBytes (bytes?_eq_some_iff.1 hb).2]

theorem Address.Agrees.trans {a b c : Address} (first : a.Agrees b) (second : b.Agrees c) : a.Agrees c := by
  obtain ⟨x, ha, hb⟩ := first
  obtain ⟨y, hb', hc⟩ := second
  obtain rfl := Option.some.inj (hb.symm.trans hb')
  exact ⟨x, ha, hc⟩

/-! ### Hashed alike -/

/-- Fields that fit and are laid out alike are hashed alike. -/
theorem Abi.exists_keccak_of_parts {fields : Fields} {v w : fields.Val} {e : Hex}
    (readable : fields.isReadable = true) (fitsV : fields.Fits v) (fitsW : fields.Fits w)
    (same : fields.parts w = fields.parts v) (encoded : encodeFields fields v = .ok e) :
    ∃ f, encodeFields fields w = .ok f ∧ f.keccak = e.keccak := by
  obtain ⟨_, again, bytesV⟩ := encodeFields_of_fits readable fitsV
  obtain rfl := Except.ok.inj (encoded.symm.trans again)
  obtain ⟨f, encodedW, bytesW⟩ := encodeFields_of_fits readable fitsW
  refine ⟨f, encodedW, ?_⟩
  rw [Hex.keccak, Hex.keccak, Hex.content_of_bytes? bytesV, Hex.content_of_bytes? bytesW, same]

theorem OperatorPermission.hash_eq_ok {p : OperatorPermission} {h : Hex} : p.hash = .ok h ↔
    ∃ e, Abi.encodeFields (.cons (.tuple fields) .nil) (p.values, ()) = .ok e ∧ h = e.keccak := by
  unfold hash
  simp only [bind_eq_ok, pure_eq_ok, Except.ok.injEq, eq_comm (a := h)]

theorem SpendingLimit.hashAll_eq_ok {limits : List SpendingLimit} {h : Hex} : hashAll limits = .ok h ↔
    ∃ e, Abi.encodeFields (.cons (.array (.tuple fields)) .nil) (limits.map values, ()) = .ok e ∧
      h = e.keccak := by
  unfold hashAll
  simp only [bind_eq_ok, pure_eq_ok, Except.ok.injEq, eq_comm (a := h)]

/-- A permission is hashed as it was before it was written and read. -/
theorem OperatorPermission.hash_normal {p : OperatorPermission} {h : Hex} (root : p.sessionRoot.WritesHash)
    (done : p.hash = .ok h) : p.normal.hash = .ok h := by
  obtain ⟨e, encoded, rfl⟩ := hash_eq_ok.1 done
  obtain ⟨b, hb, -⟩ := root
  have written : Abi.Fields.Written (.cons (.tuple fields) .nil) (p.values, ()) :=
    ⟨⟨⟨b, hb⟩, trivial, trivial, trivial, trivial, trivial, trivial⟩, trivial⟩
  obtain ⟨fits, -⟩ := Abi.fits_of_encodeFields (by decide) written encoded
  obtain ⟨again, same⟩ := Abi.normal_of_fields_fit _ fits
  obtain ⟨f, encodedF, hashed⟩ := Abi.exists_keccak_of_parts (by decide) fits again same encoded
  exact hash_eq_ok.2 ⟨f, encodedF, hashed.symm⟩

/-- Limits are hashed as they were before they were written and read. -/
theorem SpendingLimit.hashAll_normal {limits : List SpendingLimit} {h : Hex}
    (done : hashAll limits = .ok h) : hashAll (limits.map normal) = .ok h := by
  obtain ⟨e, encoded, rfl⟩ := hashAll_eq_ok.1 done
  have written : Abi.Fields.Written (.cons (.array (.tuple fields)) .nil) (limits.map values, ()) :=
    ⟨List.forall_mem_map.2 fun _ _ => ⟨trivial, trivial, trivial⟩, trivial⟩
  obtain ⟨fits, -⟩ := Abi.fits_of_encodeFields (by decide) written encoded
  obtain ⟨again, same⟩ := Abi.normal_of_fields_fit _ fits
  obtain ⟨f, encodedF, hashed⟩ := Abi.exists_keccak_of_parts (by decide) fits again same encoded
  have values_eq : (limits.map normal).map values = (limits.map values).map fields.normal := by
    rw [List.map_map, List.map_map]
    rfl
  exact hashAll_eq_ok.2 ⟨f, by rw [values_eq]; exact encodedF, hashed.symm⟩

namespace PermitMessage

variable {m : PermitMessage} {h : Hex} {wallet operator : Address}

/-- The same message, of a permit that was written and read, with its addresses in other letters. -/
def rewritten (m : PermitMessage) (wallet operator : Address) : PermitMessage :=
  { m with
    wallet, operator
    permission := m.permission.normal
    spendingLimits := m.spendingLimits.map SpendingLimit.normal }

/-- A message that is hashed names its wallet and its operator with the right checksums. -/
theorem isStrict_of_hash (done : m.hash = .ok h) :
    m.wallet.isStrict = true ∧ m.operator.isStrict = true := by
  obtain ⟨_, _, message, _, made, rfl⟩ := exists_encodes done
  obtain ⟨⟨hwallet, hoperator, -⟩, -⟩ :=
    Abi.fits_of_encodeFields (by decide) (written_message ..) made.message_eq
  exact ⟨hwallet, hoperator⟩

/-- A permit that was written and read is hashed as before. -/
theorem hash_rewritten (root : m.permission.sessionRoot.WritesHash) (done : m.hash = .ok h)
    (strictWallet : wallet.isStrict = true) (ofWallet : wallet.Agrees m.wallet)
    (strictOperator : operator.isStrict = true) (ofOperator : operator.Agrees m.operator) :
    (m.rewritten wallet operator).hash = .ok h := by
  obtain ⟨permission, limits, message, chainId, made, rfl⟩ := exists_encodes done
  have granted := OperatorPermission.hash_normal root
    (OperatorPermission.hash_eq_ok.2 ⟨permission, made.permission_eq, rfl⟩)
  have limited := SpendingLimit.hashAll_normal (SpendingLimit.hashAll_eq_ok.2 ⟨limits, made.limits_eq, rfl⟩)
  obtain ⟨fits, -⟩ := Abi.fits_of_encodeFields (by decide) (written_message ..) made.message_eq
  have others : fields.Fits (wallet, operator, permission.keccak, limits.keccak, chainId, m.nonce, ()) :=
    ⟨strictWallet, strictOperator, fits.2.2⟩
  obtain ⟨a, ha, ha'⟩ := ofWallet
  obtain ⟨b, hb, hb'⟩ := ofOperator
  have same : fields.parts (wallet, operator, permission.keccak, limits.keccak, chainId, m.nonce, ()) =
      fields.parts (m.wallet, m.operator, permission.keccak, limits.keccak, chainId, m.nonce, ()) := by
    simp only [Abi.Fields.parts, Abi.Ty.encoding, ha, ha', hb, hb']
  obtain ⟨again, encoded, hashed⟩ := Abi.exists_keccak_of_parts (by decide) fits others same made.message_eq
  unfold hash rewritten
  simp only [granted, limited, made.chainId_eq, integral_ofInt, ok_bind, encoded, pure_eq_ok, hashed]

/-- At another nonce the hash of a permit is another one, unless byte strings that are hashed collide. -/
theorem ne_or_collides_of_nonce {n : PermitMessage} {h' : Hex} (rootM : m.permission.sessionRoot.WritesHash)
    (rootN : n.permission.sessionRoot.WritesHash) (hashM : m.hash = .ok h) (hashN : n.hash = .ok h')
    (other : n.nonce ≠ m.nonce) : h' ≠ h ∨ Collides (m.hashed ++ n.hashed) := by
  by_cases same : h' = h
  · subst same
    refine .inr ((same_or_collides rootM rootN hashM hashN (List.subset_append_left _ _)
      (List.subset_append_right _ _)).resolve_left fun values => other values.nonce.symm)
  · exact .inl same

end PermitMessage

/-! ### Checking a permit -/

/-- The message that the owner of a wallet signs to grant something at the current nonce. -/
def Engine.permitMessage (e : Engine) (wallet operator : Address) (permission : OperatorPermission)
    (spendingLimits : List SpendingLimit) : PermitMessage :=
  { wallet, operator, permission, spendingLimits, chainId := e.config.chainId
    nonce := e.store.permitNonce wallet operator }

/-- The signature of a permit is taken apart behind the address of the validator that signs. -/
theorem splitPermitSignature_of_bytes? {signature : Hex} {v x : Bytes}
    (whole : signature.bytes? = some (v ++ x)) (length : v.length = 20) (nonempty : x ≠ []) :
    ∃ payload, splitPermitSignature signature = .ok ⟨.ofBytes v, payload⟩ ∧ payload.bytes? = some x := by
  obtain ⟨named, rest⟩ := ofHex_take_of_bytes? whole length
  have positive := List.length_pos_iff.2 nonempty
  refine ⟨_, ?_, rest⟩
  unfold splitPermitSignature
  rw [if_neg (by rw [Hex.size_of_bytes? whole, List.length_append]; omega), named]
  rfl

/-- A signature that recovers to a signer has 65 bytes. -/
theorem length_of_isSignedBy {message signature : Hex} {b : Bytes} {signer : Address}
    (hb : signature.bytes? = some b) (signed : isSignedBy message signature signer = true) :
    b.length = 65 := by
  obtain ⟨_, recovers, -⟩ := isSignedBy_eq_true.1 signed
  rw [recoverSigner?_of_bytes? hb] at recovers
  by_contra other
  simp [guard, other] at recovers

/-- An operation of a wallet carries a permit for an operator, in a signature that is written for the mode
of its call data. -/
structure CarriesPermit (wallet operator : Address) (permit : Permit) (mode : ExecutionMode)
    (op : UserOperation) : Prop where
  strict : op.sender.isStrict = true
  sender : op.sender.Agrees wallet
  matching : ∀ operation, WalletOperation.decode op.callData = .ok operation → operation.mode = mode
  signature : ∃ parts x, SignatureParts.Writes parts mode x op.signature ∧ parts.operator.Agrees operator ∧
    parts.permit = some permit

/-- The owner that a validator knows of a wallet signed a permit, and the validator is enabled as one that
may grant permits. -/
def Engine.OwnerSigned (e : Engine) (wallet : Address) (permit : Permit) (hash : Hex) : Prop :=
  ∃ signer given owner, signer.IsWellFormed ∧ (∃ b, given.bytes? = some b) ∧
    permit.signature = signer.hex ++ given ∧ e.registry.owner? signer wallet = some owner ∧
    e.registry.class? wallet signer = some .sudo ∧ isSignedBy hash given owner = true

namespace CarriesPermit

variable {wallet operator : Address} {permit : Permit} {mode : ExecutionMode} {op : UserOperation}
  {userOpHash : Hex} {e : Engine} {p : PreparedOperation}

/-- What is read of an operation that carries a permit. -/
theorem prepared (carries : CarriesPermit wallet operator permit mode op)
    (read : e.prepare op userOpHash = .ok p) : p.op = op ∧ p.operator.isStrict = true ∧
      p.operator.Agrees operator ∧ p.permit = some permit.normal := by
  obtain ⟨parts, x, writes, named, granted⟩ := carries.signature
  have made := writes.ofOperation e.config.validatorAddress userOpHash carries.matching
  obtain ⟨sender, nonce, initCode, callData, callGas, verificationGas, preGas, fee, priorityFee,
    paymasterAndData, signature⟩ := op
  change e.prepare _ userOpHash = _ at made
  rw [read] at made
  have strict : parts.operator.isStrict = true := writes.encodable.operator
  cases reads : parts.readFor mode e.config.validatorAddress callData userOpHash with
  | error f =>
    rw [reads] at made
    cases made
  | ok reads' =>
    rw [reads] at made
    obtain rfl := Except.ok.inj made
    obtain ⟨b, hb⟩ := Address.exists_bytes_of_isStrict strict
    refine ⟨rfl, ?_, (Address.agrees_normal strict).trans named, congrArg (Option.map _) granted⟩
    show parts.operator.normal.isStrict = true
    rw [Address.normal_of_bytes? hb]
    exact Abi.isStrict_ofBytes (Address.bytes?_eq_some_iff.1 hb).2

/-- A permit that the owner signed is verified, if its message was not used before. -/
theorem verified (carries : CarriesPermit wallet operator permit mode op)
    (read : e.prepare op userOpHash = .ok p) {h : Hex}
    (hashed : e.permitMessageHash p.op.sender p.operator permit.normal.permission
      permit.normal.spendingLimits = .ok h)
    (unused : e.store.isHashUsed wallet h = false) (signed : e.OwnerSigned wallet permit h)
    (outside : Outside) :
    e.verifiedPermit outside p = .ok (some ⟨permit.normal, h, e.store.permitNonce wallet operator⟩) := by
  obtain ⟨rfl, -, named, granted⟩ := carries.prepared read
  obtain ⟨signer, given, owner, wellFormed, ⟨x, hx⟩, written, owns, rank, signs⟩ := signed
  obtain ⟨a, ha⟩ := wellFormed.exists_bytes
  obtain ⟨hex, length⟩ := Address.bytes?_eq_some_iff.1 ha
  have whole : permit.normal.signature.bytes? = some (a ++ x) := by
    show permit.signature.lower.bytes? = _
    rw [written]
    exact Hex.bytes?_lower (Hex.bytes?_append hex hx)
  have nonempty : x ≠ [] := by
    rintro rfl
    cases length_of_isSignedBy hx signs
  obtain ⟨payload, split, rest⟩ := splitPermitSignature_of_bytes? whole length nonempty
  obtain ⟨v, known, owned⟩ := Option.bind_eq_some_iff.1 owns
  have filed : (Address.ofBytes a).key = signer.key :=
    Address.Agrees.key_eq ⟨a, Address.bytes?_ofBytes length, ha⟩
  have sender : p.op.sender.key = wallet.key := carries.sender.key_eq
  have approved : v.approves? p.op.sender h payload = some true := by
    cases v with
    | ecdsa owners =>
      unfold Validator.owner? at owned
      unfold Validator.approves? Validator.isSignedByOwner Validator.owner?
      rw [sender, owned]
      exact congrArg _ ((isSignedBy_congr rest hx rfl).trans signs)
    | _ => cases owned
  refine Engine.verifiedPermit_eq_ok.2 ?_
  rw [granted]
  refine ⟨_, PermitRequest.ofPermit_eq_ok.2 ⟨h, ⟨.ofBytes a, payload⟩, v, hashed, ?_, split, ?_, ?_, rfl⟩,
    ?_, ?_⟩
  · unfold Store.isHashUsed at unused ⊢
    rw [sender, unused]
  · unfold Registry.validator? at known ⊢
    rw [filed, known]
  · unfold Registry.class? at rank ⊢
    rw [sender, filed, rank]
  · unfold Engine.answer
    rw [approved]
  · unfold Store.permitNonce
    rw [sender, named.key_eq]

end CarriesPermit

/-! ### The tool and the check -/

theorem ToolAnswer.ofExcept_eq_plain {tool : Tool} {x : Except Failure String} {text : String} :
    ofExcept tool x = plain text ↔ x = .ok text := by
  cases x with
  | ok t => simp [ofExcept, plain]
  | error f => simp [ofExcept, plain, failure]

theorem Reader.writesHash_of_permission {path : Path} {value : Option Json} {p : OperatorPermission}
    (h : permission path value = .ok p) : p.sessionRoot.WritesHash := by
  obtain ⟨parts, -, read⟩ := fields_eq_ok.1 h
  simp only [Reading.seq_eq_ok, Reading.fmap_eq_ok] at read
  obtain ⟨_, _, ⟨_, _, ⟨_, _, ⟨_, _, ⟨_, _, ⟨_, hroot, rfl⟩, -, rfl⟩, -, rfl⟩, -, rfl⟩, -, rfl⟩, -,
    rfl⟩ := read
  exact writesHash_of_hash hroot

/-- What is answered to the owner tells the hash of the message. -/
theorem Engine.answer_getPermitHash {e : Engine} {operator : Address} {permission : OperatorPermission}
    {limits : List SpendingLimit} {text : String} :
    (e.run (.getPermitHash operator permission limits)).answer = .plain text ↔
      ∃ h, (e.permitMessage e.config.walletAddress operator permission limits).hash = .ok h ∧
        text = successText "Permit hash computed" [("Hash", h.text),
          ("Nonce", toString (e.store.permitNonce e.config.walletAddress operator)),
          ("Chain ID", e.config.chainId.text),
          ("Revoked", if e.store.isHashUsed e.config.walletAddress h then "yes" else "no")] := by
  have answer : (e.run (.getPermitHash operator permission limits)).answer =
    .ofExcept .getPermitHash (e.permitHashText operator permission limits) := rfl
  rw [answer, ToolAnswer.ofExcept_eq_plain]
  unfold permitHashText
  simp only [bind_eq_ok, orFail_eq_ok, pure_eq_ok, Except.ok.injEq, eq_comm (a := text)]
  rfl

/-- **The hash that the owner is shown is the one that is checked.** Take a request for the hash of a permit
that could be read, and its answer. Take any engine of the same configuration, whatever happened to it, and an
operation of the wallet that carries the same grant for the same operator and that could be read. While the
operator has used no other permit, the message of the permit that is read has the hash that was answered; no
other one is asked about; and if the owner signed this hash, at a validator that is enabled as one that may
grant permits, then the permit is verified unless the hash was revoked. At another nonce the message differs in
it, and has another hash, unless two different byte strings were hashed alike for the two messages. -/
theorem permit_hash_agrees {e : Engine} {operator : Address} {permission : OperatorPermission}
    {limits : List SpendingLimit} {path : Path} {value : Option Json} {text : String}
    (read : ToolRequest.reader .getPermitHash path value = .ok (.getPermitHash operator permission limits))
    (answered : (e.run (.getPermitHash operator permission limits)).answer = .plain text) :
    ∃ h, text = successText "Permit hash computed" [("Hash", h.text),
        ("Nonce", toString (e.store.permitNonce e.config.walletAddress operator)),
        ("Chain ID", e.config.chainId.text),
        ("Revoked", if e.store.isHashUsed e.config.walletAddress h then "yes" else "no")] ∧
      ∀ (later : Engine) (mode : ExecutionMode) (signature : Hex) (op : UserOperation) (userOpHash : Hex)
        (p : PreparedOperation), later.config = e.config →
        CarriesPermit e.config.walletAddress operator ⟨signature, permission, limits⟩ mode op →
        later.prepare op userOpHash = .ok p →
        ∃ granted, granted = Permit.normal ⟨signature, permission, limits⟩ ∧ p.permit = some granted ∧
          (later.store.permitNonce e.config.walletAddress operator =
              e.store.permitNonce e.config.walletAddress operator →
            later.permitMessageHash p.op.sender p.operator granted.permission granted.spendingLimits =
              .ok h ∧
            (∀ request, later.request p = .ok (some request) → request.hash = h) ∧
            (later.OwnerSigned e.config.walletAddress ⟨signature, permission, limits⟩ h →
              later.store.isHashUsed e.config.walletAddress h = false →
              ∀ outside, later.verifiedPermit outside p =
                .ok (some ⟨granted, h, later.store.permitNonce e.config.walletAddress operator⟩))) ∧
          (later.store.permitNonce e.config.walletAddress operator ≠
              e.store.permitNonce e.config.walletAddress operator →
            ∀ other, later.permitMessageHash p.op.sender p.operator granted.permission
              granted.spendingLimits = .ok other →
              other ≠ h ∨ Collides
                ((e.permitMessage e.config.walletAddress operator permission limits).hashed ++
                  (later.permitMessage p.op.sender p.operator granted.permission
                    granted.spendingLimits).hashed)) := by
  obtain ⟨h, hashed, rfl⟩ := Engine.answer_getPermitHash.1 answered
  have root : permission.sessionRoot.WritesHash := by
    obtain ⟨parts, -, fields⟩ := Reader.fields_eq_ok.1 read
    simp only [ToolRequest.ofFields, Reading.seq_eq_ok, Reading.fmap_eq_ok] at fields
    obtain ⟨_, _, ⟨_, _, ⟨_, -, rfl⟩, hpermission, rfl⟩, -, same⟩ := fields
    cases same
    exact Reader.writesHash_of_permission hpermission
  refine ⟨h, rfl, fun later mode signature op userOpHash p config carries prepared => ?_⟩
  obtain ⟨rfl, strict, named, granted⟩ := carries.prepared prepared
  have nonce : later.store.permitNonce p.op.sender p.operator =
      later.store.permitNonce e.config.walletAddress operator := by
    unfold Store.permitNonce
    rw [carries.sender.key_eq, named.key_eq]
  refine ⟨_, rfl, granted, fun same => ?_, fun differs other hashedOther => ?_⟩
  · have checked : later.permitMessageHash p.op.sender p.operator permission.normal
        (limits.map SpendingLimit.normal) = .ok h := by
      have again := PermitMessage.hash_rewritten root hashed carries.strict carries.sender strict named
      unfold Engine.permitMessage at again
      rw [← same, ← nonce, ← config] at again
      exact again
    refine ⟨checked, fun request asked => ?_, fun signed unused outside => ?_⟩
    · obtain ⟨permit, carried, asks⟩ := Engine.request_eq_some.1 asked
      obtain rfl := Option.some.inj (granted.symm.trans carried)
      obtain ⟨h', _, _, hashed', -, -, -, -, rfl⟩ := PermitRequest.ofPermit_eq_ok.1 asks
      exact Except.ok.inj (hashed'.symm.trans checked)
    · exact carries.verified prepared checked unused signed outside
  · obtain ⟨b, hb, length⟩ := root
    have rootAgain : permission.normal.sessionRoot.WritesHash := ⟨b, Hex.bytes?_lower hb, length⟩
    refine PermitMessage.ne_or_collides_of_nonce ⟨b, hb, length⟩ rootAgain hashed hashedOther fun equal => ?_
    exact differs (nonce.symm.trans (Int.ofNat.inj equal))

/-- An engine of the zero wallet on chain 1, whose owner may grant permits. -/
def grantEngine (owner : Address) : Engine where
  config := ⟨.zero, .zero, 1, .zero, none, none⟩
  store := .empty
  registry :=
    ({} : Registry).enable .zero .zero (.ecdsa ((∅ : Table Address).put Address.zero.key owner)) .sudo

/-- A grant of one operation without a fee. -/
def oneOperation : OperatorPermission :=
  ⟨Hex.ofBytes (List.replicate 32 0), .zero, 0, 0, 0, 1⟩

/-- The grant as a permit, signed by its owner if that is who the signature recovers to. -/
def signedGrant : Permit :=
  ⟨Address.zero.hex ++ transferSignature, oneOperation, []⟩

/-- The parts of a signature that carries the grant, for an empty transfer. -/
def grantParts : SignatureParts where
  validator := .zero
  proofs := [[]]
  operator := .zero
  sessions := [emptyTransfer.2.session]
  arguments := [emptyTransfer.2.arguments]
  operatorSignature := .empty
  permit := some signedGrant

/-- The operation that carries the grant. -/
theorem exists_operation_of_grantParts : ∃ op, CarriesPermit .zero .zero signedGrant .single op ∧
    ∀ owner, ∃ p, (grantEngine owner).prepare op transferHash = .ok p := by
  have called : (WalletOperation.encodeNormalExecute emptyTransfer.1).toOption.map (·.chars.length) =
      some 330 := by
    decide +kernel
  have shown : (encodeSignature .single grantParts).toOption.map (·.chars.length) = some 2026 := by
    decide +kernel
  obtain ⟨callData, data, length⟩ := exists_ok_of_toOption called
  obtain ⟨signature, encoded, short⟩ := exists_ok_of_toOption shown
  have zero : Address.zero.isStrict = true := by decide
  have wellFormed : Address.zero.IsWellFormed := by decide
  have agrees : Address.zero.Agrees .zero := ⟨List.replicate 20 0, by decide, by decide⟩
  have call : WalletCall.IsEncodable emptyTransfer.1 :=
    ⟨zero, by decide, ⟨[], Hex.bytes?_empty⟩, ⟨0, rfl, by decide, by decide⟩⟩
  obtain ⟨c, session, -⟩ := exists_leaf_emptyTransfer
  have root : oneOperation.sessionRoot.bytes? = some (List.replicate 32 0) := Hex.bytes?_ofBytes _
  have zeroBytes : Address.zero.hex.bytes? = some (List.replicate 20 0) := by decide
  have permission : OperatorPermission.fields.Fits oneOperation.values :=
    ⟨⟨_, root, rfl⟩, zero, ⟨0, rfl, by decide⟩, ⟨0, rfl, by decide⟩, ⟨by decide, by decide⟩,
      ⟨by decide, by decide⟩, trivial⟩
  have fits : ∀ permit ∈ grantParts.permit, Permit.fields.Fits permit.values := by
    rintro permit ⟨⟩
    exact ⟨⟨_, Hex.bytes?_append zeroBytes (Hex.bytes?_ofBytes _)⟩, permission,
      fun _ listed => absurd listed List.not_mem_nil, trivial⟩
  have encodable : grantParts.AreEncodable :=
    { validator := wellFormed
      proofs := by simp [grantParts]
      operator := zero
      sessions := List.forall_mem_singleton.2 session
      arguments := List.forall_mem_singleton.2 ⟨_, Hex.bytes?_ofBytes _⟩
      operatorSignature := ⟨[], Hex.bytes?_empty⟩
      permit := fits }
  have writes : grantParts.Writes .single .empty signature :=
    ⟨encodable, encoded, by rw [short]; decide⟩
  let op : UserOperation := ⟨.zero, 0, .empty, callData, 0, 0, 0, 0, 0, .empty, signature⟩
  have decoded : WalletOperation.decode op.callData = .ok ⟨.single, [emptyTransfer.1.normal]⟩ :=
    WalletOperation.decode_encodeNormalExecute call data (by rw [length]; decide)
  have matching : ∀ operation, WalletOperation.decode op.callData = .ok operation →
      operation.mode = .single := by
    intro operation again
    obtain rfl := Except.ok.inj (decoded.symm.trans again)
    rfl
  refine ⟨op, ⟨zero, agrees, matching, grantParts, .empty, writes, agrees, rfl⟩, fun owner => ?_⟩
  obtain ⟨message, hashed, -⟩ := isSigned_transferSignature
  have addressed : Address.zero.normal.same .zero = .ok true :=
    Address.same_eq_true.2 (by rw [Address.normal_zero]; exact agrees)
  have read : grantParts.readFor .single .zero op.callData transferHash = .ok (message, _) :=
    SignatureParts.readFor_eq_ok.2 ⟨_, _, addressed, decoded, rfl, rfl, hashed, rfl⟩
  have made : PreparedOperation.ofOperation .zero { op with signature } transferHash = _ :=
    writes.ofOperation .zero transferHash matching
  exact ⟨_, made.trans (congrArg _ read)⟩

/-- A grant of one operation is hashed for its owner, and carried by an operation. If the owner signed its
hash, it is verified. -/
theorem signedGrant_verified :
    let json : Json := .object [("operator", .string "0x0000000000000000000000000000000000000000"),
      ("permission", .object [
        ("session_root", .string "0x0000000000000000000000000000000000000000000000000000000000000000"),
        ("gas_remaining", .string "0"), ("times_remaining", .string "1")])]
    ∃ text h shown op, ToolRequest.reader .getPermitHash [] (some json) =
        .ok (.getPermitHash .zero oneOperation []) ∧
      ((grantEngine .zero).run (.getPermitHash .zero oneOperation [])).answer = .plain text ∧
      text = successText "Permit hash computed" (("Hash", h.text) :: shown) ∧
      ∀ owner, ∃ p, (grantEngine owner).prepare op transferHash = .ok p ∧
        (isSignedBy h transferSignature owner = true →
          (grantEngine owner).verifiedPermit .silent p = .ok (some ⟨signedGrant.normal, h, 0⟩)) := by
  intro json
  have found : (ToolRequest.reader .getPermitHash [] (some json)).value? =
      some (.getPermitHash .zero oneOperation []) := by
    decide +kernel
  have read := Reading.value?_eq_some.1 found
  have made : ((grantEngine .zero).permitMessage (grantEngine .zero).config.walletAddress .zero oneOperation
      []).hash.toOption.map (fun _ => ()) = some () := by
    decide +kernel
  obtain ⟨h, hashed, -⟩ := exists_ok_of_toOption made
  have answered := (@Engine.answer_getPermitHash (grantEngine .zero) .zero oneOperation [] _).2
    ⟨h, hashed, rfl⟩
  obtain ⟨op, carries, prepared⟩ := exists_operation_of_grantParts
  obtain ⟨h', shown, agrees⟩ := permit_hash_agrees read answered
  refine ⟨_, h', _, op, read, answered, shown, fun owner => ?_⟩
  obtain ⟨p, reads⟩ := prepared owner
  obtain ⟨granted, rfl, -, same, -⟩ :=
    agrees (grantEngine owner) .single _ op transferHash p rfl carries reads
  obtain ⟨-, -, verified⟩ := same rfl
  refine ⟨p, reads, fun signed => verified ?_ rfl .silent⟩
  have wellFormed : Address.zero.IsWellFormed := by decide
  exact ⟨.zero, transferSignature, owner, wellFormed, ⟨_, Hex.bytes?_ofBytes _⟩, rfl, rfl, rfl, signed⟩

end SessionKeys
