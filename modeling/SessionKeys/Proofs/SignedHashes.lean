import SessionKeys.Proofs.Encodings
import SessionKeys.Proofs.Membership

/-!
What owners and operators sign. A permit and an operation are hashed in two layers, and of each layer
the hash binds all that is encoded in it: with the same hash go the same values, or two byte strings
that collide (`PermitMessage.same_or_collides`, `UserOperation.same_or_collides`). The messages of a
permit, an operation and an operator have different sizes, so that no hash of a permit is one of the
others. Main statement: `hashes_bind`.
-/

namespace SessionKeys

/-! ### The same values -/

/-- Two permissions grant the same: their roots have the same bytes, their paymasters the same address, and
their numbers are equal. -/
structure OperatorPermission.SameValues (p q : OperatorPermission) : Prop where
  sessionRoot : p.sessionRoot.bytes? = q.sessionRoot.bytes?
  paymaster : p.paymaster.Agrees q.paymaster
  validUntil : p.validUntil = q.validUntil
  validAfter : p.validAfter = q.validAfter
  gasRemaining : p.gasRemaining = q.gasRemaining
  timesRemaining : p.timesRemaining = q.timesRemaining

structure SpendingLimit.SameValues (l k : SpendingLimit) : Prop where
  token : l.token.Agrees k.token
  allowance : l.allowance = k.allowance

/-- Two permits are the same: one wallet, operator, chain and nonce, one permission, and the same limits in
the same order. -/
structure PermitMessage.SameValues (m n : PermitMessage) : Prop where
  wallet : m.wallet.Agrees n.wallet
  operator : m.operator.Agrees n.operator
  permission : m.permission.SameValues n.permission
  spendingLimits : List.Forall₂ SpendingLimit.SameValues m.spendingLimits n.spendingLimits
  chainId : m.chainId = n.chainId
  nonce : m.nonce = n.nonce

/-- Two operations are the same apart from their signatures. Of any text in the place of a byte string
the bytes count by which it is hashed, which are the bytes that it writes if it writes some. -/
structure UserOperation.SameButSignature (op other : UserOperation) : Prop where
  sender : op.sender.Agrees other.sender
  nonce : op.nonce = other.nonce
  initCode : op.initCode.content = other.initCode.content
  callData : op.callData.content = other.callData.content
  callGasLimit : op.callGasLimit = other.callGasLimit
  verificationGasLimit : op.verificationGasLimit = other.verificationGasLimit
  preVerificationGas : op.preVerificationGas = other.preVerificationGas
  maxFeePerGas : op.maxFeePerGas = other.maxFeePerGas
  maxPriorityFeePerGas : op.maxPriorityFeePerGas = other.maxPriorityFeePerGas
  paymasterAndData : op.paymasterAndData.content = other.paymasterAndData.content

/-! ### What is hashed -/

/-- The byte strings that are hashed for a permit: the encodings of the permission, of the limits, and of
the message with the hashes of both. -/
def PermitMessage.hashed (m : PermitMessage) : List Bytes :=
  let contents : Except EncodingError (List Bytes) := do
    let permission ← Abi.encodeFields (.cons (.tuple OperatorPermission.fields) .nil)
      (m.permission.values, ())
    let limits ← Abi.encodeFields (.cons (.array (.tuple SpendingLimit.fields)) .nil)
      (m.spendingLimits.map SpendingLimit.values, ())
    let chainId ← integral m.chainId
    let message ← Abi.encodeFields fields
      (m.wallet, m.operator, permission.keccak, limits.keccak, chainId, m.nonce, ())
    return [permission.content, limits.content, message.content]
  contents.toOption.getD []

/-- The byte strings that are hashed for an operation: its three byte strings, its encoding with their
hashes, and the encoding that binds it to an entry point and a chain. -/
def UserOperation.hashed (op : UserOperation) (entryPoint : Address) (chainId : Number) : List Bytes :=
  let contents : Except EncodingError (List Bytes) := do
    let packed ← Abi.encodeFields packedFields op.packedValues
    let chainId ← integral chainId
    let bound ← Abi.encodeFields hashFields (packed.keccak, entryPoint, chainId, ())
    return [op.initCode.content, op.callData.content, op.paymasterAndData.content, packed.content,
      bound.content]
  contents.toOption.getD []

/-- The byte string that is hashed for the message of an operator. -/
def operatorMessageHashed (userOpHash : Hex) (validator : Address) : List Bytes :=
  let fields : Abi.Fields := .cons (.fixedBytes 32) <| .cons .address .nil
  ((Abi.encodeFields fields (userOpHash, validator, ())).toOption.map (·.content)).toList

/-- Unless byte strings collide, what is hashed among them is told apart by its hash. -/
theorem Hex.content_eq_of_keccak {known : List Bytes} {e f : Hex} (apart : ¬Collides known)
    (he : e.content ∈ known) (hf : f.content ∈ known) (same : e.keccak.bytes? = f.keccak.bytes?) :
    e.content = f.content := by
  rw [Hex.bytes?_keccak, Hex.bytes?_keccak] at same
  exact (eq_or_collides he hf (Option.some.inj same)).resolve_right apart

/-! ### Permits -/

/-- A permission is told apart by what it is hashed by. -/
theorem OperatorPermission.sameValues_of_content {p q : OperatorPermission} {e f : Hex}
    (rootP : p.sessionRoot.WritesHash) (rootQ : q.sessionRoot.WritesHash)
    (encodedP : Abi.encodeFields (.cons (.tuple fields) .nil) (p.values, ()) = .ok e)
    (encodedQ : Abi.encodeFields (.cons (.tuple fields) .nil) (q.values, ()) = .ok f)
    (same : e.content = f.content) : p.SameValues q := by
  have written {r : OperatorPermission} (root : r.sessionRoot.WritesHash) :
      Abi.Fields.Written (.cons (.tuple fields) .nil) (r.values, ()) := by
    obtain ⟨b, hb, -⟩ := root
    exact ⟨⟨⟨b, hb⟩, trivial, trivial, trivial, trivial, trivial, trivial⟩, trivial⟩
  obtain ⟨⟨root, paymaster, validUntil, validAfter, gas, times, -⟩, -⟩ :=
    Abi.same_of_content rfl rfl (written rootP) (written rootQ) encodedP encodedQ same
  exact ⟨root, paymaster, validUntil, validAfter, gas, times⟩

/-- Limits are told apart by what they are hashed by, however many they are. -/
theorem SpendingLimit.sameValues_of_content {ls ks : List SpendingLimit} {e f : Hex}
    (encodedL : Abi.encodeFields (.cons (.array (.tuple fields)) .nil) (ls.map values, ()) = .ok e)
    (encodedK : Abi.encodeFields (.cons (.array (.tuple fields)) .nil) (ks.map values, ()) = .ok f)
    (same : e.content = f.content) : List.Forall₂ SameValues ls ks := by
  have written (us : List SpendingLimit) : ∀ v ∈ us.map values, Abi.Ty.Written (.tuple fields) v :=
    List.forall_mem_map.2 fun _ _ => ⟨trivial, trivial, trivial⟩
  have each := Abi.same_of_content_array rfl rfl (written ls) (written ks) encodedL encodedK same
  rw [List.forall₂_map_left_iff, List.forall₂_map_right_iff] at each
  exact each.imp fun _ _ ⟨token, allowance, _⟩ => ⟨token, allowance⟩

namespace PermitMessage

/-- The encodings that are hashed for a permit. -/
structure Encodes (m : PermitMessage) (permission limits message : Hex) (chainId : Int) : Prop where
  permission_eq : Abi.encodeFields (.cons (.tuple OperatorPermission.fields) .nil)
    (m.permission.values, ()) = .ok permission
  limits_eq : Abi.encodeFields (.cons (.array (.tuple SpendingLimit.fields)) .nil)
    (m.spendingLimits.map SpendingLimit.values, ()) = .ok limits
  chainId_eq : m.chainId = .ofInt chainId
  message_eq : Abi.encodeFields fields
    (m.wallet, m.operator, permission.keccak, limits.keccak, chainId, m.nonce, ()) = .ok message

variable {m n : PermitMessage} {h permission limits message : Hex} {chainId : Int}

theorem exists_encodes (done : m.hash = .ok h) :
    ∃ permission limits message chainId, m.Encodes permission limits message chainId ∧
      h = message.keccak := by
  unfold hash OperatorPermission.hash SpendingLimit.hashAll at done
  simp only [bind_eq_ok, pure_eq_ok, Except.ok.injEq, integral_eq_ok] at done
  obtain ⟨_, ⟨permission, hp, rfl⟩, _, ⟨limits, hl, rfl⟩, chainId, hc, message, hm, rfl⟩ := done
  exact ⟨permission, limits, message, chainId, ⟨hp, hl, hc, hm⟩, rfl⟩

theorem Encodes.hashed_eq (made : m.Encodes permission limits message chainId) :
    m.hashed = [permission.content, limits.content, message.content] := by
  unfold hashed
  rw [made.permission_eq, ok_bind, made.limits_eq, ok_bind, made.chainId_eq, integral_ofInt, ok_bind,
    made.message_eq]
  rfl

/-- All of a message is read back: its byte strings are hashes. -/
theorem written_message (wallet operator : Address) (permission limits : Hex) (chainId nonce : Int) :
    fields.Written (wallet, operator, permission.keccak, limits.keccak, chainId, nonce, ()) :=
  ⟨trivial, trivial, ⟨_, Hex.bytes?_keccak _⟩, ⟨_, Hex.bytes?_keccak _⟩, trivial, trivial, trivial⟩

/-- **The hash of a permit binds it**, unless byte strings that are hashed collide. -/
theorem same_or_collides {known : List Bytes} (rootM : m.permission.sessionRoot.WritesHash)
    (rootN : n.permission.sessionRoot.WritesHash) (hashM : m.hash = .ok h) (hashN : n.hash = .ok h)
    (knownM : m.hashed ⊆ known) (knownN : n.hashed ⊆ known) : m.SameValues n ∨ Collides known := by
  obtain ⟨permissionM, limitsM, messageM, chainM, madeM, rfl⟩ := exists_encodes hashM
  obtain ⟨permissionN, limitsN, messageN, chainN, madeN, same⟩ := exists_encodes hashN
  simp only [madeM.hashed_eq, List.cons_subset, List.nil_subset, and_true] at knownM
  simp only [madeN.hashed_eq, List.cons_subset, List.nil_subset, and_true] at knownN
  by_cases collide : Collides known
  · exact .inr collide
  have bind {e f : Hex} := Hex.content_eq_of_keccak (e := e) (f := f) collide
  obtain ⟨wallet, operator, samePermission, sameLimits, chain, nonce, -⟩ :=
    Abi.same_of_content rfl rfl (written_message ..) (written_message ..) madeM.message_eq madeN.message_eq
      (bind knownM.2.2 knownN.2.2 (congrArg Hex.bytes? same))
  have permission := OperatorPermission.sameValues_of_content rootM rootN madeM.permission_eq
    madeN.permission_eq (bind knownM.1 knownN.1 samePermission)
  have limits := SpendingLimit.sameValues_of_content madeM.limits_eq madeN.limits_eq
    (bind knownM.2.1 knownN.2.1 sameLimits)
  have chainId : m.chainId = n.chainId := by
    rw [madeM.chainId_eq, madeN.chainId_eq, show chainM = chainN from chain]
  exact .inl ⟨wallet, operator, permission, limits, chainId, nonce⟩

/-- Of a permit six words are hashed last. -/
theorem Encodes.length_message (made : m.Encodes permission limits message chainId) :
    message.content.length = 192 :=
  Abi.length_content rfl rfl (written_message ..) made.message_eq

end PermitMessage

/-! ### Operations -/

namespace UserOperation

/-- The encodings that are hashed for an operation. -/
structure Encodes (op : UserOperation) (entryPoint : Address) (chainId : Number) (packed bound : Hex)
    (chain : Int) : Prop where
  packed_eq : Abi.encodeFields packedFields op.packedValues = .ok packed
  chainId_eq : chainId = .ofInt chain
  bound_eq : Abi.encodeFields hashFields (packed.keccak, entryPoint, chain, ()) = .ok bound

variable {op other : UserOperation} {entryPoint entryPoint' : Address} {chainId chainId' : Number}
  {h packed bound : Hex} {chain : Int}

theorem exists_encodes (done : op.hash entryPoint chainId = .ok h) :
    ∃ packed bound chain, op.Encodes entryPoint chainId packed bound chain ∧ h = bound.keccak := by
  unfold hash at done
  simp only [bind_eq_ok, pure_eq_ok, Except.ok.injEq, integral_eq_ok] at done
  obtain ⟨packed, hp, chain, hc, bound, hb, rfl⟩ := done
  exact ⟨packed, bound, chain, ⟨hp, hc, hb⟩, rfl⟩

theorem Encodes.hashed_eq (made : op.Encodes entryPoint chainId packed bound chain) :
    op.hashed entryPoint chainId = [op.initCode.content, op.callData.content,
      op.paymasterAndData.content, packed.content, bound.content] := by
  unfold hashed
  rw [made.packed_eq, ok_bind, made.chainId_eq, integral_ofInt, ok_bind, made.bound_eq]
  rfl

theorem written_packedValues (op : UserOperation) : packedFields.Written op.packedValues :=
  ⟨trivial, trivial, ⟨_, Hex.bytes?_keccak _⟩, ⟨_, Hex.bytes?_keccak _⟩, trivial, trivial, trivial,
    trivial, trivial, ⟨_, Hex.bytes?_keccak _⟩, trivial⟩

theorem written_bound (packed : Hex) (entryPoint : Address) (chain : Int) :
    hashFields.Written (packed.keccak, entryPoint, chain, ()) :=
  ⟨⟨_, Hex.bytes?_keccak _⟩, trivial, trivial, trivial⟩

/-- **The hash of an operation binds all of it but the signature**, unless byte strings that are hashed
collide. -/
theorem same_or_collides {known : List Bytes} (hashOp : op.hash entryPoint chainId = .ok h)
    (hashOther : other.hash entryPoint' chainId' = .ok h) (knownOp : op.hashed entryPoint chainId ⊆ known)
    (knownOther : other.hashed entryPoint' chainId' ⊆ known) :
    (entryPoint.Agrees entryPoint' ∧ chainId = chainId' ∧ op.SameButSignature other) ∨
      Collides known := by
  obtain ⟨packedOp, boundOp, chainOp, madeOp, rfl⟩ := exists_encodes hashOp
  obtain ⟨packedOther, boundOther, chainOther, madeOther, same⟩ := exists_encodes hashOther
  simp only [madeOp.hashed_eq, List.cons_subset, List.nil_subset, and_true] at knownOp
  simp only [madeOther.hashed_eq, List.cons_subset, List.nil_subset, and_true] at knownOther
  obtain ⟨initOp, callOp, paymasterOp, innerOp, outerOp⟩ := knownOp
  obtain ⟨initOther, callOther, paymasterOther, innerOther, outerOther⟩ := knownOther
  by_cases collide : Collides known
  · exact .inr collide
  have bind {e f : Hex} := Hex.content_eq_of_keccak (e := e) (f := f) collide
  obtain ⟨inner, entry, chain, -⟩ := Abi.same_of_content rfl rfl (written_bound ..) (written_bound ..)
    madeOp.bound_eq madeOther.bound_eq (bind outerOp outerOther (congrArg Hex.bytes? same))
  obtain ⟨sender, nonce, initCode, callData, callGas, verificationGas, preGas, fee, priorityFee,
      paymasterAndData, -⟩ :=
    Abi.same_of_content rfl rfl (written_packedValues _) (written_packedValues _) madeOp.packed_eq
      madeOther.packed_eq (bind innerOp innerOther inner)
  have chains : chainId = chainId' := by
    rw [madeOp.chainId_eq, madeOther.chainId_eq, show chainOp = chainOther from chain]
  exact .inl ⟨entry, chains, sender, nonce, bind initOp initOther initCode,
    bind callOp callOther callData, callGas, verificationGas, preGas, fee, priorityFee,
    bind paymasterOp paymasterOther paymasterAndData⟩

/-- Of an operation three words are hashed last. -/
theorem Encodes.length_bound (made : op.Encodes entryPoint chainId packed bound chain) :
    bound.content.length = 96 :=
  Abi.length_content rfl rfl (written_bound ..) made.bound_eq

end UserOperation

/-- Of the message of an operator two words are hashed. -/
theorem exists_of_operatorMessageHash {userOpHash h : Hex} {validator : Address}
    (written : userOpHash.WritesHash) (done : operatorMessageHash userOpHash validator = .ok h) :
    ∃ message : Hex, h = message.keccak ∧ message.content.length = 64 ∧
      operatorMessageHashed userOpHash validator = [message.content] := by
  obtain ⟨b, hb, -⟩ := written
  obtain ⟨message, encoded, ⟨⟩⟩ := bind_eq_ok.1 done
  have whole : Abi.Fields.Written (.cons (.fixedBytes 32) (.cons .address .nil))
      (userOpHash, validator, ()) :=
    ⟨⟨b, hb⟩, trivial, trivial⟩
  refine ⟨message, rfl, Abi.length_content rfl rfl whole encoded, ?_⟩
  unfold operatorMessageHashed
  simp only [encoded]
  rfl

/-! ### All hashes -/

/-- Byte strings of different lengths with one hash collide. -/
theorem ne_or_collides {known : List Bytes} {e f : Hex} (he : e.content ∈ known) (hf : f.content ∈ known)
    (lengths : e.content.length ≠ f.content.length) : e.keccak ≠ f.keccak ∨ Collides known := by
  by_cases same : e.keccak = f.keccak
  · refine .inr (not_not.1 fun apart => ?_)
    have content := Hex.content_eq_of_keccak apart he hf (congrArg Hex.bytes? same)
    exact lengths (congrArg List.length content)
  · exact .inl same

/-- **What is signed is bound by its hash.** Unless two different byte strings among those that are hashed
have the same hash: permits with the same hash are the same; operations with the same hash are the same but
for their signatures, which the hash does not depend on, for the same entry point on the same chain; and the
hash of a permit is neither one of an operation nor one that an operator signs. -/
theorem hashes_bind :
    (∀ (m n : PermitMessage) (h : Hex), m.permission.sessionRoot.WritesHash →
      n.permission.sessionRoot.WritesHash → m.hash = .ok h → n.hash = .ok h →
      m.SameValues n ∨ Collides (m.hashed ++ n.hashed)) ∧
    (∀ (op other : UserOperation) (entryPoint entryPoint' : Address) (chainId chainId' : Number) (h : Hex),
      op.hash entryPoint chainId = .ok h → other.hash entryPoint' chainId' = .ok h →
      (entryPoint.Agrees entryPoint' ∧ chainId = chainId' ∧ op.SameButSignature other) ∨
        Collides (op.hashed entryPoint chainId ++ other.hashed entryPoint' chainId')) ∧
    (∀ (op : UserOperation) (signature : Hex) (entryPoint : Address) (chainId : Number),
      { op with signature }.hash entryPoint chainId = op.hash entryPoint chainId) ∧
    ∀ (m : PermitMessage) (permitHash : Hex), m.hash = .ok permitHash →
      (∀ (op : UserOperation) (entryPoint : Address) (chainId : Number) (h : Hex),
        op.hash entryPoint chainId = .ok h →
        permitHash ≠ h ∨ Collides (m.hashed ++ op.hashed entryPoint chainId)) ∧
      ∀ (userOpHash : Hex) (validator : Address) (h : Hex), userOpHash.WritesHash →
        operatorMessageHash userOpHash validator = .ok h →
        permitHash ≠ h ∨ Collides (m.hashed ++ operatorMessageHashed userOpHash validator) := by
  refine ⟨fun m n h rootM rootN hashM hashN => ?_, fun op other _ _ _ _ h hashOp hashOther => ?_,
    fun _ _ _ _ => rfl, fun m permitHash hashM => ?_⟩
  · exact m.same_or_collides rootM rootN hashM hashN (List.subset_append_left _ _)
      (List.subset_append_right _ _)
  · exact op.same_or_collides hashOp hashOther (List.subset_append_left _ _)
      (List.subset_append_right _ _)
  · obtain ⟨permission, limits, message, chain, madeM, rfl⟩ := PermitMessage.exists_encodes hashM
    constructor
    · intro op entryPoint chainId h hashOp
      obtain ⟨packed, bound, opChain, madeOp, rfl⟩ := UserOperation.exists_encodes hashOp
      refine ne_or_collides (by simp [madeM.hashed_eq]) (by simp [madeOp.hashed_eq]) ?_
      rw [madeM.length_message, madeOp.length_bound]
      decide
    · intro userOpHash validator h written hashed
      obtain ⟨text, rfl, length, known⟩ := exists_of_operatorMessageHash written hashed
      refine ne_or_collides (by simp [madeM.hashed_eq]) (by simp [known]) ?_
      rw [madeM.length_message, length]
      decide

/-- Two permits of which one has its root in capitals, and an operation that is signed in between. -/
theorem hashes_bind_capitals :
    let permit (root : Hex) : PermitMessage :=
      { wallet := .zero, operator := .zero, permission := { OperatorPermission.empty with sessionRoot := root }
        spendingLimits := [⟨.zero, 5⟩], chainId := 1, nonce := 0 }
    let capitals := permit (Hex.ofDigits (List.replicate 64 'A'))
    let small := permit (Hex.ofBytes (List.replicate 32 0xaa))
    let op (signature : Hex) : UserOperation := ⟨.zero, 0, .empty, .empty, 0, 0, 0, 0, 0, .empty, signature⟩
    let signed := op (Hex.ofBytes [1])
    capitals ≠ small ∧ ∃ permitHash opHash message, capitals.hash = .ok permitHash ∧
      small.hash = .ok permitHash ∧ (op .empty).hash .zero 1 = .ok opHash ∧ signed.hash .zero 1 = .ok opHash ∧
      operatorMessageHash opHash .zero = .ok message ∧
      (capitals.SameValues small ∨ Collides (capitals.hashed ++ small.hashed)) ∧
      ((op .empty).SameButSignature signed ∨
        Collides ((op .empty).hashed .zero 1 ++ signed.hashed .zero 1)) ∧
      (permitHash ≠ opHash ∨ Collides (capitals.hashed ++ signed.hashed .zero 1)) ∧
      (permitHash ≠ message ∨ Collides (capitals.hashed ++ operatorMessageHashed opHash .zero)) := by
  intro permit capitals small op signed
  have contents : ∀ m ∈ [capitals, small], (Abi.encodeFields (.cons (.tuple OperatorPermission.fields) .nil)
      (m.permission.values, ())).toOption.map (·.content) =
        some (List.replicate 32 0xaa ++ List.replicate 160 0) := by
    decide +kernel
  have granted : ∀ m ∈ [capitals, small], m.permission.hash =
      .ok (Hex.ofBytes (Keccak.digest (List.replicate 32 0xaa ++ List.replicate 160 0))) := by
    intro m listed
    obtain ⟨e, encoded, content⟩ := exists_ok_of_toOption (contents m listed)
    unfold OperatorPermission.hash
    rw [encoded, ok_bind, Hex.keccak, content]
    rfl
  have same : capitals.hash = small.hash := by
    unfold PermitMessage.hash
    rw [granted _ (.head _), granted _ (.tail _ (.head _))]
  obtain ⟨permitHash, hp, -⟩ := exists_ok_of_toOption (show
    capitals.hash.toOption.map (fun _ => ()) = some () by decide +kernel)
  obtain ⟨opHash, ho, -⟩ := exists_ok_of_toOption (show
    ((op .empty).hash .zero 1).toOption.map (fun _ => ()) = some () by decide +kernel)
  have node : opHash.WritesHash := by
    obtain ⟨_, bound, _, -, rfl⟩ := UserOperation.exists_encodes ho
    exact ⟨_, Hex.bytes?_keccak _, Keccak.length_digest _⟩
  obtain ⟨message, hm⟩ : ∃ message, operatorMessageHash opHash .zero = .ok message := by
    have zero : Address.zero.isStrict = true := by decide
    have fits : Abi.Fields.Fits (.cons (.fixedBytes 32) (.cons .address .nil)) (opHash, .zero, ()) :=
      ⟨node, zero, trivial⟩
    obtain ⟨e, encoded, -⟩ := Abi.encodeFields_of_fits rfl fits
    exact ⟨e.keccak, by unfold operatorMessageHash; simp only [encoded]; rfl⟩
  obtain ⟨permits, operations, unsigned, apart⟩ := hashes_bind
  have hs : signed.hash .zero 1 = .ok opHash := (unsigned (op .empty) _ _ _).trans ho
  have rootC : capitals.permission.sessionRoot.WritesHash := ⟨List.replicate 32 0xaa, by decide, rfl⟩
  have rootS : small.permission.sessionRoot.WritesHash := ⟨_, Hex.bytes?_ofBytes _, rfl⟩
  obtain ⟨fromOperations, fromMessages⟩ := apart capitals permitHash hp
  exact ⟨by decide, permitHash, opHash, message, hp, same ▸ hp, ho, hs, hm,
    permits capitals small permitHash rootC rootS hp (same ▸ hp),
    (operations _ _ _ _ _ _ _ ho hs).imp_left fun h => h.2.2, fromOperations _ _ _ _ hs,
    fromMessages _ _ _ node hm⟩

end SessionKeys
