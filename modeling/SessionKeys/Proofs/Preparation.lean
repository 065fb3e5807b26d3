import SessionKeys.Engine
import SessionKeys.Proofs.Computation

/-!
What it takes to get an operation ready: how it is read, and how the permit that it carries is
verified. Main statements: `PreparedOperation.ofOperation_eq_ok` and `Engine.verifiedPermit_eq_ok`,
which list all that is checked on the way.
-/

namespace SessionKeys

/-! ### Addresses -/

/-- Two addresses are well formed and have the same bytes. -/
def Address.Agrees (a b : Address) : Prop :=
  ∃ bytes, a.bytes? = some bytes ∧ b.bytes? = some bytes

theorem Address.same_eq_true {a b : Address} : a.same b = .ok true ↔ a.Agrees b := by
  constructor
  · intro h
    by_cases hw : a.IsWellFormed ∧ b.IsWellFormed
    · obtain ⟨x, hx⟩ := hw.1.exists_bytes
      obtain ⟨y, hy⟩ := hw.2.exists_bytes
      rw [same_eq_ok hw.1 hw.2, Except.ok.injEq,
        Hex.same_iff (bytes?_eq_some_iff.1 hx).1 (bytes?_eq_some_iff.1 hy).1] at h
      exact ⟨x, hx, h ▸ hy⟩
    · rw [same, if_neg hw] at h
      cases h
  · rintro ⟨bytes, ha, hb⟩
    have wellFormed : ∀ c : Address, c.bytes? = some bytes → c.IsWellFormed := by
      intro c hc
      unfold IsWellFormed
      rw [hc]
      rfl
    rw [same_eq_ok (wellFormed a ha) (wellFormed b hb), Except.ok.injEq,
      Hex.same_iff (bytes?_eq_some_iff.1 ha).1 (bytes?_eq_some_iff.1 hb).1]

theorem Address.ofHex_eq_ok {h : Hex} {a : Address} :
    Address.ofHex h = .ok a ↔ ∃ bytes, Address.bytes? ⟨h⟩ = some bytes ∧ a = Address.ofBytes bytes := by
  unfold Address.ofHex Address.checksummed?
  cases Address.bytes? ⟨h⟩ with
  | none => simp
  | some bytes => simp [eq_comm]

/-- An address that was read agrees with what it was read from. -/
theorem Address.agrees_ofBytes {bytes : Bytes} {h : Hex} {b : Address}
    (hbytes : Address.bytes? ⟨h⟩ = some bytes) :
    (Address.ofBytes bytes).Agrees b ↔ Address.Agrees ⟨h⟩ b := by
  have length := (Address.bytes?_eq_some_iff.1 hbytes).2
  unfold Address.Agrees
  rw [Address.bytes?_ofBytes length, hbytes]

/-- Twenty bytes at the start of a text are a part of it. -/
theorem Hex.le_size_of_take {h : Hex} {bytes : Bytes}
    (hbytes : Address.bytes? ⟨h.take 20⟩ = some bytes) : 20 ≤ h.size := by
  obtain ⟨hb, hlength⟩ := Address.bytes?_eq_some_iff.1 hbytes
  unfold Hex.take at hb
  by_cases marked : h.isMarked = true
  · rw [if_pos marked, Hex.bytes?_ofDigits] at hb
    have digits := Hex.length_of_bytesOfDigits? hb
    obtain ⟨chars⟩ := h
    unfold Hex.isMarked at marked
    split at marked
    next rest heq =>
      simp only at heq
      subst heq
      simp only [Hex.digits, Hex.withoutMark, List.length_take] at digits
      simp only [Hex.size, Hex.isMarked, if_true, List.length_cons]
      omega
    next => cases marked
  · rw [if_neg marked] at hb
    obtain ⟨digits, hd, -⟩ := Hex.bytes?_eq_some_iff.1 hb
    have start := congrArg Hex.chars hd
    obtain ⟨chars⟩ := h
    refine absurd ?_ marked
    rcases chars with _ | ⟨a, _ | ⟨x, rest⟩⟩
    · cases start
    · simp [Hex.ofDigits] at start
    · simp only [List.take_succ_cons, Hex.ofDigits, List.cons.injEq] at start
      rw [start.1, start.2.1]
      rfl

/-! ### Signatures -/

/-- A signature is addressed to a validator by its first twenty bytes. -/
theorem splitValidatorSignature_eq_ok {signature : Hex} {self : Address} {payload : Hex} :
    (∃ named, splitValidatorSignature signature = .ok ⟨named, payload⟩ ∧ named.Agrees self) ↔
      Address.Agrees ⟨signature.take 20⟩ self ∧ payload = signature.drop 20 := by
  unfold splitValidatorSignature
  simp only [bind_eq_ok, throw_eq_error, error_bind, error_ite_eq_ok, pure_eq_ok, orFail_eq_ok,
    Address.ofHex_eq_ok, Except.ok.injEq, AddressedSignature.mk.injEq]
  constructor
  · rintro ⟨named, ⟨-, -, ⟨bytes, hbytes, rfl⟩, rfl, rfl⟩, agrees⟩
    exact ⟨(Address.agrees_ofBytes hbytes).1 agrees, rfl⟩
  · rintro ⟨⟨bytes, hbytes, hself⟩, rfl⟩
    have size := Hex.le_size_of_take hbytes
    exact ⟨Address.ofBytes bytes, ⟨by omega, _, ⟨bytes, hbytes, rfl⟩, rfl, rfl⟩,
      (Address.agrees_ofBytes hbytes).2 ⟨bytes, hbytes, hself⟩⟩

/-- A signature is by a signer if it recovers to an address that agrees with it. -/
theorem isSignedBy_eq_true {hash signature : Hex} {signer : Address} :
    isSignedBy hash signature signer = true ↔
      ∃ recovered, recoverSigner? hash signature = some recovered ∧ recovered.Agrees signer := by
  unfold isSignedBy
  cases recoverSigner? hash signature with
  | none => simp
  | some recovered =>
    simp only [Option.some.injEq, exists_eq_left', ← Address.same_eq_true]
    cases recovered.same signer with
    | error e => simp
    | ok b => simp

/-! ### Reading an operation -/

/-- What is checked when an operation is read, and what is made of it. -/
theorem PreparedOperation.ofOperation_eq_ok {self : Address} {op : UserOperation} {userOpHash : Hex}
    {p : PreparedOperation} :
    PreparedOperation.ofOperation self op userOpHash = .ok p ↔
      ∃ operation shown message,
        Address.Agrees ⟨op.signature.take 20⟩ self ∧
        WalletOperation.decode op.callData = .ok operation ∧
        SessionSignature.decode operation.mode (op.signature.drop 20) = .ok shown ∧
        shown.entries.length = operation.calls.length ∧
        operatorMessageHash userOpHash self = .ok message ∧
        p = { op
              operator := shown.operator
              signatureValid := isSignedBy message shown.operatorSignature shown.operator
              steps := operation.calls.zip shown.entries
              permit := shown.permit } := by
  unfold PreparedOperation.ofOperation
  simp only [bind_eq_ok, throw_eq_error, error_bind, error_ite_eq_ok, ite_error_eq_ok, pure_eq_ok,
    orFail_eq_ok, Except.ok.injEq, ne_eq, Decidable.not_not]
  constructor
  · rintro ⟨⟨named, payload⟩, split, b, same, rfl, operation, decoded, shown, shows, lengths, message,
      hashed, rfl⟩
    obtain ⟨agrees, rfl⟩ :=
      splitValidatorSignature_eq_ok.1 ⟨named, split, Address.same_eq_true.1 same⟩
    exact ⟨operation, shown, message, agrees, decoded, shows, lengths, hashed, rfl⟩
  · rintro ⟨operation, shown, message, agrees, decoded, shows, lengths, hashed, rfl⟩
    obtain ⟨named, split, agrees⟩ := splitValidatorSignature_eq_ok.2 ⟨agrees, rfl⟩
    exact ⟨⟨named, _⟩, split, true, Address.same_eq_true.2 agrees, rfl, operation, decoded, shown, shows,
      lengths, message, hashed, rfl⟩

/-! ### Verifying a permit -/

/-- What is checked when a permit is read, and what its signer is asked. -/
theorem PermitRequest.ofPermit_eq_ok {chainId : Number} {s : Store} {r : Registry}
    {wallet operator : Address} {permit : Permit} {request : PermitRequest} :
    PermitRequest.ofPermit chainId s r wallet operator permit = .ok request ↔
      ∃ hash addressed v,
        s.permitMessageHash chainId wallet operator permit.permission permit.spendingLimits = .ok hash ∧
        s.isHashUsed wallet hash = false ∧
        splitPermitSignature permit.signature = .ok addressed ∧
        r.validator? addressed.validator = some v ∧
        r.class? wallet addressed.validator = some .sudo ∧
        request = { permit, hash
                    nonce := s.permitNonce wallet operator
                    signer := addressed.validator
                    signature := addressed.payload
                    answer := v.approves? wallet hash addressed.payload } := by
  unfold PermitRequest.ofPermit
  simp only [bind_eq_ok, throw_eq_error, error_bind, error_ite_eq_ok, orFail_eq_ok,
    Bool.not_eq_true]
  constructor
  · rintro ⟨hash, hashed, unused, addressed, split, asked⟩
    split at asked
    next v known rank =>
      simp only [pure_eq_ok, Except.ok.injEq] at asked
      exact ⟨hash, addressed, v, hashed, unused, split, known, rank, asked.symm⟩
    next => cases asked
  · rintro ⟨hash, addressed, v, hashed, unused, split, known, rank, rfl⟩
    refine ⟨hash, hashed, unused, addressed, split, ?_⟩
    rw [known, rank]
    rfl

/-- A permit that can be read grants a permission that can be hashed. -/
theorem PermitRequest.exists_hash_of_ofPermit {chainId : Number} {s : Store} {r : Registry}
    {wallet operator : Address} {permit : Permit} {request : PermitRequest}
    (read : ofPermit chainId s r wallet operator permit = .ok request) :
    ∃ h, permit.permission.hash = .ok h := by
  obtain ⟨_, _, _, hashed, -⟩ := ofPermit_eq_ok.1 read
  obtain ⟨h, granted, -⟩ := bind_eq_ok.1 hashed
  exact ⟨h, granted⟩

/-- A permit is asked about if an operation carries it and it can be read. -/
theorem Engine.request_eq_some {e : Engine} {p : PreparedOperation} {request : PermitRequest} :
    e.request p = .ok (some request) ↔
      ∃ permit, p.permit = some permit ∧
        PermitRequest.ofPermit e.config.chainId e.store e.registry p.op.sender p.operator permit =
          .ok request := by
  unfold Engine.request
  cases p.permit with
  | none => simp
  | some permit => simp [bind_eq_ok, pure_eq_ok]

/-- A permit is verified when its signer approves it. -/
theorem Engine.verifiedPermit_eq_ok {e : Engine} {outside : Outside} {p : PreparedOperation}
    {verified : Option VerifiedPermit} :
    e.verifiedPermit outside p = .ok verified ↔
      match p.permit with
      | none => verified = none
      | some permit =>
        ∃ request,
          PermitRequest.ofPermit e.config.chainId e.store e.registry p.op.sender p.operator permit =
            .ok request ∧
          answer outside p request = .ok true ∧
          verified = some ⟨permit, request.hash, request.nonce⟩ := by
  unfold Engine.verifiedPermit Engine.request
  cases hp : p.permit with
  | none => simp [pure_eq_ok, eq_comm]
  | some permit =>
    have asks : ∀ request : PermitRequest, request.permit = permit →
        ((do return some (← orFail (request.verify (← answer outside p request))) :
          Except Failure (Option VerifiedPermit)) = .ok verified ↔
          answer outside p request = .ok true ∧
            verified = some ⟨permit, request.hash, request.nonce⟩) := by
      rintro request rfl
      simp only [bind_eq_ok, pure_eq_ok, orFail_eq_ok, PermitRequest.verify, ite_error_eq_ok,
        Except.ok.injEq]
      constructor
      · rintro ⟨approved, answered, _, ⟨rfl, rfl⟩, rfl⟩
        exact ⟨answered, rfl⟩
      · rintro ⟨answered, rfl⟩
        exact ⟨true, answered, _, ⟨rfl, rfl⟩, rfl⟩
    have carries : ∀ request, PermitRequest.ofPermit e.config.chainId e.store e.registry p.op.sender
        p.operator permit = .ok request → request.permit = permit := by
      intro request asked
      obtain ⟨_, _, _, _, _, _, _, _, rfl⟩ := PermitRequest.ofPermit_eq_ok.1 asked
      rfl
    simp only [bind_eq_ok, pure_eq_ok, Except.ok.injEq]
    constructor
    · rintro ⟨_, ⟨request, asked, rfl⟩, rest⟩
      exact ⟨request, asked, (asks request (carries request asked)).1 rest⟩
    · rintro ⟨request, asked, answered⟩
      exact ⟨_, ⟨request, asked, rfl⟩, (asks request (carries request asked)).2 answered⟩

/-- What it takes to get an operation ready. -/
theorem Engine.ready_eq_ok {e : Engine} {outside : Outside} {op : UserOperation} {userOpHash : Hex}
    {p : PreparedOperation} {permit : Option VerifiedPermit} :
    e.ready outside op userOpHash = .ok (p, permit) ↔
      e.prepare op userOpHash = .ok p ∧ e.verifiedPermit outside p = .ok permit := by
  unfold Engine.ready
  simp only [bind_eq_ok, pure_eq_ok, Except.ok.injEq, Prod.mk.injEq]
  constructor
  · rintro ⟨_, prepared, _, verified, rfl, rfl⟩
    exact ⟨prepared, verified⟩
  · rintro ⟨prepared, verified⟩
    exact ⟨p, prepared, permit, verified, rfl, rfl⟩

end SessionKeys
