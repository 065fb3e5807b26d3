import SessionKeys.Proofs.EncodableRequests
import SessionKeys.Proofs.PermitAgreement
import SessionKeys.Proofs.Refusals

/-!
What is read of an operation can be compared, hashed and charged. Whatever text stands for its call data, and
whatever bytes for its signature, the operation is refused, or its calls have well-formed targets, what is
shown for them can be encoded again, and its permit can be hashed. Main statements:
`PreparedOperation.givesOrRefuses_ofOperation` and `PermitRequest.onlyRefuses_ofPermit`.
-/

namespace SessionKeys

/-! ### Reading an operation -/

theorem UserOperation.isWellFormed_paymaster {op : UserOperation}
    (writes : op.paymasterAndData.WritesBytes) : op.paymaster.IsWellFormed := by
  unfold paymaster
  obtain ⟨b, hb⟩ := writes
  split
  next long =>
    rw [Hex.size_of_bytes? hb] at long
    refine Address.isWellFormed_of_bytes?
      (Address.bytes?_eq_some_iff.2 ⟨Hex.bytes?_take hb 20, ?_⟩)
    rw [List.length_take]
    omega
  next => exact Address.isWellFormed_of_isStrict Address.isStrict_zero

theorem Address.IsWritten.isWellFormed {a : Address} (h : a.IsWritten) : a.IsWellFormed :=
  isWellFormed_of_isStrict h.isStrict

/-- Twenty bytes in front of others name a validator. -/
theorem exists_ofHex_take {signature : Hex} (writes : signature.WritesBytes) (long : 20 ≤ signature.size) :
    ∃ a, Address.ofHex (signature.take 20) = .ok a ∧ a.IsWritten := by
  obtain ⟨b, hb⟩ := writes
  rw [Hex.size_of_bytes? hb] at long
  have whole : signature.bytes? = some (b.take 20 ++ b.drop 20) := by rw [List.take_append_drop, hb]
  have length : (b.take 20).length = 20 := by
    rw [List.length_take]
    omega
  exact ⟨_, (ofHex_take_of_bytes? whole length).1, b.take 20, length, rfl⟩

theorem givesOrRefuses_splitValidatorSignature {signature : Hex} (writes : signature.WritesBytes) :
    GivesOrRefuses (·.validator.IsWritten) (splitValidatorSignature signature) := by
  unfold splitValidatorSignature
  refine .ite (fun _ => .refuses _) fun long => ?_
  obtain ⟨a, named, written⟩ := exists_ofHex_take writes (by omega)
  rw [named]
  exact .gives written

theorem givesOrRefuses_splitPermitSignature {signature : Hex} (writes : signature.WritesBytes) :
    GivesOrRefuses (·.validator.IsWritten) (splitPermitSignature signature) := by
  unfold splitPermitSignature
  refine .ite (fun _ => .refuses _) fun long => ?_
  obtain ⟨a, named, written⟩ := exists_ofHex_take writes (by omega)
  rw [named]
  exact .gives written

namespace WalletOperation

theorem target_of_mem_zipCalls {targets : List Address} {values : List Int} {datas : List Hex}
    {operations : List Number} {call : WalletCall}
    (listed : call ∈ zipCalls targets values datas operations) : call.target ∈ targets := by
  fun_induction zipCalls targets values datas operations with
  | case1 target targets value values data datas operation operations ih =>
    rcases List.mem_cons.1 listed with rfl | later
    · exact List.mem_cons_self
    · exact List.mem_cons_of_mem target (ih later)
  | case2 => cases listed

/-- Whatever text stands for the call data, it is read or refused, and the calls have targets that are well
formed. -/
theorem givesOrRefuses_decode (callData : Hex) :
    GivesOrRefuses (fun operation => ∀ call ∈ operation.calls, call.target.IsWellFormed)
      (decode callData) := by
  unfold decode
  refine .ite (fun _ => ?_) fun _ => .ite (fun _ => ?_) fun _ => .refuses _
  · refine (GivesOrRefuses.reading _ _).bind fun (target, value, data, kind, ()) decoded => ?_
    obtain ⟨_, _, _, _, row⟩ := Abi.decodeRow_of_decodeCall (orFail_eq_ok.1 decoded)
    obtain ⟨_, _, read, -⟩ := Abi.decodeRow_cons row
    exact .gives (List.forall_mem_singleton.2 (Abi.isWellFormed_of_decode read))
  · refine (GivesOrRefuses.reading _ _).bind fun (targets, values, datas, kinds, ()) decoded => ?_
    obtain ⟨_, _, _, _, row⟩ := Abi.decodeRow_of_decodeCall (orFail_eq_ok.1 decoded)
    obtain ⟨_, _, read, -⟩ := Abi.decodeRow_cons row
    refine (GivesOrRefuses.orFail _).mono fun operation _ made call listed => ?_
    unfold ofBatchArguments at made
    simp only [error_ite_eq_ok, Except.ok.injEq] at made
    obtain ⟨-, -, rfl⟩ := made
    obtain ⟨_, _, _, one⟩ := Abi.exists_of_mem_decode_array read (target_of_mem_zipCalls listed)
    exact Abi.isWellFormed_of_decode one

end WalletOperation

/-- What is read from a payload was made of values that fit their types. -/
theorem exists_base_of_decodePayload {mode : ExecutionMode} {fields : Abi.Fields}
    {base : fields.Val → Except Refusal SignatureBase} {payload : Hex} {shown : SessionSignature}
    (readable : fields.isReadable = true) (read : decodePayload mode fields base payload = .ok shown) :
    ∃ values b, fields.Fits values ∧ base values = .ok b ∧ shown.entries = b.entries ∧
      shown.operator = b.operator := by
  obtain ⟨values, b, canonical, first, checked, encoded, form⟩ := decodePayload_eq_ok.1 read
  refine ⟨values, b, Abi.fits_of_decodeFields readable first encoded, checked, ?_⟩
  rcases form with ⟨-, rfl⟩ | ⟨-, _, _, -, -, -, rfl⟩
  · exact ⟨rfl, rfl⟩
  · exact ⟨rfl, rfl⟩

theorem mem_of_mem_zipEntries {proofs : List (List Hex)} {sessions : List Session} {arguments : List Hex}
    {shown : SessionEntry} (listed : shown ∈ zipEntries proofs sessions arguments) :
    shown.proof ∈ proofs ∧ shown.session ∈ sessions := by
  fun_induction zipEntries proofs sessions arguments with
  | case1 proof proofs session sessions arguments rest ih =>
    rcases List.mem_cons.1 listed with rfl | later
    · exact ⟨List.mem_cons_self, List.mem_cons_self⟩
    · obtain ⟨inProofs, inSessions⟩ := ih later
      exact ⟨List.mem_cons_of_mem _ inProofs, List.mem_cons_of_mem _ inSessions⟩
  | case2 => cases listed

/-- What is shown for the calls of an operation can be encoded again, and its operator too. -/
theorem SessionSignature.isWellFormed_of_decode {mode : ExecutionMode} {payload : Hex}
    {shown : SessionSignature} (read : SessionSignature.decode mode payload = .ok shown) :
    shown.operator.isStrict = true ∧ ∀ entry ∈ shown.entries, entry.IsWellFormed := by
  unfold decode at read
  rw [reading_eq_ok] at read
  cases mode with
  | single =>
    obtain ⟨values, b, fits, checked, entries, operator⟩ := exists_base_of_decodePayload (by decide) read
    obtain ⟨proof, named, session, arguments, signature, ⟨⟩⟩ := values
    cases checked
    obtain ⟨hproof, hoperator, hsession, -⟩ := fits
    rw [entries, operator]
    exact ⟨hoperator, List.forall_mem_singleton.2 ⟨hproof, hsession⟩⟩
  | batch =>
    obtain ⟨values, b, fits, checked, entries, operator⟩ := exists_base_of_decodePayload (by decide) read
    obtain ⟨proofs, named, sessions, arguments, signature, ⟨⟩⟩ := values
    obtain ⟨-, rfl⟩ := (batchBase_eq_ok proofs).1 checked
    obtain ⟨hproofs, hoperator, hsessions, -⟩ := fits
    rw [entries, operator]
    refine ⟨hoperator, fun entry listed => ?_⟩
    obtain ⟨inProofs, inSessions⟩ := mem_of_mem_zipEntries listed
    obtain ⟨v, hv, same⟩ := List.mem_map.1 inSessions
    refine ⟨hproofs _ inProofs, ?_⟩
    rw [← same, Session.values_ofValues]
    exact hsessions v hv

/-- What is submitted has a sender in small letters or with its checksum, a hash of 32 bytes, and bytes for
the paymaster and for the signature. -/
structure Submission.IsWellFormed (submitted : Submission) : Prop where
  sender : submitted.op.sender.isStrict = true
  userOpHash : submitted.userOpHash.WritesHash
  paymasterAndData : submitted.op.paymasterAndData.WritesBytes
  signature : submitted.op.signature.WritesBytes

/-- The message that an operator signs can be hashed. -/
theorem exists_operatorMessageHash {userOpHash : Hex} {validator : Address} (hash : userOpHash.WritesHash)
    (strict : validator.isStrict = true) :
    ∃ message, operatorMessageHash userOpHash validator = .ok message := by
  have fits : Abi.Fields.Fits (.cons (.fixedBytes 32) <| .cons .address .nil) (userOpHash, validator, ()) :=
    ⟨hash, strict, trivial⟩
  obtain ⟨e, encoded, -⟩ := Abi.encodeFields_of_fits (by decide) fits
  exact ⟨e.keccak, by simp only [operatorMessageHash, encoded, ok_bind, pure_eq_ok]⟩

/-- An operation is read or refused. -/
theorem PreparedOperation.givesOrRefuses_ofOperation {self : Address} (strict : self.isStrict = true)
    {submitted : Submission} (h : submitted.IsWellFormed) :
    GivesOrRefuses (·.IsWellFormed) (ofOperation self submitted.op submitted.userOpHash) := by
  obtain ⟨message, hashed⟩ := exists_operatorMessageHash h.userOpHash strict
  unfold ofOperation
  refine (givesOrRefuses_splitValidatorSignature h.signature).bind fun addressed written => ?_
  refine (Address.givesOrRefuses_same written.isWellFormed
    (Address.isWellFormed_of_isStrict strict)).bind fun same _ => ?_
  refine .ite (fun _ => ?_) fun _ => .refuses _
  refine (WalletOperation.givesOrRefuses_decode _).bind fun operation targets => ?_
  refine (GivesOrRefuses.reading _ _).ends.bind fun shown ⟨shows, _⟩ => ?_
  obtain ⟨operator, entries⟩ := SessionSignature.isWellFormed_of_decode shows
  refine .ite (fun _ => .refuses _) fun _ => ?_
  rw [hashed]
  refine .gives ⟨h.sender, operator, UserOperation.isWellFormed_paymaster h.paymasterAndData, ?_, ?_⟩
  · intro step listed
    obtain ⟨inCalls, inEntries⟩ := List.of_mem_zip listed
    exact ⟨targets _ inCalls, entries _ inEntries⟩
  · exact fun permit carried => SessionSignature.fits_permit shows carried

/-! ### Reading a permit -/

/-- A chain that is configured has a number that can be hashed. -/
theorem Config.exists_chainId_of_load {env : Environment} {config : Config}
    (loaded : load env = .ok config) :
    ∃ n : Int, config.chainId = .ofInt n ∧ 0 ≤ n ∧ n < Abi.valueCount 256 := by
  obtain ⟨n, parsed, same⟩ := (load_eq_ok.1 loaded).chain
  unfold parseChainId at parsed
  split at parsed
  next =>
    obtain ⟨⟨positive, small⟩, read⟩ := ite_error_eq_ok.1 parsed
    cases read
    refine ⟨n, same, Int.le_of_lt positive, Int.lt_of_lt_of_le small ?_⟩
    decide +kernel
  next => cases parsed

theorem Abi.fits_keccak (h : Hex) : (Abi.Ty.fixedBytes 32).Fits h.keccak :=
  ⟨_, Hex.bytes?_ofBytes _, Keccak.length_digest _⟩

/-- The message of a permit that was read can be hashed, while its nonce fits a word. -/
theorem PermitMessage.exists_hash {m : PermitMessage} {permit : Permit}
    (fits : Permit.fields.Fits permit.values) (permission : m.permission = permit.permission)
    (limits : m.spendingLimits = permit.spendingLimits) (wallet : m.wallet.isStrict = true)
    (operator : m.operator.isStrict = true) {chainId : Int} (chain : m.chainId = .ofInt chainId)
    (chainFits : 0 ≤ chainId ∧ chainId < Abi.valueCount 256)
    (nonceFits : 0 ≤ m.nonce ∧ m.nonce < Abi.valueCount 256) : ∃ h, m.hash = .ok h := by
  obtain ⟨-, fitsPermission, fitsLimits, -⟩ := fits
  rw [← permission] at fitsPermission
  rw [← limits] at fitsLimits
  have granted : Abi.Fields.Fits (.cons (.tuple OperatorPermission.fields) .nil)
      (m.permission.values, ()) := ⟨fitsPermission, trivial⟩
  obtain ⟨e, encodedPermission, -⟩ := Abi.encodeFields_of_fits (by decide) granted
  have hashPermission := OperatorPermission.hash_eq_ok.2 ⟨e, encodedPermission, rfl⟩
  have limited : Abi.Fields.Fits (.cons (.array (.tuple SpendingLimit.fields)) .nil)
      (m.spendingLimits.map SpendingLimit.values, ()) := ⟨fitsLimits, trivial⟩
  obtain ⟨f, encodedLimits, -⟩ := Abi.encodeFields_of_fits (by decide) limited
  have hashLimits := SpendingLimit.hashAll_eq_ok.2 ⟨f, encodedLimits, rfl⟩
  have message : fields.Fits
      (m.wallet, m.operator, e.keccak, f.keccak, chainId, m.nonce, ()) :=
    ⟨wallet, operator, Abi.fits_keccak e, Abi.fits_keccak f, chainFits, nonceFits, trivial⟩
  obtain ⟨g, encoded, -⟩ := Abi.encodeFields_of_fits (by decide) message
  refine ⟨g.keccak, ?_⟩
  unfold hash
  rw [hashPermission, ok_bind, hashLimits, ok_bind, chain, integral_ofInt, ok_bind, encoded]
  rfl

/-- The validators of a new engine that may grant permits answer for themselves. -/
theorem Validator.approves?_of_sudo {env : Environment} {config : Config}
    (loaded : Config.load env = .ok config) {wallet signer : Address} (written : signer.IsWritten)
    {v : Validator} (known : (Engine.initialRegistry config).validator? signer = some v)
    (rank : (Engine.initialRegistry config).class? wallet signer = some .sudo) (hash signature : Hex) :
    ∃ approved, v.approves? wallet hash signature = some approved := by
  obtain ⟨hwallet, -, hsudo⟩ := Config.isWritten_of_load loaded
  obtain ⟨owner, -, -, signs⟩ := Engine.initialRegistry_sudo hwallet hsudo written rank
  rw [known, Option.some.injEq] at signs
  subst signs
  exact ⟨_, rfl⟩

/-- How many permits of an operator were used is a number that can be hashed. -/
def Store.HasNonce (s : Store) (wallet operator : Address) : Prop :=
  (s.permitNonce wallet operator : Int) < Abi.valueCount 256

/-- A permit that an operation shows is read or refused. -/
theorem PermitRequest.onlyRefuses_ofPermit {env : Environment} {config : Config}
    (loaded : Config.load env = .ok config) {s : Store} {wallet operator : Address} {permit : Permit}
    (strictWallet : wallet.isStrict = true) (strictOperator : operator.isStrict = true)
    (fits : Permit.fields.Fits permit.values) (nonce : s.HasNonce wallet operator)
    (r : Registry) : OnlyRefuses (ofPermit config.chainId s r wallet operator permit) := by
  obtain ⟨n, chain, chainFits⟩ := Config.exists_chainId_of_load loaded
  obtain ⟨h, hashed⟩ : ∃ h, s.permitMessageHash config.chainId wallet operator permit.permission
      permit.spendingLimits = .ok h :=
    PermitMessage.exists_hash fits rfl rfl strictWallet strictOperator chain chainFits
      ⟨Int.natCast_nonneg _, nonce⟩
  unfold ofPermit
  rw [hashed, orFail_ok, ok_bind]
  refine .ite (fun _ => .refuses _) fun _ => ?_
  refine (givesOrRefuses_splitPermitSignature fits.1).bind fun addressed _ => ?_
  dsimp only
  split
  · exact .gives trivial
  · exact .refuses _

end SessionKeys
