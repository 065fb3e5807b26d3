import SessionKeys.Proofs.PermitAuthority
import SessionKeys.Proofs.PermitUse
import SessionKeys.Proofs.TokenCaps
import SessionKeys.Proofs.UseLimits

/-!
What operators cannot do without the owner. An operation that is carried out writes nothing beside what
is filed for its own operator (`Store.ConfinedTo`). Without a permit it only spends (`Store.OnlySpends`),
and a permit is installed only if the configured owner signed it at the current nonce of the operator
(`Config.ownerSigned_of_vouches`). Main statement: `no_grant_without_owner`.
-/

namespace SessionKeys

/-! ### Spending alone -/

/-- A permission grants what another one does, and has no larger budgets. -/
structure OperatorPermission.OnlySpent (p q : OperatorPermission) : Prop where
  grant : q = { p with gasRemaining := q.gasRemaining, timesRemaining := q.timesRemaining }
  gas : q.gasRemaining ≤ p.gasRemaining
  times : q.timesRemaining ≤ p.timesRemaining

theorem OperatorPermission.OnlySpent.refl (p : OperatorPermission) : p.OnlySpent p :=
  ⟨rfl, Int.le_refl _, Int.le_refl _⟩

/-- A store comes from another one by spending: budgets get smaller, and what was spent and used gets
larger. No root, paymaster, window, allowance, nonce or used hash is different. -/
structure Store.OnlySpends (s s' : Store) : Prop where
  permissions : ∀ row, (s.permissionIn row).OnlySpent (s'.permissionIn row)
  limits : ∀ row, ∃ amount, 0 ≤ amount ∧ s'.limitIn? row = (s.limitIn? row).map (·.charged amount)
  permits : s.SamePermits s'
  uses : ∀ row, s.usesIn row ≤ s'.usesIn row

theorem Store.OnlySpends.refl (s : Store) : s.OnlySpends s where
  permissions _ := .refl _
  limits _ := ⟨0, Int.le_refl 0, (SpendingLimitInfo.map_charged_zero _).symm⟩
  permits := .refl s
  uses _ := Int.le_refl _

/-- A store differs from another one only in what is filed for one operator, and in the hashes that are
used on its wallet. -/
structure Store.ConfinedTo (s s' : Store) (wallet operator : Address) : Prop where
  permissions : ∀ row, permissionRow wallet operator ≠ row → s'.permissionIn row = s.permissionIn row
  limits : ∀ row, (∀ token, limitRow wallet operator token ≠ row) → s'.limitIn? row = s.limitIn? row
  nonces : ∀ w o, permissionRow wallet operator ≠ permissionRow w o →
    s'.permitNonce w o = s.permitNonce w o
  hashes : ∀ key, (∀ hash : Hex, wallet.key ++ hash.key ≠ key) → (s'.IsUsed key ↔ s.IsUsed key)
  uses : ∀ row, (∀ leaf, useRow wallet operator leaf ≠ row) → s'.usesIn row = s.usesIn row

theorem charge_le {budget cost : Int} (nonneg : 0 ≤ cost) : charge budget cost ≤ budget := by
  unfold charge
  split
  next same => exact Int.le_of_eq same.symm
  next => omega

/-- An operation takes nothing of a permission but what it costs. -/
theorem OperatorPermission.onlySpent_afterOperation {p q : OperatorPermission} {op : UserOperation}
    (nonneg : 0 ≤ op.maxFee) (h : p.afterOperation op = .ok q) : p.OnlySpent q := by
  obtain ⟨-, -, rfl⟩ := afterOperation_eq_ok.1 h
  exact ⟨rfl, charge_le nonneg, charge_le Int.one_nonneg⟩

/-- What a call reports as spent is not negative. -/
theorem WalletCall.nonneg_spentIn (wallet operator : Address) (row : List (List Char))
    (call : WalletCall) : 0 ≤ call.spentIn wallet operator row := by
  unfold spentIn
  cases read : call.spends wallet with
  | error f => exact Int.le_refl 0
  | ok spends =>
    refine List.sum_nonneg (List.forall_mem_map.2 fun spend hs => ?_)
    split
    · exact call.nonneg_spends read hs
    · exact Int.le_refl 0

/-- A call spends of no limit but those of the operator. -/
theorem WalletCall.spentIn_of_ne {wallet operator : Address} {row : List (List Char)}
    (other : ∀ token, limitRow wallet operator token ≠ row) (call : WalletCall) :
    call.spentIn wallet operator row = 0 := by
  unfold spentIn SessionKeys.spentIn
  cases call.spends wallet with
  | error f => rfl
  | ok spends => simp [other]

theorem Session.not_countsIn {wallet operator : Address} {row : List (List Char)} (s : Session)
    (other : ∀ leaf, useRow wallet operator leaf ≠ row) : s.countsIn wallet operator row = false := by
  unfold countsIn
  cases s.leaf with
  | error f => simp [Except.toOption]
  | ok leaf => simp [Except.toOption, other leaf]

namespace PreparedOperation

variable {p : PreparedOperation} {permit : Option VerifiedPermit} {s s' : Store}
  {window : ValidityWindow}

/-- Without a permit an operation only spends. -/
theorem onlySpends_settle (h : p.settle none s = .ok (s', window)) (nonneg : 0 ≤ p.op.maxFee) :
    s.OnlySpends s' := by
  obtain ⟨left, charged, filed⟩ := permissionIn_settle h
  refine ⟨fun row => ?_, fun row => ⟨p.spentIn row, ?_, limitIn?_settle h List.not_mem_nil⟩,
    samePermits_settle h, fun row => ?_⟩
  · rw [filed]
    by_cases here : p.operatorRow = row
    · rw [if_pos here, ← here]
      exact OperatorPermission.onlySpent_afterOperation nonneg charged
    · rw [if_neg here]
      exact .refl _
  · exact List.sum_nonneg (List.forall_mem_map.2 fun step _ => step.1.nonneg_spentIn _ _ row)
  · rw [usesIn_settle h]
    omega

/-- An operation writes nothing but what is filed for its operator. -/
theorem confinedTo_settle (h : p.settle permit s = .ok (s', window)) :
    s.ConfinedTo s' p.op.sender p.operator := by
  refine ⟨fun row other => ?_, fun row other => ?_, fun w o other => ?_, fun key other => ?_,
    fun row other => ?_⟩
  · obtain ⟨left, -, filed⟩ := permissionIn_settle h
    exact (filed row).trans (if_neg other)
  · have unlisted : row ∉ p.limitRows permit := by
      cases permit with
      | none => exact List.not_mem_nil
      | some v =>
        intro listed
        obtain ⟨l, -, same⟩ := List.mem_map.1 listed
        exact other l.token same
    have unspent : p.spentIn row = 0 := by
      unfold spentIn
      simp [WalletCall.spentIn_of_ne other]
    rw [limitIn?_settle h unlisted, unspent, SpendingLimitInfo.map_charged_zero]
  · cases permit with
    | none => exact (samePermits_settle h).permitNonce w o
    | some v =>
      obtain ⟨-, -, same⟩ := permits_settle h
      rw [same.permitNonce, Store.permitNonce_incrementPermitNonce]
      exact if_neg other
  · cases permit with
    | none => exact (samePermits_settle h).isUsed key
    | some v =>
      obtain ⟨-, -, same⟩ := permits_settle h
      rw [same.isUsed, Store.isUsed_incrementPermitNonce, Store.isUsed_markHashUsed]
      simp [(other v.hash).symm]
  · rw [usesIn_settle h]
    have uncounted : p.usesIn row = 0 :=
      List.countP_eq_zero.2 fun step _ => by simp [step.2.session.not_countsIn other]
    rw [uncounted]
    exact Int.add_zero _

end PreparedOperation

/-! ### The configured owner -/

/-- An address of twenty bytes in its checksummed writing. -/
def Address.IsWritten (a : Address) : Prop :=
  ∃ bytes : Bytes, bytes.length = 20 ∧ a = Address.ofBytes bytes

namespace Address.IsWritten

variable {a b : Address}

theorem exists_key (h : a.IsWritten) : ∃ word, a.key = [word] := by
  obtain ⟨bytes, length, rfl⟩ := h
  exact ⟨_, Hex.key_of_bytes? (Address.bytes?_eq_some_iff.1 (Address.bytes?_ofBytes length)).1⟩

/-- Checksummed addresses are told apart by their keys. -/
theorem key_inj (ha : a.IsWritten) (hb : b.IsWritten) (same : a.key = b.key) : a = b := by
  obtain ⟨x, lengthX, rfl⟩ := ha
  obtain ⟨y, lengthY, rfl⟩ := hb
  have hx := (Address.bytes?_eq_some_iff.1 (Address.bytes?_ofBytes lengthX)).1
  have hy := (Address.bytes?_eq_some_iff.1 (Address.bytes?_ofBytes lengthY)).1
  rw [(Hex.key_inj hx hy).1 same]

theorem eq_of_agrees (ha : a.IsWritten) (hb : b.IsWritten) (agrees : a.Agrees b) : a = b := by
  obtain ⟨bytes, hx, hy⟩ := agrees
  obtain ⟨x, -⟩ := Address.bytes?_eq_some_iff.1 hx
  obtain ⟨y, -⟩ := Address.bytes?_eq_some_iff.1 hy
  exact ha.key_inj hb ((Hex.key_inj x y).2 rfl)

end Address.IsWritten

namespace Config

variable {env : Environment} {config : Config} {name meaning : String} {a : Address}

/-- The bytes of the address that a variable writes. -/
def bytes? (env : Environment) (name : String) : Option Bytes :=
  (present? env name).bind fun text => (Address.ofText text).bytes?

theorem parseAddress_eq_ok {text : String} : parseAddress name text = .ok a ↔
    ∃ bytes, (Address.ofText text).bytes? = some bytes ∧ a = .ofBytes bytes := by
  unfold parseAddress Address.checksummed?
  cases (Address.ofText text).bytes? with
  | none => simp
  | some bytes => simp [eq_comm]

theorem requireAddress_eq_ok : requireAddress env name meaning = .ok a ↔
    ∃ bytes, bytes? env name = some bytes ∧ a = .ofBytes bytes := by
  unfold requireAddress bytes?
  cases present? env name with
  | none => simp
  | some text => exact parseAddress_eq_ok

theorem optionalAddress_eq_ok : optionalAddress env name = .ok (some a) ↔
    ∃ bytes, bytes? env name = some bytes ∧ a = .ofBytes bytes := by
  unfold optionalAddress bytes?
  cases present? env name with
  | none => simp
  | some text => simp only [bind_eq_ok, parseAddress_eq_ok, pure_eq_ok, Except.ok.injEq,
      Option.some.injEq, exists_eq_right, Option.bind_some]

theorem isWritten_of_bytes? {bytes : Bytes} (h : bytes? env name = some bytes) :
    (Address.ofBytes bytes).IsWritten := by
  obtain ⟨text, -, read⟩ := Option.bind_eq_some_iff.1 h
  exact ⟨bytes, (Address.bytes?_eq_some_iff.1 read).2, rfl⟩

/-- A configuration is made of what the variables of an environment are read as. -/
structure IsMadeOf (config : Config) (env : Environment) : Prop where
  wallet : ∃ w, bytes? env "WALLET_ADDRESS" = some w ∧ config.walletAddress = .ofBytes w
  validator : ∃ v, bytes? env "VALIDATOR_ADDRESS" = some v ∧ config.validatorAddress = .ofBytes v
  chain : ∃ n, parseChainId ((env "CHAIN_ID").getD "1") = .ok n ∧ config.chainId = .ofInt n
  entryPoint : ∃ a, optionalAddress env "ENTRY_POINT_ADDRESS" = .ok a ∧
    config.entryPointAddress = a.getD defaultEntryPoint
  owner : optionalAddress env "OWNER_ADDRESS" = .ok config.ownerAddress
  signer : optionalAddress env "SUDO_VALIDATOR_ADDRESS" = .ok config.sudoValidatorAddress
  complete : config.ownerAddress.isSome → config.sudoValidatorAddress.isSome

theorem load_eq_ok : load env = .ok config ↔ config.IsMadeOf env := by
  constructor
  · intro loaded
    unfold load at loaded
    obtain ⟨wallet, hwallet, loaded⟩ := bind_eq_ok.1 loaded
    obtain ⟨validator, hvalidator, loaded⟩ := bind_eq_ok.1 loaded
    obtain ⟨n, chain, loaded⟩ := bind_eq_ok.1 loaded
    obtain ⟨entryPoint, hentryPoint, loaded⟩ := bind_eq_ok.1 loaded
    obtain ⟨owner, howner, loaded⟩ := bind_eq_ok.1 loaded
    obtain ⟨signer, hsigner, loaded⟩ := bind_eq_ok.1 loaded
    simp only [throw_eq_error, error_bind, error_ite_eq_ok, pure_eq_ok, Except.ok.injEq] at loaded
    obtain ⟨complete, rfl⟩ := loaded
    refine ⟨requireAddress_eq_ok.1 hwallet, requireAddress_eq_ok.1 hvalidator, ⟨n, chain, rfl⟩,
      ⟨entryPoint, hentryPoint, rfl⟩, howner, hsigner, fun configured => ?_⟩
    by_contra unsigned
    exact complete ⟨configured, by simpa using unsigned⟩
  · obtain ⟨wallet, validator, chainId, entryPoint, owner, signer⟩ := config
    rintro ⟨hwallet, hvalidator, ⟨n, chain, rfl⟩, ⟨a, hentryPoint, rfl⟩, howner, hsigner, complete⟩
    have both : ¬(owner.isSome ∧ signer.isNone) := by
      rintro ⟨configured, unsigned⟩
      have signed := complete configured
      rw [Option.isNone_iff_eq_none.1 unsigned] at signed
      cases signed
    simp only [load, requireAddress_eq_ok.2 hwallet, requireAddress_eq_ok.2 hvalidator, chain, hentryPoint,
      howner, hsigner, ok_bind, if_neg both]
    rfl

/-- A configuration that is loaded has its addresses in their checksummed writing. -/
theorem isWritten_of_load (loaded : load env = .ok config) :
    config.walletAddress.IsWritten ∧ config.validatorAddress.IsWritten ∧
      ∀ a, config.sudoValidatorAddress = some a → a.IsWritten := by
  have made := load_eq_ok.1 loaded
  obtain ⟨w, hw, wallet⟩ := made.wallet
  obtain ⟨v, hv, validator⟩ := made.validator
  rw [wallet, validator]
  refine ⟨isWritten_of_bytes? hw, isWritten_of_bytes? hv, fun a signer => ?_⟩
  obtain ⟨b, hb, rfl⟩ := optionalAddress_eq_ok.1 (signer ▸ made.signer)
  exact isWritten_of_bytes? hb

end Config

theorem Registry.enabled_enable (r : Registry) (wallet address : Address) (v : Validator)
    (c : ValidatorClass) :
    (r.enable wallet address v c).enabled = r.enabled.put (wallet.key ++ address.key) c := rfl

namespace Engine

variable {config : Config} {wallet signer : Address}

theorem ownerValidator?_eq_some {owner : Address} :
    ownerValidator? config = some (signer, owner) ↔
      config.ownerAddress = some owner ∧ config.sudoValidatorAddress = some signer := by
  unfold ownerValidator?
  cases config.ownerAddress with
  | none => simp
  | some o =>
    cases config.sudoValidatorAddress with
    | none => simp
    | some a => simp [and_comm]

/-- The session-key validator is not enabled as one that may grant permits. -/
theorem not_sudo_keys (row : List (List Char)) :
    (({} : Registry).enable config.walletAddress config.validatorAddress .sessionKeys
      .normal).enabled.find? row ≠ some .sudo := by
  rw [Registry.enabled_enable, Table.find?_put]
  split
  · nofun
  · rw [show ({} : Registry).enabled = ∅ from rfl, Table.find?_empty]
    nofun

/-- The only validator that may grant permits is the one of the owner, on the configured wallet. -/
theorem initialRegistry_sudo (hwallet : config.walletAddress.IsWritten)
    (hsudo : ∀ a, config.sudoValidatorAddress = some a → a.IsWritten) (hsigner : signer.IsWritten)
    (rank : (initialRegistry config).class? wallet signer = some .sudo) :
    ∃ owner, config.ownerAddress = some owner ∧ config.sudoValidatorAddress = some signer ∧
      (initialRegistry config).validator? signer =
        some (.ecdsa ((∅ : Table Address).put wallet.key owner)) := by
  unfold initialRegistry Registry.class? at rank
  unfold initialRegistry
  cases configured : ownerValidator? config with
  | none =>
    rw [configured] at rank
    exact absurd rank (not_sudo_keys _)
  | some x =>
    obtain ⟨address, owner⟩ := x
    obtain ⟨hasOwner, hasSudo⟩ := ownerValidator?_eq_some.1 configured
    simp only [configured, Registry.enabled_enable _ _ address, Table.find?_put] at rank
    split at rank
    next same =>
      obtain ⟨w, hw⟩ := hwallet.exists_key
      obtain ⟨x, hx⟩ := (hsudo address hasSudo).exists_key
      obtain ⟨y, hy⟩ := hsigner.exists_key
      rw [hx, hy, List.append_singleton_inj] at same
      obtain ⟨sameWallet, rfl⟩ := same
      obtain rfl := (hsudo address hasSudo).key_inj hsigner (hx.trans hy.symm)
      refine ⟨owner, hasOwner, hasSudo, ?_⟩
      rw [← sameWallet]
      exact Table.find?_put_self _ _ _
    next => exact absurd rank (not_sudo_keys _)

end Engine

theorem Address.isWritten_of_ofHex {h : Hex} {a : Address} (read : Address.ofHex h = .ok a) :
    a.IsWritten := by
  obtain ⟨bytes, hbytes, rfl⟩ := Address.ofHex_eq_ok.1 read
  exact ⟨bytes, (Address.bytes?_eq_some_iff.1 hbytes).2, rfl⟩

theorem isWritten_of_splitPermitSignature {signature : Hex} {addressed : AddressedSignature}
    (h : splitPermitSignature signature = .ok addressed) : addressed.validator.IsWritten := by
  unfold splitPermitSignature at h
  simp only [throw_eq_error, error_bind, error_ite_eq_ok, bind_eq_ok, pure_eq_ok, orFail_eq_ok] at h
  obtain ⟨-, named, read, done⟩ := h
  cases done
  exact Address.isWritten_of_ofHex read

theorem isWritten_of_splitValidatorSignature {signature : Hex} {addressed : AddressedSignature}
    (h : splitValidatorSignature signature = .ok addressed) : addressed.validator.IsWritten := by
  unfold splitValidatorSignature at h
  simp only [throw_eq_error, error_bind, error_ite_eq_ok, bind_eq_ok, pure_eq_ok, orFail_eq_ok] at h
  obtain ⟨-, named, read, done⟩ := h
  cases done
  exact Address.isWritten_of_ofHex read

/-- The owner that is configured signed a message for a permit: the signature of the permit names the
validator of the owner, and recovers to the owner. -/
def Config.OwnerSigned (config : Config) (permit : Permit) (hash : Hex) : Prop :=
  ∃ owner addressed recovered,
    config.ownerAddress = some owner ∧
    splitPermitSignature permit.signature = .ok addressed ∧
    config.sudoValidatorAddress = some addressed.validator ∧
    recoverSigner? hash addressed.payload = some recovered ∧ recovered.Agrees owner

/-- The validators of a new engine vouch for no permits but those that the owner signed. -/
theorem Config.ownerSigned_of_vouches {env : Environment} {config : Config}
    (loaded : Config.load env = .ok config) {wallet : Address} {v : VerifiedPermit}
    {answered : Except Failure Bool}
    (vouches : (Engine.initialRegistry config).Vouches wallet v answered) :
    config.OwnerSigned v.permit v.hash := by
  obtain ⟨addressed, validator, split, known, rank, approved⟩ := vouches
  obtain ⟨hwallet, -, hsudo⟩ := isWritten_of_load loaded
  obtain ⟨owner, hasOwner, hasSudo, signs⟩ :=
    Engine.initialRegistry_sudo hwallet hsudo (isWritten_of_splitPermitSignature split) rank
  rw [signs, Option.some.injEq] at known
  subst known
  have signed : isSignedBy v.hash addressed.payload owner = true := by
    simpa [Validator.approves?, Validator.isSignedByOwner, Validator.owner?] using approved
  obtain ⟨recovered, recovers, agrees⟩ := isSignedBy_eq_true.1 signed
  exact ⟨owner, addressed, recovered, hasOwner, split, hasSudo, recovers, agrees⟩

/-! ### Runs -/

namespace Timeline

variable {e : Engine} {actions : List Action} {a : Action} {p : PreparedOperation}

/-- A permit that is installed was vouched for, and its hash is that of its message now. -/
theorem vouches_of_accepted {v : VerifiedPermit} (keep : ∀ a ∈ actions, a.KeepsRegistry)
    (accepted : ((ofEngine e).run actions).1.accepted? a = some (p, some v)) :
    (∃ answered, e.registry.Vouches p.op.sender v answered) ∧
      ((ofEngine e).run actions).1.engine.permitMessageHash p.op.sender p.operator v.permit.permission
        v.permit.spendingLimits = .ok v.hash := by
  obtain ⟨⟨index, ready⟩, ⟨window, settled⟩, -⟩ := settled_of_accepted accepted
  obtain ⟨nonce, -, -⟩ := PreparedOperation.permits_settle settled
  obtain ⟨before, middle, answered, rest, request, rfl, asked, -, approved, rfl⟩ :=
    answered_of_ready (isUnread_ofEngine e index) ready
  have keepBefore : ∀ a ∈ before, a.KeepsRegistry := fun a ha =>
    keep a (List.mem_append_left _ (List.mem_append_left _ ha))
  refine ⟨⟨answered, ?_⟩, ?_⟩
  · have vouches := Engine.vouches_of_request asked approved
    rw [run_registry _ keepBefore] at vouches
    exact vouches
  · obtain ⟨permit, -, read⟩ := Engine.request_eq_some.1 asked
    obtain ⟨hash, _, _, hashed, -, -, -, -, rfl⟩ := PermitRequest.ofPermit_eq_ok.1 read
    -- the message is that of the time of reading, because the nonce is the same
    unfold Store.permitMessageHash at hashed
    unfold Engine.permitMessageHash Store.permitMessageHash
    rw [nonce, run_config]
    rw [run_config] at hashed
    exact hashed

end Timeline

/-- **Nothing is granted without the owner.** Take any run of an engine that is made from a loaded
configuration, in which the validators of wallets stay as they are and no operation has negative gas. A
step of a validation that carries out no operation changes nothing. One that does writes nothing beside
what is filed for the operator of the operation. If the operation carries no permit it only spends. If it
carries one, the configured owner signed the message that is to be signed for the permit at the present
nonce of the operator, and the permit does not name the session-key validator as its signer; so without
an owner there are no such operations. -/
theorem no_grant_without_owner {env : Environment} {config : Config}
    (loaded : Config.load env = .ok config)
    (apart : config.sudoValidatorAddress ≠ some config.validatorAddress) {actions : List Action}
    (keep : ∀ a ∈ actions, a.KeepsRegistry)
    (fees : ∀ op userOpHash simulate, .start op userOpHash simulate ∈ actions → op.HasNonnegGas)
    {a : Action} (noCall : ∀ call, a ≠ .manage call) :
    let t := ((Timeline.ofEngine (.ofConfig config)).run actions).1
    let s := t.engine.store
    let s' := (t.step a).1.engine.store
    (t.accepted? a = none → s' = s ∧ (t.step a).2 = []) ∧
    ∀ p permit, t.accepted? a = some (p, permit) →
      s.ConfinedTo s' p.op.sender p.operator ∧
      (p.permit = none → s.OnlySpends s' ∧ (t.step a).2 = []) ∧
      ∀ grant, p.permit = some grant →
        ∃ hash,
          t.engine.permitMessageHash p.op.sender p.operator grant.permission grant.spendingLimits =
            .ok hash ∧
          config.OwnerSigned grant hash ∧
          ∀ addressed, splitPermitSignature grant.signature = .ok addressed →
            ¬addressed.validator.Agrees config.validatorAddress := by
  intro t s s'
  refine ⟨fun none => Timeline.step_of_not_accepted none noCall, fun p permit accepted => ?_⟩
  obtain ⟨⟨index, ready⟩, ⟨window, settled⟩, events⟩ := Timeline.settled_of_accepted accepted
  have carries : permit.map (·.permit) = p.permit := Timeline.carries_run _ actions ready
  refine ⟨PreparedOperation.confinedTo_settle settled, fun unpermitted => ?_, fun grant carried => ?_⟩
  · rw [unpermitted, Option.map_eq_none_iff] at carries
    subst carries
    have nonneg := Timeline.nonneg_maxFee_of_accepted fees accepted
    exact ⟨PreparedOperation.onlySpends_settle settled nonneg, events⟩
  · rw [carried, Option.map_eq_some_iff] at carries
    obtain ⟨v, rfl, rfl⟩ := carries
    obtain ⟨⟨answered, vouches⟩, hashed⟩ := Timeline.vouches_of_accepted keep accepted
    have signed := Config.ownerSigned_of_vouches loaded vouches
    refine ⟨v.hash, hashed, signed, fun addressed split agrees => apart ?_⟩
    obtain ⟨owner, own, recovered, -, splitOwn, hasSudo, -⟩ := signed
    rw [split, Except.ok.injEq] at splitOwn
    subst splitOwn
    obtain ⟨-, keys, -⟩ := Config.isWritten_of_load loaded
    rw [hasSudo, (isWritten_of_splitPermitSignature split).eq_of_agrees keys agrees]

/-- No permission changes when a validation ends that was refused at its start. -/
theorem nothing_granted_beside_refused :
    let env : Environment := fun name =>
      if name = "WALLET_ADDRESS" then some "0x1000000000000000000000000000000000000001"
      else if name = "VALIDATOR_ADDRESS" then some "0x2000000000000000000000000000000000000002"
      else if name = "OWNER_ADDRESS" then some "0x3000000000000000000000000000000000000003"
      else if name = "SUDO_VALIDATOR_ADDRESS" then some "0x5000000000000000000000000000000000000005"
      else none
    let bytes : UInt8 → Bytes := fun n => 16 * n :: List.replicate 18 0 ++ [n]
    let config : Config :=
      ⟨.ofBytes (bytes 1), .ofBytes (bytes 2), .ofInt 1, Config.defaultEntryPoint,
        some (.ofBytes (bytes 3)), some (.ofBytes (bytes 5))⟩
    let grant : ManagementCall := .setOperatorRemainingGas .zero .zero 5
    let actions : List Action := [.start unsigned .empty false, .manage grant, .read 0]
    let t := ((Timeline.ofEngine (.ofConfig config)).run actions).1
    Config.load env = .ok config ∧
      config.sudoValidatorAddress ≠ some config.validatorAddress ∧
      (∀ a ∈ actions, a.KeepsRegistry) ∧
      (∀ op userOpHash simulate, .start op userOpHash simulate ∈ actions → op.HasNonnegGas) ∧
      t.accepted? (.finish 0) = none ∧
      (t.step (.finish 0)).1.engine.store = t.engine.store := by
  intro env bytes config grant actions t
  have loaded : Config.load env = .ok config := by
    have wallet : ∀ meaning, Config.requireAddress env "WALLET_ADDRESS" meaning =
        .ok config.walletAddress :=
      fun _ => Config.requireAddress_eq_ok.2 ⟨bytes 1, by decide +kernel, rfl⟩
    have validator : ∀ meaning, Config.requireAddress env "VALIDATOR_ADDRESS" meaning =
        .ok config.validatorAddress :=
      fun _ => Config.requireAddress_eq_ok.2 ⟨bytes 2, by decide +kernel, rfl⟩
    have chain : Config.parseChainId ((env "CHAIN_ID").getD "1") = .ok 1 := by decide +kernel
    have entryPoint : Config.optionalAddress env "ENTRY_POINT_ADDRESS" = .ok none := by
      decide +kernel
    have owner : Config.optionalAddress env "OWNER_ADDRESS" = .ok config.ownerAddress :=
      Config.optionalAddress_eq_ok.2 ⟨bytes 3, by decide +kernel, rfl⟩
    have signer : Config.optionalAddress env "SUDO_VALIDATOR_ADDRESS" =
        .ok config.sudoValidatorAddress :=
      Config.optionalAddress_eq_ok.2 ⟨bytes 5, by decide +kernel, rfl⟩
    simp only [Config.load, wallet, validator, chain, entryPoint, owner, signer, ok_bind]
    rfl
  have apart : config.sudoValidatorAddress ≠ some config.validatorAddress := by
    intro same
    have read := congrArg Address.bytes? (Option.some.inj same)
    rw [Address.bytes?_ofBytes rfl, Address.bytes?_ofBytes rfl] at read
    exact absurd read (by decide)
  have keep : ∀ a ∈ actions, a.KeepsRegistry := by
    intro a ha
    simp only [actions, List.mem_cons, List.not_mem_nil, or_false] at ha
    rcases ha with rfl | rfl | rfl <;> trivial
  have fees : ∀ op userOpHash simulate, .start op userOpHash simulate ∈ actions →
      op.HasNonnegGas := by
    intro op userOpHash simulate hs
    simp only [actions, List.mem_cons, reduceCtorEq, Action.start.injEq, List.not_mem_nil,
      or_false] at hs
    rw [hs.1]
    exact ⟨by decide, by decide, by decide, by decide⟩
  have refused : t.accepted? (.finish 0) = none := rfl
  have kept := (no_grant_without_owner loaded apart keep fees fun _ => Action.noConfusion).1 refused
  exact ⟨loaded, apart, keep, fees, refused, kept.1⟩

end SessionKeys
