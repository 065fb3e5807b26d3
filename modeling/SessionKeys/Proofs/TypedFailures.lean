import Mathlib.Data.Fintype.Card
import Mathlib.Data.List.Nodup
import SessionKeys.Proofs.Isolation
import SessionKeys.Proofs.ReadOperations

/-!
A validation fails for no cause but a refusal. What is read of an operation is well formed; what it is compared
with comes from the owner or from permits, and stays well formed in every run (`Timeline.wellFormed_run`); and
no operator uses up as many permits as to have a nonce that cannot be hashed (`Timeline.permitNonce_lt`). Main
statement: `failures_are_refusals`.
-/

namespace SessionKeys

/-! ### What is granted -/

namespace OperatorPermission.IsWellFormed

variable {p q : OperatorPermission}

theorem empty : OperatorPermission.empty.IsWellFormed :=
  ⟨⟨_, Hex.bytes?_ofBytes _, rfl⟩, Address.isWellFormed_of_isStrict Address.isStrict_zero⟩

theorem of_fits {permit : Permit} (fits : Permit.fields.Fits permit.values) :
    permit.permission.IsWellFormed :=
  ⟨fits.2.1.1, Address.isWellFormed_of_isStrict fits.2.1.2.1⟩

theorem afterOperation (h : p.IsWellFormed) {op : UserOperation}
    (charged : p.afterOperation op = .ok q) : q.IsWellFormed := by
  obtain ⟨-, -, rfl⟩ := afterOperation_eq_ok.1 charged
  exact ⟨h.sessionRoot, h.paymaster⟩

end OperatorPermission.IsWellFormed

/-- The roots that the owner sets are hashes, and the paymasters well formed. -/
def ManagementCall.SetsWellFormed : ManagementCall → Prop
  | .setSessionRoot _ _ sessionRoot => sessionRoot.WritesHash
  | .setOperatorPermission _ _ permission => permission.IsWellFormed
  | _ => True

/-- Every permission that is filed is well formed. -/
def Store.HasWellFormedGrants (s : Store) : Prop :=
  ∀ row, (s.permissionIn row).IsWellFormed

theorem ManagementCall.hasWellFormedGrants_apply {s s' : Store} {call : ManagementCall}
    {events : List Event} (h : call.apply s = .ok (s', events)) (before : s.HasWellFormedGrants)
    (sets : call.SetsWellFormed) : s'.HasWellFormedGrants := by
  have updates (wallet operator : Address) {change : OperatorPermission → OperatorPermission}
      (kept : ∀ p, p.IsWellFormed → (change p).IsWellFormed) :
      (s.updatePermission wallet operator change).HasWellFormedGrants :=
    Store.forall_permissionIn_setPermission before (kept _ (before (permissionRow wallet operator))) _ _
  cases call with
  | setSessionRoot =>
    cases h
    exact updates _ _ fun p hp => ⟨sets, hp.paymaster⟩
  | setOperatorRemainingGas | setOperatorRemainingTimes =>
    cases h
    exact updates _ _ fun p hp => ⟨hp.sessionRoot, hp.paymaster⟩
  | setOperatorPermission =>
    obtain ⟨-, -, done⟩ := bind_eq_ok.1 h
    cases done
    exact Store.forall_permissionIn_setPermission before sets _ _
  | setSpendingLimit | revokeSignature =>
    cases h
    exact before
  | batchSetSpendingLimit =>
    cases h
    rw [Store.startSpendingLimits_eq]
    exact before
  | resetSpendingLimit | deleteSpendingLimit =>
    simp only [apply] at h
    split at h
    · cases h
      exact before
    · cases h
      exact before

/-- A permit that is ready to be installed was read from the signature of an operation, and its message was
hashed. -/
structure PreparedOperation.Grants (p : PreparedOperation) (v : VerifiedPermit) : Prop where
  sender : p.op.sender.isStrict = true
  operator : p.operator.isStrict = true
  hash : v.hash.IsNode
  permission : v.permit.permission.IsWellFormed

namespace Timeline

variable {e : Engine} {actions : List Action} {index : Nat} {simulate : Bool} {p : PreparedOperation}

theorem grants_of_ready {v : VerifiedPermit}
    (ready : ((ofEngine e).run actions).1.running[index]? = some ⟨simulate, .ready p (some v)⟩) :
    p.Grants v := by
  have carried : (some v).map (·.permit) = p.permit := carries_run _ actions ready
  obtain ⟨submitted, -, -, prepared⟩ := submitted_of_running ready
  obtain ⟨operation, shown, message, -, -, shows, -, -, same⟩ :=
    PreparedOperation.ofOperation_eq_ok.1 (prepared p rfl)
  obtain ⟨before, middle, answered, rest, request, -, asked, -, -, rfl⟩ :=
    answered_of_ready (isUnread_ofEngine e index) ready
  obtain ⟨permit, -, read⟩ := Engine.request_eq_some.1 asked
  obtain ⟨hash, _, _, hashed, -, -, -, -, rfl⟩ := PermitRequest.ofPermit_eq_ok.1 read
  obtain ⟨sender, operator⟩ := PermitMessage.isStrict_of_hash hashed
  obtain ⟨_, _, message, _, -, rfl⟩ := PermitMessage.exists_encodes hashed
  have shownPermit : shown.permit = some permit := by
    rw [same] at carried
    exact carried.symm
  exact ⟨sender, operator, ⟨_, rfl, Keccak.length_digest _⟩,
    .of_fits (SessionSignature.fits_permit shows shownPermit)⟩

/-- The permission that an operation is charged to is well formed. -/
theorem wellFormed_inForce {permit : Option VerifiedPermit}
    (ready : ((ofEngine e).run actions).1.running[index]? = some ⟨simulate, .ready p permit⟩)
    {s : Store} (had : s.HasWellFormedGrants) : (p.permissionInForce permit s).IsWellFormed := by
  cases permit with
  | none => exact had p.operatorRow
  | some v => exact (grants_of_ready ready).permission

/-- Every permission is well formed after a run. -/
theorem wellFormed_run (had : e.store.HasWellFormedGrants)
    (sets : ∀ call, .manage call ∈ actions → call.SetsWellFormed) :
    ((ofEngine e).run actions).1.engine.store.HasWellFormedGrants := by
  induction actions using List.reverseRecOn with
  | nil => exact had
  | append_singleton seen a ih =>
    have before := ih fun call hc => sets call (List.mem_append_left _ hc)
    rw [run_concat]
    have effect := ((ofEngine e).run seen).1.step_effect a
    generalize (((ofEngine e).run seen).1.step a).1.engine.store = s,
      (((ofEngine e).run seen).1.step a).2 = events at effect ⊢
    cases effect with
    | idle | refuses => exact before
    | manages applied =>
      exact ManagementCall.hasWellFormedGrants_apply applied before
        (sets _ (List.mem_append_right _ (List.mem_singleton_self _)))
    | @accepts index p permit _ window ready accepted settled =>
      obtain ⟨left, charged, filed⟩ := PreparedOperation.permissionIn_settle settled
      intro row
      rw [filed]
      split
      · exact (wellFormed_inForce ready before).afterOperation charged
      · exact before row

end Timeline

/-! ### Nonces -/

/-- On the wallet of an operator as many different hashes are used as the operator has used permits. -/
def Store.CountsHashes (s : Store) (wallet operator : Address) : Prop :=
  ∃ hashes : List Bytes, hashes.Nodup ∧ hashes.length = s.permitNonce wallet operator ∧
    ∀ b ∈ hashes, b.length = 32 ∧ s.isHashUsed wallet (Hex.ofBytes b) = true

/-- There are no more hashes than words. -/
theorem length_le_of_nodup {hashes : List Bytes} (distinct : hashes.Nodup)
    (sizes : ∀ b ∈ hashes, b.length = 32) : hashes.length ≤ 256 ^ 32 := by
  have numbers : (hashes.map Bytes.toNat).Nodup := by
    refine (List.nodup_map_iff_inj_on distinct).2 fun a ha b hb same => ?_
    rw [← Bytes.ofNat_toNat a, ← Bytes.ofNat_toNat b, sizes a ha, sizes b hb, same]
  have below : (hashes.map Bytes.toNat).toFinset ⊆ Finset.range (256 ^ 32) := by
    intro n hn
    obtain ⟨b, hb, rfl⟩ := List.mem_map.1 (List.mem_toFinset.1 hn)
    have bound := Bytes.toNat_lt b
    rw [sizes b hb] at bound
    exact Finset.mem_range.2 bound
  have count := Finset.card_le_card below
  rwa [List.toFinset_card_of_nodup numbers, List.length_map, Finset.card_range] at count

namespace Store

variable {s s' : Store} {wallet operator : Address}

theorem isHashUsed_of_bytes? {hash : Hex} {b : Bytes} (hb : hash.bytes? = some b) :
    s.isHashUsed wallet (Hex.ofBytes b) = s.isHashUsed wallet hash := by
  unfold isHashUsed
  rw [(Hex.key_inj (Hex.bytes?_ofBytes b) hb).2 rfl]

/-- While a hash is left on a wallet, the nonces of its operators can be hashed. -/
theorem CountsHashes.hasNonce (counts : s.CountsHashes wallet operator) {hash : Hex}
    (writes : hash.WritesHash) (unused : s.isHashUsed wallet hash = false) : s.HasNonce wallet operator := by
  obtain ⟨hashes, distinct, length, used⟩ := counts
  obtain ⟨b, hb, size⟩ := writes
  have fresh : b ∉ hashes := by
    intro listed
    rw [← isHashUsed_of_bytes? hb, (used b listed).2] at unused
    cases unused
  have bound := length_le_of_nodup (List.nodup_cons.2 ⟨fresh, distinct⟩)
    (List.forall_mem_cons.2 ⟨size, fun c hc => (used c hc).1⟩)
  rw [List.length_cons, length] at bound
  exact Abi.natCast_lt_valueCount.2 (Nat.lt_of_lt_of_le (Nat.lt_of_succ_le bound) (by norm_num))

theorem CountsHashes.mono (counts : s.CountsHashes wallet operator)
    (nonce : s'.permitNonce wallet operator = s.permitNonce wallet operator)
    (used : ∀ hash, s.isHashUsed wallet hash = true → s'.isHashUsed wallet hash = true) :
    s'.CountsHashes wallet operator := by
  obtain ⟨hashes, distinct, length, each⟩ := counts
  exact ⟨hashes, distinct, length.trans nonce.symm, fun b hb => ⟨(each b hb).1, used _ (each b hb).2⟩⟩

/-- Installing a permit uses a hash that was left. -/
theorem CountsHashes.settle {p : PreparedOperation} {v : VerifiedPermit} {window : ValidityWindow}
    (counts : s.CountsHashes wallet operator) (hwallet : wallet.IsWellFormed)
    (hoperator : operator.IsWellFormed) (grants : p.Grants v)
    (settled : p.settle (some v) s = .ok (s', window)) : s'.CountsHashes wallet operator := by
  obtain ⟨-, unused, same⟩ := PreparedOperation.permits_settle settled
  have used (hash : Hex) : s'.isHashUsed wallet hash = true ↔
      wallet.key ++ hash.key = p.op.sender.key ++ v.hash.key ∨ s.isHashUsed wallet hash = true := by
    rw [isHashUsed_eq_true, same.isUsed, isUsed_incrementPermitNonce, isUsed_markHashUsed,
      isHashUsed_eq_true]
  have nonce := same.permitNonce wallet operator
  rw [permitNonce_incrementPermitNonce, permitNonce_markHashUsed] at nonce
  by_cases here : p.op.sender.key ++ p.operator.key = wallet.key ++ operator.key
  · obtain ⟨_, -, keySender⟩ := (Address.isWellFormed_of_isStrict grants.sender).exists_word
    obtain ⟨_, -, keyOperator⟩ := (Address.isWellFormed_of_isStrict grants.operator).exists_word
    obtain ⟨_, -, keyWallet⟩ := hwallet.exists_word
    obtain ⟨_, -, keyOther⟩ := hoperator.exists_word
    have sender : p.op.sender.key = wallet.key := by
      rw [keySender, keyOperator, keyWallet, keyOther, List.append_singleton_inj] at here
      rw [keySender, keyWallet, here.1]
    obtain ⟨hashes, distinct, length, each⟩ := counts
    obtain ⟨b, hb, size⟩ := grants.hash
    have fresh : b ∉ hashes := by
      intro listed
      have taken := (each b listed).2
      rw [← hb] at taken
      unfold isHashUsed at unused taken
      rw [sender, taken] at unused
      cases unused
    refine ⟨b :: hashes, List.nodup_cons.2 ⟨fresh, distinct⟩, ?_, List.forall_mem_cons.2 ⟨⟨size, ?_⟩, ?_⟩⟩
    · rw [nonce, if_pos here, List.length_cons, length]
    · exact (used _).2 (.inl (by rw [sender, hb]))
    · exact fun c hc => ⟨(each c hc).1, (used _).2 (.inr (each c hc).2)⟩
  · rw [if_neg here] at nonce
    exact counts.mono nonce fun hash before => (used hash).2 (.inr before)

end Store

namespace Timeline

variable {e : Engine} {actions : List Action} {wallet operator : Address}

theorem countsHashes_run (start : e.store.CountsHashes wallet operator) (hwallet : wallet.IsWellFormed)
    (hoperator : operator.IsWellFormed) :
    ((ofEngine e).run actions).1.engine.store.CountsHashes wallet operator := by
  induction actions using List.reverseRecOn with
  | nil => exact start
  | append_singleton seen a ih =>
    rw [run_concat]
    have effect := ((ofEngine e).run seen).1.step_effect a
    generalize (((ofEngine e).run seen).1.step a).1.engine.store = s,
      (((ofEngine e).run seen).1.step a).2 = events at effect ⊢
    have used {events : List Event}
        (step : ((ofEngine e).run seen).1.engine.store.PermitStep s events) (hash : Hex)
        (before : ((ofEngine e).run seen).1.engine.store.isHashUsed wallet hash = true) :
        s.isHashUsed wallet hash = true :=
      Store.isHashUsed_eq_true.2 ((step.used _).1.2 (.inl (Store.isHashUsed_eq_true.1 before)))
    cases effect with
    | idle | refuses => exact ih
    | manages applied =>
      have step := Store.permitStep_of_apply applied
      have after := used step
      cases step with
      | idle same => exact ih.mono (same.permitNonce _ _) after
      | revokes w hash same => exact ih.mono (same.permitNonce _ _) after
      | consumes => exact absurd (List.mem_singleton_self _) (ManagementCall.not_consumed applied)
    | @accepts index p permit _ window ready accepted settled =>
      cases permit with
      | none =>
        exact ih.mono ((PreparedOperation.samePermits_settle settled).permitNonce _ _)
          (used (Store.permitStep_of_settle settled))
      | some v => exact ih.settle hwallet hoperator (grants_of_ready ready) settled

end Timeline

/-- There is a hash that is not used on a wallet. -/
def Store.HasHashLeft (s : Store) (wallet : Address) : Prop :=
  ∃ hash : Hex, hash.WritesHash ∧ s.isHashUsed wallet hash = false

/-- In an engine that started with nothing written, all nonces of a wallet can be hashed while a hash is left
on it. -/
theorem Timeline.permitNonce_lt {config : Config} {actions : List Action} {wallet operator : Address}
    (hwallet : wallet.IsWellFormed) (hoperator : operator.IsWellFormed)
    (left : ((ofEngine (.ofConfig config)).run actions).1.engine.store.HasHashLeft wallet) :
    ((ofEngine (.ofConfig config)).run actions).1.engine.store.HasNonce wallet operator := by
  have start : (Engine.ofConfig config).store.CountsHashes wallet operator := by
    refine ⟨[], List.nodup_nil, ?_, List.forall_mem_nil _⟩
    show 0 = Store.empty.permitNonce wallet operator
    unfold Store.permitNonce Store.empty
    rw [Table.find?_empty]
    rfl
  obtain ⟨hash, writes, unused⟩ := left
  exact (countsHashes_run start hwallet hoperator).hasNonce writes unused

/-! ### Validations -/

namespace Engine

variable {env : Environment} {config : Config} {e : Engine} {p : PreparedOperation} {submitted : Submission}

/-- An engine has a configuration that was loaded, and the validators that it was made with. -/
structure IsLoaded (e : Engine) (env : Environment) : Prop where
  loaded : Config.load env = .ok e.config
  registry : e.registry = initialRegistry e.config

theorem givesOrRefuses_prepare (he : e.IsLoaded env) (h : submitted.IsWellFormed) :
    GivesOrRefuses (·.IsWellFormed) (e.prepare submitted.op submitted.userOpHash) :=
  PreparedOperation.givesOrRefuses_ofOperation (Config.isWritten_of_load he.loaded).2.1.isStrict h

theorem onlyRefuses_request (he : e.IsLoaded env) (hp : p.IsWellFormed)
    (nonce : e.store.HasNonce p.op.sender p.operator) : OnlyRefuses (e.request p) := by
  unfold request
  cases carried : p.permit with
  | none => exact .gives trivial
  | some permit =>
    exact (PermitRequest.onlyRefuses_ofPermit he.loaded hp.sender hp.operator (hp.permit permit carried)
      nonce e.registry).bind fun _ _ => .gives trivial

/-- The signer of a permit that is asked about answers for itself. -/
theorem exists_answer (he : e.IsLoaded env) {request : PermitRequest}
    (asked : e.request p = .ok (some request)) : ∃ approved, request.answer = some approved := by
  obtain ⟨permit, -, read⟩ := request_eq_some.1 asked
  obtain ⟨hash, addressed, v, -, -, split, known, rank, rfl⟩ := PermitRequest.ofPermit_eq_ok.1 read
  rw [he.registry] at known rank
  exact Validator.approves?_of_sudo he.loaded (isWritten_of_splitPermitSignature split) known rank _ _

theorem onlyRefuses_verifiedPermit (he : e.IsLoaded env) (hp : p.IsWellFormed)
    (nonce : e.store.HasNonce p.op.sender p.operator) (outside : Outside) :
    OnlyRefuses (e.verifiedPermit outside p) := by
  unfold verifiedPermit
  refine (onlyRefuses_request he hp nonce).ends.bind fun asked ⟨made, _⟩ => ?_
  cases asked with
  | none => exact .gives trivial
  | some request =>
    obtain ⟨approved, known⟩ := exists_answer he made
    have answered : answer outside p request = .ok approved := by
      unfold answer
      rw [known]
    simp only [answered, ok_bind]
    exact (GivesOrRefuses.orFail _).bind fun _ _ => .gives trivial

/-- What an operation is charged to is well formed, if its permit was verified. -/
theorem wellFormed_inForce {outside : Outside} {permit : Option VerifiedPermit} (hp : p.IsWellFormed)
    (grants : e.store.HasWellFormedGrants) (verified : e.verifiedPermit outside p = .ok permit) :
    (p.permissionInForce permit e.store).IsWellFormed := by
  rw [verifiedPermit_eq_ok] at verified
  cases carried : p.permit with
  | none =>
    rw [carried] at verified
    subst verified
    exact grants p.operatorRow
  | some granted =>
    rw [carried] at verified
    obtain ⟨request, -, -, rfl⟩ := verified
    exact .of_fits (hp.permit granted carried)

/-- A validation in one step gives a result or is refused. -/
theorem onlyRefuses_validateSignature (he : e.IsLoaded env) (grants : e.store.HasWellFormedGrants)
    (h : submitted.IsWellFormed)
    (nonces : ∀ operator : Address, operator.IsWellFormed →
      e.store.HasNonce submitted.op.sender operator)
    (outside : Outside) (simulate : Bool) :
    OnlyRefuses (e.validateSignature outside submitted.op submitted.userOpHash simulate).result := by
  have ready : GivesOrRefuses (fun made => made.1.IsWellFormed ∧
      (made.1.permissionInForce made.2 e.store).IsWellFormed)
      (e.ready outside submitted.op submitted.userOpHash) := by
    unfold ready
    refine (givesOrRefuses_prepare he h).ends.bind fun p ⟨prepared, hp⟩ => ?_
    obtain ⟨_, _, _, -, -, -, -, -, same⟩ := PreparedOperation.ofOperation_eq_ok.1 prepared
    have nonce : e.store.HasNonce p.op.sender p.operator := by
      rw [show p.op = submitted.op by rw [same]]
      exact nonces _ (Address.isWellFormed_of_isStrict hp.operator)
    exact (onlyRefuses_verifiedPermit he hp nonce outside).ends.bind fun permit ⟨verified, _⟩ =>
      .gives ⟨hp, wellFormed_inForce hp grants verified⟩
  unfold validateSignature
  cases made : e.ready outside submitted.op submitted.userOpHash with
  | error f =>
    obtain ⟨refusal, rfl⟩ := ready.exists_refusal made
    exact .refuses refusal
  | ok x =>
    obtain ⟨hp, granted⟩ := ready.holds made
    exact PreparedOperation.onlyRefuses_finish hp granted simulate

end Engine

namespace Stage

variable {env : Environment} {e : Engine} {p : PreparedOperation} {result : Except Failure ValidationData}

/-- What a computation that does not lead to an end itself makes of a validation that fails. -/
theorem onlyRefuses_of_orDone {x : Except Failure Stage} (refuses : OnlyRefuses x)
    (goesOn : ∀ stage, x = .ok stage → stage.operation? ≠ none) (ended : orDone x = .done result) :
    OnlyRefuses result := by
  cases x with
  | ok stage =>
    refine absurd ?_ (goesOn stage rfl)
    rw [show stage = .done result from ended]
    rfl
  | error f =>
    obtain ⟨refusal, rfl⟩ := refuses.exists_refusal rfl
    cases ended
    exact .refuses refusal

theorem onlyRefuses_of_start (he : e.IsLoaded env) {submitted : Submission} (h : submitted.IsWellFormed)
    (ended : start e submitted.op submitted.userOpHash = .done result) : OnlyRefuses result := by
  have prepares := (Engine.givesOrRefuses_prepare he h).onlyRefuses
  refine onlyRefuses_of_orDone ?_ ?_ ended
  · exact prepares.bind fun _ _ => .gives trivial
  · intro stage made
    obtain ⟨p, -, done⟩ := bind_eq_ok.1 made
    cases done
    nofun

theorem onlyRefuses_of_read (he : e.IsLoaded env) (hp : p.IsWellFormed)
    (nonce : e.store.HasNonce p.op.sender p.operator) (ended : read e (.prepared p) = .done result) :
    OnlyRefuses result := by
  have asks := Engine.onlyRefuses_request he hp nonce
  refine onlyRefuses_of_orDone ?_ ?_ ended
  · refine asks.bind fun asked _ => ?_
    cases asked with
    | none => exact .gives trivial
    | some request => exact .gives trivial
  · intro stage made
    obtain ⟨asked, -, done⟩ := bind_eq_ok.1 made
    cases asked with
    | none =>
      cases done
      nofun
    | some request =>
      cases done
      nofun

theorem onlyRefuses_of_answer {request : PermitRequest} {approved : Bool} {given : Except Failure Bool}
    (known : request.answer = some approved) (ended : answer given (.asking p request) = .done result) :
    OnlyRefuses result := by
  have taken : answer given (.asking p request) =
      orDone (orFail (request.verify approved) >>= fun v => pure (.ready p (some v))) := by
    obtain ⟨permit, hash, nonce, signer, signature, answered⟩ := request
    cases known
    rfl
  rw [taken] at ended
  refine onlyRefuses_of_orDone ?_ ?_ ended
  · exact (GivesOrRefuses.orFail _).bind fun _ _ => .gives trivial
  · intro stage made
    obtain ⟨v, -, done⟩ := bind_eq_ok.1 made
    cases done
    nofun

end Stage

namespace Timeline

variable {env : Environment} {config : Config} {actions : List Action} {index : Nat}

theorem isLoaded_run (loaded : Config.load env = .ok config) (keep : ∀ a ∈ actions, a.KeepsRegistry) :
    ((ofEngine (.ofConfig config)).run actions).1.engine.IsLoaded env := by
  refine ⟨?_, ?_⟩
  · rw [run_config]
    exact loaded
  · rw [run_config, run_registry _ keep]
    rfl

theorem exists_running_of_result? {t : Timeline} {result : Except Failure ValidationData}
    (ended : t.result? index = some result) :
    ∃ simulate, t.running[index]? = some ⟨simulate, .done result⟩ := by
  unfold result? at ended
  cases runs : t.running[index]? with
  | none =>
    rw [runs] at ended
    cases ended
  | some r =>
    obtain ⟨simulate, stage⟩ := r
    rw [runs] at ended
    cases stage with
    | prepared | asking | ready => cases ended
    | done result' =>
      cases ended
      exact ⟨simulate, rfl⟩

/-- A hash that is left after a step was left before it. -/
theorem hasHashLeft_of_step {t : Timeline} {a : Action} {wallet : Address}
    (left : (t.step a).1.engine.store.HasHashLeft wallet) : t.engine.store.HasHashLeft wallet := by
  obtain ⟨hash, writes, unused⟩ := left
  refine ⟨hash, writes, Bool.eq_false_iff.2 fun used => ?_⟩
  have after := ((t.step_permits a).used _).1.2 (.inl (Store.isHashUsed_eq_true.1 used))
  rw [Store.isHashUsed_eq_true.2 after] at unused
  cases unused

/-- An operation that runs was read from what was submitted, and the nonce of its operator can be hashed. -/
theorem wellFormed_of_running (loaded : Config.load env = .ok config) {submitted : Submission}
    (started : (actions.filterMap Action.submission?)[index]? = some submitted)
    (h : submitted.IsWellFormed)
    (left : ((ofEngine (.ofConfig config)).run actions).1.engine.store.HasHashLeft submitted.op.sender)
    {r : Running} (runs : ((ofEngine (.ofConfig config)).run actions).1.running[index]? = some r)
    {p : PreparedOperation} (current : r.stage.operation? = some p) :
    p.IsWellFormed ∧
      ((ofEngine (.ofConfig config)).run actions).1.engine.store.HasNonce p.op.sender p.operator := by
  obtain ⟨other, found, -, prepared⟩ := submitted_of_running runs
  obtain rfl := Option.some.inj (found.symm.trans started)
  have engine : (Engine.ofConfig config).IsLoaded env := ⟨loaded, rfl⟩
  have hp := (Engine.givesOrRefuses_prepare engine h).holds (prepared p current)
  obtain ⟨_, _, _, -, -, -, -, -, same⟩ := PreparedOperation.ofOperation_eq_ok.1 (prepared p current)
  have sender : p.op = other.op := by rw [same]
  refine ⟨hp, permitNonce_lt (Address.isWellFormed_of_isStrict hp.sender)
    (Address.isWellFormed_of_isStrict hp.operator) ?_⟩
  rw [sender]
  exact left

/-- A validation that has ended gave a result or was refused, whatever happened between its steps. The
induction is on the run: a validation ends in its last step, or has ended before. -/
theorem onlyRefuses_run (loaded : Config.load env = .ok config) (keep : ∀ a ∈ actions, a.KeepsRegistry)
    (sets : ∀ call, .manage call ∈ actions → call.SetsWellFormed) {submitted : Submission}
    (started : (actions.filterMap Action.submission?)[index]? = some submitted)
    (h : submitted.IsWellFormed)
    (left : ((ofEngine (.ofConfig config)).run actions).1.engine.store.HasHashLeft submitted.op.sender)
    {simulate : Bool} {result : Except Failure ValidationData}
    (ended : ((ofEngine (.ofConfig config)).run actions).1.running[index]? =
      some ⟨simulate, .done result⟩) : OnlyRefuses result := by
  induction actions using List.reverseRecOn generalizing simulate with
  | nil => cases ended
  | append_singleton seen a ih =>
    have keepBefore : ∀ b ∈ seen, b.KeepsRegistry := fun b hb => keep b (List.mem_append_left _ hb)
    have setsBefore : ∀ call, .manage call ∈ seen → call.SetsWellFormed :=
      fun call hc => sets call (List.mem_append_left _ hc)
    rw [run_concat] at ended left
    have leftBefore := hasHashLeft_of_step left
    have engine := isLoaded_run loaded keepBefore
    -- what runs already was submitted before
    have startedBefore : ∀ {r : Running},
        ((ofEngine (.ofConfig config)).run seen).1.running[index]? = some r →
          (seen.filterMap Action.submission?)[index]? = some submitted := by
      intro r before
      obtain ⟨other, found, -⟩ := submitted_of_running before
      rw [List.filterMap_append,
        List.getElem?_append_left (List.getElem?_eq_some_iff.1 found).1] at started
      exact started
    have earlier : ∀ {simulate : Bool}, ((ofEngine (.ofConfig config)).run seen).1.running[index]? =
        some ⟨simulate, .done result⟩ → OnlyRefuses result :=
      fun before => ih keepBefore setsBefore (startedBefore before) leftBefore before
    generalize went : (⟨simulate, .done result⟩ : Running) = r at ended
    cases step_running ended with
    | stays before => exact earlier (went ▸ before)
    | @starts op userOpHash simulate taken before =>
      subst taken
      have last := index_of_starts before ended
      rw [List.filterMap_append, last] at started
      obtain rfl := Option.some.inj (List.getElem?_concat_length.symm.trans started)
      exact Stage.onlyRefuses_of_start engine h (Running.mk.inj went).2.symm
    | @reads r₀ taken before =>
      obtain ⟨simulate, stage⟩ := r₀
      obtain ⟨-, same⟩ := Running.mk.inj went
      cases stage with
      | prepared p =>
        obtain ⟨hp, nonce⟩ :=
          wellFormed_of_running loaded (startedBefore before) h leftBefore before rfl
        exact Stage.onlyRefuses_of_read engine hp nonce same.symm
      | asking | ready => cases same
      | done result' =>
        cases same
        exact earlier before
    | @hears r₀ answered taken before =>
      obtain ⟨simulate, stage⟩ := r₀
      obtain ⟨-, same⟩ := Running.mk.inj went
      cases stage with
      | asking p request =>
        obtain ⟨start, middle, rfl, asked⟩ := read_of_asking (isUnread_ofEngine _ index) before
        have engineThen := isLoaded_run loaded fun b hb => keepBefore b (List.mem_append_left _ hb)
        obtain ⟨approved, known⟩ := Engine.exists_answer engineThen asked
        exact Stage.onlyRefuses_of_answer known same.symm
      | prepared | ready => cases same
      | done result' =>
        cases same
        exact earlier before
    | @finishes simulate p permit taken before =>
      obtain ⟨-, stage⟩ := Running.mk.inj went
      cases stage
      obtain ⟨hp, -⟩ := wellFormed_of_running loaded (startedBefore before) h leftBefore before rfl
      have grants := wellFormed_run (e := .ofConfig config) (fun _ => .empty) setsBefore
      exact PreparedOperation.onlyRefuses_finish hp (wellFormed_inForce before grants) simulate

end Timeline

/-- **Failures are refusals.** Take any run of an engine that is made from a loaded configuration, in which the
validators of wallets stay as they are, and the owner sets no root that is not a hash and no paymaster that is
not well formed. Take any operation with a sender in small letters or with its checksum, submitted with a hash
of 32 bytes, and with bytes for its paymaster and its signature; its call data may be any text. If a validation
of it fails, in one step after the run or in steps among all others in the run, then it is refused with one of
the codes. Where this does not hold, every hash of 32 bytes is used on the wallet of the operation: only then
could an operator have used so many permits that its nonce is too large to be hashed. -/
theorem failures_are_refusals {env : Environment} {config : Config} (loaded : Config.load env = .ok config)
    {actions : List Action} (keep : ∀ a ∈ actions, a.KeepsRegistry)
    (sets : ∀ call, .manage call ∈ actions → call.SetsWellFormed) {submitted : Submission}
    (wellFormed : submitted.IsWellFormed) :
    let t := ((Timeline.ofEngine (.ofConfig config)).run actions).1
    ∀ result : Except Failure ValidationData,
      ((∃ outside simulate, result =
          (t.engine.validateSignature outside submitted.op submitted.userOpHash simulate).result) ∨
        ∃ index : Nat, (actions.filterMap Action.submission?)[index]? = some submitted ∧
          t.result? index = some result) →
      ∀ f, result = .error f →
        (∃ refusal : Refusal, f = .refused refusal ∧
          f.report = .coded refusal.code.name refusal.message) ∨
        ¬t.engine.store.HasHashLeft submitted.op.sender := by
  intro t result validated f fails
  by_cases left : t.engine.store.HasHashLeft submitted.op.sender
  · have refuses : OnlyRefuses result := by
      rcases validated with ⟨outside, simulate, rfl⟩ | ⟨index, started, ended⟩
      · exact Engine.onlyRefuses_validateSignature (Timeline.isLoaded_run loaded keep)
          (Timeline.wellFormed_run (fun _ => .empty) sets) wellFormed
          (fun operator hoperator => Timeline.permitNonce_lt
            (Address.isWellFormed_of_isStrict wellFormed.sender) hoperator left) outside simulate
      · obtain ⟨simulate, runs⟩ := Timeline.exists_running_of_result? ended
        exact Timeline.onlyRefuses_run loaded keep sets started wellFormed left runs
    obtain ⟨refusal, rfl⟩ := refuses.exists_refusal fails
    exact .inl ⟨refusal, rfl, rfl⟩
  · exact .inr left

/-- An operation without a signature is refused with a code, also beside a change of the owner. -/
theorem unsigned_refused_with_code :
    let env : Environment := fun name =>
      if name = "WALLET_ADDRESS" then some "0x1000000000000000000000000000000000000001"
      else if name = "VALIDATOR_ADDRESS" then some "0x2000000000000000000000000000000000000002"
      else none
    let bytes : UInt8 → Bytes := fun n => 16 * n :: List.replicate 18 0 ++ [n]
    let config : Config :=
      ⟨.ofBytes (bytes 1), .ofBytes (bytes 2), .ofInt 1, Config.defaultEntryPoint, none, none⟩
    let hash : Hex := .ofBytes (List.replicate 32 1)
    let actions : List Action := [.manage (.setSessionRoot .zero .zero hash), .start unsigned hash false]
    let t := ((Timeline.ofEngine (.ofConfig config)).run actions).1
    Config.load env = .ok config ∧ t.result? 0 = some (.error (.refused .shortSignature)) ∧
      (Failure.refused .shortSignature).report =
        .coded "MALFORMED_INPUT" "signature is shorter than the validator prefix" := by
  intro env bytes config hash actions t
  have loaded : Config.load env = .ok config := by
    have wallet : ∀ meaning, Config.requireAddress env "WALLET_ADDRESS" meaning =
        .ok config.walletAddress :=
      fun _ => Config.requireAddress_eq_ok.2 ⟨bytes 1, by decide +kernel, rfl⟩
    have validator : ∀ meaning, Config.requireAddress env "VALIDATOR_ADDRESS" meaning =
        .ok config.validatorAddress :=
      fun _ => Config.requireAddress_eq_ok.2 ⟨bytes 2, by decide +kernel, rfl⟩
    have chain : Config.parseChainId ((env "CHAIN_ID").getD "1") = .ok 1 := by decide +kernel
    have absent : ∀ name, name ≠ "WALLET_ADDRESS" → name ≠ "VALIDATOR_ADDRESS" →
        Config.optionalAddress env name = .ok none := by
      intro name other another
      simp [Config.optionalAddress, Config.present?, env, other, another]
    simp only [Config.load, wallet, validator, chain, absent "ENTRY_POINT_ADDRESS" (by decide) (by decide),
      absent "OWNER_ADDRESS" (by decide) (by decide),
      absent "SUDO_VALIDATOR_ADDRESS" (by decide) (by decide), ok_bind]
    rfl
  have writes : hash.WritesHash := ⟨_, Hex.bytes?_ofBytes _, rfl⟩
  have keep : ∀ a ∈ actions, a.KeepsRegistry := by
    intro a ha
    simp only [actions, List.mem_cons, List.not_mem_nil, or_false] at ha
    rcases ha with rfl | rfl <;> trivial
  have sets : ∀ call, .manage call ∈ actions → call.SetsWellFormed := by
    intro call hc
    simp only [actions, List.mem_cons, reduceCtorEq, Action.manage.injEq, List.not_mem_nil,
      or_false] at hc
    rw [hc]
    exact writes
  have wellFormed : Submission.IsWellFormed ⟨unsigned, hash, false⟩ :=
    ⟨Address.isStrict_zero, writes, ⟨[], Hex.bytes?_empty⟩, ⟨[], Hex.bytes?_empty⟩⟩
  have left : t.engine.store.HasHashLeft Address.zero := by
    refine ⟨hash, writes, ?_⟩
    unfold Store.isHashUsed
    rw [show t.engine.store.usedHashes = ∅ from rfl, Table.find?_empty]
    rfl
  obtain ⟨refusal, same, coded⟩ := (failures_are_refusals loaded keep sets wellFormed _
    (.inr ⟨0, rfl, rfl⟩) (.refused .shortSignature) rfl).resolve_right (not_not_intro left)
  obtain rfl := Failure.refused.inj same
  exact ⟨loaded, rfl, coded⟩

end SessionKeys
