import SessionKeys.Proofs.Preparation
import SessionKeys.Proofs.SessionUse
import SessionKeys.Proofs.Settlement
import SessionKeys.Proofs.Spending
import SessionKeys.Proofs.Window

/-!
Which operations are accepted. The engine checks a batch call by call, and each check is made
against what the calls before it have left. Here the conditions are stated for the batch as a whole:
what it spends in total of each token, how often it uses each session, and a moment at which
everything in it is valid. Main statement: `validation_accepts_iff`.
-/

namespace SessionKeys

/-! ### Paymasters and proofs -/

/-- A pinned paymaster allows an attached one: it writes the number zero, or is the same address. -/
def Address.Pins (pinned actual : Address) : Prop :=
  pinned.hex.toInt? = some 0 ∨ pinned.Agrees actual

theorem Hex.toInt_eq_ok {h : Hex} {n : Int} : h.toInt = .ok n ↔ h.toInt? = some n := by
  unfold Hex.toInt
  cases h.toInt? with
  | none => simp
  | some m => simp

/-- An address is a number. -/
theorem Address.Agrees.exists_toInt {a b : Address} (h : a.Agrees b) : ∃ n, a.hex.toInt? = some n := by
  obtain ⟨bytes, ha, -⟩ := h
  obtain ⟨hb, length⟩ := Address.bytes?_eq_some_iff.1 ha
  refine ⟨_, Hex.toInt?_of_bytes? hb ?_⟩
  rintro rfl
  cases length

theorem validatePaymaster_eq_ok {pinned actual : Address} :
    validatePaymaster pinned actual = .ok () ↔ pinned.Pins actual := by
  unfold validatePaymaster Address.Pins
  rw [← Address.same_eq_true]
  constructor
  · intro h
    obtain ⟨n, number, rest⟩ := bind_eq_ok.1 h
    by_cases zero : n = 0
    · exact .inl (Hex.toInt_eq_ok.1 (zero ▸ number))
    · rw [if_neg zero] at rest
      obtain ⟨b, same, rest⟩ := bind_eq_ok.1 rest
      cases b with
      | true => exact .inr (orFail_eq_ok.1 same)
      | false => cases rest
  · intro h
    have number : ∃ n, pinned.hex.toInt = .ok n := by
      rcases h with zero | same
      · exact ⟨0, Hex.toInt_eq_ok.2 zero⟩
      · obtain ⟨n, hn⟩ := (Address.same_eq_true.1 same).exists_toInt
        exact ⟨n, Hex.toInt_eq_ok.2 hn⟩
    obtain ⟨n, number⟩ := number
    rw [number, ok_bind]
    by_cases zero : n = 0
    · rw [if_pos zero]
      rfl
    · rw [if_neg zero]
      have same := h.resolve_left fun hz => by
        rw [Hex.toInt_eq_ok.1 number] at hz
        exact zero (Option.some.inj hz)
      rw [same]
      rfl

/-- A proof leads from the leaf of a session to a root, compared as numbers. -/
def Session.LeadsTo (session : Session) (proof : List Hex) (root : Hex) : Prop :=
  ∃ leaf node n, session.leaf = .ok leaf ∧ processProof proof leaf = .ok node ∧
    node.toInt? = some n ∧ root.toInt? = some n

theorem validateSessionRoot_eq_true {proof : List Hex} {root : Hex} {session : Session} :
    validateSessionRoot proof root session = .ok true ↔ session.LeadsTo proof root := by
  unfold validateSessionRoot Session.LeadsTo
  simp only [bind_eq_ok, orFail_eq_ok, pure_eq_ok, Except.ok.injEq, Hex.toInt_eq_ok, beq_iff_eq]
  constructor
  · rintro ⟨leaf, hleaf, node, hnode, n, hn, m, hm, rfl⟩
    exact ⟨leaf, node, n, hleaf, hnode, hn, hm⟩
  · rintro ⟨leaf, node, n, hleaf, hnode, hn, hm⟩
    exact ⟨leaf, hleaf, node, hnode, n, hn, n, hm, rfl⟩

theorem verifySessionMembership_eq_ok {proof : List Hex} {root : Hex} {session : Session} :
    verifySessionMembership proof root session = .ok () ↔ session.LeadsTo proof root := by
  unfold verifySessionMembership
  rw [← validateSessionRoot_eq_true]
  cases validateSessionRoot proof root session with
  | error f => simp
  | ok b => cases b <;> simp [throw_eq_error, pure_eq_ok]

/-! ### One call -/

/-- A call is allowed by what is shown for it. -/
structure CallContext.Allows (c : CallContext) (call : WalletCall) (shown : SessionEntry) : Prop where
  plain : call.operation = 0
  committed : shown.session.LeadsTo shown.proof c.sessionRoot
  paymaster : shown.session.paymaster.Pins c.paymaster
  arguments : checkArguments shown.session call.target call.data call.value shown.arguments = .ok ()

namespace CallContext

theorem checkCall_eq_ok {c : CallContext} (index : Nat) {call : WalletCall} {shown : SessionEntry} :
    c.checkCall index call shown = .ok () ↔ c.Allows call shown := by
  unfold checkCall
  simp only [bind_eq_ok, throw_eq_error, error_bind, error_ite_eq_ok, ne_eq, Decidable.not_not]
  constructor
  · rintro ⟨plain, ⟨⟩, committed, ⟨⟩, paymaster, arguments⟩
    exact ⟨plain, verifySessionMembership_eq_ok.1 committed, validatePaymaster_eq_ok.1 paymaster,
      arguments⟩
  · rintro ⟨plain, committed, paymaster, arguments⟩
    exact ⟨plain, (), verifySessionMembership_eq_ok.2 committed, (),
      validatePaymaster_eq_ok.2 paymaster, arguments⟩

variable {c : CallContext} {s s' : Store} {call : WalletCall} {shown : SessionEntry}

/-- A call can be settled if it is allowed, and what it uses and spends is left. -/
theorem exists_settleCall (index : Nat) :
    (∃ s', c.settleCall s index call shown = .ok s') ↔
      c.Allows call shown ∧
      Uses.Allow (s.usesOfSession c.wallet c.operator) shown.session ∧
      ∃ spends, call.spends c.wallet = .ok spends ∧
        Limits.Fits (s.spendingLimit? c.wallet c.operator) spends := by
  rw [← Store.exists_consumeSessionUse, ← checkCall_eq_ok index]
  unfold settleCall Store.consumeCallAllowances
  simp only [bind_eq_ok, orFail_eq_ok]
  constructor
  · rintro ⟨s', ⟨⟩, checked, s₁, used, spends, read, charged⟩
    refine ⟨checked, ⟨s₁, used⟩, spends, read, ?_⟩
    rw [← (Store.left_of_consumeSessionUse used).2]
    exact Store.exists_foldlM_consumeAllowance.1 ⟨s', charged⟩
  · rintro ⟨checked, ⟨s₁, used⟩, spends, read, fits⟩
    rw [← (Store.left_of_consumeSessionUse used).2] at fits
    obtain ⟨s', charged⟩ := Store.exists_foldlM_consumeAllowance.2 fits
    exact ⟨s', (), checked, s₁, used, spends, read, charged⟩

/-- What is left after a call that was settled. -/
theorem left_of_settleCall (h : c.settleCall s index call shown = .ok s') :
    s'.usesOfSession c.wallet c.operator =
        Uses.after (s.usesOfSession c.wallet c.operator) shown.session ∧
      ∃ spends, call.spends c.wallet = .ok spends ∧
        s'.spendingLimit? c.wallet c.operator =
          spends.foldl Limits.after (s.spendingLimit? c.wallet c.operator) := by
  unfold settleCall Store.consumeCallAllowances at h
  simp only [bind_eq_ok, orFail_eq_ok] at h
  obtain ⟨-, -, s₁, used, spends, read, charged⟩ := h
  obtain ⟨uses, sameLimits⟩ := Store.left_of_consumeSessionUse used
  obtain ⟨limits, sameUses⟩ := Store.left_of_foldlM_consumeAllowance charged
  rw [uses] at sameUses
  rw [sameLimits] at limits
  exact ⟨sameUses, spends, read, limits⟩

/-! ### Several calls -/

/-- The calls of a batch can be settled if each is allowed, the sessions suffice, the spendings fit
and the windows can be narrowed to one another. -/
theorem exists_settleCalls (index : Nat) {steps : List (WalletCall × SessionEntry)}
    {w : ValidityWindow} :
    (∃ r, c.settleCalls index steps s w = .ok r) ↔
      (∀ step ∈ steps, c.Allows step.1 step.2) ∧
      Uses.Suffice (s.usesOfSession c.wallet c.operator) (steps.map (·.2.session)) ∧
      (∃ spends, spendsOfAll c.wallet (steps.map (·.1)) = .ok spends ∧
        Limits.Fits (s.spendingLimit? c.wallet c.operator) spends) ∧
      w.Narrows (steps.map (·.2.session.window)) := by
  induction steps generalizing index s w with
  | nil => simp [settleCalls, Uses.Suffice, spendsOfAll, Limits.Fits, ValidityWindow.Narrows]
  | cons step rest ih =>
    obtain ⟨call, shown⟩ := step
    rw [settleCalls]
    simp only [bind_eq_ok, orFail_eq_ok, List.map_cons, List.forall_mem_cons, Uses.Suffice,
      ValidityWindow.Narrows]
    constructor
    · rintro ⟨r, s₁, first, w₁, narrowed, others⟩
      obtain ⟨allowed, usable, spends, read, fits⟩ := (exists_settleCall index).1 ⟨s₁, first⟩
      obtain ⟨uses, spends', read', limits⟩ := left_of_settleCall first
      rw [read, Except.ok.injEq] at read'
      subst read'
      obtain ⟨allowed', usable', ⟨more, reads, fits'⟩, narrowed'⟩ := (ih (index + 1)).1 ⟨r, others⟩
      rw [uses] at usable'
      rw [limits] at fits'
      exact ⟨⟨allowed, allowed'⟩, ⟨usable, usable'⟩,
        ⟨spends ++ more, spendsOfAll_cons_eq_ok.2 ⟨spends, more, read, reads, rfl⟩,
          Limits.fits_append.2 ⟨fits, fits'⟩⟩,
        w₁, narrowed, narrowed'⟩
    · rintro ⟨⟨allowed, allowed'⟩, ⟨usable, usable'⟩, ⟨all, reads, fits⟩, w₁, narrowed, narrowed'⟩
      obtain ⟨spends, more, read, readMore, rfl⟩ := spendsOfAll_cons_eq_ok.1 reads
      obtain ⟨fits, fits'⟩ := Limits.fits_append.1 fits
      obtain ⟨s₁, first⟩ := (exists_settleCall index).2 ⟨allowed, usable, spends, read, fits⟩
      obtain ⟨uses, spends', read', limits⟩ := left_of_settleCall first
      rw [read, Except.ok.injEq] at read'
      subst read'
      rw [← uses] at usable'
      rw [← limits] at fits'
      obtain ⟨r, others⟩ :=
        (ih (index + 1)).2 ⟨allowed', usable', ⟨more, readMore, fits'⟩, narrowed'⟩
      exact ⟨r, s₁, first, w₁, narrowed, others⟩

end CallContext

/-! ### What is in force -/

/-- The permission in force: the one that a permit grants, or else the one that is stored. -/
def permissionInForce (s : Store) (wallet operator : Address) :
    Option Permit → OperatorPermission
  | none => s.permission wallet operator
  | some permit => permit.permission

/-- The limits in force: those that are stored, and in place of them those that a permit sets, with
nothing spent. Of several that a permit sets on one token the last one counts. -/
def limitsInForce (s : Store) (wallet operator : Address) : Option Permit → Limits
  | none => s.spendingLimit? wallet operator
  | some permit => fun token =>
    match permit.spendingLimits.reverse.find? fun l => l.token.key = token.key with
    | some l => some ⟨l.allowance, 0⟩
    | none => s.spendingLimit? wallet operator token

theorem Store.spendingLimit?_startSpendingLimits (s : Store) (wallet operator token : Address)
    (limits : List SpendingLimit) :
    (s.startSpendingLimits wallet operator limits).spendingLimit? wallet operator token =
      match limits.reverse.find? fun l => l.token.key = token.key with
      | some l => some ⟨l.allowance, 0⟩
      | none => s.spendingLimit? wallet operator token := by
  induction limits generalizing s with
  | nil => rfl
  | cons l rest ih =>
    have first : s.startSpendingLimits wallet operator (l :: rest) =
        (s.setSpendingLimit wallet operator l.token ⟨l.allowance, 0⟩).startSpendingLimits wallet operator
          rest := rfl
    rw [first, ih, List.reverse_cons, List.find?_append]
    cases rest.reverse.find? fun l => l.token.key = token.key with
    | some last => rfl
    | none =>
      simp only [Option.none_or, spendingLimit?_setSpendingLimit]
      by_cases same : token.key = l.token.key
      · simp [same]
      · simp [same, Ne.symm same]

/-- The store in which an operation is settled holds what is in force, and the uses of sessions that
are stored. -/
theorem VerifiedPermit.inForce_installed (v : VerifiedPermit) (s : Store) (wallet operator : Address) :
    (v.installed s wallet operator).permission wallet operator =
        permissionInForce s wallet operator (some v.permit) ∧
      (v.installed s wallet operator).spendingLimit? wallet operator =
        limitsInForce s wallet operator (some v.permit) ∧
      (v.installed s wallet operator).usesOfSession wallet operator =
        s.usesOfSession wallet operator := by
  refine ⟨?_, ?_, ?_⟩
  · unfold installed Store.permission
    rw [Store.startSpendingLimits_eq]
    simp [Store.setPermission, permissionInForce]
  · funext token
    unfold installed
    rw [Store.spendingLimit?_startSpendingLimits]
    rfl
  · unfold installed
    rw [Store.startSpendingLimits_eq]
    rfl

/-- A permit can be installed: the hash of it at the current nonce is not used, it is approved by a
sudo validator of the wallet, and there is a moment at which it is valid. -/
def Permit.IsUsable (permit : Permit) (e : Engine) (outside : Outside) (wallet operator : Address) :
    Prop :=
  (∃ hash addressed v,
    e.permitMessageHash wallet operator permit.permission permit.spendingLimits = .ok hash ∧
    e.store.isHashUsed wallet hash = false ∧
    splitPermitSignature permit.signature = .ok addressed ∧
    e.registry.validator? addressed.validator = some v ∧
    e.registry.class? wallet addressed.validator = some .sudo ∧
    match v.approves? wallet hash addressed.payload with
    | some approved => approved = true
    | none => outside.approves addressed.validator wallet hash addressed.payload = .ok true) ∧
  ∃ t, permit.permission.window.Contains t

theorem Engine.answer_eq_ok {outside : Outside} {p : PreparedOperation} {request : PermitRequest} :
    answer outside p request = .ok true ↔
      match request.answer with
      | some approved => approved = true
      | none => outside.approves request.signer p.op.sender request.hash request.signature =
          .ok true := by
  unfold answer
  cases request.answer with
  | none => exact Iff.rfl
  | some b => simp only [Except.ok.injEq]

/-- A permit is usable if it can be asked about, its signer approves it, and its window is not
empty. -/
theorem Permit.isUsable_iff {permit : Permit} {e : Engine} {outside : Outside}
    {p : PreparedOperation} :
    permit.IsUsable e outside p.op.sender p.operator ↔
      (∃ request,
        PermitRequest.ofPermit e.config.chainId e.store e.registry p.op.sender p.operator permit =
          .ok request ∧
        Engine.answer outside p request = .ok true) ∧
      ¬permit.permission.window.IsEmpty := by
  unfold IsUsable
  rw [ValidityWindow.not_isEmpty_iff]
  refine and_congr_left fun _ => ?_
  constructor
  · rintro ⟨hash, addressed, v, hashed, unused, split, known, mayGrant, approved⟩
    have asked := PermitRequest.ofPermit_eq_ok.2
      ⟨hash, addressed, v, hashed, unused, split, known, mayGrant, rfl⟩
    exact ⟨_, asked, Engine.answer_eq_ok.2 approved⟩
  · rintro ⟨request, asked, approved⟩
    obtain ⟨hash, addressed, v, hashed, unused, split, known, mayGrant, rfl⟩ :=
      PermitRequest.ofPermit_eq_ok.1 asked
    exact ⟨hash, addressed, v, hashed, unused, split, known, mayGrant,
      Engine.answer_eq_ok.1 approved⟩

/-! ### Budgets -/

theorem Store.exists_consumeBudget {s : Store} {wallet operator : Address} {op : UserOperation} :
    (∃ s', s.consumeBudget wallet operator op = .ok s') ↔
      op.maxFee ≤ (s.permission wallet operator).gasRemaining ∧
        (s.permission wallet operator).timesRemaining ≠ 0 := by
  unfold consumeBudget OperatorPermission.afterOperation
  simp only [bind_eq_ok, error_ite_eq_ok, pure_eq_ok, Int.not_lt]
  constructor
  · rintro ⟨-, -, ⟨fee, times, -⟩, -⟩
    exact ⟨fee, times⟩
  · rintro ⟨fee, times⟩
    exact ⟨_, _, ⟨fee, times, rfl⟩, rfl⟩

theorem Store.left_of_consumeBudget {s s' : Store} {wallet operator : Address} {op : UserOperation}
    (h : s.consumeBudget wallet operator op = .ok s') :
    s'.spendingLimit? wallet operator = s.spendingLimit? wallet operator ∧
      s'.usesOfSession wallet operator = s.usesOfSession wallet operator := by
  obtain ⟨p, rfl⟩ := exists_of_consumeBudget h
  exact ⟨rfl, rfl⟩

/-! ### A batch -/

/-- What an operator may do with a batch of calls when a permission, limits and uses of sessions are
in force. -/
structure IsCovered (op : UserOperation) (operator : Address)
    (steps : List (WalletCall × SessionEntry)) (permission : OperatorPermission) (limits : Limits)
    (uses : Uses) : Prop where
  paymaster : permission.paymaster.Pins op.paymaster
  fee : op.maxFee ≤ permission.gasRemaining
  times : permission.timesRemaining ≠ 0
  calls : ∀ step ∈ steps,
    CallContext.Allows ⟨op.sender, operator, permission.sessionRoot, op.paymaster⟩ step.1 step.2
  sessions : uses.EachWithin (steps.map (·.2.session))
  /-- the total that the batch spends of each token is within the limit on it -/
  spendings : ∃ spends, spendsOfAll op.sender (steps.map (·.1)) = .ok spends ∧
    ∀ spend ∈ spends, ∀ info, limits spend.token = some info →
      info.spent + Limits.total spend.token.key spends ≤ info.allowance
  /-- there is a moment at which the permission and all sessions are valid -/
  window : ∃ t, permission.window.Contains t ∧ ∀ step ∈ steps, step.2.session.window.Contains t

/-- An operation can be settled if it is covered by what is in force after the permit. -/
theorem PreparedOperation.exists_settle {p : PreparedOperation} {permit : Option VerifiedPermit}
    {s : Store} (hne : p.steps ≠ []) :
    (∃ r, p.settle permit s = .ok r) ↔
      ∃ s₁, p.installPermit permit s = .ok s₁ ∧
        IsCovered p.op p.operator p.steps (s₁.permission p.op.sender p.operator)
          (s₁.spendingLimit? p.op.sender p.operator) (s₁.usesOfSession p.op.sender p.operator) := by
  have windows : ∀ w : ValidityWindow, w.Narrows (p.steps.map (·.2.session.window)) ↔
      ∃ t, w.Contains t ∧ ∀ step ∈ p.steps, step.2.session.window.Contains t := by
    intro w
    rw [ValidityWindow.narrows_iff (by simpa using hne)]
    simp only [List.forall_mem_map]
  constructor
  · rintro ⟨⟨s', w⟩, settled⟩
    obtain ⟨s₁, s₂, installed, pinned, paid, calls⟩ := settle_eq_ok.1 settled
    obtain ⟨limits, uses⟩ := Store.left_of_consumeBudget paid
    obtain ⟨fee, times⟩ := Store.exists_consumeBudget.1 ⟨s₂, paid⟩
    obtain ⟨allowed, usable, ⟨spends, read, fits⟩, narrowed⟩ :=
      (CallContext.exists_settleCalls 0).1 ⟨_, calls⟩
    simp only [limits, uses] at usable fits
    exact ⟨s₁, installed, validatePaymaster_eq_ok.1 pinned, fee, times, allowed,
      Uses.suffice_iff_each.1 usable,
      ⟨spends, read, (Limits.fits_iff (s₁.byKey_spendingLimit? _ _)
        fun _ => nonneg_spendsOfAll read).1 fits⟩, (windows _).1 narrowed⟩
  · rintro ⟨s₁, installed, covered⟩
    obtain ⟨s₂, paid⟩ := Store.exists_consumeBudget.2 ⟨covered.fee, covered.times⟩
    obtain ⟨limits, uses⟩ := Store.left_of_consumeBudget paid
    obtain ⟨spends, read, totals⟩ := covered.spendings
    have fits := (Limits.fits_iff (s₁.byKey_spendingLimit? _ _)
      fun _ => nonneg_spendsOfAll read).2 totals
    have usable := Uses.suffice_iff_each.2 covered.sessions
    rw [← limits] at fits
    rw [← uses] at usable
    obtain ⟨r, calls⟩ := (CallContext.exists_settleCalls 0).2 ⟨covered.calls, usable,
      ⟨spends, read, fits⟩, (windows _).2 covered.window⟩
    exact ⟨r, settle_eq_ok.2
      ⟨s₁, s₂, installed, validatePaymaster_eq_ok.2 covered.paymaster, paid, calls⟩⟩

/-! ### Reading a batch -/

theorem WalletOperation.zipCalls_ne_nil {targets : List Address} {values : List Int} {datas : List Hex}
    {operations : List Number} (hne : targets ≠ []) (hv : values.length = targets.length)
    (hd : datas.length = targets.length) (ho : operations.length = targets.length) :
    zipCalls targets values datas operations ≠ [] := by
  cases targets with
  | nil => exact absurd rfl hne
  | cons target targets =>
    obtain ⟨value, values, rfl⟩ := List.exists_cons_of_length_eq_add_one hv
    obtain ⟨data, datas, rfl⟩ := List.exists_cons_of_length_eq_add_one hd
    obtain ⟨operation, operations, rfl⟩ := List.exists_cons_of_length_eq_add_one ho
    exact List.cons_ne_nil _ _

/-- What a wallet is told to do is at least one call. -/
theorem WalletOperation.calls_ne_nil {callData : Hex} {operation : WalletOperation}
    (h : WalletOperation.decode callData = .ok operation) : operation.calls ≠ [] := by
  simp only [WalletOperation.decode] at h
  split at h
  · obtain ⟨⟨target, value, data, kind, ⟨⟩⟩, -, done⟩ := bind_eq_ok.1 h
    cases done
    exact List.cons_ne_nil _ _
  · split at h
    · obtain ⟨⟨targets, values, datas, operations, ⟨⟩⟩, -, done⟩ := bind_eq_ok.1 h
      rw [orFail_eq_ok] at done
      unfold ofBatchArguments at done
      simp only [error_ite_eq_ok, not_or, ne_eq, Decidable.not_not, List.isEmpty_iff,
        Except.ok.injEq] at done
      obtain ⟨hne, ⟨hv, hd, ho⟩, rfl⟩ := done
      exact zipCalls_ne_nil hne hv hd ho
    · cases h

theorem zip_ne_nil {α β : Type} {l : List α} {m : List β} (hne : l ≠ [])
    (hlength : m.length = l.length) : l.zip m ≠ [] := by
  cases l with
  | nil => exact absurd rfl hne
  | cons a l =>
    obtain ⟨b, m, rfl⟩ := List.exists_cons_of_length_eq_add_one hlength
    exact List.cons_ne_nil _ _

/-! ### Exact acceptance -/

/-- All that an operation needs to be accepted by an engine, where `operation` is what it tells the
wallet to do and `shown` is what the operator shows for it. -/
structure Acceptable (e : Engine) (outside : Outside) (op : UserOperation) (userOpHash : Hex)
    (operation : WalletOperation) (shown : SessionSignature) : Prop where
  /-- the signature is addressed to this validator -/
  addressed : Address.Agrees ⟨op.signature.take 20⟩ e.config.validatorAddress
  decoded : WalletOperation.decode op.callData = .ok operation
  shows : SessionSignature.decode operation.mode (op.signature.drop 20) = .ok shown
  /-- there is a session for each call, and at least one call -/
  count : shown.entries.length = operation.calls.length
  nonempty : operation.calls ≠ []
  /-- the operator signed the operation for this validator -/
  signed : ∃ message recovered,
    operatorMessageHash userOpHash e.config.validatorAddress = .ok message ∧
    recoverSigner? message shown.operatorSignature = some recovered ∧ recovered.Agrees shown.operator
  permit : ∀ permit, shown.permit = some permit →
    permit.IsUsable e outside op.sender shown.operator
  covered : IsCovered op shown.operator (operation.calls.zip shown.entries)
    (permissionInForce e.store op.sender shown.operator shown.permit)
    (limitsInForce e.store op.sender shown.operator shown.permit)
    (e.store.usesOfSession op.sender shown.operator)

/-- An operation that is ready is accepted if its operator signed it and it can be settled. -/
theorem PreparedOperation.accepts_iff_settles {p : PreparedOperation}
    {permit : Option VerifiedPermit} {simulate : Bool} {s : Store} :
    (∃ d, (p.finish permit simulate s).result = .ok d ∧ d.failed = false) ↔
      p.signatureValid = true ∧ ∃ r, p.settle permit s = .ok r := by
  rw [finish_eq]
  constructor
  · rintro ⟨d, h, accepted⟩
    cases hs : p.settle permit s with
    | error f =>
      rw [hs] at h
      cases h
    | ok r =>
      rw [hs] at h
      cases signed : p.signatureValid with
      | true => exact ⟨rfl, r, rfl⟩
      | false =>
        rw [signed] at h
        cases h
        cases accepted
  · rintro ⟨signed, ⟨s', w⟩, settled⟩
    rw [settled, signed]
    refine ⟨.valid w, ?_, rfl⟩
    cases simulate with
    | true => rfl
    | false => rfl

/-- An operation is accepted if it can be made ready, its operator signed it, and it can be
settled. -/
theorem Engine.accepts_iff_settles {e : Engine} {outside : Outside} {op : UserOperation}
    {userOpHash : Hex} {simulate : Bool} :
    (∃ d, (e.validateSignature outside op userOpHash simulate).result = .ok d ∧ d.failed = false) ↔
      ∃ p permit, e.prepare op userOpHash = .ok p ∧ e.verifiedPermit outside p = .ok permit ∧
        p.signatureValid = true ∧ ∃ r, p.settle permit e.store = .ok r := by
  unfold validateSignature
  cases hr : e.ready outside op userOpHash with
  | error f =>
    simp only [Outcome.unchanged]
    constructor
    · rintro ⟨d, h, -⟩
      cases h
    · rintro ⟨p, permit, prepared, verified, -⟩
      rw [Engine.ready_eq_ok.2 ⟨prepared, verified⟩] at hr
      cases hr
  | ok x =>
    obtain ⟨p, permit⟩ := x
    obtain ⟨prepared, verified⟩ := Engine.ready_eq_ok.1 hr
    simp only [PreparedOperation.accepts_iff_settles]
    constructor
    · rintro ⟨signed, settles⟩
      exact ⟨p, permit, prepared, verified, signed, settles⟩
    · rintro ⟨q, granted, hq, hg, signed, settles⟩
      have same := Engine.ready_eq_ok.2 ⟨hq, hg⟩
      rw [hr] at same
      cases same
      exact ⟨signed, settles⟩

/-- A permit that is carried can be verified and installed if it is usable, and then what it grants
is in force. -/
theorem Engine.exists_installed {e : Engine} {outside : Outside} {p : PreparedOperation}
    {motive : OperatorPermission → Limits → Uses → Prop} :
    (∃ permit s₁, e.verifiedPermit outside p = .ok permit ∧ p.installPermit permit e.store = .ok s₁ ∧
        motive (s₁.permission p.op.sender p.operator) (s₁.spendingLimit? p.op.sender p.operator)
          (s₁.usesOfSession p.op.sender p.operator)) ↔
      (∀ permit, p.permit = some permit → permit.IsUsable e outside p.op.sender p.operator) ∧
        motive (permissionInForce e.store p.op.sender p.operator p.permit)
          (limitsInForce e.store p.op.sender p.operator p.permit)
          (e.store.usesOfSession p.op.sender p.operator) := by
  cases hp : p.permit with
  | none =>
    have verified : ∀ permit, e.verifiedPermit outside p = .ok permit ↔ permit = none := by
      intro permit
      rw [verifiedPermit_eq_ok, hp]
    simp only [verified]
    constructor
    · rintro ⟨_, s₁, rfl, ⟨⟩, holds⟩
      exact ⟨by simp, holds⟩
    · rintro ⟨-, holds⟩
      exact ⟨none, e.store, rfl, rfl, holds⟩
  | some grant =>
    have verified : ∀ permit, e.verifiedPermit outside p = .ok permit ↔
        ∃ request, PermitRequest.ofPermit e.config.chainId e.store e.registry p.op.sender p.operator
            grant = .ok request ∧
          answer outside p request = .ok true ∧
          permit = some ⟨grant, request.hash, request.nonce⟩ := by
      intro permit
      rw [verifiedPermit_eq_ok, hp]
    simp only [verified, Option.some.injEq, forall_eq']
    constructor
    · rintro ⟨_, s₁, ⟨request, asked, approved, rfl⟩, installed, holds⟩
      obtain ⟨-, -, window, rfl⟩ := VerifiedPermit.install_eq_ok.1 installed
      obtain ⟨permission, limits, uses⟩ := VerifiedPermit.inForce_installed
        ⟨grant, request.hash, request.nonce⟩ e.store p.op.sender p.operator
      rw [permission, limits, uses] at holds
      exact ⟨Permit.isUsable_iff.2 ⟨⟨request, asked, approved⟩, window⟩, holds⟩
    · rintro ⟨usable, holds⟩
      obtain ⟨⟨request, asked, approved⟩, window⟩ := Permit.isUsable_iff.1 usable
      obtain ⟨hash, addressed, v, -, unused, -, -, -, rfl⟩ := PermitRequest.ofPermit_eq_ok.1 asked
      obtain ⟨permission, limits, uses⟩ := VerifiedPermit.inForce_installed
        ⟨grant, hash, e.store.permitNonce p.op.sender p.operator⟩ e.store p.op.sender p.operator
      refine ⟨_, _, ⟨_, asked, approved, rfl⟩,
        VerifiedPermit.install_eq_ok.2 ⟨rfl, unused, window, rfl⟩, ?_⟩
      rw [permission, limits, uses]
      exact holds

/-- An operation is accepted exactly if it is acceptable: all that the engine checks call by call
comes to conditions on the batch as a whole. The uses of sessions are counted up to each use; where
sessions of one leaf have one limit, that comes to all uses of the batch being within the limits. -/
theorem validation_accepts_iff :
    (∀ (e : Engine) (outside : Outside) (op : UserOperation) (userOpHash : Hex) (simulate : Bool),
      (∃ d, (e.validateSignature outside op userOpHash simulate).result = .ok d ∧ d.failed = false) ↔
        ∃ operation shown, Acceptable e outside op userOpHash operation shown) ∧
    (∀ (s : Store) (wallet operator : Address) (sessions : List Session),
      Uses.OneLimit sessions →
        (Uses.EachWithin (s.usesOfSession wallet operator) sessions ↔
          Uses.AllWithin (s.usesOfSession wallet operator) sessions)) := by
  refine ⟨?_, fun s wallet operator sessions one =>
    Uses.each_iff_all (s.byKey_usesOfSession wallet operator) one⟩
  intro e outside op userOpHash simulate
  rw [Engine.accepts_iff_settles]
  unfold Engine.prepare
  simp only [PreparedOperation.ofOperation_eq_ok]
  constructor
  · rintro ⟨p, permit, ⟨operation, shown, message, addressed, decoded, shows, count, hashed, rfl⟩,
      verified, signed, settles⟩
    have nonempty := WalletOperation.calls_ne_nil decoded
    obtain ⟨s₁, installed, covered⟩ :=
      (PreparedOperation.exists_settle (zip_ne_nil nonempty count)).1 settles
    obtain ⟨usable, covered⟩ := Engine.exists_installed.1 ⟨permit, s₁, verified, installed, covered⟩
    obtain ⟨recovered, recovers, agrees⟩ := isSignedBy_eq_true.1 signed
    exact ⟨operation, shown, addressed, decoded, shows, count, nonempty,
      ⟨message, recovered, hashed, recovers, agrees⟩, usable, covered⟩
  · rintro ⟨operation, shown, h⟩
    obtain ⟨message, recovered, hashed, recovers, agrees⟩ := h.signed
    obtain ⟨permit, s₁, verified, installed, covered⟩ := Engine.exists_installed
      (p := ⟨op, shown.operator, isSignedBy message shown.operatorSignature shown.operator,
        operation.calls.zip shown.entries, shown.permit⟩)
      (motive := IsCovered op shown.operator (operation.calls.zip shown.entries)).2
      ⟨h.permit, h.covered⟩
    refine ⟨_, permit,
      ⟨operation, shown, message, h.addressed, h.decoded, h.shows, h.count, hashed, rfl⟩, verified,
      isSignedBy_eq_true.2 ⟨recovered, recovers, agrees⟩, ?_⟩
    exact (PreparedOperation.exists_settle (zip_ne_nil h.nonempty h.count)).2 ⟨s₁, installed, covered⟩

/-- For one session that is used twice the two ways of counting come to the same. -/
theorem twice_each_iff_all :
    let session : Session := ⟨.zero, .empty, .empty, .zero, 0, 0, 2⟩
    let uses : Uses := Store.empty.usesOfSession .zero .zero
    uses.EachWithin [session, session] ↔ uses.AllWithin [session, session] := by
  intro session uses
  have one : Uses.OneLimit [session, session] := by
    intro a ha b hb leaf _ _
    simp only [List.mem_cons, List.not_mem_nil, or_false, or_self] at ha hb
    rw [ha, hb]
  exact validation_accepts_iff.2 .empty .zero .zero _ one

end SessionKeys
