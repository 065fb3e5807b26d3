import SessionKeys.Proofs.Amounts
import SessionKeys.Proofs.ServerSteps

/-!
The states of a server. Whatever tools are called, all that happens to the store is that sound changes are
made and that operations of the configured wallet are settled (`Store.Serves`): the readers see to the
amounts, the registry sees to the wallet, and a permit is not verified unless it can be hashed. What these
two keep holds in every state (`Store.WellFormed`). Main statement: `server_state_wellFormed`.
-/

namespace SessionKeys

/-! ### Elementary writes -/

/-- What is kept by everything that can be written for an operator of a wallet. -/
structure Store.KeptByWrites (motive : Store → Prop) (wallet operator : Address) : Prop where
  permission : ∀ s p, motive s → motive (s.setPermission wallet operator p)
  limit : ∀ s token info, motive s → motive (s.setSpendingLimit wallet operator token info)
  noLimit : ∀ s token, motive s → motive (s.deleteSpendingLimit wallet operator token)
  nonce : ∀ s, motive s → motive (s.incrementPermitNonce wallet operator)
  used : ∀ s hash, motive s → motive (s.markHashUsed wallet hash)
  uses : ∀ s leaf, motive s →
    motive (s.setUsesOfSession wallet operator leaf (s.usesOfSession wallet operator leaf + 1))

namespace Store.KeptByWrites

variable {motive : Store → Prop} {wallet operator : Address} {s s' : Store}

theorem startSpendingLimits (writes : KeptByWrites motive wallet operator) (holds : motive s)
    (limits : List SpendingLimit) : motive (s.startSpendingLimits wallet operator limits) := by
  unfold Store.startSpendingLimits
  induction limits generalizing s with
  | nil => exact holds
  | cons l rest ih => exact ih (writes.limit s l.token _ holds)

/-- It is kept by every change of the owner. -/
theorem apply (writes : KeptByWrites motive wallet operator) {call : ManagementCall}
    {events : List Event} (isFor : call.IsFor wallet operator)
    (applied : call.apply s = .ok (s', events)) (holds : motive s) : motive s' := by
  cases call with
  | setSessionRoot | setOperatorRemainingGas | setOperatorRemainingTimes =>
    obtain ⟨rfl, rfl⟩ := isFor
    cases applied
    exact writes.permission s _ holds
  | setOperatorPermission =>
    obtain ⟨rfl, rfl⟩ := isFor
    obtain ⟨-, -, done⟩ := bind_eq_ok.1 applied
    cases done
    exact writes.permission s _ holds
  | setSpendingLimit =>
    obtain ⟨rfl, rfl⟩ := isFor
    cases applied
    exact writes.limit s _ _ holds
  | batchSetSpendingLimit =>
    obtain ⟨rfl, rfl⟩ := isFor
    cases applied
    exact writes.startSpendingLimits holds _
  | resetSpendingLimit =>
    obtain ⟨rfl, rfl⟩ := isFor
    simp only [ManagementCall.apply] at applied
    split at applied
    · cases applied
      exact holds
    · cases applied
      exact writes.limit s _ _ holds
  | deleteSpendingLimit =>
    obtain ⟨rfl, rfl⟩ := isFor
    simp only [ManagementCall.apply] at applied
    split at applied
    · cases applied
      exact holds
    · cases applied
      exact writes.noLimit s _ holds
  | revokeSignature =>
    obtain rfl : _ = wallet := isFor
    cases applied
    exact writes.used s _ holds

theorem consumeSessionUse (writes : KeptByWrites motive wallet operator) {session : Session}
    (counted : s.consumeSessionUse wallet operator session = .ok s') (holds : motive s) : motive s' := by
  rcases consumeSessionUse_cases counted with ⟨-, rfl⟩ | ⟨leaf, -, -, -, rfl⟩
  · exact holds
  · exact writes.uses s leaf holds

theorem consumeAllowances (writes : KeptByWrites motive wallet operator) {spends : List TokenSpend}
    (charged : spends.foldlM (fun s spend => s.consumeAllowance wallet operator spend) s = .ok s')
    (holds : motive s) : motive s' := by
  induction spends generalizing s with
  | nil =>
    cases charged
    exact holds
  | cons spend rest ih =>
    rw [List.foldlM_cons] at charged
    obtain ⟨s₁, first, others⟩ := bind_eq_ok.1 charged
    refine ih others ?_
    unfold consumeAllowance at first
    split at first
    · cases first
      exact holds
    · obtain ⟨info, -, done⟩ := bind_eq_ok.1 first
      cases done
      exact writes.limit s _ info holds

theorem settleCalls {c : CallContext} (writes : KeptByWrites motive c.wallet c.operator) {index : Nat}
    {steps : List (WalletCall × SessionEntry)} {w w' : ValidityWindow}
    (settled : c.settleCalls index steps s w = .ok (s', w')) (holds : motive s) : motive s' := by
  induction steps generalizing index s w with
  | nil =>
    cases settled
    exact holds
  | cons step rest ih =>
    obtain ⟨call, shown⟩ := step
    obtain ⟨s₁, one, others⟩ := bind_eq_ok.1 settled
    obtain ⟨w₁, -, others⟩ := bind_eq_ok.1 others
    obtain ⟨-, -, one⟩ := bind_eq_ok.1 one
    obtain ⟨s₂, used, charged⟩ := bind_eq_ok.1 one
    obtain ⟨spends, -, charged⟩ := bind_eq_ok.1 charged
    exact ih others (writes.consumeAllowances (orFail_eq_ok.1 charged) (writes.consumeSessionUse used holds))

/-- It is kept by every operation of the operator. -/
theorem settle {p : PreparedOperation} (writes : KeptByWrites motive p.op.sender p.operator)
    {permit : Option VerifiedPermit} {w : ValidityWindow} (settled : p.settle permit s = .ok (s', w))
    (holds : motive s) : motive s' := by
  obtain ⟨s₁, s₂, installed, -, paid, calls⟩ := PreparedOperation.settle_eq_ok.1 settled
  have granted : motive s₁ := by
    cases permit with
    | none =>
      cases installed
      exact holds
    | some v =>
      obtain ⟨-, -, -, rfl⟩ := VerifiedPermit.install_eq_ok.1 installed
      exact writes.startSpendingLimits
        (writes.permission _ _ (writes.nonce _ (writes.used _ v.hash holds))) _
  obtain ⟨left, rfl⟩ := exists_of_consumeBudget paid
  exact settleCalls (c := ⟨p.op.sender, p.operator, _, p.op.paymaster⟩) writes calls
    (writes.permission s₁ left granted)

end Store.KeptByWrites

/-! ### What a server does to its store -/

/-- A permit grants nothing that is out of bounds. -/
structure VerifiedPermit.IsSound (v : VerifiedPermit) : Prop where
  times : v.permit.permission.window.HasTimes
  budgets : v.permit.permission.HasBudgets
  allowances : ∀ l ∈ v.permit.spendingLimits, 0 ≤ l.allowance

/-- What calls of tools may do to the store of a wallet, and the events that report it. -/
inductive Store.Serves (wallet : Address) : Store → Store → List Event → Prop
  | idle (s : Store) : Serves wallet s s []
  /-- a sound change is made -/
  | manages {s s' : Store} {call : ManagementCall} {events : List Event} (sound : call.IsSound wallet)
      (applied : call.apply s = .ok (s', events)) : Serves wallet s s' events
  /-- an operation of the wallet is settled, with a sound permit if there is one -/
  | settles {s s' : Store} {p : PreparedOperation} {permit : Option VerifiedPermit}
      {window : ValidityWindow} (own : p.op.sender.key = wallet.key) (nonneg : p.op.HasNonnegGas)
      (sound : ∀ v, permit = some v → v.IsSound) (settled : p.settle permit s = .ok (s', window)) :
      Serves wallet s s' (p.permitEvents permit)
  | trans {s s' s'' : Store} {events more : List Event} (first : Serves wallet s s' events)
      (second : Serves wallet s' s'' more) : Serves wallet s s'' (events ++ more)

/-- A permit that was verified could be hashed, and was read from a signature. -/
theorem Engine.isSound_of_ready {e : Engine} {outside : Outside} {op : UserOperation} {userOpHash : Hex}
    {p : PreparedOperation} {v : VerifiedPermit} (made : e.ready outside op userOpHash = .ok (p, some v)) :
    v.IsSound := by
  obtain ⟨prepared, verified⟩ := ready_eq_ok.1 made
  obtain ⟨operation, shown, message, -, -, shows, -, -, rfl⟩ :=
    PreparedOperation.ofOperation_eq_ok.1 prepared
  rw [verifiedPermit_eq_ok] at verified
  cases carried : shown.permit with
  | none =>
    simp only [carried] at verified
    cases verified
  | some grant =>
    simp only [carried] at verified
    obtain ⟨request, asked, -, same⟩ := verified
    cases same
    obtain ⟨_, hashed⟩ := PermitRequest.exists_hash_of_ofPermit asked
    exact ⟨OperatorPermission.hasTimes_of_hash hashed, OperatorPermission.hasBudgets_of_hash hashed,
      SessionSignature.nonneg_allowance shows carried⟩

/-- A validation settles an operation that was routed to the session-key validator, or writes nothing. -/
theorem Engine.tryValidateUserOp_cases (e : Engine) (outside : Outside) (op : UserOperation)
    (userOpHash : Hex) (simulate : Bool) :
    let o := e.tryValidateUserOp outside op userOpHash simulate
    (o.store = e.store ∧ o.events = []) ∨
      ∃ routed p permit window, e.registry.route op = .ok routed ∧
        e.ready outside op userOpHash = .ok (p, permit) ∧
        p.settle permit e.store = .ok (o.store, window) ∧ o.events = p.permitEvents permit := by
  unfold tryValidateUserOp validateRouted
  cases route : e.registry.route op with
  | error f => exact .inl ⟨rfl, rfl⟩
  | ok routed =>
    obtain ⟨address, v⟩ := routed
    cases v with
    | external | ecdsa => exact .inl ⟨rfl, rfl⟩
    | sessionKeys =>
      rcases e.validateSignature_cases outside op userOpHash simulate with
        ⟨result, ends, -⟩ | ⟨p, permit, s, window, ready, settled, ends⟩
      · simp only [ends]
        exact .inl ⟨rfl, rfl⟩
      · simp only [ends]
        cases simulate with
        | true => exact .inl ⟨rfl, rfl⟩
        | false => exact .inr ⟨_, p, permit, window, rfl, ready, settled, rfl⟩

namespace Engine

variable {env : Environment} {config : Config} {op : UserOperation}

/-- A validator is enabled on no wallet but the configured one. -/
theorem wallet_of_class? (loaded : Config.load env = .ok config) {wallet address : Address}
    (written : address.IsWritten) {c : ValidatorClass}
    (enabled : (initialRegistry config).class? wallet address = some c) :
    wallet.key = config.walletAddress.key := by
  obtain ⟨-, hvalidator, hsudo⟩ := Config.isWritten_of_load loaded
  obtain ⟨word, own⟩ := written.exists_key
  have of_row : ∀ {a : Address}, a.IsWritten →
      config.walletAddress.key ++ a.key = wallet.key ++ address.key →
      wallet.key = config.walletAddress.key := by
    intro a ha same
    obtain ⟨word', own'⟩ := ha.exists_key
    rw [own, own', List.append_singleton_inj] at same
    exact same.1.symm
  have keys : (({} : Registry).enable config.walletAddress config.validatorAddress .sessionKeys
      .normal).enabled.find? (wallet.key ++ address.key) = some c →
        wallet.key = config.walletAddress.key := by
    intro found
    rw [Registry.enabled_enable, Table.find?_put] at found
    split at found
    next same => exact of_row hvalidator same
    next =>
      rw [show ({} : Registry).enabled = ∅ from rfl, Table.find?_empty] at found
      cases found
  unfold initialRegistry Registry.class? at enabled
  cases configured : ownerValidator? config with
  | none =>
    rw [configured] at enabled
    exact keys enabled
  | some x =>
    obtain ⟨signer, owner⟩ := x
    simp only [configured, Registry.enabled_enable _ _ signer, Table.find?_put] at enabled
    split at enabled
    next same => exact of_row (hsudo signer (ownerValidator?_eq_some.1 configured).2) same
    next => exact keys enabled

/-- An operation is routed to a validator only if its sender is the configured wallet. -/
theorem sender_of_route (loaded : Config.load env = .ok config) {routed : Address × Validator}
    (route : (initialRegistry config).route op = .ok routed) :
    op.sender.key = config.walletAddress.key := by
  obtain ⟨addressed, split, found⟩ := bind_eq_ok.1 route
  unfold splitValidatorSignature at split
  simp only [throw_eq_error, error_bind, error_ite_eq_ok, bind_eq_ok, pure_eq_ok, orFail_eq_ok] at split
  obtain ⟨-, named, read, done⟩ := split
  cases done
  obtain ⟨bytes, hbytes, rfl⟩ := Address.ofHex_eq_ok.1 read
  split at found
  next v c known enabled =>
    exact wallet_of_class? loaded ⟨bytes, (Address.bytes?_eq_some_iff.1 hbytes).2, rfl⟩ enabled
  next => cases found

end Engine

/-! ### Requests -/

namespace Engine

variable {e : Engine} {request : ToolRequest}

/-- A request is a validation, or makes the changes that it asks for until one of them is refused. -/
theorem run_cases (e : Engine) (request : ToolRequest) :
    (∃ text, e.run request = e.change request.tool (request.changes e.config.walletAddress) text) ∨
      ∃ op commit, request = .validateUserOp op commit ∧ e.run request = e.runValidation op commit := by
  cases request with
  | validateUserOp op commit => exact .inr ⟨op, commit, rfl, rfl⟩
  | buildSessionTree sessions => exact .inl ⟨fun _ => treeText sessions, rfl⟩
  | checkArguments session target data value arguments =>
    exact .inl ⟨fun _ => checkText session target data value arguments, rfl⟩
  | getOperatorPermission operator => exact .inl ⟨fun e => e.permissionText operator, rfl⟩
  | getSpendingLimit operator tokens =>
    let asked := tokens.getD []
    exact .inl ⟨fun e => .ok (e.limitsText operator (if asked.isEmpty then [Address.zero] else asked)), rfl⟩
  | getPermitHash operator permission limits =>
    exact .inl ⟨fun e => e.permitHashText operator permission limits, rfl⟩
  | setSessionRoot | setOperatorPermission | revokeSignature => exact .inl ⟨_, rfl⟩
  | setSpendingLimit operator token allowance action =>
    unfold run ToolRequest.changes
    simp only
    cases limitCall e.config.walletAddress operator (token.getD Address.zero) allowance action with
    | error f => exact .inl ⟨fun _ => .error f, rfl⟩
    | ok call => exact .inl ⟨_, rfl⟩

/-- A request changes nothing of an engine but its store. -/
theorem run_engine (e : Engine) (request : ToolRequest) :
    (e.run request).engine = { e with store := (e.run request).engine.store } := by
  have runs := e.runs_run request
  generalize e.run request = r at runs
  cases runs with
  | keeps answer => rfl
  | changes text applied other =>
    obtain ⟨x, -, done⟩ := bind_eq_ok.1 applied
    cases done
    rfl
  | carriesOut answer carried => cases carried <;> rfl

theorem serves_change {wallet : Address} {tool : Tool} {calls : List ManagementCall}
    {text : Engine → Except Failure String} (sound : ∀ call ∈ calls, call.IsSound wallet) :
    Store.Serves wallet e.store (e.change tool calls text).engine.store
      (e.change tool calls text).events := by
  induction calls generalizing e with
  | nil => exact .idle _
  | cons call rest ih =>
    cases applied : e.manage call with
    | error refusal =>
      rw [change, applied]
      exact .idle _
    | ok x =>
      obtain ⟨next, events⟩ := x
      obtain ⟨⟨s, reported⟩, made, done⟩ := bind_eq_ok.1 applied
      cases done
      rw [change_cons applied]
      have later := ih (e := { e with store := s })
        fun other ho => sound other (List.mem_cons_of_mem call ho)
      exact .trans (.manages (sound call List.mem_cons_self) made) later

theorem serves_run {env : Environment} {config : Config} (loaded : Config.load env = .ok config)
    (own : e.config = config) (registry : e.registry = initialRegistry config)
    (sound : request.IsSound) :
    Store.Serves config.walletAddress e.store (e.run request).engine.store (e.run request).events := by
  rcases e.run_cases request with ⟨text, ran⟩ | ⟨op, commit, rfl, ran⟩
  · rw [ran]
    exact serves_change (own ▸ sound.changes _)
  · rw [ran]
    unfold runValidation
    split
    · exact .idle _
    next hash hashed =>
      rcases e.tryValidateUserOp_cases .silent op hash (!commit) with
        ⟨store, events⟩ | ⟨routed, p, permit, window, route, made, settled, events⟩
      · simp only [store, events]
        exact .idle _
      · simp only [events]
        have sender : p.op = op := by
          obtain ⟨_, _, _, -, -, -, -, -, rfl⟩ :=
            PreparedOperation.ofOperation_eq_ok.1 (ready_eq_ok.1 made).1
          rfl
        refine .settles ?_ ?_ ?_ settled
        · rw [sender]
          exact sender_of_route loaded (registry ▸ route)
        · rw [sender]
          exact sound
        · rintro v rfl
          exact isSound_of_ready made

end Engine

namespace Server

/-- The events that a server reports while it answers some calls. -/
def log (e : Engine) (seen : List ToolCall) : List Event :=
  (calls e seen).1.flatMap Prod.snd

theorem serves_calls {env : Environment} {config : Config} (loaded : Config.load env = .ok config)
    {e : Engine} (own : e.config = config) (registry : e.registry = Engine.initialRegistry config)
    (seen : List ToolCall) :
    Store.Serves config.walletAddress e.store (calls e seen).2.store (log e seen) := by
  induction seen generalizing e with
  | nil => exact .idle _
  | cons c rest ih =>
    rcases call_cases e c with ⟨-, same, silent⟩ | ⟨tool, request, read, -, ran⟩
    · have later := ih own registry
      simp only [log, calls, List.flatMap_cons, same, silent, List.nil_append]
      exact later
    · have fixed := e.run_engine request
      have now := Engine.serves_run loaded own registry (ToolRequest.isSound_of_reader read)
      have later := ih (e := (e.run request).engine) (by rw [fixed]; exact own)
        (by rw [fixed]; exact registry)
      simp only [log, calls, List.flatMap_cons, ran]
      exact .trans now later

end Server

/-! ### Well-formed stores -/

theorem Table.find?_put_cases {α : Type} {t : Table α} {place row : List (List Char)} {value found : α}
    (h : (t.put place value).find? row = some found) :
    (row = place ∧ found = value) ∨ t.find? row = some found := by
  rw [find?_put] at h
  split at h
  next same => exact .inl ⟨same.symm, (Option.some.inj h).symm⟩
  next => exact .inr h

theorem Table.find?_of_find?_remove {α : Type} {t : Table α} {place row : List (List Char)} {found : α}
    (h : (t.remove place).find? row = some found) : t.find? row = some found := by
  rw [find?_remove] at h
  split at h
  · cases h
  · exact h

namespace Store

/-- Every record belongs to a wallet: it is filed under the wallet, and then an operator or a hash. -/
structure BelongsTo (s : Store) (wallet : Address) : Prop where
  permissions : ∀ row p, s.permissions.find? row = some p → ∃ operator, row = permissionRow wallet operator
  limits : ∀ row info, s.spendingLimits.find? row = some info →
    ∃ operator token, row = limitRow wallet operator token
  nonces : ∀ row n, s.permitNonces.find? row = some n → ∃ operator, row = permissionRow wallet operator
  hashes : ∀ row u, s.usedHashes.find? row = some u → ∃ hash : Hex, row = wallet.key ++ hash.key
  uses : ∀ row n, s.sessionUses.find? row = some n → ∃ operator leaf, row = useRow wallet operator leaf

/-- Every session that is counted was used. -/
def HasPositiveUses (s : Store) : Prop :=
  ∀ row n, s.sessionUses.find? row = some n → 1 ≤ n

theorem keptByWrites_belongsTo {w wallet : Address} (same : w.key = wallet.key) (operator : Address) :
    KeptByWrites (·.BelongsTo wallet) w operator where
  permission s p own :=
    { own with
      permissions := fun row q found => by
        rcases Table.find?_put_cases found with ⟨rfl, -⟩ | before
        · exact ⟨operator, congrArg (· ++ operator.key) same⟩
        · exact own.permissions row q before }
  limit s token info own :=
    { own with
      limits := fun row other found => by
        rcases Table.find?_put_cases found with ⟨rfl, -⟩ | before
        · exact ⟨operator, token, congrArg (· ++ operator.key ++ token.key) same⟩
        · exact own.limits row other before }
  noLimit s token own :=
    { own with limits := fun row info found => own.limits row info (Table.find?_of_find?_remove found) }
  nonce s own :=
    { own with
      nonces := fun row n found => by
        rcases Table.find?_put_cases found with ⟨rfl, -⟩ | before
        · exact ⟨operator, congrArg (· ++ operator.key) same⟩
        · exact own.nonces row n before }
  used s hash own :=
    { own with
      hashes := fun row u found => by
        rcases Table.find?_put_cases found with ⟨rfl, -⟩ | before
        · exact ⟨hash, congrArg (· ++ hash.key) same⟩
        · exact own.hashes row u before }
  uses s leaf own :=
    { own with
      uses := fun row n found => by
        rcases Table.find?_put_cases found with ⟨rfl, -⟩ | before
        · exact ⟨operator, leaf, congrArg (· ++ operator.key ++ leaf.key) same⟩
        · exact own.uses row n before }

theorem keptByWrites_hasPositiveUses (wallet operator : Address) :
    KeptByWrites HasPositiveUses wallet operator where
  permission _ _ positive := positive
  limit _ _ _ positive := positive
  noLimit _ _ positive := positive
  nonce _ positive := positive
  used _ _ positive := positive
  uses s leaf positive row n found := by
    rcases Table.find?_put_cases found with ⟨rfl, rfl⟩ | before
    · unfold usesOfSession
      cases used : s.sessionUses.find? (wallet.key ++ operator.key ++ leaf.key) with
      | none => exact Int.le_refl 1
      | some m =>
        have := positive _ m used
        rw [Option.getD_some]
        omega
    · exact positive row n before

end Store

/-- What is granted is within its bounds, and the window is not empty. -/
structure OperatorPermission.IsSound (p : OperatorPermission) : Prop where
  times : p.window.HasTimes
  nonempty : ¬p.window.IsEmpty
  budgets : p.HasBudgets

theorem OperatorPermission.isSound_empty : OperatorPermission.empty.IsSound :=
  ⟨ValidityWindow.hasTimes_unbounded, by decide, hasBudgets_empty⟩

/-- Every permission that is filed is sound. -/
def Store.HasSoundPermissions (s : Store) : Prop :=
  ∀ row, (s.permissionIn row).IsSound

/-- A sound change leaves sound permissions. -/
theorem ManagementCall.IsSound.permissions {call : ManagementCall} {wallet : Address} {s s' : Store}
    {events : List Event} (sound : call.IsSound wallet) (applied : call.apply s = .ok (s', events))
    (before : s.HasSoundPermissions) : s'.HasSoundPermissions := by
  have budgets := hasBudgets_apply applied (fun row => (before row).budgets) sound.budgets
  rcases permissions_apply applied with same | ⟨w, operator, p, rfl, -, -, window⟩
  · intro row
    rw [Store.permissionIn_congr same]
    exact before row
  · refine Store.forall_permissionIn_setPermission (P := (·.IsSound)) before ?_ w operator
    have filed := s.permissionIn_setPermission w operator p (permissionRow w operator)
    rw [if_pos rfl] at filed
    have fits := filed ▸ budgets (permissionRow w operator)
    rcases window with kept | rfl
    · have old := before (permissionRow w operator)
      exact ⟨kept ▸ old.times, kept ▸ old.nonempty, fits⟩
    · obtain ⟨⟨⟩, checked, -⟩ := bind_eq_ok.1 applied
      exact ⟨sound.times w operator p rfl, (error_ite_eq_ok.1 checked).1, fits⟩

/-- An operation leaves sound permissions, if the permit is sound. -/
theorem PreparedOperation.soundPermissions_settle {p : PreparedOperation}
    {permit : Option VerifiedPermit} {s s' : Store} {window : ValidityWindow}
    (settled : p.settle permit s = .ok (s', window)) (nonneg : p.op.HasNonnegGas)
    (sound : ∀ v, permit = some v → v.IsSound) (before : s.HasSoundPermissions) :
    s'.HasSoundPermissions := by
  have inForce : (p.permissionInForce permit s).IsSound := by
    obtain ⟨s₁, s₂, installed, -⟩ := settle_eq_ok.1 settled
    cases permit with
    | none => exact before p.operatorRow
    | some v =>
      obtain ⟨-, -, nonempty, -⟩ := VerifiedPermit.install_eq_ok.1 installed
      exact ⟨(sound v rfl).times, nonempty, (sound v rfl).budgets⟩
  obtain ⟨left, charged, filed⟩ := permissionIn_settle settled
  have paid := OperatorPermission.pays_afterOperation inForce.budgets nonneg.maxFee charged
  obtain ⟨-, -, rfl⟩ := OperatorPermission.afterOperation_eq_ok.1 charged
  intro row
  rw [filed]
  split
  · exact ⟨inForce.times, inForce.nonempty, paid.hasBudgets⟩
  · exact before row

/-- What is filed for a wallet is in order. -/
structure Store.WellFormed (s : Store) (wallet : Address) : Prop where
  belongs : s.BelongsTo wallet
  permissions : s.HasSoundPermissions
  caps : s.KeepsCaps
  uses : s.HasPositiveUses

theorem Store.wellFormed_empty (wallet : Address) : Store.empty.WellFormed wallet where
  belongs := by
    constructor <;> intro row _ found <;> cases (Table.find?_empty row).symm.trans found
  permissions row := by
    rw [permissionIn, show empty.permissions = ∅ from rfl, Table.find?_empty]
    exact OperatorPermission.isSound_empty
  caps row info found := by cases (Table.find?_empty row).symm.trans found
  uses row n found := by cases (Table.find?_empty row).symm.trans found

namespace Store.Serves

variable {wallet : Address} {s s' : Store} {events : List Event}

/-- A server keeps its store in order. -/
theorem wellFormed (h : Serves wallet s s' events) (before : s.WellFormed wallet) :
    s'.WellFormed wallet := by
  induction h with
  | idle => exact before
  | manages sound applied =>
    obtain ⟨operator, isFor⟩ := sound.own
    exact ⟨(keptByWrites_belongsTo rfl operator).apply isFor applied before.belongs,
      sound.permissions applied before.permissions,
      ManagementCall.keepsCaps_apply applied before.caps sound.allowances,
      (keptByWrites_hasPositiveUses wallet operator).apply isFor applied before.uses⟩
  | @settles s s' p permit window own nonneg sound settled =>
    exact ⟨(keptByWrites_belongsTo own p.operator).settle settled before.belongs,
      PreparedOperation.soundPermissions_settle settled nonneg sound before.permissions,
      PreparedOperation.keepsCaps_settle settled before.caps fun v used => (sound v used).allowances,
      (keptByWrites_hasPositiveUses _ p.operator).settle settled before.uses⟩
  | trans _ _ first second => exact second (first before)

/-- The nonce of an operator goes up by the number of permits that are reported as consumed. -/
theorem permitNonce_eq (h : Serves wallet s s' events) (w o : Address) :
    s'.permitNonce w o = s.permitNonce w o + (events.filterMap (Event.nonceFor? w o)).length := by
  have counts : ∀ {s s' : Store} {events : List Event}, s.PermitStep s' events →
      s'.permitNonce w o = s.permitNonce w o + (events.filterMap (Event.nonceFor? w o)).length := by
    intro s s' events step
    obtain ⟨count, nonce, consumed⟩ := step.nonces w o
    rw [nonce, consumed, List.length_range']
  induction h with
  | idle => rfl
  | manages _ applied => exact counts (permitStep_of_apply applied)
  | settles _ _ _ settled => exact counts (permitStep_of_settle settled)
  | trans _ _ first second =>
    rw [second, first, List.filterMap_append, List.length_append, Nat.add_assoc]

end Store.Serves

/-- **Every state of a server is well formed.** Take a server that was started from an environment, and any
calls of tools, whatever their arguments, whether they are accepted or refused, and whether they commit or
not. Every record belongs to the configured wallet; every permission has whole seconds of 48 bits as the
bounds of its window, which is not empty, and budgets of 128 bits; no limit is exceeded or negative; every
session that is counted was used; and the permit nonce of any operator is the number of its permits that
were consumed. -/
theorem server_state_wellFormed {env : Environment} {e : Engine} (started : Server.start env = .ok e)
    (seen : List ToolCall) :
    let last := (Server.calls e seen).2
    last.store.WellFormed e.config.walletAddress ∧
      ∀ wallet operator, last.store.permitNonce wallet operator =
        ((Server.log e seen).filterMap (Event.nonceFor? wallet operator)).length := by
  intro last
  obtain ⟨config, loaded, rfl⟩ : ∃ config, Config.load env = .ok config ∧ e = .ofConfig config := by
    unfold Server.start at started
    cases loaded : Config.load env with
    | error refusal =>
      rw [loaded] at started
      cases started
    | ok config =>
      rw [loaded] at started
      cases started
      exact ⟨config, rfl, rfl⟩
  have served := Server.serves_calls loaded (e := .ofConfig config) rfl rfl seen
  refine ⟨served.wellFormed (Store.wellFormed_empty _), fun wallet operator => ?_⟩
  have start : Store.empty.permitNonce wallet operator = 0 := by
    rw [Store.permitNonce, show Store.empty.permitNonces = ∅ from rfl, Table.find?_empty]
    rfl
  have counted := served.permitNonce_eq wallet operator
  rw [show (Engine.ofConfig config).store = .empty from rfl, start, Nat.zero_add] at counted
  exact counted

/-- A server without an owner is in order after a permit was revoked. -/
theorem wellFormed_after_revoked :
    let env : Environment := fun name =>
      if name = "WALLET_ADDRESS" then some "0x1000000000000000000000000000000000000001"
      else if name = "VALIDATOR_ADDRESS" then some "0x2000000000000000000000000000000000000002"
      else none
    let text := "0x5555555555555555555555555555555555555555555555555555555555555555"
    let c : ToolCall := ⟨"revoke_signature", some (.object [("hash", .string text)])⟩
    ∃ e, Server.start env = .ok e ∧
      let last := (Server.calls e [c]).2
      last.store.isHashUsed e.config.walletAddress (Hex.ofText text) = true ∧
        last.store.WellFormed e.config.walletAddress := by
  intro env text c
  let bytes : UInt8 → Bytes := fun n => 16 * n :: List.replicate 18 0 ++ [n]
  let config : Config :=
    ⟨.ofBytes (bytes 1), .ofBytes (bytes 2), .ofInt 1, Config.defaultEntryPoint, none, none⟩
  have loaded : Config.load env = .ok config := by
    have wallet : ∀ meaning, Config.requireAddress env "WALLET_ADDRESS" meaning =
        .ok config.walletAddress :=
      fun _ => Config.requireAddress_eq_ok.2 ⟨bytes 1, by decide +kernel, rfl⟩
    have validator : ∀ meaning, Config.requireAddress env "VALIDATOR_ADDRESS" meaning =
        .ok config.validatorAddress :=
      fun _ => Config.requireAddress_eq_ok.2 ⟨bytes 2, by decide +kernel, rfl⟩
    have chain : Config.parseChainId ((env "CHAIN_ID").getD "1") = .ok 1 := by decide +kernel
    have absent : ∀ name ∈ ["ENTRY_POINT_ADDRESS", "OWNER_ADDRESS", "SUDO_VALIDATOR_ADDRESS"],
        Config.optionalAddress env name = .ok none := by
      decide +kernel
    simp only [List.forall_mem_cons] at absent
    simp only [Config.load, wallet, validator, chain, absent.1, absent.2.1, absent.2.2.1, ok_bind]
    rfl
  have started : Server.start env = .ok (.ofConfig config) := by
    unfold Server.start
    rw [loaded]
    rfl
  refine ⟨_, started, ?_, (server_state_wellFormed started [c]).1⟩
  have asks : c.request? = some (.revokeSignature (Hex.ofText text)) := by decide +kernel
  rcases Server.call_cases (.ofConfig config) c with ⟨unread, -⟩ | ⟨tool, request, -, asked, ran⟩
  · rw [asks] at unread
    cases unread
  · rw [asks] at asked
    cases asked
    show (Server.call (.ofConfig config) c).engine.store.isHashUsed _ _ = true
    rw [ran]
    exact Store.isHashUsed_eq_true.2 (Store.isUsed_markHashUsed.2 (.inl rfl))

end SessionKeys
