import SessionKeys.Proofs.Acceptance
import SessionKeys.Proofs.Membership
import SessionKeys.Proofs.Permissions
import SessionKeys.Proofs.WalletCalldata
import SessionKeys.Proofs.WrittenSignatures

/-!
A batch and its calls one by one. While the budgets of an operator are unlimited, an operation writes
nothing but what its calls write (`CallPlan.Makes.validateSignature`), and settling several calls is
settling them one after the other and narrowing the window to all sessions
(`CallContext.settleCalls_iff`). So a batch does what operations with one call each do, except that the
windows of all its sessions have to share a moment. Main statement: `batch_iff_sequence`.
-/

namespace SessionKeys

/-! ### Unlimited budgets -/

/-- Neither the fees nor the number of the operations of an operator is limited. -/
structure OperatorPermission.IsUnlimited (p : OperatorPermission) : Prop where
  gas : p.gasRemaining = unlimited
  times : p.timesRemaining = unlimited

/-- Filing a permission that is there changes nothing. -/
theorem Store.setPermission_permission {s : Store} {wallet operator : Address}
    (granted : s.permission wallet operator ≠ .empty) :
    s.setPermission wallet operator (s.permission wallet operator) = s := by
  have filed : s.permissions.find? (wallet.key ++ operator.key) =
      some (s.permission wallet operator) := by
    unfold permission at granted ⊢
    cases found : s.permissions.find? (wallet.key ++ operator.key) with
    | none =>
      rw [found] at granted
      exact absurd rfl granted
    | some p => rfl
  have same : s.permissions.put (wallet.key ++ operator.key) (s.permission wallet operator) =
      s.permissions := by
    refine Table.ext fun row => ?_
    rw [Table.find?_put]
    split
    next here => rw [← here, filed]
    next => rfl
  unfold setPermission
  rw [same]

/-- An operation leaves unlimited budgets as they are. -/
theorem Store.consumeBudget_of_isUnlimited {s : Store} {wallet operator : Address} {op : UserOperation}
    (free : (s.permission wallet operator).IsUnlimited) (fee : op.maxFee ≤ unlimited) :
    s.consumeBudget wallet operator op = .ok s := by
  have granted : s.permission wallet operator ≠ .empty := by
    intro none
    have gas := free.gas
    rw [none] at gas
    cases gas
  have kept : (s.permission wallet operator).afterOperation op = .ok (s.permission wallet operator) := by
    obtain ⟨gas, times⟩ := free
    generalize s.permission wallet operator = p at gas times
    obtain ⟨root, pinned, validUntil, validAfter, gasLeft, timesLeft⟩ := p
    obtain rfl : gasLeft = unlimited := gas
    obtain rfl : timesLeft = unlimited := times
    unfold OperatorPermission.afterOperation
    have uses : unlimited ≠ 0 := by decide
    rw [if_neg (Int.not_lt.2 fee), if_neg uses]
    rfl
  unfold consumeBudget
  rw [kept, ok_bind, pure_eq_ok, setPermission_permission granted]

/-! ### Several calls -/

namespace CallContext

variable {c : CallContext} {s s' : Store}

/-- Settles calls one after the other, without a look at windows. -/
def settleEach (c : CallContext) (s : Store) (steps : List (WalletCall × SessionEntry)) :
    Except Failure Store :=
  steps.foldlM (fun s step => c.settleCall s 0 step.1 step.2) s

/-- In which place a call stands shows only in why it is refused. -/
theorem settleCall_index (index other : Nat) {call : WalletCall} {shown : SessionEntry} :
    c.settleCall s index call shown = .ok s' ↔ c.settleCall s other call shown = .ok s' := by
  unfold settleCall
  simp only [bind_eq_ok]
  refine exists_congr fun _ => and_congr_left fun _ => ?_
  exact (checkCall_eq_ok index).trans (checkCall_eq_ok other).symm

/-- Settling a call writes nothing to permissions. -/
theorem permission_settleCall {index : Nat} {call : WalletCall} {shown : SessionEntry}
    (settled : c.settleCall s index call shown = .ok s') (wallet operator : Address) :
    s'.permission wallet operator = s.permission wallet operator := by
  obtain ⟨-, -, settled⟩ := bind_eq_ok.1 settled
  obtain ⟨s₁, used, charged⟩ := bind_eq_ok.1 settled
  obtain ⟨spends, -, charged⟩ := bind_eq_ok.1 charged
  obtain ⟨_, rfl⟩ := Store.exists_of_consumeSessionUse used
  obtain ⟨_, rfl⟩ := Store.exists_of_consumeAllowances (orFail_eq_ok.1 charged)
  rfl

/-- Calls are settled with windows if they are settled one after the other, and the windows can be
narrowed. -/
theorem settleCalls_iff (index : Nat) {steps : List (WalletCall × SessionEntry)} {w : ValidityWindow} :
    (∃ w', c.settleCalls index steps s w = .ok (s', w')) ↔
      c.settleEach s steps = .ok s' ∧ w.Narrows (steps.map (·.2.session.window)) := by
  induction steps generalizing index s w with
  | nil =>
    constructor
    · rintro ⟨w', same⟩
      cases same
      exact ⟨rfl, trivial⟩
    · rintro ⟨same, -⟩
      cases same
      exact ⟨w, rfl⟩
  | cons step rest ih =>
    obtain ⟨call, shown⟩ := step
    unfold settleEach
    rw [settleCalls, List.foldlM_cons, List.map_cons, ValidityWindow.Narrows]
    simp only [bind_eq_ok, orFail_eq_ok]
    constructor
    · rintro ⟨w', s₁, first, w₁, narrowed, others⟩
      obtain ⟨each, narrows⟩ := (ih (index + 1)).1 ⟨w', others⟩
      exact ⟨⟨s₁, (settleCall_index index 0).1 first, each⟩, w₁, narrowed, narrows⟩
    · rintro ⟨⟨s₁, first, each⟩, w₁, narrowed, narrows⟩
      obtain ⟨w', others⟩ := (ih (index + 1)).2 ⟨each, narrows⟩
      exact ⟨w', s₁, (settleCall_index index 0).2 first, w₁, narrowed, others⟩

end CallContext

/-! ### Operations that make calls -/

/-- An address is filed in the same place whatever the case of its letters. -/
theorem Address.key_normal {a : Address} (strict : a.isStrict = true) : a.normal.key = a.key := by
  obtain ⟨b, hb⟩ := exists_bytes_of_isStrict strict
  have length := (bytes?_eq_some_iff.1 hb).2
  rw [normal_of_bytes? hb]
  exact (Hex.key_inj (bytes?_eq_some_iff.1 (bytes?_ofBytes length)).1 (bytes?_eq_some_iff.1 hb).1).2 rfl

/-- The same call, and what is shown for it, as they are read. -/
def SessionEntry.normal (shown : SessionEntry) : SessionEntry :=
  ⟨shown.proof.map Hex.lower, shown.session.normal, shown.arguments.lower⟩

/-- Whose calls an operator makes, through which validator, and who pays for them. -/
structure CallPlan where
  validator : Address
  wallet : Address
  operator : Address
  paymasterAndData : Hex

/-- Call data that makes some calls. -/
def WritesCalls : ExecutionMode → List WalletCall → Hex → Prop
  | .single, calls, callData =>
    ∃ call, calls = [call] ∧ WalletOperation.encodeNormalExecute call = .ok callData
  | .batch, calls, callData => WalletOperation.encodeBatchNormalExecute calls = .ok callData

namespace CallPlan

variable {plan : CallPlan} {self : Address} {mode : ExecutionMode}
  {steps : List (WalletCall × SessionEntry)} {op : UserOperation} {userOpHash : Hex}

/-- What goes into the signature of an operation that makes some calls, without a permit. -/
def parts (plan : CallPlan) (steps : List (WalletCall × SessionEntry)) : SignatureParts where
  validator := plan.validator
  proofs := steps.map (·.2.proof)
  operator := plan.operator
  sessions := steps.map (·.2.session)
  arguments := steps.map (·.2.arguments)
  operatorSignature := .empty
  permit := none

/-- An operation makes some calls, in the form of a mode: its call data and its signature are written of
them, its operator signed it for a validator, and its fee is within the budget that stands for no
limit. -/
structure Makes (plan : CallPlan) (addressee : Address) (mode : ExecutionMode)
    (steps : List (WalletCall × SessionEntry)) (op : UserOperation) (userOpHash : Hex) : Prop where
  sender : op.sender = plan.wallet
  paymaster : op.paymasterAndData = plan.paymasterAndData
  fee : op.maxFee ≤ unlimited
  encodable : ∀ step ∈ steps, step.1.IsEncodable
  callData : WritesCalls mode (steps.map (·.1)) op.callData
  short : op.callData.chars.length < textBound
  signed : ∃ x, (plan.parts steps).Writes mode x op.signature ∧
    (plan.parts steps).IsSigned addressee userOpHash x

/-- The paymaster of the operations. -/
def paymaster (plan : CallPlan) : Address :=
  if 20 ≤ plan.paymasterAndData.size then ⟨plan.paymasterAndData.take 20⟩ else Address.zero

/-- What the calls are checked against when a permission is in force. -/
def context (plan : CallPlan) (permission : OperatorPermission) : CallContext :=
  ⟨plan.wallet, plan.operator.normal, permission.sessionRoot, plan.paymaster⟩

/-- An operation that makes some calls and was signed by the operator, as it is read. -/
def prepared (plan : CallPlan) (op : UserOperation) (steps : List (WalletCall × SessionEntry)) :
    PreparedOperation where
  op := op
  operator := plan.operator.normal
  signatureValid := true
  steps := steps.map fun step => (step.1.normal, step.2.normal)
  permit := none

/-- Settles some calls for a validator, as far as they are addressed to it. -/
def settle (plan : CallPlan) (self : Address) (s : Store) (steps : List (WalletCall × SessionEntry)) :
    Except Failure (Store × ValidityWindow) := do
  unless ← orFail (plan.validator.normal.same self) do
    throw (.refused (.wrongAddressee plan.validator.normal self))
  let permission := s.permission plan.wallet plan.operator
  validatePaymaster permission.paymaster plan.paymaster
  (plan.context permission).settleCalls 0 (steps.map fun step => (step.1.normal, step.2.normal)) s
    permission.window

/-- What a settlement takes: the right addressee, the right paymaster, and calls that can be settled. -/
theorem settle_eq_ok {s s' : Store} {w : ValidityWindow} :
    plan.settle self s steps = .ok (s', w) ↔
      plan.validator.normal.same self = .ok true ∧
        (s.permission plan.wallet plan.operator).paymaster.Pins plan.paymaster ∧
        (plan.context (s.permission plan.wallet plan.operator)).settleCalls 0
          (steps.map fun step => (step.1.normal, step.2.normal)) s
          (s.permission plan.wallet plan.operator).window = .ok (s', w) := by
  unfold settle
  simp only [bind_eq_ok, throw_eq_error, error_bind, ite_error_eq_ok, orFail_eq_ok]
  rw [← validatePaymaster_eq_ok]
  constructor
  · rintro ⟨_, addressed, rfl, ⟨⟩, pinned, settled⟩
    exact ⟨addressed, pinned, settled⟩
  · rintro ⟨addressed, pinned, settled⟩
    exact ⟨true, addressed, rfl, (), pinned, settled⟩

/-- What makes up call data is read from it. -/
theorem decode_of_writesCalls {calls : List WalletCall} {callData : Hex} (some : calls ≠ [])
    (encodable : ∀ call ∈ calls, call.IsEncodable) (writes : WritesCalls mode calls callData)
    (short : callData.chars.length < textBound) :
    WalletOperation.decode callData = .ok ⟨mode, calls.map WalletCall.normal⟩ := by
  cases mode with
  | single =>
    obtain ⟨call, rfl, encoded⟩ := writes
    exact WalletOperation.decode_encodeNormalExecute (encodable call List.mem_cons_self) encoded short
  | batch => exact WalletOperation.decode_encodeBatchNormalExecute some encodable writes short

/-- What is put into a signature for some calls is shown for them, one by one. -/
theorem entries_parts (one : mode = .single → ∃ step, steps = [step]) :
    (plan.parts steps).normal.entries mode = .ok (steps.map (·.2.normal)) := by
  cases mode with
  | single =>
    obtain ⟨step, rfl⟩ := one rfl
    rfl
  | batch =>
    have zipped : ∀ steps : List (WalletCall × SessionEntry),
        zipEntries (plan.parts steps).normal.proofs (plan.parts steps).normal.sessions
          (plan.parts steps).normal.arguments = steps.map (·.2.normal) := by
      intro steps
      induction steps with
      | nil => rfl
      | cons step rest ih => exact congrArg (step.2.normal :: ·) ih
    unfold SignatureParts.entries
    simp only [zipped]
    refine if_neg ?_
    simp [SignatureParts.normal, parts]

namespace Makes

/-- An operation is read as the calls that it makes, each with what is shown for it. -/
theorem prepare {e : Engine} (h : plan.Makes e.config.validatorAddress mode steps op userOpHash)
    (some : steps ≠ []) :
    e.prepare op userOpHash = (do
      unless ← orFail (plan.validator.normal.same e.config.validatorAddress) do
        throw (.refused (.wrongAddressee plan.validator.normal e.config.validatorAddress))
      return plan.prepared op steps) := by
  obtain ⟨x, writes, message, hashed, signed⟩ := h.signed
  have decoded : WalletOperation.decode op.callData =
      .ok ⟨mode, (steps.map (·.1)).map WalletCall.normal⟩ :=
    decode_of_writesCalls (by simpa using some) (List.forall_mem_map.2 h.encodable) h.callData h.short
  have one : mode = .single → ∃ step, steps = [step] := by
    rintro rfl
    obtain ⟨call, same, -⟩ := h.callData
    exact List.length_eq_one_iff.1 (by simpa using congrArg List.length same)
  have matching : ∀ operation, WalletOperation.decode op.callData = .ok operation →
      operation.mode = mode := by
    intro operation again
    rw [decoded] at again
    cases again
    rfl
  have read := writes.ofOperation e.config.validatorAddress userOpHash matching
  rw [show { op with signature := op.signature } = op from rfl] at read
  unfold Engine.prepare
  rw [read]
  cases addressed : plan.validator.normal.same e.config.validatorAddress with
  | error f =>
    unfold SignatureParts.readFor
    rw [show (plan.parts steps).validator = plan.validator from rfl, addressed]
    rfl
  | ok same =>
    cases same with
    | false =>
      unfold SignatureParts.readFor
      rw [show (plan.parts steps).validator = plan.validator from rfl, addressed]
      rfl
    | true =>
      have zipped : ((steps.map (·.1)).map WalletCall.normal).zip (steps.map (·.2.normal)) =
          steps.map fun step => (step.1.normal, step.2.normal) := by
        rw [List.map_map, List.zip_map']
        rfl
      have found : (plan.parts steps).readFor mode e.config.validatorAddress op.callData userOpHash =
          .ok (message, steps.map fun step => (step.1.normal, step.2.normal)) := by
        rw [SignatureParts.readFor_eq_ok, ← zipped]
        exact ⟨_, _, addressed, decoded, entries_parts one, by simp only [List.length_map], hashed, rfl⟩
      have made : (plan.parts steps).prepared op x message
          (steps.map fun step => (step.1.normal, step.2.normal)) = plan.prepared op steps := by
        unfold SignatureParts.prepared
        rw [signed]
        rfl
      rw [found]
      exact congrArg Except.ok made

/-- While the budgets are unlimited, an operation ends as the settlement of its calls. -/
theorem validateSignature {e : Engine} {outside : Outside}
    (h : plan.Makes e.config.validatorAddress mode steps op userOpHash) (some : steps ≠ [])
    (free : (e.store.permission plan.wallet plan.operator).IsUnlimited) :
    e.validateSignature outside op userOpHash false =
      match plan.settle e.config.validatorAddress e.store steps with
      | .error f => .unchanged e.store (.error f)
      | .ok (s, w) => ⟨.ok (.valid w), s, []⟩ := by
  obtain ⟨x, writes, -⟩ := h.signed
  have strict : plan.operator.isStrict = true := writes.encodable.operator
  have filed : e.store.permission plan.wallet plan.operator.normal =
      e.store.permission plan.wallet plan.operator := by
    unfold Store.permission
    rw [Address.key_normal strict]
  have paid := Store.consumeBudget_of_isUnlimited (filed ▸ free) h.fee
  have payer : op.paymaster = plan.paymaster := by
    unfold UserOperation.paymaster CallPlan.paymaster
    rw [h.paymaster]
  have settled : (plan.prepared op steps).settle none e.store = (do
      let permission := e.store.permission plan.wallet plan.operator
      validatePaymaster permission.paymaster plan.paymaster
      (plan.context permission).settleCalls 0 (steps.map fun step => (step.1.normal, step.2.normal))
        e.store permission.window) := by
    unfold PreparedOperation.settle prepared PreparedOperation.installPermit
    simp only [h.sender, payer, filed, paid, orFail_ok, ok_bind]
    rfl
  unfold Engine.validateSignature Engine.ready
  rw [h.prepare some]
  unfold settle
  cases orFail (plan.validator.normal.same e.config.validatorAddress) with
  | error f => rfl
  | ok addressed =>
    cases addressed with
    | false => rfl
    | true =>
      have ends := (plan.prepared op steps).finish_eq none false e.store
      rw [settled] at ends
      exact ends

end Makes

end CallPlan

/-! ### One after the other -/

namespace Engine

/-- The engine after an operation that is validated and committed, if it is accepted. -/
def commit (e : Engine) (outside : Outside) (submitted : UserOperation × Hex) : Option Engine :=
  let o := e.validateSignature outside submitted.1 submitted.2 false
  match o.result with
  | .ok d => if d.failed then none else some { e with store := o.store }
  | .error _ => none

/-- The engine after some operations that are validated and committed in order, if all of them are
accepted. -/
def commitAll (e : Engine) (outside : Outside) (submitted : List (UserOperation × Hex)) : Option Engine :=
  submitted.foldlM (fun e one => e.commit outside one) e

end Engine

namespace CallPlan

variable {plan : CallPlan} {mode : ExecutionMode} {steps : List (WalletCall × SessionEntry)}
  {e : Engine} {outside : Outside} {last : Engine}

/-- An operation is committed if it is addressed to the validator, its paymaster is pinned, its calls are
settled one after the other, and there is a moment at which all of its sessions are valid. -/
theorem Makes.commit_eq_some {submitted : UserOperation × Hex}
    (h : plan.Makes e.config.validatorAddress mode steps submitted.1 submitted.2) (some : steps ≠ [])
    {permission : OperatorPermission}
    (filed : e.store.permission plan.wallet plan.operator = permission) (free : permission.IsUnlimited) :
    e.commit outside submitted = .some last ↔
      plan.validator.normal.same e.config.validatorAddress = .ok true ∧
        permission.paymaster.Pins plan.paymaster ∧
        (∃ t, permission.window.Contains t ∧ ∀ step ∈ steps, step.2.session.window.Contains t) ∧
        ∃ s, (plan.context permission).settleEach e.store
            (steps.map fun step => (step.1.normal, step.2.normal)) = .ok s ∧
          last = { e with store := s } := by
  have ends : e.commit outside submitted = .some last ↔
      ∃ s w, plan.settle e.config.validatorAddress e.store steps = .ok (s, w) ∧
        last = { e with store := s } := by
    unfold Engine.commit
    rw [h.validateSignature some (filed ▸ free)]
    cases plan.settle e.config.validatorAddress e.store steps with
    | error f => simp [Outcome.unchanged]
    | ok x =>
      obtain ⟨s, w⟩ := x
      simp [ValidationData.valid, eq_comm]
  have windows : permission.window.Narrows
        ((steps.map fun step => (step.1.normal, step.2.normal)).map (·.2.session.window)) ↔
      ∃ t, permission.window.Contains t ∧ ∀ step ∈ steps, step.2.session.window.Contains t := by
    rw [ValidityWindow.narrows_iff (by simpa using some)]
    simp only [List.forall_mem_map]
    rfl
  rw [ends, ← windows]
  simp only [settle_eq_ok, filed]
  constructor
  · rintro ⟨s, w, ⟨addressed, pinned, settled⟩, rfl⟩
    obtain ⟨each, narrows⟩ := (CallContext.settleCalls_iff 0).1 ⟨w, settled⟩
    exact ⟨addressed, pinned, narrows, s, each, rfl⟩
  · rintro ⟨addressed, pinned, narrows, s, each, rfl⟩
    obtain ⟨w, settled⟩ := (CallContext.settleCalls_iff 0).2 ⟨each, narrows⟩
    exact ⟨s, w, ⟨addressed, pinned, settled⟩, rfl⟩

/-- Operations with one call each are committed in order if each is addressed to the validator, its
paymaster is pinned, there is a moment at which its session is valid, and their calls are settled one after
the other. -/
theorem commitAll_eq_some {addressee : Address} (own : e.config.validatorAddress = addressee)
    {singles : List (UserOperation × Hex)}
    (makes : List.Forall₂ (fun step submitted =>
      plan.Makes addressee .single [step] submitted.1 submitted.2) steps singles)
    {permission : OperatorPermission}
    (filed : e.store.permission plan.wallet plan.operator = permission) (free : permission.IsUnlimited) :
    e.commitAll outside singles = some last ↔
      (∀ step ∈ steps, plan.validator.normal.same addressee = .ok true ∧
        permission.paymaster.Pins plan.paymaster ∧
        ∃ t, permission.window.Contains t ∧ step.2.session.window.Contains t) ∧
      ∃ s, (plan.context permission).settleEach e.store
          (steps.map fun step => (step.1.normal, step.2.normal)) = .ok s ∧
        last = { e with store := s } := by
  induction makes generalizing e with
  | nil =>
    have same : e.commitAll outside [] = some last ↔ last = e := by
      rw [eq_comm]
      exact Option.some_inj
    rw [same]
    constructor
    · rintro rfl
      exact ⟨nofun, last.store, rfl, rfl⟩
    · rintro ⟨-, s, ended, rfl⟩
      cases ended
      rfl
  | @cons step submitted rest more first others ih =>
    obtain rfl := own
    have split : e.commitAll outside (submitted :: more) = some last ↔
        ∃ next, e.commit outside submitted = some next ∧ next.commitAll outside more = some last := by
      unfold Engine.commitAll
      rw [List.foldlM_cons]
      exact Option.bind_eq_some_iff
    have one : ∀ s, (plan.context permission).settleEach e.store
        ([step].map fun step => (step.1.normal, step.2.normal)) = .ok s ↔
        (plan.context permission).settleCall e.store 0 step.1.normal step.2.normal = .ok s := by
      intro s
      unfold CallContext.settleEach
      rw [List.map_singleton, List.foldlM_cons]
      simp only [List.foldlM_nil, bind_pure]
    rw [split]
    unfold CallContext.settleEach
    rw [List.map_cons, List.foldlM_cons, List.forall_mem_cons]
    simp only [first.commit_eq_some (List.cons_ne_nil _ _) filed free, one, bind_eq_ok,
      List.forall_mem_singleton]
    constructor
    · rintro ⟨_, ⟨addressed, pinned, window, s₁, here, rfl⟩, rest⟩
      have kept := (CallContext.permission_settleCall here _ _).trans filed
      obtain ⟨admitted, s, each, rfl⟩ := (ih (e := { e with store := s₁ }) rfl kept).1 rest
      exact ⟨⟨⟨addressed, pinned, window⟩, admitted⟩, s, ⟨s₁, here, each⟩, rfl⟩
    · rintro ⟨⟨⟨addressed, pinned, window⟩, admitted⟩, s, ⟨s₁, here, each⟩, rfl⟩
      have kept := (CallContext.permission_settleCall here _ _).trans filed
      exact ⟨_, ⟨addressed, pinned, window, s₁, here, rfl⟩,
        (ih (e := { e with store := s₁ }) rfl kept).2 ⟨admitted, s, each, rfl⟩⟩

end CallPlan

/-- **A batch is its calls one by one.** Take any engine in which the budgets of an operator are unlimited,
at least one call with what is shown for it, an operation that makes all the calls as a batch, and
operations that make them one by one, each properly encoded and signed, without permits and for the same
paymaster. Then the batch is committed, and leaves a certain engine, exactly if the others are all committed
in order, leave this very engine, and there is a moment that lies in the window of the permission and in
those of all sessions. And if there is only one call, the two operations end in the very same way, also
when they are refused. -/
theorem batch_iff_sequence (e : Engine) (outside : Outside) (plan : CallPlan)
    {steps : List (WalletCall × SessionEntry)} (some : steps ≠ [])
    (free : (e.store.permission plan.wallet plan.operator).IsUnlimited) (batch : UserOperation × Hex)
    (together : plan.Makes e.config.validatorAddress .batch steps batch.1 batch.2)
    {singles : List (UserOperation × Hex)}
    (apart : List.Forall₂ (fun step submitted =>
      plan.Makes e.config.validatorAddress .single [step] submitted.1 submitted.2) steps singles) :
    (∀ last, e.commit outside batch = .some last ↔
      e.commitAll outside singles = .some last ∧
        ∃ t, (e.store.permission plan.wallet plan.operator).window.Contains t ∧
          ∀ step ∈ steps, step.2.session.window.Contains t) ∧
    ∀ single, singles = [single] →
      e.validateSignature outside single.1 single.2 false =
        e.validateSignature outside batch.1 batch.2 false := by
  constructor
  · intro last
    rw [together.commit_eq_some some rfl free, CallPlan.commitAll_eq_some rfl apart rfl free]
    constructor
    · rintro ⟨addressed, pinned, ⟨t, here, others⟩, ended⟩
      exact ⟨⟨fun step listed => ⟨addressed, pinned, t, here, others step listed⟩, ended⟩, t, here, others⟩
    · rintro ⟨⟨admitted, ended⟩, window⟩
      obtain ⟨step, listed⟩ := List.exists_mem_of_ne_nil steps some
      obtain ⟨addressed, pinned, -⟩ := admitted step listed
      exact ⟨addressed, pinned, window, ended⟩
  · rintro single rfl
    obtain ⟨step, _, makes, none, rfl⟩ := List.forall₂_cons_right_iff.1 apart
    obtain rfl := List.forall₂_nil_right_iff.1 none
    rw [makes.validateSignature some free, together.validateSignature some free]

/-- An operator with a key, who signs for the zero address. -/
def transferPlan : CallPlan where
  validator := .zero
  wallet := .zero
  operator := ⟨Hex.ofText "0xf64c57316aec6f000fc6159f8ec63a1994ff1819"⟩
  paymasterAndData := .empty

/-- A transfer of nothing, with a session that allows it. -/
def emptyTransfer : WalletCall × SessionEntry :=
  (⟨.zero, 0, .empty, 0⟩,
    ⟨[], ⟨.zero, fallbackSelector, Hex.ofBytes [0xc0], .zero, 0, 0, 0⟩, Hex.ofBytes [0xc0]⟩)

/-- Digits without letters are written alike with a checksum. -/
theorem zipWith_toUpper_of_digits {digits : List Char} {marks : List Nat}
    (enough : digits.length ≤ marks.length) (plain : ∀ c ∈ digits, c.toUpper = c) :
    List.zipWith (fun c n => if 8 ≤ n then c.toUpper else c) digits marks = digits := by
  induction digits generalizing marks with
  | nil => rfl
  | cons c rest ih =>
    cases marks with
    | nil => cases enough
    | cons n marks =>
      obtain ⟨here, later⟩ := List.forall_mem_cons.1 plain
      rw [List.zipWith_cons_cons, here, ite_self, ih (Nat.le_of_succ_le_succ enough) later]

theorem Address.normal_zero : Address.zero.normal = .zero := by
  have written : Address.zero.bytes? = some (List.replicate 20 0) := by decide
  have digits : (List.replicate 20 (0 : UInt8)).flatMap Hex.byteDigits = List.replicate 40 '0' := by decide
  have plain : ∀ c ∈ List.replicate 40 '0', c.toUpper = c := by
    intro c listed
    rw [List.eq_of_mem_replicate listed]
    rfl
  rw [normal_of_bytes? written, ofBytes, checksum, digits, zipWith_toUpper_of_digits ?_ plain]
  · rfl
  · simp [List.length_flatMap]

theorem exists_leaf_emptyTransfer : ∃ c : SessionContent,
    emptyTransfer.2.session.IsEncodable ∧ emptyTransfer.2.session.leaf = .ok c.leaf := by
  let c : SessionContent :=
    { target := List.replicate 20 0, selector := List.replicate 4 0, allowedArguments := [0xc0]
      paymaster := List.replicate 20 0, validUntil := 0, validAfter := 0, timesLimit := 0 }
  have has : emptyTransfer.2.session.Has c := Session.content?_eq_some.1 (by decide +kernel)
  have encodable : emptyTransfer.2.session.IsEncodable := ⟨by decide, by decide, c, has⟩
  exact ⟨c, encodable, encodable.leaf_of_has has⟩

/-- The hash that the operator signs. -/
def transferHash : Hex :=
  Hex.ofBytes (List.replicate 32 1)

/-- The signature of the operator. -/
def transferSignature : Hex :=
  Hex.ofBytes (Bytes.ofNat 32 Secp256k1.generatorX ++ Bytes.ofNat 32 7 ++ [27])

/-- The signature recovers to the key that signed a message. -/
theorem recoverSigner?_transferSignature {message : Hex} {digest : Nat} {key : Nat × Nat}
    (digested : (personalMessageHash message).toNat = digest)
    (recovered : Secp256k1.recoverKey? digest Secp256k1.generatorX 7 false = some key) :
    recoverSigner? message transferSignature = some (Address.ofBytes (Secp256k1.addressOfKey key)) := by
  have written := Hex.bytes?_ofBytes (Bytes.ofNat 32 Secp256k1.generatorX ++ Bytes.ofNat 32 7 ++ [27])
  have parity : recoveryParity (Bytes.toNat ((Bytes.ofNat 32 Secp256k1.generatorX ++ Bytes.ofNat 32 7 ++
    [27]).drop 64)) = some false := by decide +kernel
  have r : Bytes.toNat ((Bytes.ofNat 32 Secp256k1.generatorX ++ Bytes.ofNat 32 7 ++ [27]).take 32) =
    Secp256k1.generatorX := by decide +kernel
  have t : Bytes.toNat (((Bytes.ofNat 32 Secp256k1.generatorX ++ Bytes.ofNat 32 7 ++
    [27]).drop 32).take 32) = 7 := by decide +kernel
  refine recoverSigner?_of_key written (by decide +kernel) parity ?_
  rw [digested, r, t]
  exact recovered

theorem isSigned_transferSignature :
    ∃ message, operatorMessageHash transferHash .zero = .ok message ∧
      isSignedBy message transferSignature transferPlan.operator = true := by
  let message := Hex.ofText "0xc9c2b9c48fb9c3ca9e71817fb01e907be3e0eda4d950bbdcb6dcc4c1a73a6537"
  let digest := 77911620636985795712643409211746521965028574281258098200375320273441915297275
  let key := (18772081354545495695456048375373338297601540066630525833841752139023981564661,
    40432661056609755435332924859854493827220392636976467589404047431406834879541)
  have hashed : operatorMessageHash transferHash .zero = .ok message := by
    have evaluated : (operatorMessageHash transferHash .zero).toOption.map id = some message := by
      decide +kernel
    obtain ⟨_, hashed, rfl⟩ := exists_ok_of_toOption evaluated
    exact hashed
  have digested : (personalMessageHash message).toNat = digest := by decide +kernel
  have recovered : Secp256k1.recoverKey? digest Secp256k1.generatorX 7 false = some key := by
    decide +kernel
  have own : transferPlan.operator.bytes? = some (Secp256k1.addressOfKey key) := by decide +kernel
  have recovers := recoverSigner?_transferSignature digested recovered
  have agrees : (Address.ofBytes (Secp256k1.addressOfKey key)).Agrees transferPlan.operator :=
    ⟨_, Address.bytes?_ofBytes (Secp256k1.length_addressOfKey key), own⟩
  exact ⟨message, hashed, isSignedBy_eq_true.2 ⟨_, recovers, agrees⟩⟩

/-- What is written of empty transfers makes them. -/
theorem makes_emptyTransfer (mode : ExecutionMode) (steps : List (WalletCall × SessionEntry))
    {callData signature : Hex} (only : ∀ step ∈ steps, step = emptyTransfer)
    (writes : WritesCalls mode (steps.map (·.1)) callData) (data : callData.chars.length < textBound)
    (encoded : encodeSignature mode ((transferPlan.parts steps).signedWith transferSignature) = .ok signature)
    (short : signature.chars.length < textBound) :
    transferPlan.Makes .zero mode steps ⟨.zero, 0, .empty, callData, 0, 0, 0, 0, 0, .empty, signature⟩
      transferHash := by
  have zero : Address.zero.isStrict = true := by decide
  have called : WalletCall.IsEncodable emptyTransfer.1 :=
    ⟨zero, by decide, ⟨[], Hex.bytes?_empty⟩, ⟨0, rfl, by decide, by decide⟩⟩
  obtain ⟨c, encodable, -⟩ := exists_leaf_emptyTransfer
  have strict : transferPlan.operator.isStrict = true := by decide +kernel
  have validator : Address.zero.IsWellFormed := by decide
  have carried : ((transferPlan.parts steps).signedWith transferSignature).AreEncodable :=
    { validator
      proofs := List.forall_mem_map.2 fun s hs => only s hs ▸ nofun
      operator := strict
      sessions := List.forall_mem_map.2 fun s hs => only s hs ▸ encodable
      arguments := List.forall_mem_map.2 fun s hs => only s hs ▸ ⟨_, Hex.bytes?_ofBytes _⟩
      operatorSignature := ⟨_, Hex.bytes?_ofBytes _⟩
      permit := nofun }
  have signed := isSigned_transferSignature
  exact {
    sender := rfl
    paymaster := rfl
    fee := by
      rw [UserOperation.maxFee, Int.mul_zero]
      decide
    encodable := fun step listed => only step listed ▸ called
    callData := writes
    short := data
    signed := ⟨_, ⟨carried, encoded, short⟩, signed⟩ }

/-- An engine in which the operator may make transfers under a root. -/
def transferEngine (root : Hex) : Engine where
  config := ⟨.zero, .zero, 1, .zero, none, none⟩
  store := Store.empty.setPermission .zero transferPlan.operator ⟨root, .zero, 0, 0, unlimited, unlimited⟩
  registry := {}

theorem exists_settleEach_emptyTransfer {c : SessionContent}
    (hleaf : emptyTransfer.2.session.leaf = .ok c.leaf) :
    ∃ s, (transferPlan.context ⟨c.leaf, .zero, 0, 0, unlimited, unlimited⟩).settleEach
      (transferEngine c.leaf).store
      ([emptyTransfer, emptyTransfer].map fun step => (step.1.normal, step.2.normal)) = .ok s := by
  have written : ([emptyTransfer, emptyTransfer].map fun step => (step.1.normal, step.2.normal)) =
      [emptyTransfer, emptyTransfer] := by
    have normal : (emptyTransfer.1.normal, emptyTransfer.2.normal) = emptyTransfer := by
      simp only [emptyTransfer, WalletCall.normal, SessionEntry.normal, Session.normal,
        Address.normal_zero]
      decide
    rw [List.map_cons, List.map_singleton, normal]
  have anyPaymaster : Address.zero.hex.toInt? = some 0 := by decide +kernel
  have node : c.leaf.IsNode := ⟨_, rfl, Keccak.length_digest _⟩
  obtain ⟨_, -, -, number⟩ := node.writesHash.exists_toInt
  have allowed : (transferPlan.context ⟨c.leaf, .zero, 0, 0, unlimited, unlimited⟩).Allows
      emptyTransfer.1 emptyTransfer.2 :=
    ⟨rfl, ⟨c.leaf, c.leaf, _, hleaf, rfl, number, number⟩, .inl anyPaymaster, by decide +kernel⟩
  have free : ¬emptyTransfer.2.session.IsLimited := by decide
  have within (uses : Uses) : uses.Suffice [emptyTransfer.2.session, emptyTransfer.2.session] :=
    ⟨fun limited => absurd limited free, fun limited => absurd limited free, trivial⟩
  have both : ∀ step ∈ [emptyTransfer, emptyTransfer],
      (transferPlan.context ⟨c.leaf, .zero, 0, 0, unlimited, unlimited⟩).Allows step.1 step.2 := by
    simpa using allowed
  have spendless : spendsOfAll Address.zero [emptyTransfer.1, emptyTransfer.1] = .ok [] := by decide +kernel
  have always : (ValidityWindow.mk 0 0).Contains 0 := ⟨Number.le_refl 0, .inl rfl⟩
  have windows : ∀ w ∈ [emptyTransfer, emptyTransfer].map (·.2.session.window), w = ⟨0, 0⟩ := by
    decide
  obtain ⟨⟨s, w⟩, settled⟩ := (CallContext.exists_settleCalls (w := ⟨0, 0⟩) 0).2
    ⟨both, within _, ⟨[], spendless, trivial⟩,
      (ValidityWindow.narrows_iff (List.cons_ne_nil _ _)).2
        ⟨0, always, fun w listed => windows w listed ▸ always⟩⟩
  refine ⟨s, ?_⟩
  rw [written]
  exact ((CallContext.settleCalls_iff 0).1 ⟨w, settled⟩).1

/-- Two empty transfers are made by one operation or by two, with the same engine after them. -/
theorem transfers_together_and_apart :
    ∃ root batch single last,
      transferPlan.Makes .zero .batch [emptyTransfer, emptyTransfer] batch transferHash ∧
      transferPlan.Makes .zero .single [emptyTransfer] single transferHash ∧
      (transferEngine root).commit .silent (batch, transferHash) = some last ∧
      (transferEngine root).commitAll .silent [(single, transferHash), (single, transferHash)] =
        some last := by
  have called : (WalletOperation.encodeNormalExecute emptyTransfer.1).toOption.map (·.chars.length) =
        some 330 ∧
      (WalletOperation.encodeBatchNormalExecute [emptyTransfer.1, emptyTransfer.1]).toOption.map
        (·.chars.length) = some 1162 := by
    decide +kernel
  have shown : ∀ form ∈ [(ExecutionMode.single, [emptyTransfer], 1386),
        (.batch, [emptyTransfer, emptyTransfer], 2730)],
      (encodeSignature form.1 ((transferPlan.parts form.2.1).signedWith transferSignature)).toOption.map
        (·.chars.length) = some form.2.2 := by
    decide +kernel
  obtain ⟨_, data, length⟩ := exists_ok_of_toOption called.1
  obtain ⟨_, signature, short⟩ := exists_ok_of_toOption (shown _ (.head _))
  have single := makes_emptyTransfer .single [emptyTransfer] (by simp)
    ⟨_, rfl, data⟩ (by rw [length]; decide) signature (by rw [short]; decide)
  obtain ⟨_, data, length⟩ := exists_ok_of_toOption called.2
  obtain ⟨_, signature, short⟩ := exists_ok_of_toOption (shown _ (.tail _ (.head _)))
  have batch := makes_emptyTransfer .batch [emptyTransfer, emptyTransfer] (by simp)
    data (by rw [length]; decide) signature (by rw [short]; decide)
  obtain ⟨c, -, hleaf⟩ := exists_leaf_emptyTransfer
  have filed : (transferEngine c.leaf).store.permission transferPlan.wallet transferPlan.operator =
      ⟨c.leaf, .zero, 0, 0, unlimited, unlimited⟩ :=
    (Store.permissionIn_setPermission _ _ _ _ _).trans (if_pos rfl)
  have free : OperatorPermission.IsUnlimited ⟨c.leaf, .zero, 0, 0, unlimited, unlimited⟩ := ⟨rfl, rfl⟩
  have addressed : Address.zero.normal.same .zero = .ok true := by
    rw [Address.normal_zero]
    decide
  have anyPaymaster : Address.zero.hex.toInt? = some 0 := by decide +kernel
  have always : (ValidityWindow.mk 0 0).Contains 0 := ⟨Number.le_refl 0, .inl rfl⟩
  obtain ⟨s, settled⟩ := exists_settleEach_emptyTransfer hleaf
  have committed : (transferEngine c.leaf).commit .silent (_, transferHash) =
      some { transferEngine c.leaf with store := s } :=
    (batch.commit_eq_some (List.cons_ne_nil _ _) filed free).2 ⟨addressed, .inl anyPaymaster,
      ⟨0, always, by simpa [emptyTransfer, Session.window] using always⟩, s, settled, rfl⟩
  have apart : List.Forall₂ (fun step submitted =>
      transferPlan.Makes .zero .single [step] submitted.1 submitted.2) [emptyTransfer, emptyTransfer]
      [(_, transferHash), (_, transferHash)] :=
    .cons single (.cons single .nil)
  have agree := (batch_iff_sequence (transferEngine c.leaf) .silent transferPlan (List.cons_ne_nil _ _)
    (filed ▸ free) (_, transferHash) batch apart).1
  exact ⟨c.leaf, _, _, _, batch, single, committed, ((agree _).1 committed).1⟩

end SessionKeys
