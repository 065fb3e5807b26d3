import SessionKeys.Proofs.Computation
import SessionKeys.Validation.Outcome

/-!
Carrying out an operation in place and settling it as a whole come to the same: the work ends with
the store of the settlement, or stops for the failure of the settlement. Main statement:
`finish_eq`, which says how a validation ends without a word about what is written in between.
-/

namespace SessionKeys

namespace Work

variable {α β : Type}

/-! ### Work that does what a function does -/

/-- Work that ends as `f` does: with the store that `f` gives and with `events` announced, or
stopped for the failure of `f`. -/
def Follows (w : Work α) (f : Store → Except Failure (Store × α)) (events : List Event) : Prop :=
  ∀ d, match f d.store with
    | .ok (s, a) => w.on d = (.ok a, ⟨s, d.waiting ++ events⟩)
    | .error e => (w.on d).1 = .error (.failed e)

theorem Follows.congr {w : Work α} {f g : Store → Except Failure (Store × α)} {events : List Event}
    (hw : w.Follows f events) (h : ∀ s, f s = g s) : w.Follows g events := by
  intro d
  rw [← h d.store]
  exact hw d

theorem follows_pure (a : α) : (pure a : Work α).Follows (fun s => .ok (s, a)) [] := by
  intro d
  simp

theorem follows_tables : tables.Follows (fun s => .ok (s, s)) [] := by
  intro d
  simp

theorem follows_write (f : Store → Store) : (write f).Follows (fun s => .ok (f s, ())) [] := by
  intro d
  simp

theorem follows_announce (event : Event) :
    (announce event).Follows (fun s => .ok (s, ())) [event] := by
  intro d
  simp

theorem follows_require (x : Except Failure α) :
    (require x).Follows (fun s => x.map fun a => (s, a)) [] := by
  intro d
  cases x with
  | error e => simp [Except.map]
  | ok a => simp [Except.map]

theorem Follows.bind {w : Work α} {f : Store → Except Failure (Store × α)} {g : α → Work β}
    {h : α → Store → Except Failure (Store × β)} {events more : List Event}
    (hw : w.Follows f events) (hg : ∀ a, (g a).Follows (h a) more) :
    (w >>= g).Follows (fun s => f s >>= fun x => h x.2 x.1) (events ++ more) := by
  intro d
  have first := hw d
  rw [on_bind]
  cases hf : f d.store with
  | error e =>
    rw [hf] at first
    rcases hd : w.on d with ⟨r, d'⟩
    rw [hd] at first
    simp only at first
    subst first
    simp [hf]
  | ok x =>
    obtain ⟨s, a⟩ := x
    rw [hf] at first
    simp only at first
    have second := hg a ⟨s, d.waiting ++ events⟩
    rw [first]
    simpa [hf, List.append_assoc] using second

/-- Work whose value is not looked at, and what follows it. -/
theorem Follows.andThen {w : Work Unit} {f : Store → Except Failure Store} {v : Work β}
    {h : Store → Except Failure (Store × β)} {events more : List Event}
    (hw : w.Follows (fun s => (f s).map fun s => (s, ())) events) (hv : v.Follows h more) :
    (w >>= fun _ => v).Follows (fun s => f s >>= h) (events ++ more) := by
  refine (hw.bind fun _ => hv).congr fun s => ?_
  cases f s <;> rfl

theorem follows_change (f : Store → Except Failure Store) :
    (change f).Follows (fun s => (f s).map fun s => (s, ())) [] := by
  refine (follows_tables.bind fun s =>
    (follows_require (f s)).bind fun s' => follows_write fun _ => s').congr fun s => ?_
  cases hf : f s with
  | error e => simp [hf, Except.map]
  | ok s' => simp [hf, Except.map]

/-- Changes made one after the other. -/
theorem follows_forM_change {ι : Type} (f : ι → Store → Except Failure Store) (l : List ι) :
    (l.forM fun i => change (f i)).Follows
      (fun s => (l.foldlM (fun s i => f i s) s).map fun s => (s, ())) [] := by
  induction l with
  | nil => exact follows_pure ()
  | cons i l ih =>
    refine ((follows_change (f i)).andThen ih).congr fun s => ?_
    rw [List.foldlM_cons]
    cases f i s <;> rfl

/-- Tables written one after the other. -/
theorem follows_forM_write {ι : Type} (f : ι → Store → Store) (l : List ι) :
    (l.forM fun i => write (f i)).Follows
      (fun s => .ok (l.foldl (fun s i => f i s) s, ())) [] := by
  induction l with
  | nil => exact follows_pure ()
  | cons i l ih => exact ((follows_write (f i)).bind fun _ => ih).congr fun s => rfl

end Work

/-! ### What a settlement takes -/

/-- Paying from the budgets writes the permission alone. -/
theorem Store.exists_of_consumeBudget {s s' : Store} {wallet operator : Address} {op : UserOperation}
    (h : s.consumeBudget wallet operator op = .ok s') :
    ∃ p, s' = s.setPermission wallet operator p := by
  obtain ⟨p, -, done⟩ := bind_eq_ok.1 h
  exact ⟨p, (Except.ok.inj done).symm⟩

/-- Counting a use of a session writes the uses of sessions alone. -/
theorem Store.exists_of_consumeSessionUse {s s' : Store} {wallet operator : Address}
    {session : Session} (h : s.consumeSessionUse wallet operator session = .ok s') :
    ∃ sessionUses, s' = { s with sessionUses } := by
  unfold consumeSessionUse at h
  split at h
  · exact ⟨s.sessionUses, (Except.ok.inj h).symm⟩
  · simp only [bind_eq_ok, throw_eq_error, error_bind, error_ite_eq_ok] at h
    obtain ⟨leaf, -, -, done⟩ := h
    exact ⟨_, (Except.ok.inj done).symm⟩

/-- Charging a spending writes the limits alone. -/
theorem Store.exists_of_consumeAllowance {s s' : Store} {wallet operator : Address}
    {spend : TokenSpend} (h : s.consumeAllowance wallet operator spend = .ok s') :
    ∃ spendingLimits, s' = { s with spendingLimits } := by
  unfold consumeAllowance at h
  split at h
  · exact ⟨s.spendingLimits, (Except.ok.inj h).symm⟩
  · obtain ⟨info, -, done⟩ := bind_eq_ok.1 h
    exact ⟨_, (Except.ok.inj done).symm⟩

theorem Store.exists_of_consumeAllowances {s s' : Store} {wallet operator : Address}
    {spends : List TokenSpend}
    (h : spends.foldlM (fun s spend => s.consumeAllowance wallet operator spend) s = .ok s') :
    ∃ spendingLimits, s' = { s with spendingLimits } := by
  induction spends generalizing s with
  | nil => exact ⟨s.spendingLimits, (Except.ok.inj h).symm⟩
  | cons spend rest ih =>
    rw [List.foldlM_cons] at h
    obtain ⟨s₁, first, others⟩ := bind_eq_ok.1 h
    obtain ⟨_, rfl⟩ := exists_of_consumeAllowance first
    obtain ⟨spendingLimits, rfl⟩ := ih others
    exact ⟨spendingLimits, rfl⟩

/-- Settling calls writes the limits and the uses of sessions alone. -/
theorem CallContext.exists_of_settleCalls {c : CallContext} {index : Nat}
    {steps : List (WalletCall × SessionEntry)} {s s' : Store} {w w' : ValidityWindow}
    (h : c.settleCalls index steps s w = .ok (s', w')) :
    ∃ spendingLimits sessionUses, s' = { s with spendingLimits, sessionUses } := by
  induction steps generalizing index s w with
  | nil =>
    cases h
    exact ⟨_, _, rfl⟩
  | cons step rest ih =>
    obtain ⟨call, shown⟩ := step
    obtain ⟨s₁, settled, others⟩ := bind_eq_ok.1 h
    obtain ⟨w₁, -, others⟩ := bind_eq_ok.1 others
    obtain ⟨-, -, settled⟩ := bind_eq_ok.1 settled
    obtain ⟨s₂, used, charged⟩ := bind_eq_ok.1 settled
    obtain ⟨spends, -, charged⟩ := bind_eq_ok.1 charged
    obtain ⟨_, rfl⟩ := Store.exists_of_consumeSessionUse used
    obtain ⟨_, rfl⟩ := Store.exists_of_consumeAllowances (orFail_eq_ok.1 charged)
    obtain ⟨spendingLimits, sessionUses, rfl⟩ := ih others
    exact ⟨spendingLimits, sessionUses, rfl⟩

/-- Setting limits writes the limits alone. -/
theorem Store.startSpendingLimits_eq (s : Store) (wallet operator : Address)
    (limits : List SpendingLimit) :
    s.startSpendingLimits wallet operator limits =
      { s with
        spendingLimits := (s.startSpendingLimits wallet operator limits).spendingLimits } := by
  unfold startSpendingLimits
  induction limits generalizing s with
  | nil => rfl
  | cons l rest ih => exact ih (s.setSpendingLimit wallet operator l.token ⟨l.allowance, 0⟩)

theorem VerifiedPermit.install_eq_ok {v : VerifiedPermit} {s s' : Store} {wallet operator : Address} :
    v.install s wallet operator = .ok s' ↔
      s.permitNonce wallet operator = v.nonce ∧ s.isHashUsed wallet v.hash = false ∧
        ¬v.permit.permission.window.IsEmpty ∧ s' = v.installed s wallet operator := by
  unfold install check ValidityWindow.assertValid
  simp only [bind_eq_ok, throw_eq_error, error_bind, error_ite_eq_ok, pure_eq_ok, Except.ok.injEq,
    Decidable.not_not, ne_eq, Bool.not_eq_true]
  constructor
  · rintro ⟨-, ⟨nonce, unused, window, -⟩, rfl⟩
    exact ⟨nonce, unused, window, rfl⟩
  · rintro ⟨nonce, unused, window, rfl⟩
    exact ⟨(), ⟨nonce, unused, window, trivial⟩, rfl⟩

/-- A settlement takes a permit that can be installed, the right paymaster, budgets that suffice,
and calls that can be settled one after the other. -/
theorem PreparedOperation.settle_eq_ok {p : PreparedOperation} {permit : Option VerifiedPermit}
    {s s' : Store} {window : ValidityWindow} :
    p.settle permit s = .ok (s', window) ↔
      ∃ s₁ s₂,
        p.installPermit permit s = .ok s₁ ∧
        validatePaymaster (s₁.permission p.op.sender p.operator).paymaster p.op.paymaster = .ok () ∧
        s₁.consumeBudget p.op.sender p.operator p.op = .ok s₂ ∧
        CallContext.settleCalls
          ⟨p.op.sender, p.operator, (s₁.permission p.op.sender p.operator).sessionRoot, p.op.paymaster⟩
          0 p.steps s₂ (s₁.permission p.op.sender p.operator).window = .ok (s', window) := by
  unfold settle
  simp only [bind_eq_ok, orFail_eq_ok]
  constructor
  · rintro ⟨s₁, installed, ⟨⟩, pinned, s₂, paid, settled⟩
    exact ⟨s₁, s₂, installed, pinned, paid, settled⟩
  · rintro ⟨s₁, s₂, installed, pinned, paid, settled⟩
    exact ⟨s₁, installed, (), pinned, s₂, paid, settled⟩

/-! ### Operations -/

open Work

/-- Installing a permit table by table. -/
theorem VerifiedPermit.follows_apply (v : VerifiedPermit) (wallet operator : Address) :
    (v.apply wallet operator).Follows
      (fun s => (orFail (v.install s wallet operator)).map fun s => (s, ()))
      [.permitConsumed wallet operator v.hash v.nonce] := by
  have limits := follows_forM_write
    (fun (l : SpendingLimit) s => s.setSpendingLimit wallet operator l.token ⟨l.allowance, 0⟩)
    v.permit.spendingLimits
  have writes := (follows_write fun s => s.markHashUsed wallet v.hash).bind fun _ =>
    (follows_write fun s => s.incrementPermitNonce wallet operator).bind fun _ =>
    (follows_write fun s => s.setPermission wallet operator v.permit.permission).bind fun _ =>
    limits.bind fun _ => follows_announce (.permitConsumed wallet operator v.hash v.nonce)
  refine (follows_tables.bind fun s =>
    (follows_require (orFail (v.check s wallet operator))).bind fun _ => writes).congr fun s => ?_
  simp only [VerifiedPermit.install, ok_bind]
  cases v.check s wallet operator with
  | error r => rfl
  | ok u => rfl

namespace CallContext

theorem follows_applyCall (c : CallContext) (index : Nat) (call : WalletCall)
    (shown : SessionEntry) :
    (c.applyCall index call shown).Follows
      (fun s => (c.settleCall s index call shown).map fun s => (s, ())) [] := by
  have charges : ∀ spends : List TokenSpend,
      (spends.forM fun spend => change fun s =>
          orFail (s.consumeAllowance c.wallet c.operator spend)).Follows
        (fun s => (spends.foldlM
          (fun s spend => orFail (s.consumeAllowance c.wallet c.operator spend)) s).map
            fun s => (s, ())) [] :=
    follows_forM_change fun spend s => orFail (s.consumeAllowance c.wallet c.operator spend)
  refine ((follows_require (c.checkCall index call shown)).bind fun _ =>
    (follows_change fun s => s.consumeSessionUse c.wallet c.operator shown.session).andThen
      ((follows_require (call.spends c.wallet)).bind charges)).congr fun s => ?_
  unfold settleCall Store.consumeCallAllowances
  cases c.checkCall index call shown with
  | error f => rfl
  | ok u =>
    simp only [ok_bind, Except.map]
    cases s.consumeSessionUse c.wallet c.operator shown.session with
    | error f => rfl
    | ok s' =>
      simp only [ok_bind]
      cases call.spends c.wallet with
      | error f => rfl
      | ok spends =>
        simp only [ok_bind, orFail_foldlM]

theorem follows_applyCalls (c : CallContext) (steps : List (WalletCall × SessionEntry))
    (index : Nat) (w : ValidityWindow) :
    (c.applyCalls index steps w).Follows (fun s => c.settleCalls index steps s w) [] := by
  induction steps generalizing index w with
  | nil => exact follows_pure w
  | cons step rest ih =>
    obtain ⟨call, shown⟩ := step
    refine ((c.follows_applyCall index call shown).andThen
      ((follows_require (orFail (w.intersect shown.session.window))).bind fun w' =>
        ih (index + 1) w')).congr fun s => ?_
    rw [settleCalls]
    cases c.settleCall s index call shown with
    | error f => rfl
    | ok s' =>
      simp only [ok_bind]
      cases orFail (w.intersect shown.session.window) with
      | error f => rfl
      | ok w' => rfl

end CallContext

namespace PreparedOperation

/-- Carrying out an operation in place does what settling it as a whole does, and announces the permit
that was installed. -/
theorem follows_apply (p : PreparedOperation) (permit : Option VerifiedPermit) :
    (p.apply permit).Follows (p.settle permit) (p.permitEvents permit) := by
  have rest : ∀ permission : OperatorPermission,
      (do
        Work.require (validatePaymaster permission.paymaster p.op.paymaster)
        Work.change fun s => orFail (s.consumeBudget p.op.sender p.operator p.op)
        CallContext.applyCalls ⟨p.op.sender, p.operator, permission.sessionRoot, p.op.paymaster⟩ 0
          p.steps permission.window : Work ValidityWindow).Follows
        (fun s => do
          validatePaymaster permission.paymaster p.op.paymaster
          let s ← orFail (s.consumeBudget p.op.sender p.operator p.op)
          CallContext.settleCalls ⟨p.op.sender, p.operator, permission.sessionRoot, p.op.paymaster⟩ 0
            p.steps s permission.window) [] := by
    intro permission
    refine ((follows_require _).bind fun _ => (follows_change _).andThen
      (CallContext.follows_applyCalls _ _ _ _)).congr fun s => ?_
    cases validatePaymaster permission.paymaster p.op.paymaster with
    | error f => rfl
    | ok u => rfl
  have calls := follows_tables.bind fun s => rest (s.permission p.op.sender p.operator)
  cases permit with
  | none => exact calls
  | some v =>
    refine ((v.follows_apply p.op.sender p.operator).andThen calls).congr fun s => ?_
    simp only [settle, installPermit, ok_bind]

/-- The work of a validation ends with the store of the settlement, unless the operator did not
sign. -/
theorem work_on (p : PreparedOperation) (permit : Option VerifiedPermit) (s : Store) :
    match p.settle permit s with
    | .ok (s', w) =>
      (p.work permit).on ⟨s, []⟩ =
        (if p.signatureValid then .ok (.valid w) else .error .badSignature,
          ⟨s', p.permitEvents permit⟩)
    | .error f => ((p.work permit).on ⟨s, []⟩).1 = .error (.failed f) := by
  have follows := p.follows_apply permit ⟨s, []⟩
  rw [work, Work.on_bind]
  cases hs : p.settle permit s with
  | error f =>
    rw [hs] at follows
    rcases hd : (p.apply permit).on ⟨s, []⟩ with ⟨r, d⟩
    rw [hd] at follows
    simp only at follows
    subst follows
    rfl
  | ok x =>
    obtain ⟨s', w⟩ := x
    rw [hs] at follows
    simp only at follows
    rw [follows]
    cases p.signatureValid with
    | false => rfl
    | true => rfl

/-- How a validation ends, as a whole: with the store and the window of the settlement if the operator
signed and it is no dry run, and with the store as it was in every other case. -/
theorem finish_eq (p : PreparedOperation) (permit : Option VerifiedPermit) (simulate : Bool)
    (s : Store) :
    p.finish permit simulate s =
      match p.settle permit s with
      | .error f => .unchanged s (.error f)
      | .ok (s', w) =>
        if p.signatureValid = false then .unchanged s (.ok .signatureFailed)
        else if simulate then .unchanged s (.ok (.valid w))
        else ⟨.ok (.valid w), s', p.permitEvents permit⟩ := by
  have ends := p.work_on permit s
  have kept := (p.work permit).on_transaction ⟨s, []⟩
  have dry := (p.work permit).on_dryRun ⟨s, []⟩
  unfold finish
  cases hs : p.settle permit s with
  | error f =>
    rw [hs] at ends
    simp only at ends
    rcases hd : (p.work permit).on ⟨s, []⟩ with ⟨r, d⟩
    rw [hd] at ends kept dry
    simp only at ends
    subst ends
    cases simulate with
    | false => simp [kept]
    | true => simp [dry]
  | ok x =>
    obtain ⟨s', w⟩ := x
    rw [hs] at ends
    simp only at ends
    rw [ends] at kept dry
    cases hv : p.signatureValid with
    | false =>
      cases simulate with
      | false => simp [kept, hv]
      | true => simp [dry, hv]
    | true =>
      cases simulate with
      | false => simp [kept, hv]
      | true => simp [dry, hv, Outcome.unchanged]

end PreparedOperation

end SessionKeys
