import SessionKeys.Proofs.Acceptance
import SessionKeys.Proofs.SessionEncoding

/-!
What settling an operation does to the table of permissions, row by row. The permission in force is
charged the fee of the operation and one use, and is filed in the row of the operator; all other rows
stay as they are. A budget that is charged again and again is what is left of it, or stays unlimited
(`Pays`). Main statements: `PreparedOperation.permissionIn_settle` and
`PreparedOperation.pays_settle`.
-/

namespace SessionKeys

/-! ### Rows -/

/-- Where the permission of an operator is filed. -/
def permissionRow (wallet operator : Address) : List (List Char) :=
  wallet.key ++ operator.key

/-- The permission that is filed in a row. -/
def Store.permissionIn (s : Store) (row : List (List Char)) : OperatorPermission :=
  (s.permissions.find? row).getD OperatorPermission.empty

theorem Store.permissionIn_setPermission (s : Store) (wallet operator : Address)
    (p : OperatorPermission) (row : List (List Char)) :
    (s.setPermission wallet operator p).permissionIn row =
      if permissionRow wallet operator = row then p else s.permissionIn row := by
  unfold setPermission permissionIn permissionRow
  rw [Table.find?_put]
  split
  · rfl
  · rfl

theorem Store.permissionIn_congr {s s' : Store} (same : s'.permissions = s.permissions) :
    s'.permissionIn = s.permissionIn := by
  funext row
  unfold permissionIn
  rw [same]

/-- What holds of every permission stays so if one is filed of which it holds. -/
theorem Store.forall_permissionIn_setPermission {s : Store} {P : OperatorPermission → Prop}
    (h : ∀ row, P (s.permissionIn row)) {p : OperatorPermission} (hp : P p)
    (wallet operator : Address) : ∀ row, P ((s.setPermission wallet operator p).permissionIn row) := by
  intro row
  rw [permissionIn_setPermission]
  split
  · exact hp
  · exact h row

/-! ### Budgets -/

/-- A number is a budget: it fits into 128 bits. -/
def IsBudget (n : Int) : Prop :=
  0 ≤ n ∧ n ≤ unlimited

/-- A budget pays for some costs. One that is unlimited stays so; of any other that is left which the
costs leave, which is neither negative nor unlimited. -/
structure Pays (budget cost left : Int) : Prop where
  unlimited : budget = unlimited → left = unlimited
  limited : budget ≠ SessionKeys.unlimited →
    left = budget - cost ∧ 0 ≤ left ∧ left < SessionKeys.unlimited

namespace Pays

variable {budget cost left : Int}

theorem nothing (fits : IsBudget budget) : Pays budget 0 budget := by
  obtain ⟨nonneg, within⟩ := fits
  exact ⟨fun same => same, fun limited => by omega⟩

/-- A budget that covers a cost pays for it when it is charged. -/
theorem charge (fits : IsBudget budget) (nonneg : 0 ≤ cost) (covers : cost ≤ budget) :
    Pays budget cost (charge budget cost) := by
  obtain ⟨-, within⟩ := fits
  unfold SessionKeys.charge
  refine ⟨fun same => if_pos same, fun limited => ?_⟩
  rw [if_neg limited]
  omega

theorem trans {more last : Int} (first : Pays budget cost left) (second : Pays left more last) :
    Pays budget (cost + more) last := by
  refine ⟨fun same => second.unlimited (first.unlimited same), fun limited => ?_⟩
  obtain ⟨rest, -, below⟩ := first.limited limited
  obtain ⟨last_eq, nonneg, within⟩ := second.limited (Int.ne_of_lt below)
  exact ⟨by omega, nonneg, within⟩

/-- What is left of a budget is a budget. -/
theorem isBudget (h : Pays budget cost left) : IsBudget left := by
  by_cases same : budget = SessionKeys.unlimited
  · rw [h.unlimited same]
    exact ⟨by decide, Int.le_refl _⟩
  · obtain ⟨-, nonneg, below⟩ := h.limited same
    exact ⟨nonneg, Int.le_of_lt below⟩

end Pays

/-- Both budgets of a permission fit into 128 bits. -/
structure OperatorPermission.HasBudgets (p : OperatorPermission) : Prop where
  gas : IsBudget p.gasRemaining
  times : IsBudget p.timesRemaining

theorem OperatorPermission.hasBudgets_empty : OperatorPermission.empty.HasBudgets :=
  ⟨⟨by decide, by decide⟩, by decide, by decide⟩

/-- What is encoded when a permission is hashed, its root and its paymaster left aside. -/
theorem OperatorPermission.encoded_of_hash {p : OperatorPermission} {h : Hex} (hashed : p.hash = .ok h) :
    (∃ e, Abi.encodeNumber 48 p.validUntil = .ok e) ∧
      (∃ e, Abi.encodeNumber 48 p.validAfter = .ok e) ∧
      (∃ e, Abi.encodeUnsigned 128 p.gasRemaining = .ok e) ∧
      ∃ e, Abi.encodeUnsigned 128 p.timesRemaining = .ok e := by
  unfold hash Abi.encodeFields values at hashed
  simp only [Abi.encodeItems, Abi.encode, bind_eq_ok, pure_eq_ok] at hashed
  obtain ⟨_, ⟨_, ⟨_, ⟨_, ⟨_, -, _, ⟨_, -, _, ⟨e₁, h₁, _, ⟨e₂, h₂, _, ⟨e₃, h₃, _, ⟨e₄, h₄, -⟩, -⟩, -⟩, -⟩,
    -⟩, -⟩, -⟩, -⟩, -⟩, -⟩ := hashed
  exact ⟨⟨e₁, h₁⟩, ⟨e₂, h₂⟩, ⟨e₃, h₃⟩, e₄, h₄⟩

/-- A permission that can be hashed has budgets. -/
theorem OperatorPermission.hasBudgets_of_hash {p : OperatorPermission} {h : Hex}
    (hashed : p.hash = .ok h) : p.HasBudgets := by
  have fits : ∀ {n : Int} {e : Hex}, Abi.encodeUnsigned 128 n = .ok e → IsBudget n := by
    intro n e encoded
    obtain ⟨⟨nonneg, below⟩, -⟩ := Abi.encodeUnsigned_eq_ok.1 encoded
    exact ⟨nonneg, Int.le_of_lt_add_one below⟩
  obtain ⟨-, -, ⟨_, gas⟩, ⟨_, times⟩⟩ := encoded_of_hash hashed
  exact ⟨fits gas, fits times⟩

/-- The budgets of a permission pay for some fees and uses, and `q` has what is left. -/
structure OperatorPermission.Pays (p : OperatorPermission) (fees times : Int)
    (q : OperatorPermission) : Prop where
  gas : SessionKeys.Pays p.gasRemaining fees q.gasRemaining
  times : SessionKeys.Pays p.timesRemaining times q.timesRemaining

namespace OperatorPermission.Pays

variable {p q r : OperatorPermission} {fees times : Int}

theorem nothing (h : p.HasBudgets) : p.Pays 0 0 p :=
  ⟨.nothing h.gas, .nothing h.times⟩

theorem trans {more again : Int} (first : p.Pays fees times q) (second : q.Pays more again r) :
    p.Pays (fees + more) (times + again) r :=
  ⟨first.gas.trans second.gas, first.times.trans second.times⟩

theorem hasBudgets (h : p.Pays fees times q) : q.HasBudgets :=
  ⟨h.gas.isBudget, h.times.isBudget⟩

end OperatorPermission.Pays

/-! ### One operation -/

/-- The numbers that make up the fee of an operation are not negative. -/
structure UserOperation.HasNonnegGas (op : UserOperation) : Prop where
  callGasLimit : 0 ≤ op.callGasLimit
  verificationGasLimit : 0 ≤ op.verificationGasLimit
  preVerificationGas : 0 ≤ op.preVerificationGas
  maxFeePerGas : 0 ≤ op.maxFeePerGas

theorem UserOperation.HasNonnegGas.maxFee {op : UserOperation} (h : op.HasNonnegGas) :
    0 ≤ op.maxFee := by
  have factor : 0 ≤ op.verificationFactor := by
    unfold verificationFactor
    split
    · decide
    · decide
  have verification := Int.mul_nonneg h.verificationGasLimit factor
  have gas := Int.add_nonneg (Int.add_nonneg h.callGasLimit verification) h.preVerificationGas
  exact Int.mul_nonneg gas h.maxFeePerGas

/-- What an operation leaves of a permission: all but the budgets, which have to cover it. -/
theorem OperatorPermission.afterOperation_eq_ok {p q : OperatorPermission} {op : UserOperation} :
    p.afterOperation op = .ok q ↔
      op.maxFee ≤ p.gasRemaining ∧ p.timesRemaining ≠ 0 ∧
        q = { p with
          gasRemaining := charge p.gasRemaining op.maxFee
          timesRemaining := charge p.timesRemaining 1 } := by
  unfold afterOperation
  simp only [error_ite_eq_ok, Int.not_lt, Except.ok.injEq, eq_comm (b := q), ne_eq]

theorem OperatorPermission.pays_afterOperation {p q : OperatorPermission} {op : UserOperation}
    (fits : p.HasBudgets) (nonneg : 0 ≤ op.maxFee) (h : p.afterOperation op = .ok q) :
    p.Pays op.maxFee 1 q := by
  obtain ⟨covers, used, rfl⟩ := afterOperation_eq_ok.1 h
  have one : 1 ≤ p.timesRemaining := by
    have := fits.times.1
    omega
  exact ⟨.charge fits.gas nonneg covers, .charge fits.times Int.one_nonneg one⟩

namespace PreparedOperation

variable {p : PreparedOperation} {permit : Option VerifiedPermit} {s s' : Store}
  {window : ValidityWindow}

/-- Where the permission of the operator of an operation is filed. -/
def operatorRow (p : PreparedOperation) : List (List Char) :=
  permissionRow p.op.sender p.operator

/-- The permission that an operation is charged to. -/
def permissionInForce (p : PreparedOperation) (permit : Option VerifiedPermit) (s : Store) :
    OperatorPermission :=
  SessionKeys.permissionInForce s p.op.sender p.operator (permit.map (·.permit))

/-- A permit is installed in the row of the operator. -/
theorem permissionIn_installPermit (installed : p.installPermit permit s = .ok s')
    (row : List (List Char)) :
    s'.permissionIn row =
      if p.operatorRow = row then p.permissionInForce permit s else s.permissionIn row := by
  cases permit with
  | none =>
    cases installed
    split
    next here =>
      subst here
      rfl
    next => rfl
  | some v =>
    obtain ⟨-, -, -, rfl⟩ := VerifiedPermit.install_eq_ok.1 installed
    unfold VerifiedPermit.installed
    rw [Store.startSpendingLimits_eq]
    exact Store.permissionIn_setPermission _ _ _ _ _

/-- The permission in force is the one that is filed when the permit, if there is one, is installed. -/
theorem permission_installPermit (installed : p.installPermit permit s = .ok s') :
    s'.permission p.op.sender p.operator = p.permissionInForce permit s :=
  (permissionIn_installPermit installed p.operatorRow).trans (if_pos rfl)

/-- A settlement files what is left of the permission in force in the row of the operator. -/
theorem permissionIn_settle (h : p.settle permit s = .ok (s', window)) :
    ∃ left, (p.permissionInForce permit s).afterOperation p.op = .ok left ∧
      ∀ row, s'.permissionIn row =
        if p.operatorRow = row then left else s.permissionIn row := by
  obtain ⟨s₁, s₂, installed, -, paid, settled⟩ := settle_eq_ok.1 h
  obtain ⟨limits, uses, rfl⟩ := CallContext.exists_of_settleCalls settled
  obtain ⟨left, charged, done⟩ := bind_eq_ok.1 paid
  cases done
  refine ⟨left, permission_installPermit installed ▸ charged, fun row => ?_⟩
  refine (Store.permissionIn_setPermission s₁ _ _ left row).trans ?_
  by_cases here : p.operatorRow = row
  · rw [if_pos here]
    exact if_pos here
  · rw [if_neg here]
    refine (if_neg here).trans ?_
    rw [permissionIn_installPermit installed, if_neg here]

/-- The budgets in force pay for an operation that is settled. -/
theorem pays_settle (h : p.settle permit s = .ok (s', window)) (nonneg : 0 ≤ p.op.maxFee)
    (fits : (p.permissionInForce permit s).HasBudgets) :
    (p.permissionInForce permit s).Pays p.op.maxFee 1 (s'.permissionIn p.operatorRow) := by
  obtain ⟨left, charged, filed⟩ := permissionIn_settle h
  rw [filed, if_pos rfl]
  exact OperatorPermission.pays_afterOperation fits nonneg charged

end PreparedOperation

end SessionKeys
