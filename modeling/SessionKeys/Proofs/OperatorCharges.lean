import SessionKeys.Proofs.Permissions

/-!
Charging one operation to the budgets of its operator, whatever stands in the store and whatever the
operation may cost. The fee is compared with the number that is left, also where this number is the one
that stands for no limit: such a budget is never reduced, but a fee above it is refused. Main statement:
`operation_charged_iff`.
-/

namespace SessionKeys

/-- The charge of a fee and one use to a permission has left `q` of it: each of the budgets is lower by
what is charged, unless it is unlimited, and nothing else is changed. -/
structure OperatorPermission.ChargedFor (p : OperatorPermission) (fee : Int) (q : OperatorPermission) :
    Prop where
  gas : q.gasRemaining = if p.gasRemaining = unlimited then unlimited else p.gasRemaining - fee
  times : q.timesRemaining = if p.timesRemaining = unlimited then unlimited else p.timesRemaining - 1
  others : { q with gasRemaining := p.gasRemaining, timesRemaining := p.timesRemaining } = p

/-- A permission is filed for an operator, and nothing else is written. -/
structure Store.Files (s : Store) (wallet operator : Address) (p : OperatorPermission) (s' : Store) :
    Prop where
  filed : s'.permission wallet operator = p
  elsewhere : ∀ row, row ≠ permissionRow wallet operator → s'.permissionIn row = s.permissionIn row
  others : { s' with permissions := s.permissions } = s

namespace Store

variable {s s' : Store} {wallet operator : Address} {op : UserOperation}

theorem files_setPermission (s : Store) (wallet operator : Address) (p : OperatorPermission) :
    s.Files wallet operator p (s.setPermission wallet operator p) := by
  refine ⟨?_, fun row other => ?_, rfl⟩
  · exact (permissionIn_setPermission s wallet operator p (permissionRow wallet operator)).trans (if_pos rfl)
  · rw [permissionIn_setPermission, if_neg (Ne.symm other)]

/-- What is written when an operation is charged. -/
theorem charged_of_consumeBudget (h : s.consumeBudget wallet operator op = .ok s') :
    ∃ q, (s.permission wallet operator).ChargedFor op.maxFee q ∧ s.Files wallet operator q s' := by
  obtain ⟨q, charged, done⟩ := bind_eq_ok.1 h
  cases done
  obtain ⟨-, -, left⟩ := OperatorPermission.afterOperation_eq_ok.1 charged
  refine ⟨q, ?_, files_setPermission s wallet operator q⟩
  rw [left]
  exact ⟨rfl, rfl, rfl⟩

/-- A charge is refused for the fee, whatever is left of the uses, exactly if the fee is above the number
that is left. -/
theorem consumeBudget_eq_gasExceeded :
    s.consumeBudget wallet operator op =
        .error (.gasExceeded op.maxFee (s.permission wallet operator).gasRemaining) ↔
      (s.permission wallet operator).gasRemaining < op.maxFee := by
  unfold consumeBudget OperatorPermission.afterOperation
  by_cases above : (s.permission wallet operator).gasRemaining < op.maxFee
  · simp [above]
  · by_cases none : (s.permission wallet operator).timesRemaining = 0
    · simp [above, none]
    · simp [above, none, pure_eq_ok]

end Store

/-- A change that may be refused is made, or writes nothing. -/
theorem Work.on_change (f : Store → Except Refusal Store) (d : Desk) :
    (Work.change fun s => orFail (f s)).on d =
      match f d.store with
      | .ok s => (.ok (), { d with store := s })
      | .error refusal => (.error (.failed (.refused refusal)), d) := by
  simp only [change, on_bind, on_tables]
  cases f d.store with
  | ok s => rfl
  | error refusal => rfl

/-- **When an operation is charged.** Whatever is filed for an operator and whatever an operation may
cost, it is charged exactly if its fee does not exceed the number that is left of the fees and some use
is left. It then takes its fee and one use off the budgets that are not unlimited, and writes nothing but
the permission with what is left. Otherwise nothing is written. The number that stands for no limit is no
exception: an operator whose fees are unlimited is refused for its fee exactly if the fee is above this
number. -/
theorem operation_charged_iff (s : Store) (wallet operator : Address) (op : UserOperation)
    (waiting : List Event) :
    let p := s.permission wallet operator
    let charge := (Work.change fun t => orFail (t.consumeBudget wallet operator op)).on ⟨s, waiting⟩
    (charge.1 = .ok () ↔ op.maxFee ≤ p.gasRemaining ∧ p.timesRemaining ≠ 0) ∧
    (charge.1 = .ok () → ∃ q, p.ChargedFor op.maxFee q ∧ s.Files wallet operator q charge.2.store ∧
      charge.2.waiting = waiting) ∧
    (charge.1 ≠ .ok () → charge.2 = ⟨s, waiting⟩) ∧
    (p.gasRemaining = unlimited →
      (charge.1 = .error (.failed (.refused (.gasExceeded op.maxFee unlimited))) ↔
        unlimited < op.maxFee)) := by
  have charged := @Store.exists_consumeBudget s wallet operator op
  have exceeded := @Store.consumeBudget_eq_gasExceeded s wallet operator op
  intro p charge
  rw [show charge = _ from Work.on_change _ _]
  cases ends : s.consumeBudget wallet operator op with
  | ok s' =>
    rw [ends] at charged exceeded
    obtain ⟨q, taken, files⟩ := Store.charged_of_consumeBudget ends
    refine ⟨iff_of_true rfl (charged.1 ⟨s', rfl⟩), fun _ => ⟨q, taken, files, rfl⟩,
      fun failed => absurd rfl failed, fun sentinel => ?_⟩
    have within := mt exceeded.2 nofun
    rw [sentinel] at within
    exact iff_of_false nofun within
  | error refusal =>
    rw [ends] at charged exceeded
    refine ⟨iff_of_false nofun fun covered => ?_, nofun, fun _ => rfl, fun sentinel => ?_⟩
    · obtain ⟨s', same⟩ := charged.2 covered
      cases same
    · rw [sentinel] at exceeded
      rw [← exceeded]
      simp only [Except.error.injEq, Stop.failed.injEq, Failure.refused.injEq]

/-- A permission without any limit on its fees or its uses. -/
def unlimitedPermission : OperatorPermission :=
  { OperatorPermission.empty with gasRemaining := unlimited, timesRemaining := unlimited }

/-- An operation with a gas limit of `2 ^ 128` at a price of one. -/
def costly : UserOperation :=
  ⟨.zero, 0, .empty, .empty, 2 ^ 128, 0, 0, 1, 0, .empty, .empty⟩

/-- An operator whose fees are unlimited is refused for the fee of an operation, the gas of which fits into
256 bits. -/
theorem unlimited_fees_exceeded :
    let s := Store.empty.setPermission .zero .zero unlimitedPermission
    (∀ n ∈ [costly.callGasLimit, costly.verificationGasLimit, costly.preVerificationGas,
      costly.maxFeePerGas], 0 ≤ n ∧ n < 2 ^ 256) ∧
    (Work.change fun t => orFail (t.consumeBudget .zero .zero costly)).on ⟨s, []⟩ =
      (.error (.failed (.refused (.gasExceeded (2 ^ 128) unlimited))), ⟨s, []⟩) := by
  intro s
  have filed : s.permission .zero .zero = unlimitedPermission :=
    (Store.files_setPermission .empty .zero .zero unlimitedPermission).filed
  obtain ⟨-, -, unchanged, sentinel⟩ := operation_charged_iff s .zero .zero costly []
  have refused := (sentinel (by rw [filed]; rfl)).2 (by decide)
  exact ⟨by decide, Prod.ext refused (unchanged (by rw [refused]; nofun))⟩

end SessionKeys
