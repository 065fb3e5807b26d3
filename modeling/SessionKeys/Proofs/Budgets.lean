import SessionKeys.Proofs.Atomicity
import SessionKeys.Proofs.Commits
import SessionKeys.Proofs.History
import SessionKeys.Proofs.Permissions

/-!
The budgets of operators over a whole run. While nobody sets the budgets of an operator they pay, to the
last unit, for the operations that are carried out: those that are refused, and dry runs, cost nothing.
Budgets are taken to fit into 128 bits where the owner sets them; those in permits always do, because a
permit is hashed before it is installed. Main statement: `budgets_conserved`.
-/

namespace SessionKeys

/-! ### Changes of the owner -/

/-- The row of the operator of which an event reports a budget as set. -/
def Event.budgetRow? : Event → Option (List (List Char))
  | operatorRemainingGasSet wallet operator _ => some (permissionRow wallet operator)
  | operatorRemainingTimesSet wallet operator _ => some (permissionRow wallet operator)
  | operatorPermissionSet wallet operator _ => some (permissionRow wallet operator)
  | permitConsumed wallet operator _ _ => some (permissionRow wallet operator)
  | _ => none

/-- Every permission that is filed has budgets. -/
def Store.HasBudgets (s : Store) : Prop :=
  ∀ row, (s.permissionIn row).HasBudgets

namespace ManagementCall

/-- The budgets that a call sets. -/
def budgets : ManagementCall → List Int
  | setOperatorRemainingGas _ _ gasRemaining => [gasRemaining]
  | setOperatorRemainingTimes _ _ timesRemaining => [timesRemaining]
  | setOperatorPermission _ _ permission => [permission.gasRemaining, permission.timesRemaining]
  | _ => []

variable {s s' : Store} {call : ManagementCall} {events : List Event}

/-- A budget of a row that is left alone by a call, or set by it and reported. -/
def KeepsOrSets (call : ManagementCall) (events : List Event) (row : List (List Char))
    (before after : Int) : Prop :=
  after = before ∨ after ∈ call.budgets ∧ ∃ event ∈ events, event.budgetRow? = some row

/-- A call sets one permission or none. What it changes of the budgets is reported, and the window is a
new one only if the whole permission is. -/
theorem permissions_apply (h : call.apply s = .ok (s', events)) :
    s'.permissions = s.permissions ∨
      ∃ wallet operator p, s' = s.setPermission wallet operator p ∧
        call.KeepsOrSets events (permissionRow wallet operator)
          (s.permission wallet operator).gasRemaining p.gasRemaining ∧
        call.KeepsOrSets events (permissionRow wallet operator)
          (s.permission wallet operator).timesRemaining p.timesRemaining ∧
        (p.window = (s.permission wallet operator).window ∨
          call = .setOperatorPermission wallet operator p) := by
  cases call with
  | setSessionRoot wallet operator sessionRoot =>
    cases h
    exact .inr ⟨wallet, operator, _, rfl, .inl rfl, .inl rfl, .inl rfl⟩
  | setOperatorRemainingGas wallet operator gasRemaining =>
    cases h
    refine .inr ⟨wallet, operator, _, rfl, .inr ⟨List.mem_singleton_self _, ?_⟩, .inl rfl, .inl rfl⟩
    exact ⟨_, List.mem_singleton_self _, rfl⟩
  | setOperatorRemainingTimes wallet operator timesRemaining =>
    cases h
    refine .inr ⟨wallet, operator, _, rfl, .inl rfl, .inr ⟨List.mem_singleton_self _, ?_⟩, .inl rfl⟩
    exact ⟨_, List.mem_singleton_self _, rfl⟩
  | setOperatorPermission wallet operator permission =>
    obtain ⟨-, -, done⟩ := bind_eq_ok.1 h
    cases done
    have reported : ∃ event ∈ [Event.operatorPermissionSet wallet operator permission],
        event.budgetRow? = some (permissionRow wallet operator) :=
      ⟨_, List.mem_singleton_self _, rfl⟩
    exact .inr ⟨wallet, operator, permission, rfl, .inr ⟨by simp [budgets], reported⟩,
      .inr ⟨by simp [budgets], reported⟩, .inr rfl⟩
  | setSpendingLimit | revokeSignature =>
    cases h
    exact .inl rfl
  | batchSetSpendingLimit wallet operator limits =>
    cases h
    rw [Store.startSpendingLimits_eq]
    exact .inl rfl
  | resetSpendingLimit | deleteSpendingLimit =>
    simp only [apply] at h
    split at h
    · cases h
      exact .inl rfl
    · cases h
      exact .inl rfl

/-- A call leaves the budgets of a row alone if it reports none of them as set. -/
theorem pays_apply (h : call.apply s = .ok (s', events)) {row : List (List Char)}
    (fits : (s.permissionIn row).HasBudgets)
    (silent : ∀ event ∈ events, event.budgetRow? ≠ some row) :
    (s.permissionIn row).Pays 0 0 (s'.permissionIn row) := by
  rcases permissions_apply h with same | ⟨wallet, operator, p, rfl, gas, times, -⟩
  · rw [Store.permissionIn_congr same]
    exact .nothing fits
  · rw [Store.permissionIn_setPermission]
    by_cases here : permissionRow wallet operator = row
    · subst here
      rw [if_pos rfl]
      have keeps : ∀ {before after : Int}, IsBudget before →
          call.KeepsOrSets events (permissionRow wallet operator) before after →
            Pays before 0 after := by
        rintro before after had (rfl | ⟨-, event, he, reported⟩)
        · exact .nothing had
        · exact absurd reported (silent event he)
      exact ⟨keeps fits.gas gas, keeps fits.times times⟩
    · rw [if_neg here]
      exact .nothing fits

/-- Every permission has budgets after a call that sets none but such. -/
theorem hasBudgets_apply (h : call.apply s = .ok (s', events)) (before : s.HasBudgets)
    (fits : ∀ n ∈ call.budgets, IsBudget n) : s'.HasBudgets := by
  rcases permissions_apply h with same | ⟨wallet, operator, p, rfl, gas, times, -⟩
  · intro row
    rw [Store.permissionIn_congr same]
    exact before row
  · have stays : ∀ {row : List (List Char)} {old new : Int}, IsBudget old →
        call.KeepsOrSets events row old new → IsBudget new := by
      rintro row old new had (same | ⟨set, -⟩)
      · exact same ▸ had
      · exact fits new set
    have had := before (permissionRow wallet operator)
    exact Store.forall_permissionIn_setPermission before ⟨stays had.gas gas, stays had.times times⟩
      wallet operator

end ManagementCall

/-! ### Operations -/

/-- The operations of the operator whose permission is filed in a row. -/
def operationsIn (row : List (List Char)) (operations : List Accepted) : List Accepted :=
  operations.filter fun (p, _) => p.operatorRow = row

/-- What the operations of an operator cost together. -/
def totalFees (row : List (List Char)) (operations : List Accepted) : Int :=
  ((operationsIn row operations).map fun (p, _) => p.op.maxFee).sum

/-- How many operations of an operator there are. -/
def operationCount (row : List (List Char)) (operations : List Accepted) : Int :=
  (operationsIn row operations).length

theorem totalFees_append (row : List (List Char)) (first rest : List Accepted) :
    totalFees row (first ++ rest) = totalFees row first + totalFees row rest := by
  unfold totalFees operationsIn
  rw [List.filter_append, List.map_append, List.sum_append]

theorem operationCount_append (row : List (List Char)) (first rest : List Accepted) :
    operationCount row (first ++ rest) = operationCount row first + operationCount row rest := by
  unfold operationCount operationsIn
  rw [List.filter_append, List.length_append, Int.natCast_add]

namespace Timeline

variable {e : Engine} {t : Timeline} {actions : List Action} {index : Nat} {simulate : Bool}
  {p : PreparedOperation}

/-- A permit that is ready to be installed grants budgets: it could not have been hashed otherwise. -/
theorem hasBudgets_of_ready {v : VerifiedPermit}
    (ready : ((ofEngine e).run actions).1.running[index]? = some ⟨simulate, .ready p (some v)⟩) :
    v.permit.permission.HasBudgets := by
  obtain ⟨before, middle, answered, rest, request, -, asked, -, -, rfl⟩ :=
    answered_of_ready (isUnread_ofEngine e index) ready
  obtain ⟨permit, -, read⟩ := Engine.request_eq_some.1 asked
  obtain ⟨_, granted⟩ := PermitRequest.exists_hash_of_ofPermit read
  obtain ⟨_, _, _, -, -, -, -, -, rfl⟩ := PermitRequest.ofPermit_eq_ok.1 read
  exact OperatorPermission.hasBudgets_of_hash granted

/-- What an operation is charged to has budgets. -/
theorem hasBudgets_inForce {permit : Option VerifiedPermit}
    (ready : ((ofEngine e).run actions).1.running[index]? = some ⟨simulate, .ready p permit⟩)
    (had : (((ofEngine e).run actions).1.engine.store.permissionIn p.operatorRow).HasBudgets) :
    (p.permissionInForce permit ((ofEngine e).run actions).1.engine.store).HasBudgets := by
  cases permit with
  | none => exact had
  | some v => exact hasBudgets_of_ready ready

/-- The fee of an operation that is carried out is not negative if that of none is that is submitted. -/
theorem nonneg_maxFee_of_accepted
    (fees : ∀ op userOpHash simulate, .start op userOpHash simulate ∈ actions → op.HasNonnegGas)
    {a : Action} {x : Accepted} (accepted : ((ofEngine e).run actions).1.accepted? a = some x) :
    0 ≤ x.1.op.maxFee := by
  obtain ⟨index, -, ready, -⟩ := accepted?_eq_some.1 accepted
  obtain ⟨userOpHash, simulate, started⟩ := exists_start_of_ready ready
  exact (fees _ _ _ started).maxFee

/-- Every permission has budgets after a run. -/
theorem hasBudgets_run (had : e.store.HasBudgets)
    (fees : ∀ op userOpHash simulate, .start op userOpHash simulate ∈ actions → op.HasNonnegGas)
    (fits : ∀ call, .manage call ∈ actions → ∀ n ∈ call.budgets, IsBudget n) :
    ((ofEngine e).run actions).1.engine.store.HasBudgets := by
  induction actions using List.reverseRecOn with
  | nil => exact had
  | append_singleton seen a ih =>
    have feesBefore : ∀ op userOpHash simulate, .start op userOpHash simulate ∈ seen →
        op.HasNonnegGas :=
      fun op userOpHash simulate hs => fees op userOpHash simulate (List.mem_append_left _ hs)
    have before := ih feesBefore fun call hc => fits call (List.mem_append_left _ hc)
    rw [run_concat]
    have effect := ((ofEngine e).run seen).1.step_effect a
    generalize (((ofEngine e).run seen).1.step a).1.engine.store = s,
      (((ofEngine e).run seen).1.step a).2 = events at effect ⊢
    cases effect with
    | idle none noCall => exact before
    | refuses refused => exact before
    | manages applied =>
      exact ManagementCall.hasBudgets_apply applied before
        (fits _ (List.mem_append_right _ (List.mem_singleton_self _)))
    | @accepts index p permit _ window ready accepted settled =>
      have left := PreparedOperation.pays_settle settled
        (nonneg_maxFee_of_accepted feesBefore accepted) (hasBudgets_inForce ready (before _))
      obtain ⟨_, -, filed⟩ := PreparedOperation.permissionIn_settle settled
      intro row
      by_cases here : p.operatorRow = row
      · exact here ▸ left.hasBudgets
      · rw [filed, if_neg here]
        exact before row

/-- The budgets of a row pay for a step in which nobody sets them. -/
theorem pays_step {a : Action} {row : List (List Char)}
    (fits : (t.engine.store.permissionIn row).HasBudgets)
    (nonneg : ∀ x, t.accepted? a = some x → 0 ≤ x.1.op.maxFee)
    (silent : ∀ event ∈ (t.step a).2, event.budgetRow? ≠ some row) :
    (t.engine.store.permissionIn row).Pays (totalFees row (t.accepted? a).toList)
      (operationCount row (t.accepted? a).toList) ((t.step a).1.engine.store.permissionIn row) := by
  have effect := t.step_effect a
  generalize (t.step a).1.engine.store = s, (t.step a).2 = events at effect silent ⊢
  cases effect with
  | idle none noCall =>
    rw [none]
    exact .nothing fits
  | refuses refused => exact .nothing fits
  | manages applied => exact ManagementCall.pays_apply applied fits silent
  | @accepts index p permit _ window ready accepted settled =>
    rw [accepted]
    by_cases here : p.operatorRow = row
    · -- a permit would have been reported
      have none : permit = Option.none := by
        cases permit with
        | none => rfl
        | some v => exact absurd (congrArg some here) (silent _ (List.mem_singleton_self _))
      subst none here
      have left : (t.engine.store.permissionIn p.operatorRow).Pays p.op.maxFee 1 _ :=
        PreparedOperation.pays_settle settled (nonneg _ accepted) fits
      simpa [totalFees, operationCount, operationsIn] using left
    · obtain ⟨_, -, filed⟩ := PreparedOperation.permissionIn_settle settled
      rw [filed, if_neg here]
      simpa [totalFees, operationCount, operationsIn, here] using OperatorPermission.Pays.nothing fits

/-- The budgets of a row pay for a run in which nobody sets them. -/
theorem pays_run {row : List (List Char)} (fits : (t.engine.store.permissionIn row).HasBudgets)
    (nonneg : ∀ x ∈ t.accepted actions, 0 ≤ x.1.op.maxFee)
    (silent : ∀ event ∈ (t.run actions).2, event.budgetRow? ≠ some row) :
    (t.engine.store.permissionIn row).Pays (totalFees row (t.accepted actions))
      (operationCount row (t.accepted actions)) ((t.run actions).1.engine.store.permissionIn row) := by
  induction actions generalizing t with
  | nil => exact .nothing fits
  | cons a rest ih =>
    have now := pays_step (a := a) fits
      (fun x hx => nonneg x (List.mem_append_left _ (Option.mem_toList.2 hx)))
      fun event he => silent event (List.mem_append_left _ he)
    have later := ih now.hasBudgets (fun x hx => nonneg x (List.mem_append_right _ hx))
      fun event he => silent event (List.mem_append_right _ he)
    rw [accepted, totalFees_append, operationCount_append]
    exact now.trans later

end Timeline

/-- **Budgets are conserved.** In every run of an engine that starts with nothing written, of operations
whose gas is not negative, and in which the owner sets no budgets but such that fit into 128 bits, every
permission has such budgets. Over a stretch of a run in which no event reports a budget of an operator as
set, by the owner or by a permit, the budgets of the operator pay for exactly the operations that are
carried out: for their fees and for one use each. An operation that carries a permit is charged to the
budgets that the permit grants, and these are what is left for the stretch that starts there. -/
theorem budgets_conserved {config : Config} {registry : Registry} {before stretch : List Action}
    (fees : ∀ op userOpHash simulate,
      .start op userOpHash simulate ∈ before ++ stretch → op.HasNonnegGas)
    (fits : ∀ call, .manage call ∈ before ++ stretch → ∀ n ∈ call.budgets, IsBudget n)
    (wallet operator : Address) :
    let start := ((Timeline.ofEngine ⟨config, .empty, registry⟩).run before).1
    let last := (start.run stretch).1
    let row := permissionRow wallet operator
    (last.engine.store.permission wallet operator).HasBudgets ∧
    ((∀ event ∈ (start.run stretch).2, event.budgetRow? ≠ some row) →
      (start.engine.store.permission wallet operator).Pays
        (totalFees row (start.accepted stretch)) (operationCount row (start.accepted stretch))
        (last.engine.store.permission wallet operator)) ∧
    ∀ a p permit grant, last.accepted? a = some (p, permit) → p.operatorRow = row →
      p.permit = some grant →
        grant.permission.Pays p.op.maxFee 1
          ((last.step a).1.engine.store.permission wallet operator) := by
  intro start last row
  let e : Engine := ⟨config, .empty, registry⟩
  have reached : ∀ seen, ((Timeline.ofEngine e).run (before ++ seen)).1 = (start.run seen).1 := by
    intro seen
    rw [Timeline.run_append]
  have nothing : e.store.HasBudgets := by
    intro row
    rw [Store.permissionIn, show e.store.permissions = ∅ from rfl, Table.find?_empty]
    exact OperatorPermission.hasBudgets_empty
  have had : start.engine.store.HasBudgets :=
    Timeline.hasBudgets_run nothing
      (fun op userOpHash simulate hs => fees op userOpHash simulate (List.mem_append_left _ hs))
      fun call hc => fits call (List.mem_append_left _ hc)
  have ends : ((Timeline.ofEngine e).run (before ++ stretch)).1 = last := reached stretch
  have has : last.engine.store.HasBudgets := ends ▸ Timeline.hasBudgets_run nothing fees fits
  refine ⟨has row, fun silent => ?_, fun a p permit grant accepted here carried => ?_⟩
  · refine Timeline.pays_run (had row) (fun x hx => ?_) silent
    obtain ⟨seen, a, rest, rfl, accepted⟩ := Timeline.exists_step_of_accepted hx
    rw [← reached] at accepted
    refine Timeline.nonneg_maxFee_of_accepted (fun op userOpHash simulate hs => ?_) accepted
    refine fees op userOpHash simulate ?_
    rw [← List.append_assoc]
    exact List.mem_append_left _ hs
  · obtain ⟨⟨index, ready⟩, ⟨window, settled⟩, -⟩ := Timeline.settled_of_accepted accepted
    rw [← ends] at accepted ready
    have nonneg := Timeline.nonneg_maxFee_of_accepted fees accepted
    have inForce : p.permissionInForce permit last.engine.store = grant.permission := by
      have carries : permit.map (·.permit) = p.permit := Timeline.carries_run e _ ready
      unfold PreparedOperation.permissionInForce
      rw [carries, carried]
      rfl
    have granted : (p.permissionInForce permit last.engine.store).HasBudgets := by
      rw [← ends] at has ⊢
      exact Timeline.hasBudgets_inForce ready (has _)
    have left := PreparedOperation.pays_settle settled nonneg granted
    rw [inForce, here] at left
    exact left

/-- The budgets that the owner sets are what is left of them, beside a validation that is refused. -/
theorem unpaid_beside_refused :
    let before : List Action :=
      [.manage (.setOperatorRemainingGas .zero .zero 5),
        .manage (.setOperatorRemainingTimes .zero .zero unlimited)]
    let stretch : List Action :=
      [.start unsigned .empty false, .manage (.setSessionRoot .zero .zero .empty), .finish 0]
    let config : Config := ⟨.zero, .zero, 1, .zero, none, none⟩
    let start := ((Timeline.ofEngine ⟨config, .empty, {}⟩).run before).1
    let last := (start.run stretch).1
    (∀ op userOpHash simulate, .start op userOpHash simulate ∈ before ++ stretch → op.HasNonnegGas) ∧
      (∀ call, .manage call ∈ before ++ stretch → ∀ n ∈ call.budgets, IsBudget n) ∧
      (last.engine.store.permission .zero .zero).gasRemaining = 5 ∧
      (last.engine.store.permission .zero .zero).timesRemaining = unlimited := by
  intro before stretch config start last
  have fees : ∀ op userOpHash simulate, .start op userOpHash simulate ∈ before ++ stretch →
      op.HasNonnegGas := by
    intro op userOpHash simulate hs
    simp only [before, stretch, List.cons_append, List.nil_append, List.mem_cons, reduceCtorEq,
      Action.start.injEq, List.not_mem_nil, or_false, false_or] at hs
    rw [hs.1]
    exact ⟨by decide, by decide, by decide, by decide⟩
  have fits : ∀ call, .manage call ∈ before ++ stretch → ∀ n ∈ call.budgets, IsBudget n := by
    intro call hc n hn
    simp only [before, stretch, List.cons_append, List.nil_append, List.mem_cons, Action.manage.injEq,
      reduceCtorEq, List.not_mem_nil, or_false, false_or] at hc
    rcases hc with rfl | rfl | rfl
    · rw [List.mem_singleton.1 hn]
      exact ⟨by decide, by decide⟩
    · rw [List.mem_singleton.1 hn]
      exact ⟨by decide, by decide⟩
    · cases hn
  have silent : ∀ event ∈ (start.run stretch).2,
      event.budgetRow? ≠ some (permissionRow .zero .zero) := by
    intro event he
    rw [show event = .sessionRootSet .zero .zero .empty from List.mem_singleton.1 he]
    nofun
  have set : (start.engine.store.permission .zero .zero).gasRemaining = 5 ∧
      (start.engine.store.permission .zero .zero).timesRemaining = unlimited := by
    simp [start, before, Timeline.run, Timeline.step, Timeline.ofEngine, Engine.manage,
      ManagementCall.apply, Store.updatePermission, Store.setPermission, Store.permission, pure_eq_ok]
  have pays := (budgets_conserved fees fits .zero .zero).2.1 silent
  have left := (pays.gas.limited (by rw [set.1]; decide)).1
  rw [set.1] at left
  exact ⟨fees, fits, left, pays.times.unlimited set.2⟩

end SessionKeys
