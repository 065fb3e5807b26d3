import SessionKeys.Proofs.Atomicity
import SessionKeys.Proofs.Charges
import SessionKeys.Proofs.Commits
import SessionKeys.Proofs.History
import SessionKeys.Proofs.SignatureForms

/-!
The limits on tokens over a whole run. What is spent of a limit never exceeds it, and while nobody sets
the limit it grows by exactly what the operations that are carried out report as spent: those that are
refused, and dry runs, spend nothing. Allowances are taken to be not negative where the owner sets them;
those in permits never are (`SessionSignature.nonneg_allowance`). Main statement: `spent_within_cap`.
-/

namespace SessionKeys

/-! ### Allowances that are read -/

/-- No permit that is read from a signature has a negative allowance. -/
theorem SessionSignature.nonneg_allowance {mode : ExecutionMode} {payload : Hex}
    {shown : SessionSignature} (h : SessionSignature.decode mode payload = .ok shown) {permit : Permit}
    (carried : shown.permit = some permit) : ∀ l ∈ permit.spendingLimits, 0 ≤ l.allowance := by
  obtain ⟨-, -, limits, -⟩ := SessionSignature.fits_permit h carried
  intro l hl
  obtain ⟨-, allowance, -⟩ := limits l.values (List.mem_map_of_mem hl)
  exact allowance.1

/-! ### Changes of the owner -/

/-- The row of the limit that an event reports as set, reset or deleted. -/
def Event.limitRow? : Event → Option (List (List Char))
  | spendingLimitSet wallet operator token _ => some (limitRow wallet operator token)
  | spendingLimitReset wallet operator token => some (limitRow wallet operator token)
  | spendingLimitDeleted wallet operator token => some (limitRow wallet operator token)
  | _ => none

namespace ManagementCall

/-- The allowances that a call configures. -/
def allowances : ManagementCall → List Int
  | setSpendingLimit _ _ _ allowance => [allowance]
  | batchSetSpendingLimit _ _ limits => limits.map (·.allowance)
  | _ => []

variable {s s' : Store} {call : ManagementCall} {events : List Event}

/-- A limit that no event reports as set, reset or deleted is not changed. -/
theorem limitIn?_apply (h : call.apply s = .ok (s', events)) {row : List (List Char)}
    (silent : ∀ event ∈ events, event.limitRow? ≠ some row) : s'.limitIn? row = s.limitIn? row := by
  have other : ∀ event ∈ events, ∀ set, event.limitRow? = some set → set ≠ row := by
    rintro event he _ reported rfl
    exact silent event he reported
  cases call with
  | setSessionRoot | setOperatorRemainingGas | setOperatorRemainingTimes | revokeSignature =>
    cases h
    rfl
  | setOperatorPermission wallet operator permission =>
    obtain ⟨-, -, done⟩ := bind_eq_ok.1 h
    cases done
    rfl
  | setSpendingLimit wallet operator token allowance =>
    cases h
    rw [Store.limitIn?_setSpendingLimit, if_neg (other _ (List.mem_singleton_self _) _ rfl)]
  | batchSetSpendingLimit wallet operator limits =>
    cases h
    exact Store.limitIn?_startSpendingLimits fun l hl =>
      other _ (List.mem_map.2 ⟨l, hl, rfl⟩) _ rfl
  | resetSpendingLimit wallet operator token =>
    simp only [apply] at h
    split at h
    · cases h
      rfl
    · cases h
      rw [Store.limitIn?_setSpendingLimit, if_neg (other _ (List.mem_singleton_self _) _ rfl)]
  | deleteSpendingLimit wallet operator token =>
    simp only [apply] at h
    split at h
    · cases h
      rfl
    · cases h
      exact Table.find?_remove_of_ne (other _ (List.mem_singleton_self _) _ rfl)

/-- A change of the owner exceeds no limit, if the allowances that it configures are not negative. -/
theorem keepsCaps_apply (h : call.apply s = .ok (s', events)) (caps : s.KeepsCaps)
    (nonneg : ∀ n ∈ call.allowances, 0 ≤ n) : s'.KeepsCaps := by
  cases call with
  | setSessionRoot | setOperatorRemainingGas | setOperatorRemainingTimes | revokeSignature =>
    cases h
    exact caps.congr rfl
  | setOperatorPermission wallet operator permission =>
    obtain ⟨-, -, done⟩ := bind_eq_ok.1 h
    cases done
    exact caps.congr rfl
  | setSpendingLimit wallet operator token allowance =>
    cases h
    exact caps.set ⟨Int.le_refl 0, nonneg allowance (List.mem_singleton_self _)⟩ wallet operator token
  | batchSetSpendingLimit wallet operator limits =>
    cases h
    exact caps.start (fun l hl => nonneg l.allowance (List.mem_map.2 ⟨l, hl, rfl⟩)) wallet operator
  | resetSpendingLimit wallet operator token =>
    simp only [apply] at h
    split at h
    · cases h
      exact caps
    next info found =>
      cases h
      obtain ⟨positive, within⟩ := caps _ info found
      have room : 0 ≤ info.allowance := Int.le_trans positive within
      exact caps.set ⟨Int.le_refl 0, room⟩ wallet operator token
  | deleteSpendingLimit wallet operator token =>
    simp only [apply] at h
    split at h
    · cases h
      exact caps
    · cases h
      intro row info found
      unfold Store.limitIn? Store.deleteSpendingLimit at found
      rw [Table.find?_remove] at found
      split at found
      · cases found
      · exact caps row info found

end ManagementCall

/-! ### Runs -/

/-- What some operations report as spent in a row. -/
def totalSpent (row : List (List Char)) (operations : List Accepted) : Int :=
  (operations.map fun (p, _) => p.spentIn row).sum

theorem totalSpent_append (row : List (List Char)) (first rest : List Accepted) :
    totalSpent row (first ++ rest) = totalSpent row first + totalSpent row rest := by
  unfold totalSpent
  rw [List.map_append, List.sum_append]

namespace Timeline

variable {e : Engine} {actions : List Action}

/-- No permit that a validation is ready to install has a negative allowance. -/
theorem nonneg_allowance_of_ready {index : Nat} {simulate : Bool} {p : PreparedOperation}
    {v : VerifiedPermit}
    (ready : ((ofEngine e).run actions).1.running[index]? = some ⟨simulate, .ready p (some v)⟩) :
    ∀ l ∈ v.permit.spendingLimits, 0 ≤ l.allowance := by
  have carries : some v.permit = p.permit := carries_run e actions ready
  obtain ⟨submitted, -, -, prepared⟩ := submitted_of_running ready
  obtain ⟨operation, shown, message, -, -, shows, -, -, rfl⟩ :=
    PreparedOperation.ofOperation_eq_ok.1 (prepared p rfl)
  exact SessionSignature.nonneg_allowance shows carries.symm

/-- No limit is exceeded in a run. -/
theorem keepsCaps_run (caps : e.store.KeepsCaps)
    (nonneg : ∀ call, .manage call ∈ actions → ∀ n ∈ call.allowances, 0 ≤ n) :
    ((ofEngine e).run actions).1.engine.store.KeepsCaps := by
  induction actions using List.reverseRecOn with
  | nil => exact caps
  | append_singleton seen a ih =>
    have before := ih fun call hc => nonneg call (List.mem_append_left _ hc)
    rw [run_concat]
    have effect := ((ofEngine e).run seen).1.step_effect a
    generalize (((ofEngine e).run seen).1.step a).1.engine.store = s,
      (((ofEngine e).run seen).1.step a).2 = events at effect ⊢
    cases effect with
    | idle none noCall => exact before
    | refuses refused => exact before
    | manages applied =>
      exact ManagementCall.keepsCaps_apply applied before
        (nonneg _ (List.mem_append_right _ (List.mem_singleton_self _)))
    | @accepts index p permit _ window ready accepted settled =>
      refine PreparedOperation.keepsCaps_settle settled before ?_
      rintro v rfl
      exact nonneg_allowance_of_ready ready

/-- A limit that is not set in a run is charged what the operations that are carried out report. -/
theorem limitIn?_run {t : Timeline} {row : List (List Char)}
    (silent : ∀ event ∈ (t.run actions).2, event.limitRow? ≠ some row)
    (unlisted : ∀ x ∈ t.accepted actions, row ∉ x.1.limitRows x.2) :
    (t.run actions).1.engine.store.limitIn? row =
      (t.engine.store.limitIn? row).map (·.charged (totalSpent row (t.accepted actions))) := by
  induction actions generalizing t with
  | nil =>
    exact (SpendingLimitInfo.map_charged_zero _).symm
  | cons a rest ih =>
    have now : (t.step a).1.engine.store.limitIn? row =
        (t.engine.store.limitIn? row).map (·.charged (totalSpent row (t.accepted? a).toList)) := by
      have silentNow : ∀ event ∈ (t.step a).2, event.limitRow? ≠ some row :=
        fun event he => silent event (List.mem_append_left _ he)
      have unlistedNow : ∀ x ∈ (t.accepted? a).toList, row ∉ x.1.limitRows x.2 :=
        fun x hx => unlisted x (List.mem_append_left _ hx)
      have idle : t.engine.store.limitIn? row = (t.engine.store.limitIn? row).map (·.charged 0) :=
        (SpendingLimitInfo.map_charged_zero _).symm
      have effect := t.step_effect a
      generalize (t.step a).1.engine.store = s, (t.step a).2 = events at effect silentNow ⊢
      cases effect with
      | idle none noCall =>
        rw [none]
        exact idle
      | refuses refused => exact idle
      | manages applied => exact (ManagementCall.limitIn?_apply applied silentNow).trans idle
      | @accepts index p permit _ window ready accepted settled =>
        rw [accepted] at unlistedNow ⊢
        have other := unlistedNow (p, permit) (List.mem_singleton_self _)
        rw [PreparedOperation.limitIn?_settle settled other]
        simp [totalSpent]
    have silentLater : ∀ event ∈ ((t.step a).1.run rest).2, event.limitRow? ≠ some row :=
      fun event he => silent event (List.mem_append_right _ he)
    have unlistedLater : ∀ x ∈ (t.step a).1.accepted rest, row ∉ x.1.limitRows x.2 :=
      fun x hx => unlisted x (List.mem_append_right _ hx)
    show ((t.step a).1.run rest).1.engine.store.limitIn? row = _
    rw [ih silentLater unlistedLater, now, accepted, totalSpent_append,
      SpendingLimitInfo.map_charged_charged]

/-- What the calls of an operation spend could be read if the operation was carried out. -/
theorem reported_of_accepted {t : Timeline} {x : Accepted} (hx : x ∈ t.accepted actions) :
    ∀ step ∈ x.1.steps, ∃ spends, step.1.spends x.1.op.sender = .ok spends := by
  obtain ⟨seen, a, rest, -, accepted⟩ := exists_step_of_accepted hx
  obtain ⟨-, ⟨window, settled⟩, -⟩ := settled_of_accepted accepted
  exact (PreparedOperation.charges_of_settle settled).1

end Timeline

/-- **What is spent stays within the limits.** In every run of an engine that starts with nothing
written, in which the owner configures no negative allowance, no limit is exceeded. Over a stretch of a
run in which no event reports the limit on a token as set, reset or deleted, and no permit that is
installed lists the token, a configured limit has exactly that more spent of it which the calls of the
operations that are carried out report for the token; and a token without a limit has none at the end.
What the calls of these operations spend could be read, every one. -/
theorem spent_within_cap {config : Config} {registry : Registry} {before stretch : List Action}
    (nonneg : ∀ call, .manage call ∈ before ++ stretch → ∀ n ∈ call.allowances, 0 ≤ n)
    (wallet operator token : Address) :
    let start := ((Timeline.ofEngine ⟨config, .empty, registry⟩).run before).1
    let last := (start.run stretch).1
    (∀ info, last.engine.store.spendingLimit? wallet operator token = some info →
      0 ≤ info.spent ∧ info.spent ≤ info.allowance) ∧
    ((∀ event ∈ (start.run stretch).2, event.limitRow? ≠ some (limitRow wallet operator token)) →
      (∀ x ∈ start.accepted stretch, limitRow wallet operator token ∉ x.1.limitRows x.2) →
      last.engine.store.spendingLimit? wallet operator token =
        (start.engine.store.spendingLimit? wallet operator token).map fun info =>
          { info with
            spent := info.spent +
              totalSpent (limitRow wallet operator token) (start.accepted stretch) }) ∧
    ∀ x ∈ start.accepted stretch, ∀ step ∈ x.1.steps,
      ∃ spends, step.1.spends x.1.op.sender = .ok spends := by
  intro start last
  have nothing : Store.empty.KeepsCaps := by
    intro row info found
    rw [Store.limitIn?, Store.empty, Table.find?_empty] at found
    cases found
  have caps : last.engine.store.KeepsCaps := by
    have all := Timeline.keepsCaps_run (e := ⟨config, .empty, registry⟩) nothing nonneg
    rw [Timeline.run_append] at all
    exact all
  refine ⟨caps (limitRow wallet operator token), ?_, fun x hx => Timeline.reported_of_accepted hx⟩
  intro silent unlisted
  exact Timeline.limitIn?_run silent unlisted

/-- A limit that nothing is spent of stays as it was set, beside a validation that is refused. -/
theorem unspent_beside_refused :
    let before : List Action := [.manage (.setSpendingLimit .zero .zero .zero 5)]
    let stretch : List Action := [.start unsigned .empty false, .finish 0]
    let config : Config := ⟨.zero, .zero, 1, .zero, none, none⟩
    let start := ((Timeline.ofEngine ⟨config, .empty, {}⟩).run before).1
    (∀ call, .manage call ∈ before ++ stretch → ∀ n ∈ call.allowances, 0 ≤ n) ∧
      start.engine.store.spendingLimit? .zero .zero .zero = some ⟨5, 0⟩ ∧
      (start.run stretch).1.engine.store.spendingLimit? .zero .zero .zero = some ⟨5, 0⟩ := by
  intro before stretch config start
  have nonneg : ∀ call, .manage call ∈ before ++ stretch → ∀ n ∈ call.allowances, 0 ≤ n := by
    intro call hc n hn
    simp only [before, stretch, List.cons_append, List.nil_append, List.mem_cons, Action.manage.injEq,
      reduceCtorEq, List.not_mem_nil, or_false] at hc
    subst hc
    rw [ManagementCall.allowances, List.mem_singleton] at hn
    omega
  have set : start.engine.store.spendingLimit? .zero .zero .zero = some ⟨5, 0⟩ :=
    Table.find?_put_self _ _ _
  refine ⟨nonneg, set, ?_⟩
  have silent : ∀ event ∈ (start.run stretch).2,
      event.limitRow? ≠ some (limitRow .zero .zero .zero) := by
    intro event he
    cases he
  have unlisted : ∀ x ∈ start.accepted stretch, limitRow .zero .zero .zero ∉ x.1.limitRows x.2 := by
    intro x hx
    cases hx
  rw [(spent_within_cap nonneg .zero .zero .zero).2.1 silent unlisted, set]
  rfl

end SessionKeys
