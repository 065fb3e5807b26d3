import SessionKeys.Proofs.Settlement
import SessionKeys.Proofs.Spending

/-!
What settling an operation does to the table of limits, row by row. A limit has exactly that more spent
of it that the calls of the operation report for its row, and is not exceeded if it was not before.
This is proved for one charge, then for a call, for several calls and for an operation. Main statements:
`PreparedOperation.limitIn?_settle` and `PreparedOperation.keepsCaps_settle`.
-/

namespace SessionKeys

/-! ### Rows -/

/-- Where the limit of an operator on a token is filed. -/
def limitRow (wallet operator token : Address) : List (List Char) :=
  wallet.key ++ operator.key ++ token.key

/-- Well-formed addresses with different bytes are filed in different rows. -/
theorem limitRow_inj {wallet operator token wallet' operator' token' : Address}
    {w o t w' o' t' : Bytes} (hw : wallet.bytes? = some w) (ho : operator.bytes? = some o)
    (ht : token.bytes? = some t) (hw' : wallet'.bytes? = some w') (ho' : operator'.bytes? = some o')
    (ht' : token'.bytes? = some t') :
    limitRow wallet operator token = limitRow wallet' operator' token' ↔
      w = w' ∧ o = o' ∧ t = t' := by
  have key : ∀ {a : Address} {b : Bytes}, a.bytes? = some b → a.key = [(Hex.ofBytes b).chars] :=
    fun ha => Hex.key_of_bytes? (Address.bytes?_eq_some_iff.1 ha).1
  have chars : ∀ {x y : Bytes}, (Hex.ofBytes x).chars = (Hex.ofBytes y).chars ↔ x = y := by
    intro x y
    rw [← Hex.ofBytes_inj]
    simp [Hex.ofBytes, Hex.ofDigits]
  unfold limitRow
  rw [key hw, key ho, key ht, key hw', key ho', key ht']
  simp [chars]

/-- The limit that is filed in a row. -/
def Store.limitIn? (s : Store) (row : List (List Char)) : Option SpendingLimitInfo :=
  s.spendingLimits.find? row

theorem Store.limitIn?_limitRow (s : Store) (wallet operator token : Address) :
    s.limitIn? (limitRow wallet operator token) = s.spendingLimit? wallet operator token := rfl

theorem Store.limitIn?_setSpendingLimit (s : Store) (wallet operator token : Address)
    (info : SpendingLimitInfo) (row : List (List Char)) :
    (s.setSpendingLimit wallet operator token info).limitIn? row =
      if limitRow wallet operator token = row then some info else s.limitIn? row :=
  Table.find?_put _ _ _ _

/-- No limit is exceeded, and nothing is given back. -/
def Store.KeepsCaps (s : Store) : Prop :=
  ∀ row info, s.limitIn? row = some info → 0 ≤ info.spent ∧ info.spent ≤ info.allowance

theorem Store.KeepsCaps.congr {s s' : Store} (same : s'.spendingLimits = s.spendingLimits)
    (h : s.KeepsCaps) : s'.KeepsCaps := by
  intro row info hinfo
  unfold limitIn? at hinfo
  rw [same] at hinfo
  exact h row info hinfo

/-- A limit that is not exceeded may be set. -/
theorem Store.KeepsCaps.set {s : Store} (h : s.KeepsCaps) {info : SpendingLimitInfo}
    (kept : 0 ≤ info.spent ∧ info.spent ≤ info.allowance) (wallet operator token : Address) :
    (s.setSpendingLimit wallet operator token info).KeepsCaps := by
  intro row found hfound
  rw [limitIn?_setSpendingLimit] at hfound
  split at hfound
  · cases hfound
    exact kept
  · exact h row found hfound

/-! ### What is spent -/

/-- What some spendings of an operator come to in a row. -/
def spentIn (wallet operator : Address) (row : List (List Char)) (spends : List TokenSpend) : Int :=
  (spends.map fun spend =>
    if limitRow wallet operator spend.token = row then spend.amount else 0).sum

/-- What a call reports as spent in a row. -/
def WalletCall.spentIn (wallet operator : Address) (row : List (List Char)) (call : WalletCall) : Int :=
  match call.spends wallet with
  | .ok spends => SessionKeys.spentIn wallet operator row spends
  | .error _ => 0

/-- What all calls of an operation report as spent in a row. -/
def PreparedOperation.spentIn (p : PreparedOperation) (row : List (List Char)) : Int :=
  (p.steps.map fun (call, _) => call.spentIn p.op.sender p.operator row).sum

/-- A limit with more spent of it. -/
def SpendingLimitInfo.charged (amount : Int) (info : SpendingLimitInfo) : SpendingLimitInfo :=
  { info with spent := info.spent + amount }

theorem SpendingLimitInfo.map_charged_zero (limit : Option SpendingLimitInfo) :
    limit.map (·.charged 0) = limit := by
  cases limit with
  | none => rfl
  | some info =>
    rw [Option.map_some, charged, Int.add_zero]

theorem SpendingLimitInfo.map_charged_charged (m n : Int) (limit : Option SpendingLimitInfo) :
    (limit.map (·.charged m)).map (·.charged n) = limit.map (·.charged (m + n)) := by
  cases limit with
  | none => rfl
  | some info =>
    simp only [Option.map_some, charged]
    rw [Int.add_assoc]

/-- Every limit has an amount more spent of it in one store than in the other, and none is exceeded if
none was. -/
structure Store.Charges (s s' : Store) (amount : List (List Char) → Int) : Prop where
  limits : ∀ row, s'.limitIn? row = (s.limitIn? row).map (·.charged (amount row))
  caps : s.KeepsCaps → s'.KeepsCaps

namespace Store.Charges

variable {s s' s'' : Store} {m n : List (List Char) → Int}

theorem none (same : s'.spendingLimits = s.spendingLimits) : s.Charges s' fun _ => 0 := by
  refine ⟨fun row => ?_, KeepsCaps.congr same⟩
  unfold limitIn?
  rw [same, SpendingLimitInfo.map_charged_zero]

theorem trans (first : s.Charges s' m) (second : s'.Charges s'' n) :
    s.Charges s'' fun row => m row + n row := by
  refine ⟨fun row => ?_, fun caps => second.caps (first.caps caps)⟩
  rw [second.limits, first.limits, SpendingLimitInfo.map_charged_charged]

theorem congr (h : s.Charges s' m) (same : ∀ row, m row = n row) : s.Charges s' n :=
  ⟨fun row => same row ▸ h.limits row, h.caps⟩

/-- One spending is charged to the limit in its row, and to no other. -/
theorem consumeAllowance {wallet operator : Address} {spend : TokenSpend} (nonneg : 0 ≤ spend.amount)
    (h : s.consumeAllowance wallet operator spend = .ok s') :
    s.Charges s' fun row => spentIn wallet operator row [spend] := by
  have amount : ∀ row, spentIn wallet operator row [spend] =
      if limitRow wallet operator spend.token = row then spend.amount else 0 := by
    intro row
    unfold spentIn
    simp
  unfold Store.consumeAllowance at h
  cases found : s.spendingLimit? wallet operator spend.token with
  | none =>
    rw [found] at h
    cases h
    refine ⟨fun row => ?_, fun caps => caps⟩
    rw [amount]
    by_cases here : limitRow wallet operator spend.token = row
    · subst here
      rw [limitIn?_limitRow, found]
      rfl
    · rw [if_neg here]
      exact (none rfl).limits row
  | some info =>
    rw [found] at h
    simp only [bind_eq_ok, SpendingLimitInfo.afterSpend, error_ite_eq_ok, pure_eq_ok,
      Except.ok.injEq] at h
    obtain ⟨_, ⟨fits, rfl⟩, rfl⟩ := h
    refine ⟨fun row => ?_, fun caps => ?_⟩
    · rw [limitIn?_setSpendingLimit, amount]
      by_cases here : limitRow wallet operator spend.token = row
      · rw [if_pos here, if_pos here, ← here, limitIn?_limitRow, found]
        rfl
      · rw [if_neg here, if_neg here]
        exact (none rfl).limits row
    · have filed := (s.limitIn?_limitRow wallet operator spend.token).trans found
      obtain ⟨positive, -⟩ := caps _ info filed
      refine caps.set ⟨?_, ?_⟩ wallet operator spend.token
      · simp only
        omega
      · simp only
        omega

theorem consumeAllowances {wallet operator : Address} {spends : List TokenSpend}
    (nonneg : ∀ spend ∈ spends, 0 ≤ spend.amount)
    (h : spends.foldlM (fun s spend => s.consumeAllowance wallet operator spend) s = .ok s') :
    s.Charges s' fun row => spentIn wallet operator row spends := by
  induction spends generalizing s with
  | nil =>
    cases h
    exact none rfl
  | cons spend rest ih =>
    rw [List.foldlM_cons] at h
    obtain ⟨s₁, first, others⟩ := bind_eq_ok.1 h
    have now := consumeAllowance (nonneg spend List.mem_cons_self) first
    have later := ih (fun other ho => nonneg other (List.mem_cons_of_mem spend ho)) others
    refine (now.trans later).congr fun row => ?_
    unfold spentIn
    simp

/-- A call that is settled is charged what it reports. -/
theorem settleCall {c : CallContext} {index : Nat} {call : WalletCall} {shown : SessionEntry}
    (h : c.settleCall s index call shown = .ok s') :
    (∃ spends, call.spends c.wallet = .ok spends) ∧
      s.Charges s' fun row => call.spentIn c.wallet c.operator row := by
  unfold CallContext.settleCall Store.consumeCallAllowances at h
  simp only [bind_eq_ok, orFail_eq_ok] at h
  obtain ⟨-, -, s₁, used, spends, read, charged⟩ := h
  obtain ⟨uses, rfl⟩ := Store.exists_of_consumeSessionUse used
  refine ⟨⟨spends, read⟩, ?_⟩
  have counted : s.Charges { s with sessionUses := uses } fun _ => 0 := none rfl
  have spent := consumeAllowances (fun spend hs => call.nonneg_spends read hs) charged
  refine (counted.trans spent).congr fun row => ?_
  unfold WalletCall.spentIn
  rw [read, Int.zero_add]

theorem settleCalls {c : CallContext} {index : Nat} {steps : List (WalletCall × SessionEntry)}
    {w w' : ValidityWindow} (h : c.settleCalls index steps s w = .ok (s', w')) :
    (∀ step ∈ steps, ∃ spends, step.1.spends c.wallet = .ok spends) ∧
      s.Charges s' fun row => (steps.map fun (call, _) => call.spentIn c.wallet c.operator row).sum := by
  induction steps generalizing index s w with
  | nil =>
    cases h
    exact ⟨by simp, none rfl⟩
  | cons step rest ih =>
    obtain ⟨call, shown⟩ := step
    obtain ⟨s₁, settled, others⟩ := bind_eq_ok.1 h
    obtain ⟨w₁, -, others⟩ := bind_eq_ok.1 others
    obtain ⟨reported, now⟩ := settleCall settled
    obtain ⟨reports, later⟩ := ih others
    refine ⟨?_, (now.trans later).congr fun row => ?_⟩
    · intro step hs
      rcases List.mem_cons.1 hs with rfl | hs
      · exact reported
      · exact reports step hs
    · rw [List.map_cons, List.sum_cons]

end Store.Charges

/-! ### Permits -/

/-- The rows in which a permit of an operation sets limits. -/
def PreparedOperation.limitRows (p : PreparedOperation) (permit : Option VerifiedPermit) :
    List (List (List Char)) :=
  match permit with
  | none => []
  | some v => v.permit.spendingLimits.map fun l => limitRow p.op.sender p.operator l.token

namespace Store

variable {s : Store}

theorem limitIn?_startSpendingLimits {wallet operator : Address} {limits : List SpendingLimit}
    {row : List (List Char)} (other : ∀ l ∈ limits, limitRow wallet operator l.token ≠ row) :
    (s.startSpendingLimits wallet operator limits).limitIn? row = s.limitIn? row := by
  unfold startSpendingLimits
  induction limits generalizing s with
  | nil => rfl
  | cons l rest ih =>
    have later := @ih (s.setSpendingLimit wallet operator l.token ⟨l.allowance, 0⟩)
      fun l' hl => other l' (List.mem_cons_of_mem l hl)
    rw [List.foldl_cons, later, limitIn?_setSpendingLimit, if_neg (other l List.mem_cons_self)]

theorem KeepsCaps.start (h : s.KeepsCaps) {limits : List SpendingLimit}
    (nonneg : ∀ l ∈ limits, 0 ≤ l.allowance) (wallet operator : Address) :
    (s.startSpendingLimits wallet operator limits).KeepsCaps := by
  unfold startSpendingLimits
  induction limits generalizing s with
  | nil => exact h
  | cons l rest ih =>
    have first := nonneg l List.mem_cons_self
    exact ih (h.set ⟨Int.le_refl 0, first⟩ wallet operator l.token) fun l' hl =>
      nonneg l' (List.mem_cons_of_mem l hl)

end Store

namespace PreparedOperation

variable {p : PreparedOperation} {permit : Option VerifiedPermit} {s s' : Store}
  {window : ValidityWindow}

/-- What a settlement does to the limits: first the permit sets its own, then all calls are charged. -/
theorem charges_of_settle (h : p.settle permit s = .ok (s', window)) :
    (∀ step ∈ p.steps, ∃ spends, step.1.spends p.op.sender = .ok spends) ∧
      ∃ s₁, p.installPermit permit s = .ok s₁ ∧ s₁.Charges s' p.spentIn := by
  obtain ⟨s₁, s₂, installed, -, paid, settled⟩ := settle_eq_ok.1 h
  obtain ⟨reported, charged⟩ := Store.Charges.settleCalls settled
  refine ⟨reported, s₁, installed, ?_⟩
  obtain ⟨left, rfl⟩ := Store.exists_of_consumeBudget paid
  have budget : s₁.Charges (s₁.setPermission p.op.sender p.operator left) fun _ => 0 := .none rfl
  refine (budget.trans charged).congr fun row => ?_
  rw [Int.zero_add]
  rfl

/-- In a row in which the permit sets no limit, a settlement charges what the operation reports. -/
theorem limitIn?_settle (h : p.settle permit s = .ok (s', window)) {row : List (List Char)}
    (other : row ∉ p.limitRows permit) :
    s'.limitIn? row = (s.limitIn? row).map (·.charged (p.spentIn row)) := by
  obtain ⟨-, s₁, installed, charged⟩ := charges_of_settle h
  rw [charged.limits]
  congr 1
  cases permit with
  | none =>
    cases installed
    rfl
  | some v =>
    obtain ⟨-, -, -, rfl⟩ := VerifiedPermit.install_eq_ok.1 installed
    refine Store.limitIn?_startSpendingLimits fun l hl same => other ?_
    exact List.mem_map.2 ⟨l, hl, same⟩

/-- A settlement exceeds no limit, if those that the permit sets are not negative. -/
theorem keepsCaps_settle (h : p.settle permit s = .ok (s', window)) (caps : s.KeepsCaps)
    (nonneg : ∀ v, permit = some v → ∀ l ∈ v.permit.spendingLimits, 0 ≤ l.allowance) :
    s'.KeepsCaps := by
  obtain ⟨-, s₁, installed, charged⟩ := charges_of_settle h
  refine charged.caps ?_
  cases permit with
  | none =>
    cases installed
    exact caps
  | some v =>
    obtain ⟨-, -, -, rfl⟩ := VerifiedPermit.install_eq_ok.1 installed
    have marked : (((s.markHashUsed p.op.sender v.hash).incrementPermitNonce p.op.sender
        p.operator).setPermission p.op.sender p.operator v.permit.permission).KeepsCaps :=
      caps.congr rfl
    exact marked.start (nonneg v rfl) p.op.sender p.operator

end PreparedOperation

end SessionKeys
