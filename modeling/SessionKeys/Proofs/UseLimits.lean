import SessionKeys.Proofs.Budgets
import SessionKeys.Proofs.Membership

/-!
How often a limited session was used, over a whole run. The uses of sessions are filed by wallet,
operator and leaf, and the only thing that ever writes them is a call that is carried out, which counts
one more under the leaf of the session that is shown for it. So the count of a session is the number of
the calls for which it was shown, as long as no other session has its leaf. Main statement:
`session_uses_counted`.
-/

namespace SessionKeys

/-! ### Rows -/

/-- Where the uses of a session are filed. -/
def useRow (wallet operator : Address) (leaf : Hex) : List (List Char) :=
  permissionRow wallet operator ++ leaf.key

/-- The uses that are filed in a row. -/
def Store.usesIn (s : Store) (row : List (List Char)) : Int :=
  (s.sessionUses.find? row).getD 0

theorem Store.usesIn_useRow (s : Store) (wallet operator : Address) (leaf : Hex) :
    s.usesIn (useRow wallet operator leaf) = s.usesOfSession wallet operator leaf := rfl

theorem Store.usesIn_setUsesOfSession (s : Store) (wallet operator : Address) (leaf : Hex) (used : Int)
    (row : List (List Char)) :
    (s.setUsesOfSession wallet operator leaf used).usesIn row =
      if useRow wallet operator leaf = row then used else s.usesIn row := by
  unfold setUsesOfSession usesIn useRow permissionRow
  rw [Table.find?_put]
  split
  · rfl
  · rfl

/-- Whether a use of a session by an operator is counted in a row. -/
def Session.countsIn (wallet operator : Address) (row : List (List Char)) (s : Session) : Bool :=
  decide s.IsLimited && s.leaf.toOption.map (useRow wallet operator) == some row

theorem Session.countsIn_of_leaf {wallet operator : Address} {row : List (List Char)} {s : Session}
    {leaf : Hex} (hleaf : s.leaf = .ok leaf) :
    s.countsIn wallet operator row = true ↔ s.IsLimited ∧ useRow wallet operator leaf = row := by
  unfold countsIn
  rw [hleaf]
  simp [Except.toOption]

/-! ### Calls -/

/-- A use of a limited session is one more in the row of its leaf, within the limit. -/
theorem Store.usesIn_consumeSessionUse {s s' : Store} {wallet operator : Address} {session : Session}
    {own : Hex} (hown : session.leaf = .ok own)
    (h : s.consumeSessionUse wallet operator session = .ok s') (row : List (List Char)) :
    s'.usesIn row = s.usesIn row + (if session.countsIn wallet operator row then 1 else 0) ∧
      (session.countsIn wallet operator row = true → s'.usesIn row ≤ session.timesLimit) := by
  have counts : session.countsIn wallet operator row = true ↔
      session.IsLimited ∧ useRow wallet operator own = row := Session.countsIn_of_leaf hown
  rcases consumeSessionUse_cases h with ⟨unlimited, rfl⟩ | ⟨leaf, limited, hleaf, within, rfl⟩
  · have uncounted := fun hc => unlimited (counts.1 hc).1
    rw [if_neg uncounted]
    exact ⟨(Int.add_zero _).symm, fun hc => absurd hc uncounted⟩
  · rw [hown, Except.ok.injEq] at hleaf
    subst hleaf
    rw [usesIn_setUsesOfSession]
    by_cases here : useRow wallet operator own = row
    · rw [if_pos here, if_pos (counts.2 ⟨limited, here⟩), ← here, usesIn_useRow]
      exact ⟨rfl, fun _ => within⟩
    · have uncounted := fun hc => here (counts.1 hc).2
      rw [if_neg here, if_neg uncounted]
      exact ⟨(Int.add_zero _).symm, fun hc => absurd hc uncounted⟩

namespace CallContext

variable {c : CallContext} {s s' : Store} {index : Nat}

theorem usesIn_settleCall {call : WalletCall} {shown : SessionEntry}
    (h : c.settleCall s index call shown = .ok s') :
    (∃ leaf, shown.session.leaf = .ok leaf) ∧
      ∀ row,
        s'.usesIn row =
          s.usesIn row + (if shown.session.countsIn c.wallet c.operator row then 1 else 0) ∧
        (shown.session.countsIn c.wallet c.operator row = true →
          s'.usesIn row ≤ shown.session.timesLimit) := by
  obtain ⟨⟨⟩, checked, h⟩ := bind_eq_ok.1 h
  obtain ⟨s₁, used, charged⟩ := bind_eq_ok.1 h
  obtain ⟨spends, -, charged⟩ := bind_eq_ok.1 charged
  obtain ⟨limits, rfl⟩ := Store.exists_of_consumeAllowances (orFail_eq_ok.1 charged)
  obtain ⟨leaf, -, -, hleaf, -⟩ := ((checkCall_eq_ok index).1 checked).committed
  exact ⟨⟨leaf, hleaf⟩, fun row => Store.usesIn_consumeSessionUse hleaf used row⟩

/-- Every call that is settled shows a session that has a leaf, and counts one use of it. -/
theorem usesIn_settleCalls {steps : List (WalletCall × SessionEntry)} {w w' : ValidityWindow}
    (h : c.settleCalls index steps s w = .ok (s', w')) :
    (∀ step ∈ steps, ∃ leaf, step.2.session.leaf = .ok leaf) ∧
      ∀ row,
        s'.usesIn row = s.usesIn row +
          steps.countP fun step => step.2.session.countsIn c.wallet c.operator row := by
  induction steps generalizing index s w with
  | nil =>
    cases h
    exact ⟨nofun, fun row => (Int.add_zero _).symm⟩
  | cons step rest ih =>
    obtain ⟨call, shown⟩ := step
    obtain ⟨s₁, settled, others⟩ := bind_eq_ok.1 h
    obtain ⟨w₁, -, others⟩ := bind_eq_ok.1 others
    obtain ⟨leaf, now⟩ := usesIn_settleCall settled
    obtain ⟨leaves, later⟩ := ih others
    refine ⟨List.forall_mem_cons.2 ⟨leaf, leaves⟩, fun row => ?_⟩
    rw [later, (now row).1, List.countP_cons]
    push_cast
    rw [Int.add_assoc, Int.add_comm (ite _ _ _)]

/-- The uses in a row stay within a limit if all sessions that are counted there have this limit. -/
theorem usesIn_settleCalls_le {steps : List (WalletCall × SessionEntry)} {w w' : ValidityWindow}
    (h : c.settleCalls index steps s w = .ok (s', w')) {row : List (List Char)} {limit : Int}
    (within : s.usesIn row ≤ limit)
    (limits : ∀ step ∈ steps, step.2.session.countsIn c.wallet c.operator row = true →
      step.2.session.timesLimit = limit) : s'.usesIn row ≤ limit := by
  induction steps generalizing index s w with
  | nil =>
    cases h
    exact within
  | cons step rest ih =>
    obtain ⟨call, shown⟩ := step
    obtain ⟨s₁, settled, others⟩ := bind_eq_ok.1 h
    obtain ⟨w₁, -, others⟩ := bind_eq_ok.1 others
    obtain ⟨-, now⟩ := usesIn_settleCall settled
    obtain ⟨first, rest⟩ := List.forall_mem_cons.1 limits
    refine ih others ?_ rest
    by_cases counts : shown.session.countsIn c.wallet c.operator row = true
    · exact first counts ▸ (now row).2 counts
    · rw [(now row).1, if_neg counts, Int.add_zero]
      exact within

end CallContext

/-! ### Operations -/

namespace PreparedOperation

variable {p : PreparedOperation} {permit : Option VerifiedPermit} {s s' : Store}
  {window : ValidityWindow}

/-- How many calls of an operation are counted in a row. -/
def usesIn (p : PreparedOperation) (row : List (List Char)) : Nat :=
  p.steps.countP fun step => step.2.session.countsIn p.op.sender p.operator row

/-- Neither a permit nor the budgets touch the uses of sessions. -/
theorem exists_settleCalls (h : p.settle permit s = .ok (s', window)) :
    ∃ (c : CallContext) (s₁ : Store) (w : ValidityWindow),
      c.settleCalls 0 p.steps s₁ w = .ok (s', window) ∧ c.wallet = p.op.sender ∧
        c.operator = p.operator ∧ s₁.sessionUses = s.sessionUses := by
  obtain ⟨s₁, s₂, installed, -, paid, settled⟩ := settle_eq_ok.1 h
  obtain ⟨left, rfl⟩ := Store.exists_of_consumeBudget paid
  refine ⟨_, _, _, settled, rfl, rfl, ?_⟩
  cases permit with
  | none =>
    cases installed
    rfl
  | some v =>
    obtain ⟨-, -, -, rfl⟩ := VerifiedPermit.install_eq_ok.1 installed
    unfold VerifiedPermit.installed
    rw [Store.startSpendingLimits_eq]
    rfl

theorem usesIn_settle (h : p.settle permit s = .ok (s', window)) (row : List (List Char)) :
    s'.usesIn row = s.usesIn row + p.usesIn row := by
  obtain ⟨c, s₁, w, settled, wallet, operator, same⟩ := exists_settleCalls h
  rw [(CallContext.usesIn_settleCalls settled).2, wallet, operator]
  unfold Store.usesIn
  rw [same]
  rfl

theorem usesIn_settle_le (h : p.settle permit s = .ok (s', window)) {row : List (List Char)}
    {limit : Int} (within : s.usesIn row ≤ limit)
    (limits : ∀ step ∈ p.steps, step.2.session.countsIn p.op.sender p.operator row = true →
      step.2.session.timesLimit = limit) : s'.usesIn row ≤ limit := by
  obtain ⟨c, s₁, w, settled, wallet, operator, same⟩ := exists_settleCalls h
  refine CallContext.usesIn_settleCalls_le settled ?_ ?_
  · unfold Store.usesIn at within ⊢
    rw [same]
    exact within
  · rw [wallet, operator]
    exact limits

/-- Every session that is shown for an operation that is settled has a leaf. -/
theorem exists_leaf_of_settle (h : p.settle permit s = .ok (s', window)) :
    ∀ step ∈ p.steps, ∃ leaf, step.2.session.leaf = .ok leaf := by
  obtain ⟨c, s₁, w, settled, -⟩ := exists_settleCalls h
  exact (CallContext.usesIn_settleCalls settled).1

end PreparedOperation

/-! ### Runs -/

/-- No change of the owner touches the uses of sessions. -/
theorem ManagementCall.sessionUses_apply {call : ManagementCall} {s s' : Store} {events : List Event}
    (h : call.apply s = .ok (s', events)) : s'.sessionUses = s.sessionUses := by
  cases call with
  | setSessionRoot | setOperatorRemainingGas | setOperatorRemainingTimes | setSpendingLimit
  | revokeSignature =>
    cases h
    rfl
  | setOperatorPermission =>
    obtain ⟨-, -, done⟩ := bind_eq_ok.1 h
    cases done
    rfl
  | batchSetSpendingLimit wallet operator limits =>
    cases h
    rw [Store.startSpendingLimits_eq]
  | resetSpendingLimit | deleteSpendingLimit =>
    simp only [apply] at h
    split at h
    · cases h
      rfl
    · cases h
      rfl

/-- How many calls of some operations are counted in a row. -/
def totalUsesIn (row : List (List Char)) (operations : List Accepted) : Nat :=
  (operations.map fun x => x.1.usesIn row).sum

namespace Timeline

variable {t : Timeline} {actions : List Action} {row : List (List Char)}

theorem usesIn_step (t : Timeline) (a : Action) (row : List (List Char)) :
    (t.step a).1.engine.store.usesIn row =
      t.engine.store.usesIn row + totalUsesIn row (t.accepted? a).toList := by
  have effect := t.step_effect a
  generalize (t.step a).1.engine.store = s, (t.step a).2 = events at effect ⊢
  cases effect with
  | idle none noCall =>
    rw [none]
    exact (Int.add_zero _).symm
  | refuses refused => exact (Int.add_zero _).symm
  | manages applied =>
    unfold Store.usesIn
    rw [ManagementCall.sessionUses_apply applied]
    exact (Int.add_zero _).symm
  | @accepts index p permit _ window ready accepted settled =>
    rw [accepted, PreparedOperation.usesIn_settle settled]
    simp [totalUsesIn]

/-- The uses in a row grow by the calls that are counted there and carried out, and by nothing else. -/
theorem usesIn_run (t : Timeline) (actions : List Action) (row : List (List Char)) :
    (t.run actions).1.engine.store.usesIn row =
      t.engine.store.usesIn row + totalUsesIn row (t.accepted actions) := by
  induction actions generalizing t with
  | nil => exact (Int.add_zero _).symm
  | cons a rest ih =>
    show ((t.step a).1.run rest).1.engine.store.usesIn row = _
    rw [ih, usesIn_step, accepted]
    unfold totalUsesIn
    rw [List.map_append, List.sum_append, Int.natCast_add, Int.add_assoc]

/-- The uses in a row stay within a limit if all sessions that are counted there have this limit. -/
theorem usesIn_run_le {limit : Int} (within : t.engine.store.usesIn row ≤ limit)
    (limits : ∀ x ∈ t.accepted actions, ∀ step ∈ x.1.steps,
      step.2.session.countsIn x.1.op.sender x.1.operator row = true →
        step.2.session.timesLimit = limit) :
    (t.run actions).1.engine.store.usesIn row ≤ limit := by
  induction actions generalizing t with
  | nil => exact within
  | cons a rest ih =>
    have now := fun x hx => limits x (List.mem_append_left _ (Option.mem_toList.2 hx))
    have next : (t.step a).1.engine.store.usesIn row ≤ limit := by
      have effect := t.step_effect a
      generalize (t.step a).1.engine.store = s, (t.step a).2 = events at effect ⊢
      cases effect with
      | idle none noCall => exact within
      | refuses refused => exact within
      | manages applied =>
        unfold Store.usesIn at within ⊢
        rw [ManagementCall.sessionUses_apply applied]
        exact within
      | @accepts index p permit _ window ready accepted settled =>
        exact PreparedOperation.usesIn_settle_le settled within (now _ accepted)
    exact ih next fun x hx => limits x (List.mem_append_right _ hx)

/-- Every session that is shown for an operation that is carried out has a leaf. -/
theorem exists_leaf_of_accepted {x : Accepted} (hx : x ∈ t.accepted actions) :
    ∀ step ∈ x.1.steps, ∃ leaf, step.2.session.leaf = .ok leaf := by
  obtain ⟨before, a, rest, -, accepted⟩ := exists_step_of_accepted hx
  obtain ⟨-, ⟨window, settled⟩, -⟩ := settled_of_accepted accepted
  exact PreparedOperation.exists_leaf_of_settle settled

end Timeline

/-! ### One session -/

/-- The uses of a session by an operator that the store of an engine tells. -/
def Engine.timesUsed (e : Engine) (wallet operator : Address) (session : Session) :
    Except EncodingError Int := do
  return e.store.usesOfSession wallet operator (← session.leaf)

/-- For how many calls of the operations of an operator a session was shown, however it was written. -/
def Session.timesShown (s : Session) (row : List (List Char)) (operations : List Accepted) : Nat :=
  ((operationsIn row operations).map fun x =>
    x.1.steps.countP fun step => decide (s.SameValues step.2.session)).sum

/-- The leaf of a session that stands for some content. -/
theorem Session.Has.leaf_eq {s : Session} {c : SessionContent} {leaf : Hex} (has : s.Has c)
    (hleaf : s.leaf = .ok leaf) : leaf = c.leaf := by
  obtain ⟨encoding, encoded, rfl⟩ := leaf_eq_ok.1 hleaf
  obtain ⟨d, hasD, bytes⟩ :=
    exists_content_of_encodeFields has.selector c.selector_length has.allowedArguments encoded
  rw [hasD.unique has] at bytes
  rw [Hex.content_of_bytes? bytes]
  rfl

theorem Session.SameValues.leaf_eq {s t : Session} {leaf leaf' : Hex} (same : s.SameValues t)
    (hs : s.leaf = .ok leaf) (ht : t.leaf = .ok leaf') : leaf = leaf' := by
  obtain ⟨c, hasS, hasT⟩ := same
  exact (hasS.leaf_eq hs).trans (hasT.leaf_eq ht).symm

theorem Session.SameValues.timesLimit {s t : Session} (same : s.SameValues t) :
    t.timesLimit = s.timesLimit := by
  obtain ⟨c, hasS, hasT⟩ := same
  exact hasT.timesLimit.trans hasS.timesLimit.symm

theorem Session.SameValues.isLimited {s t : Session} (same : s.SameValues t) (limited : s.IsLimited) :
    t.IsLimited := by
  unfold IsLimited at limited ⊢
  rw [same.timesLimit]
  exact limited

/-- Rows of uses are told apart by the operator and by the leaf. -/
theorem useRow_inj {wallet operator wallet' operator' : Address} {s t : Session} {leaf leaf' : Hex}
    (hs : s.leaf = .ok leaf) (ht : t.leaf = .ok leaf') :
    useRow wallet operator leaf = useRow wallet' operator' leaf' ↔
      permissionRow wallet operator = permissionRow wallet' operator' ∧ leaf = leaf' := by
  obtain ⟨x, rfl, -⟩ := Session.isNode_of_leaf hs
  obtain ⟨y, rfl, -⟩ := Session.isNode_of_leaf ht
  have single : ∀ b, (Hex.ofBytes b).key = [(Hex.ofBytes b).chars] := fun b =>
    Hex.key_of_bytes? (Hex.bytes?_ofBytes b)
  unfold useRow
  rw [single, single, List.append_singleton_inj]
  simp [Hex.ofBytes, Hex.ofDigits]

namespace PreparedOperation

variable {p : PreparedOperation} {wallet operator : Address} {s : Session} {leaf : Hex}

/-- An operation is counted in the row of a session as often as it shows the session, if no other session
that it shows has the same leaf. -/
theorem usesIn_useRow (limited : s.IsLimited) (hleaf : s.leaf = .ok leaf)
    (leaves : ∀ step ∈ p.steps, ∃ leaf, step.2.session.leaf = .ok leaf)
    (distinct : ∀ step ∈ p.steps, step.2.session.leaf = .ok leaf → s.SameValues step.2.session) :
    p.usesIn (useRow wallet operator leaf) =
      if p.operatorRow = permissionRow wallet operator then
        p.steps.countP fun step => decide (s.SameValues step.2.session)
      else 0 := by
  have counts : ∀ step ∈ p.steps,
      (step.2.session.countsIn p.op.sender p.operator (useRow wallet operator leaf) = true ↔
        p.operatorRow = permissionRow wallet operator ∧ s.SameValues step.2.session) := by
    intro step hs
    obtain ⟨own, hown⟩ := leaves step hs
    rw [Session.countsIn_of_leaf hown, useRow_inj hown hleaf]
    constructor
    · rintro ⟨-, here, rfl⟩
      exact ⟨here, distinct step hs hown⟩
    · rintro ⟨here, same⟩
      exact ⟨same.isLimited limited, here, (same.leaf_eq hleaf hown).symm⟩
  unfold usesIn
  split
  next here =>
    exact List.countP_congr fun step hs => by simp [counts step hs, here]
  next other =>
    refine List.countP_eq_zero.2 fun step hs counted => other ((counts step hs).1 counted).1

end PreparedOperation

/-- The calls that are counted in the row of a session are those for which it was shown. -/
theorem totalUsesIn_useRow {operations : List Accepted} {wallet operator : Address} {s : Session}
    {leaf : Hex} (limited : s.IsLimited) (hleaf : s.leaf = .ok leaf)
    (leaves : ∀ x ∈ operations, ∀ step ∈ x.1.steps, ∃ leaf, step.2.session.leaf = .ok leaf)
    (distinct : ∀ x ∈ operations, ∀ step ∈ x.1.steps,
      step.2.session.leaf = .ok leaf → s.SameValues step.2.session) :
    totalUsesIn (useRow wallet operator leaf) operations =
      s.timesShown (permissionRow wallet operator) operations := by
  induction operations with
  | nil => rfl
  | cons x rest ih =>
    obtain ⟨leavesX, leavesRest⟩ := List.forall_mem_cons.1 leaves
    obtain ⟨distinctX, distinctRest⟩ := List.forall_mem_cons.1 distinct
    have later := ih leavesRest distinctRest
    unfold totalUsesIn Session.timesShown operationsIn at later ⊢
    rw [List.map_cons, List.sum_cons, later,
      PreparedOperation.usesIn_useRow limited hleaf leavesX distinctX]
    by_cases here : x.1.operatorRow = permissionRow wallet operator
    · simp [here]
    · simp [here]

/-- **Uses are counted.** In every run that starts with nothing written, the uses of a limited session by
an operator are the calls of the operations of the operator for which the session was shown and which
were carried out, as long as no other session that was shown has its leaf. They are within the limit of
the session, and whatever happens later does not reduce them. -/
theorem session_uses_counted {config : Config} {registry : Registry} {running : List Running}
    {actions : List Action} {wallet operator : Address} {s : Session} {leaf : Hex}
    (limited : s.IsLimited) (hleaf : s.leaf = .ok leaf)
    (distinct : ∀ x ∈ Timeline.accepted ⟨⟨config, .empty, registry⟩, running⟩ actions,
      ∀ step ∈ x.1.steps, step.2.session.leaf = .ok leaf → s.SameValues step.2.session) :
    let start : Timeline := ⟨⟨config, .empty, registry⟩, running⟩
    let last := (start.run actions).1
    let shown := s.timesShown (permissionRow wallet operator) (start.accepted actions)
    last.engine.timesUsed wallet operator s = .ok shown ∧ shown ≤ s.timesLimit ∧
      ∀ later, ∃ used,
        (last.run later).1.engine.timesUsed wallet operator s = .ok used ∧ shown ≤ used := by
  intro start last shown
  have tells : ∀ e : Engine, e.timesUsed wallet operator s =
      .ok (e.store.usesIn (useRow wallet operator leaf)) := by
    intro e
    unfold Engine.timesUsed
    rw [hleaf]
    rfl
  have nothing : start.engine.store.usesIn (useRow wallet operator leaf) = 0 := by
    rw [Store.usesIn, show start.engine.store.sessionUses = ∅ from rfl, Table.find?_empty]
    rfl
  have counted : last.engine.store.usesIn (useRow wallet operator leaf) = shown := by
    rw [Timeline.usesIn_run, nothing, totalUsesIn_useRow limited hleaf
      (fun x hx => Timeline.exists_leaf_of_accepted hx) distinct, Int.zero_add]
  have within : last.engine.store.usesIn (useRow wallet operator leaf) ≤ s.timesLimit := by
    have nonneg : 0 ≤ s.timesLimit := by
      obtain ⟨encoding, encoded, -⟩ := Session.leaf_eq_ok.1 hleaf
      obtain ⟨_, _, _, _, _, _, _, -, -, -, -, -, -, limit, -⟩ := Session.encodeFields_eq_ok.1 encoded
      exact (Abi.encodeUnsigned_eq_ok.1 limit).1.1
    refine Timeline.usesIn_run_le (nothing ▸ nonneg) fun x hx step hs counts => ?_
    obtain ⟨own, hown⟩ := Timeline.exists_leaf_of_accepted hx step hs
    obtain ⟨-, here⟩ := (Session.countsIn_of_leaf hown).1 counts
    obtain ⟨-, rfl⟩ := (useRow_inj hown hleaf).1 here
    exact (distinct x hx step hs hown).timesLimit
  refine ⟨(tells _).trans (congrArg _ counted), counted ▸ within, fun later => ⟨_, tells _, ?_⟩⟩
  rw [Timeline.usesIn_run, counted]
  omega

/-- A session that is shown for one call which is carried out was used once. -/
theorem used_once_when_shown :
    let session : Session := ⟨.zero, fallbackSelector, Hex.ofBytes [0xc0], .zero, 0, 0, 3⟩
    let op : UserOperation := ⟨.zero, 0, .empty, .empty, 1, 1, 1, 1, 0, .empty, .empty⟩
    let p : PreparedOperation :=
      ⟨op, .zero, true, [(⟨.zero, 0, .empty, 0⟩, ⟨[], session, Hex.ofBytes [0xc0]⟩)], none⟩
    ∃ leaf, session.leaf = .ok leaf ∧
      let grant : OperatorPermission := ⟨leaf, .zero, 0, 0, 5, 2⟩
      let start : Timeline := ⟨⟨⟨.zero, .zero, 1, .zero, none, none⟩, .empty, {}⟩, [⟨false, .prepared p⟩]⟩
      let actions : List Action := [.manage (.setOperatorPermission .zero .zero grant), .read 0, .finish 0]
      start.accepted actions = [(p, none)] ∧
        (start.run actions).1.engine.timesUsed .zero .zero session = .ok 1 := by
  intro session op p
  let c : SessionContent :=
    { target := List.replicate 20 0, selector := List.replicate 4 0, allowedArguments := [0xc0]
      paymaster := List.replicate 20 0, validUntil := 0, validAfter := 0, timesLimit := 3 }
  have has : session.Has c := Session.content?_eq_some.1 (by decide +kernel)
  have encodable : session.IsEncodable := ⟨by decide +kernel, by decide +kernel, c, has⟩
  have hleaf := encodable.leaf_of_has has
  refine ⟨c.leaf, hleaf, ?_⟩
  intro grant start actions
  let s : Store := Store.empty.setPermission .zero .zero grant
  have granted : s.permission .zero .zero = grant :=
    (Store.permissionIn_setPermission _ _ _ _ _).trans (if_pos rfl)
  let ready : Timeline := ⟨⟨⟨.zero, .zero, 1, .zero, none, none⟩, s, {}⟩, [⟨false, .ready p none⟩]⟩
  have anyPaymaster : Address.zero.hex.toInt? = some 0 := by decide +kernel
  have allowed : CallContext.Allows ⟨.zero, .zero, c.leaf, op.paymaster⟩ ⟨.zero, 0, .empty, 0⟩
      ⟨[], session, Hex.ofBytes [0xc0]⟩ := by
    have node : c.leaf.IsNode := ⟨_, rfl, Keccak.length_digest _⟩
    obtain ⟨_, -, -, number⟩ := node.writesHash.exists_toInt
    exact ⟨rfl, ⟨c.leaf, c.leaf, _, hleaf, rfl, number, number⟩, .inl anyPaymaster, by decide +kernel⟩
  have unused : s.usesOfSession .zero .zero c.leaf = 0 := by
    rw [Store.usesOfSession, show s.sessionUses = ∅ from rfl, Table.find?_empty]
    rfl
  have covered : IsCovered op .zero p.steps grant (s.spendingLimit? .zero .zero)
      (s.usesOfSession .zero .zero) := by
    have within : Uses.Allow (s.usesOfSession .zero .zero) session :=
      fun _ => ⟨c.leaf, hleaf, unused ▸ by decide⟩
    have always : ∀ w : ValidityWindow, w = ⟨0, 0⟩ → w.Contains 0 := by
      rintro _ rfl
      exact ⟨Number.le_refl 0, .inl rfl⟩
    exact ⟨.inl anyPaymaster, by decide +kernel, by decide, List.forall_mem_singleton.2 allowed,
      Uses.suffice_iff_each.1 ⟨within, trivial⟩, ⟨[], by decide +kernel, fun _ none => absurd none List.not_mem_nil⟩,
      ⟨0, always _ rfl, List.forall_mem_singleton.2 (always _ rfl)⟩⟩
  have settles : ∃ r, p.settle none s = .ok r :=
    (PreparedOperation.exists_settle (List.cons_ne_nil _ _)).2 ⟨s, rfl, granted ▸ covered⟩
  have accepted : start.accepted actions = [(p, none)] := by
    have last : ready.accepted? (.finish 0) = some (p, none) :=
      Timeline.accepted?_eq_some.2 ⟨0, rfl, rfl, rfl, settles⟩
    have manages : (start.step (.manage (.setOperatorPermission .zero .zero grant))).1 =
        ⟨⟨⟨.zero, .zero, 1, .zero, none, none⟩, s, {}⟩, [⟨false, .prepared p⟩]⟩ := rfl
    have reads : (Timeline.step ⟨⟨⟨.zero, .zero, 1, .zero, none, none⟩, s, {}⟩,
        [⟨false, .prepared p⟩]⟩ (.read 0)).1 = ready := rfl
    rw [show actions = _ from rfl, Timeline.accepted, Timeline.accepted, Timeline.accepted, manages,
      reads, last]
    rfl
  refine ⟨accepted, ?_⟩
  have distinct : ∀ x ∈ start.accepted actions, ∀ step ∈ x.1.steps,
      step.2.session.leaf = .ok c.leaf → session.SameValues step.2.session := by
    rw [accepted]
    exact List.forall_mem_singleton.2 (List.forall_mem_singleton.2 fun _ => ⟨c, has, has⟩)
  have counted : (start.run actions).1.engine.timesUsed .zero .zero session =
      .ok (session.timesShown (permissionRow .zero .zero) (start.accepted actions)) :=
    (session_uses_counted (by decide) hleaf distinct).1
  have once : session.timesShown (permissionRow .zero .zero) [(p, none)] = 1 := by decide +kernel
  rw [accepted, once] at counted
  exact counted

end SessionKeys
