import SessionKeys.Proofs.Acceptance
import SessionKeys.Proofs.Charges
import SessionKeys.Proofs.Narrowing
import SessionKeys.Proofs.Times
import SessionKeys.Proofs.UseLimits

/-!
The calls of a batch in another order. Each call is checked against what the ones before it have left, so
in another order other calls are refused, with other errors; but whether all of them go well depends on
totals alone, and so does what they write. Totals do not see the order. Where a session is used more than
once it has to be one session, with one limit: sessions of one leaf with different limits could be told
apart by their places. Main statement: `order_of_calls_irrelevant`.
-/

namespace SessionKeys

/-! ### What is written of uses -/

/-- The uses that are filed in a row after some more of them. No use leaves the row as it is, also if
nothing is filed there. -/
def usedAgain (count : Nat) (used : Option Int) : Option Int :=
  if count = 0 then used else some (used.getD 0 + count)

theorem usedAgain_usedAgain (m n : Nat) (used : Option Int) :
    usedAgain n (usedAgain m used) = usedAgain (m + n) used := by
  unfold usedAgain
  by_cases first : m = 0
  · rw [if_pos first, first, Nat.zero_add]
  by_cases second : n = 0
  · rw [if_pos second, second, Nat.add_zero]
  rw [if_neg first, if_neg second, if_neg (by omega), Option.getD_some]
  push_cast
  rw [Int.add_assoc]

/-- A use of a limited session is filed in the row of its leaf, and nowhere else. -/
theorem Store.find?_consumeSessionUse {s s' : Store} {wallet operator : Address} {session : Session}
    (h : s.consumeSessionUse wallet operator session = .ok s') (row : List (List Char)) :
    s'.sessionUses.find? row =
      usedAgain (if session.countsIn wallet operator row then 1 else 0) (s.sessionUses.find? row) := by
  rcases consumeSessionUse_cases h with ⟨unlimited, rfl⟩ | ⟨leaf, limited, hleaf, -, rfl⟩
  · have uncounted : session.countsIn wallet operator row = false := by
      unfold Session.countsIn
      rw [decide_eq_false unlimited, Bool.false_and]
    rw [uncounted]
    rfl
  · have counts : session.countsIn wallet operator row = true ↔ useRow wallet operator leaf = row :=
      (Session.countsIn_of_leaf hleaf).trans (and_iff_right limited)
    have written : (s.setUsesOfSession wallet operator leaf
        (s.usesOfSession wallet operator leaf + 1)).sessionUses.find? row =
          if useRow wallet operator leaf = row then some (s.usesOfSession wallet operator leaf + 1)
          else s.sessionUses.find? row := Table.find?_put _ _ _ _
    rw [written]
    by_cases here : useRow wallet operator leaf = row
    · rw [if_pos here, if_pos (counts.2 here), ← here]
      rfl
    · rw [if_neg here, if_neg fun hc => here (counts.1 hc)]
      rfl

namespace CallContext

variable {c : CallContext} {s s' : Store} {index : Nat} {steps : List (WalletCall × SessionEntry)}
  {w w' : ValidityWindow}

theorem find?_settleCall {call : WalletCall} {shown : SessionEntry}
    (h : c.settleCall s index call shown = .ok s') (row : List (List Char)) :
    s'.sessionUses.find? row =
      usedAgain (if shown.session.countsIn c.wallet c.operator row then 1 else 0)
        (s.sessionUses.find? row) := by
  obtain ⟨-, -, h⟩ := bind_eq_ok.1 h
  obtain ⟨s₁, used, charged⟩ := bind_eq_ok.1 h
  obtain ⟨spends, -, charged⟩ := bind_eq_ok.1 charged
  obtain ⟨limits, rfl⟩ := Store.exists_of_consumeAllowances (orFail_eq_ok.1 charged)
  exact Store.find?_consumeSessionUse used row

/-- Settling calls files in each row as many more uses as are counted there. -/
theorem find?_settleCalls (h : c.settleCalls index steps s w = .ok (s', w')) (row : List (List Char)) :
    s'.sessionUses.find? row =
      usedAgain (steps.countP fun step => step.2.session.countsIn c.wallet c.operator row)
        (s.sessionUses.find? row) := by
  induction steps generalizing index s w with
  | nil =>
    cases h
    rfl
  | cons step rest ih =>
    obtain ⟨call, shown⟩ := step
    obtain ⟨s₁, settled, others⟩ := bind_eq_ok.1 h
    obtain ⟨w₁, -, others⟩ := bind_eq_ok.1 others
    rw [ih others, find?_settleCall settled row, usedAgain_usedAgain, List.countP_cons, Nat.add_comm]

/-- Settling calls narrows a window to what it shares with those of all sessions. -/
theorem window_settleCalls (h : c.settleCalls index steps s w = .ok (s', w')) :
    w' = w.meet (ValidityWindow.shared (steps.map (·.2.session.window))) := by
  induction steps generalizing index s w with
  | nil =>
    cases h
    exact (ValidityWindow.meet_always _).symm
  | cons step rest ih =>
    obtain ⟨call, shown⟩ := step
    obtain ⟨s₁, settled, others⟩ := bind_eq_ok.1 h
    obtain ⟨w₁, narrowed, others⟩ := bind_eq_ok.1 others
    obtain ⟨rfl, -⟩ := ValidityWindow.intersect_eq_ok.1 (orFail_eq_ok.1 narrowed)
    rw [ih others]
    exact ValidityWindow.meet_assoc w shown.session.window _

end CallContext

/-! ### Totals -/

/-- Calls in another order report the same spendings in another order. -/
theorem exists_spendsOfAll_perm {wallet : Address} {calls calls' : List WalletCall}
    (perm : calls.Perm calls') {spends : List TokenSpend}
    (h : spendsOfAll wallet calls = .ok spends) :
    ∃ spends', spendsOfAll wallet calls' = .ok spends' ∧ spends.Perm spends' := by
  induction perm generalizing spends with
  | nil => exact ⟨spends, h, .refl _⟩
  | cons call _ ih =>
    obtain ⟨first, rest, read, reads, rfl⟩ := spendsOfAll_cons_eq_ok.1 h
    obtain ⟨rest', reads', same⟩ := ih reads
    exact ⟨first ++ rest', spendsOfAll_cons_eq_ok.2 ⟨first, rest', read, reads', rfl⟩,
      same.append_left first⟩
  | swap call next =>
    obtain ⟨first, _, read, reads, rfl⟩ := spendsOfAll_cons_eq_ok.1 h
    obtain ⟨second, rest, read', reads', rfl⟩ := spendsOfAll_cons_eq_ok.1 reads
    refine ⟨second ++ (first ++ rest), spendsOfAll_cons_eq_ok.2 ⟨second, _, read',
      spendsOfAll_cons_eq_ok.2 ⟨first, rest, read, reads', rfl⟩, rfl⟩, ?_⟩
    rw [← List.append_assoc, ← List.append_assoc]
    exact List.perm_append_comm.append_right rest
  | trans _ _ ih ih' =>
    obtain ⟨middle, reads, same⟩ := ih h
    obtain ⟨last, reads', same'⟩ := ih' reads
    exact ⟨last, reads', same.trans same'⟩

/-- Whether spendings fit into limits does not depend on their order. -/
theorem Limits.within_of_perm {limits : Limits} {spends spends' : List TokenSpend}
    (perm : spends.Perm spends') (h : limits.Within spends) : limits.Within spends' := by
  intro spend listed info found
  have total : Limits.total spend.token.key spends' = Limits.total spend.token.key spends := by
    unfold Limits.total
    exact ((perm.symm.filter _).map _).sum_eq
  rw [total]
  exact h spend (perm.mem_iff.2 listed) info found

/-- Whether sessions suffice does not depend on their order, if those of one leaf have one limit. -/
theorem Uses.suffice_of_perm {uses : Uses} (byKey : uses.ByKey) {sessions sessions' : List Session}
    (perm : sessions.Perm sessions') (one : Uses.OneLimit sessions) (h : uses.Suffice sessions) :
    uses.Suffice sessions' := by
  have all := (Uses.each_iff_all byKey one).1 (Uses.suffice_iff_each.1 h)
  refine Uses.suffice_iff_each.2 (Uses.AllWithin.each fun session listed limited => ?_)
  obtain ⟨leaf, hleaf, within⟩ := all session (perm.mem_iff.2 listed) limited
  exact ⟨leaf, hleaf, perm.countP_eq _ ▸ within⟩

/-- Whether a window can be narrowed to others does not depend on their order. -/
theorem ValidityWindow.narrows_of_perm {w : ValidityWindow} {others others' : List ValidityWindow}
    (perm : others.Perm others') (h : w.Narrows others) : w.Narrows others' := by
  by_cases none : others = []
  · rw [none] at perm
    rw [List.nil_perm.1 perm]
    trivial
  · obtain ⟨t, here, there⟩ := (narrows_iff none).1 h
    refine (narrows_iff fun empty => none ?_).2 ⟨t, here, fun o listed => there o (perm.mem_iff.2 listed)⟩
    rw [empty] at perm
    exact List.perm_nil.1 perm

/-! ### Calls in another order -/

namespace CallContext

variable {c : CallContext} {s s' : Store} {index : Nat} {steps steps' : List (WalletCall × SessionEntry)}
  {w w' : ValidityWindow}

/-- Calls that can be settled can be settled in another order. -/
theorem exists_settleCalls_of_perm (other : Nat) (perm : steps.Perm steps')
    (one : Uses.OneLimit (steps.map (·.2.session))) (h : ∃ r, c.settleCalls index steps s w = .ok r) :
    ∃ r, c.settleCalls other steps' s w = .ok r := by
  obtain ⟨allowed, usable, ⟨spends, read, fits⟩, narrowed⟩ := (exists_settleCalls index).1 h
  obtain ⟨spends', read', same⟩ := exists_spendsOfAll_perm (perm.map (·.1)) read
  have byKey := s.byKey_spendingLimit? c.wallet c.operator
  have within := (Limits.fits_iff byKey fun _ => nonneg_spendsOfAll read).1 fits
  exact (exists_settleCalls other).2 ⟨fun step listed => allowed step (perm.mem_iff.2 listed),
    Uses.suffice_of_perm (s.byKey_usesOfSession c.wallet c.operator) (perm.map (·.2.session)) one usable,
    ⟨spends', read', (Limits.fits_iff byKey fun _ => nonneg_spendsOfAll read').2
      (Limits.within_of_perm same within)⟩,
    ValidityWindow.narrows_of_perm (perm.map (·.2.session.window)) narrowed⟩

/-- Calls that are settled in two orders leave the same store and the same window. -/
theorem settleCalls_unique {other : Nat} {s'' : Store} {w'' : ValidityWindow} (perm : steps.Perm steps')
    (h : c.settleCalls index steps s w = .ok (s', w'))
    (h' : c.settleCalls other steps' s w = .ok (s'', w'')) : s'' = s' ∧ w'' = w' := by
  constructor
  · -- settling calls writes to two tables only, and to each of their rows a total
    have limits : s''.spendingLimits = s'.spendingLimits := by
      refine Table.ext fun row => ?_
      have first := (Store.Charges.settleCalls h).2.limits row
      have second := (Store.Charges.settleCalls h').2.limits row
      rw [← (perm.map fun step => step.1.spentIn c.wallet c.operator row).sum_eq] at second
      exact second.trans first.symm
    have uses : s''.sessionUses = s'.sessionUses := by
      refine Table.ext fun row => ?_
      rw [find?_settleCalls h, find?_settleCalls h', perm.countP_eq]
    obtain ⟨_, _, rfl⟩ := exists_of_settleCalls h
    obtain ⟨_, _, rfl⟩ := exists_of_settleCalls h'
    rw [Store.mk.injEq]
    exact ⟨rfl, limits, rfl, rfl, uses⟩
  · rw [window_settleCalls h, window_settleCalls h']
    unfold ValidityWindow.shared
    rw [(perm.map (·.2.session.window)).foldr_op_eq]

/-- In another order calls do the same, or are refused too. -/
theorem settleCalls_perm (perm : steps.Perm steps') (one : Uses.OneLimit (steps.map (·.2.session))) :
    c.settleCalls index steps s w = .ok (s', w') ↔ c.settleCalls index steps' s w = .ok (s', w') := by
  have one' : Uses.OneLimit (steps'.map (·.2.session)) := by
    have listed {a : Session} := (perm.map (·.2.session)).mem_iff (a := a)
    exact fun a ha b hb => one a (listed.2 ha) b (listed.2 hb)
  constructor
  · intro h
    obtain ⟨⟨s'', w''⟩, h'⟩ := exists_settleCalls_of_perm index perm one ⟨_, h⟩
    obtain ⟨rfl, rfl⟩ := settleCalls_unique perm h h'
    exact h'
  · intro h
    obtain ⟨⟨s'', w''⟩, h'⟩ := exists_settleCalls_of_perm index perm.symm one' ⟨_, h⟩
    obtain ⟨rfl, rfl⟩ := settleCalls_unique perm.symm h h'
    exact h'

end CallContext

/-! ### Operations -/

/-- Sessions that share a leaf are the same, however they are written, so they have one limit. -/
theorem Uses.oneLimit_of_distinct {sessions : List Session}
    (distinct : ∀ a ∈ sessions, ∀ b ∈ sessions, ∀ leaf, a.leaf = .ok leaf → b.leaf = .ok leaf →
      a.SameValues b) : Uses.OneLimit sessions := by
  intro a ha b hb leaf countsA countsB
  obtain ⟨-, own, hown, sameA⟩ := Session.leaf_of_countsUnder countsA
  obtain ⟨-, other, hother, sameB⟩ := Session.leaf_of_countsUnder countsB
  have row : useRow .zero .zero own = useRow .zero .zero other := by
    unfold useRow
    rw [sameA, sameB]
  obtain ⟨-, rfl⟩ := (useRow_inj hown hother).1 row
  exact (distinct a ha b hb own hown hother).timesLimit.symm

/-- Two operations of an operator that cost the same and make the same calls, in some order, with the same
shown for each of them. -/
structure PreparedOperation.Reorders (p q : PreparedOperation) : Prop where
  sender : p.op.sender = q.op.sender
  operator : p.operator = q.operator
  paymaster : p.op.paymaster = q.op.paymaster
  fee : p.op.maxFee = q.op.maxFee
  steps : p.steps.Perm q.steps

namespace PreparedOperation

variable {p q : PreparedOperation}

theorem Reorders.settle_iff (same : p.Reorders q) (one : Uses.OneLimit (p.steps.map (·.2.session)))
    {permit : Option VerifiedPermit} {s s' : Store} {w : ValidityWindow} :
    p.settle permit s = .ok (s', w) ↔ q.settle permit s = .ok (s', w) := by
  have paid (s : Store) : s.consumeBudget q.op.sender q.operator p.op =
      s.consumeBudget q.op.sender q.operator q.op := by
    unfold Store.consumeBudget OperatorPermission.afterOperation
    rw [same.fee]
  have installed : p.installPermit permit s = q.installPermit permit s := by
    unfold installPermit
    rw [same.sender, same.operator]
  rw [settle_eq_ok, settle_eq_ok]
  simp only [installed, paid, same.sender, same.operator, same.paymaster,
    CallContext.settleCalls_perm same.steps one]

theorem Reorders.permitEvents_eq (same : p.Reorders q) (permit : Option VerifiedPermit) :
    p.permitEvents permit = q.permitEvents permit := by
  unfold permitEvents
  rw [same.sender, same.operator]

/-- An operation is carried out if it can be settled, and then leaves what the settlement leaves. -/
theorem on_apply_eq_ok {permit : Option VerifiedPermit} {d d' : Desk} {w : ValidityWindow} :
    (p.apply permit).on d = (.ok w, d') ↔
      ∃ s', p.settle permit d.store = .ok (s', w) ∧ d' = ⟨s', d.waiting ++ p.permitEvents permit⟩ := by
  have follows := p.follows_apply permit d
  cases settled : p.settle permit d.store with
  | error f =>
    rw [settled] at follows
    constructor
    · intro ended
      rw [ended] at follows
      cases follows
    · rintro ⟨_, ended, -⟩
      cases ended
  | ok r =>
    rw [settled] at follows
    simp only at follows
    rw [follows]
    constructor
    · intro ended
      cases ended
      exact ⟨_, rfl, rfl⟩
    · rintro ⟨_, ended, rfl⟩
      cases ended
      rfl

/-- How a validation of an operation that the operator signed ends well. -/
theorem finish_eq_valid (signed : p.signatureValid = true) {permit : Option VerifiedPermit}
    {simulate : Bool} {s : Store} {outcome : Outcome} {w : ValidityWindow}
    (valid : outcome.result = .ok (.valid w)) :
    p.finish permit simulate s = outcome ↔
      ∃ s', p.settle permit s = .ok (s', w) ∧
        outcome = if simulate then .unchanged s (.ok (.valid w))
          else ⟨.ok (.valid w), s', p.permitEvents permit⟩ := by
  rw [finish_eq]
  cases settled : p.settle permit s with
  | error f =>
    constructor
    · rintro rfl
      cases valid
    · rintro ⟨_, ended, -⟩
      cases ended
  | ok r =>
    obtain ⟨s', w'⟩ := r
    simp only [signed, Bool.true_eq_false, if_false, Except.ok.injEq, Prod.mk.injEq]
    constructor
    · rintro rfl
      have same : ValidationData.valid w' = .valid w := by
        cases simulate with
        | false => exact Except.ok.inj valid
        | true => exact Except.ok.inj valid
      obtain rfl := ValidationData.valid_inj.1 same
      exact ⟨s', ⟨rfl, rfl⟩, rfl⟩
    · rintro ⟨_, ⟨rfl, rfl⟩, rfl⟩
      rfl

end PreparedOperation

/-- **The order of calls does not matter.** Take two operations of an operator that differ at most in the
order of their calls, each with what is shown for it, and in which no two different sessions share a leaf.
From whatever is stored, and with whatever permit, one of them is carried out exactly if the other is; and
then both leave the same store, announce the same and return the same window. If the operator signed both,
the same holds of their validations as a whole. -/
theorem order_of_calls_irrelevant {p q : PreparedOperation} (same : p.Reorders q)
    (distinct : ∀ a ∈ p.steps, ∀ b ∈ p.steps, ∀ leaf,
      a.2.session.leaf = .ok leaf → b.2.session.leaf = .ok leaf → a.2.session.SameValues b.2.session)
    (permit : Option VerifiedPermit) :
    (∀ (d d' : Desk) (w : ValidityWindow),
      (p.apply permit).on d = (.ok w, d') ↔ (q.apply permit).on d = (.ok w, d')) ∧
    (p.signatureValid = true → q.signatureValid = true →
      ∀ (simulate : Bool) (s : Store) (outcome : Outcome) (w : ValidityWindow),
        outcome.result = .ok (.valid w) →
          (p.finish permit simulate s = outcome ↔ q.finish permit simulate s = outcome)) := by
  have one : Uses.OneLimit (p.steps.map (·.2.session)) :=
    Uses.oneLimit_of_distinct (List.forall_mem_map.2 fun a ha => List.forall_mem_map.2 (distinct a ha))
  constructor
  · intro d d' w
    simp only [PreparedOperation.on_apply_eq_ok, same.settle_iff one, same.permitEvents_eq]
  · intro signed signed' simulate s outcome w valid
    rw [PreparedOperation.finish_eq_valid signed valid, PreparedOperation.finish_eq_valid signed' valid]
    simp only [same.settle_iff one, same.permitEvents_eq]

/-! ### Two payments -/

/-- A payment of some coins, with a session for two payments of any amount. -/
def smallPayment (coins : UInt8) : WalletCall × SessionEntry :=
  (⟨.zero, coins.toNat, .empty, 0⟩,
    ⟨[], ⟨.zero, fallbackSelector, Hex.ofBytes [0xc3, 0xc2, 0x00, 0x80], .zero, 0, 0, 2⟩,
      Hex.ofBytes ([0xe1, 0xa0] ++ List.replicate 31 0 ++ [coins])⟩)

/-- An operation that makes some payments. -/
def payments (coins : List UInt8) : PreparedOperation where
  op := ⟨.zero, 0, .empty, .empty, 0, 0, 0, 0, 0, .empty, .empty⟩
  operator := .zero
  signatureValid := true
  steps := coins.map smallPayment
  permit := none

/-- A store in which twelve coins may be spent under a root. -/
def paymentStore (root : Hex) : Store :=
  (Store.empty.setPermission .zero .zero ⟨root, .zero, 0, 0, 0, 1⟩).setSpendingLimit .zero .zero .zero ⟨12, 0⟩

theorem exists_leaf_smallPayment : ∃ c : SessionContent,
    ∀ coins, (smallPayment coins).2.session.leaf = .ok c.leaf ∧ (smallPayment coins).2.session.Has c := by
  let c : SessionContent :=
    { target := List.replicate 20 0, selector := List.replicate 4 0
      allowedArguments := [0xc3, 0xc2, 0x00, 0x80]
      paymaster := List.replicate 20 0, validUntil := 0, validAfter := 0, timesLimit := 2 }
  have has : (smallPayment 0).2.session.Has c := Session.content?_eq_some.1 (by decide +kernel)
  have encodable : (smallPayment 0).2.session.IsEncodable := ⟨by decide, by decide, c, has⟩
  exact ⟨c, fun _ => ⟨encodable.leaf_of_has has, has⟩⟩

theorem exists_settle_payments {c : SessionContent}
    (leaf : ∀ coins, (smallPayment coins).2.session.leaf = .ok c.leaf) :
    ∃ r, (payments [5, 7]).settle none (paymentStore c.leaf) = .ok r := by
  have granted : (paymentStore c.leaf).permission .zero .zero = ⟨c.leaf, .zero, 0, 0, 0, 1⟩ := by
    simp [paymentStore, Store.setSpendingLimit, Store.setPermission, Store.permission]
  have anyPaymaster : Address.zero.hex.toInt? = some 0 := by decide +kernel
  have node : c.leaf.IsNode := ⟨_, rfl, Keccak.length_digest _⟩
  obtain ⟨_, -, -, number⟩ := node.writesHash.exists_toInt
  have always : (ValidityWindow.mk 0 0).Contains 0 := ⟨Number.le_refl 0, .inl rfl⟩
  have unused : ∀ leaf, (paymentStore c.leaf).usesOfSession .zero .zero leaf = 0 := by
    intro leaf
    simp [paymentStore, Store.setSpendingLimit, Store.setPermission, Store.usesOfSession, Store.empty]
  have capped : (paymentStore c.leaf).spendingLimit? .zero .zero .zero = some ⟨12, 0⟩ := by
    simp [paymentStore, Store.spendingLimit?_setSpendingLimit]
  refine (PreparedOperation.exists_settle (List.cons_ne_nil _ _)).2 ⟨_, rfl, ?_⟩
  change IsCovered _ _ _ ((paymentStore c.leaf).permission .zero .zero) _ _
  rw [granted]
  exact {
    paymaster := .inl anyPaymaster
    fee := Int.le_refl 0
    times := Int.one_ne_zero
    calls := by
      unfold payments
      simp only [List.forall_mem_map]
      intro coins listed
      have allowed : ∀ coins ∈ [5, 7], checkArguments (smallPayment coins).2.session
          (smallPayment coins).1.target (smallPayment coins).1.data (smallPayment coins).1.value
          (smallPayment coins).2.arguments = .ok () := by decide +kernel
      exact ⟨rfl, ⟨c.leaf, c.leaf, _, leaf coins, rfl, number, number⟩, .inl anyPaymaster,
        allowed coins listed⟩
    sessions := by
      refine Uses.AllWithin.each fun session listed _ => ?_
      have count := List.countP_le_length (p := fun s : Session => s.countsUnder c.leaf)
        (l := (payments [5, 7]).steps.map (·.2.session))
      obtain ⟨step, made, rfl⟩ := List.mem_map.1 listed
      obtain ⟨coins, -, rfl⟩ := List.mem_map.1 made
      refine ⟨c.leaf, leaf coins, ?_⟩
      change (paymentStore c.leaf).usesOfSession .zero .zero c.leaf + _ ≤ (2 : Int)
      rw [unused, Int.zero_add]
      exact Int.ofNat_le.2 count
    spendings := by
      refine ⟨[⟨.zero, 5⟩, ⟨.zero, 7⟩], by decide +kernel, fun spend listed info found => ?_⟩
      have native : ∀ spend ∈ [TokenSpend.mk .zero 5, ⟨.zero, 7⟩], spend.token = .zero := by decide
      rw [native spend listed] at found ⊢
      cases capped.symm.trans found
      decide
    window := ⟨0, always, by
      unfold payments
      simp only [List.forall_mem_map]
      exact fun _ _ => always⟩ }

/-- Five coins and seven, or seven and five, use up the twelve that may be spent. -/
theorem payments_in_both_orders :
    ∃ root s w, (payments [5, 7]).Reorders (payments [7, 5]) ∧
      ((payments [5, 7]).apply none).on ⟨paymentStore root, []⟩ = (.ok w, ⟨s, []⟩) ∧
      ((payments [7, 5]).apply none).on ⟨paymentStore root, []⟩ = (.ok w, ⟨s, []⟩) := by
  obtain ⟨c, leaf⟩ := exists_leaf_smallPayment
  have same : (payments [5, 7]).Reorders (payments [7, 5]) := ⟨rfl, rfl, rfl, rfl, .swap _ _ _⟩
  have distinct : ∀ a ∈ (payments [5, 7]).steps, ∀ b ∈ (payments [5, 7]).steps, ∀ leaf,
      a.2.session.leaf = .ok leaf → b.2.session.leaf = .ok leaf →
        a.2.session.SameValues b.2.session := by
    unfold payments
    simp only [List.forall_mem_map]
    exact fun a _ b _ _ _ _ => ⟨c, (leaf a).2, (leaf b).2⟩
  obtain ⟨⟨s, w⟩, settled⟩ := exists_settle_payments fun coins => (leaf coins).1
  have first : ((payments [5, 7]).apply none).on ⟨paymentStore c.leaf, []⟩ = (.ok w, ⟨s, []⟩) :=
    PreparedOperation.on_apply_eq_ok.2 ⟨s, settled, rfl⟩
  exact ⟨c.leaf, s, w, same, first, ((order_of_calls_irrelevant same distinct none).1 _ _ _).1 first⟩

end SessionKeys
