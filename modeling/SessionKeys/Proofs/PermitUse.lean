import SessionKeys.Proofs.Steps

/-!
Permits are used once. In every run, whatever runs side by side and in whatever order, a permit is
consumed at most once, the permits of an operator are consumed in the order of their nonces, and a
permit that was revoked or consumed stays unusable. Main statement: `permit_used_once`.

The guarantee comes from the transaction alone: what a validation has read of nonces and used hashes
may be out of date when it ends.
-/

namespace SessionKeys

/-! ### What is remembered about permits -/

/-- Two stores agree on what is remembered about permits. -/
def Store.SamePermits (s s' : Store) : Prop :=
  s'.permitNonces = s.permitNonces ∧ s'.usedHashes = s.usedHashes

namespace Store.SamePermits

variable {s s' s'' : Store}

theorem refl (s : Store) : s.SamePermits s := ⟨rfl, rfl⟩

theorem trans (h : s.SamePermits s') (h' : s'.SamePermits s'') : s.SamePermits s'' :=
  ⟨h'.1.trans h.1, h'.2.trans h.2⟩

theorem permitNonce (h : s.SamePermits s') (wallet operator : Address) :
    s'.permitNonce wallet operator = s.permitNonce wallet operator := by
  unfold Store.permitNonce
  rw [h.1]

theorem startSpendingLimits (s : Store) (wallet operator : Address) (limits : List SpendingLimit) :
    s.SamePermits (s.startSpendingLimits wallet operator limits) := by
  rw [Store.startSpendingLimits_eq]
  exact ⟨rfl, rfl⟩

theorem consumeBudget {wallet operator : Address} {op : UserOperation}
    (h : s.consumeBudget wallet operator op = .ok s') : s.SamePermits s' := by
  obtain ⟨p, rfl⟩ := Store.exists_of_consumeBudget h
  exact ⟨rfl, rfl⟩

theorem settleCalls {c : CallContext} {index : Nat} {steps : List (WalletCall × SessionEntry)}
    {w w' : ValidityWindow} (h : c.settleCalls index steps s w = .ok (s', w')) : s.SamePermits s' := by
  obtain ⟨limits, uses, rfl⟩ := CallContext.exists_of_settleCalls h
  exact ⟨rfl, rfl⟩

end Store.SamePermits

/-! ### Steps -/

namespace Event

/-- Where a permit that an event reports as consumed is filed. -/
def consumedKey? : Event → Option (List (List Char))
  | permitConsumed wallet _ hash _ => some (wallet.key ++ hash.key)
  | _ => none

/-- Where a permit that an event reports as unusable from now on is filed. -/
def usedKey? : Event → Option (List (List Char))
  | permitConsumed wallet _ hash _ => some (wallet.key ++ hash.key)
  | signatureRevoked wallet hash => some (wallet.key ++ hash.key)
  | _ => none

/-- The nonce of a permit that an event reports as consumed by an operator of a wallet. -/
def nonceFor? (wallet operator : Address) : Event → Option Nat
  | permitConsumed w o _ nonce =>
    if w.key ++ o.key = wallet.key ++ operator.key then some nonce else none
  | _ => none

/-- An event that reports no permit as unusable reports none as consumed. -/
theorem not_consumed {e : Event} (silent : e.usedKey? = none) :
    e.consumedKey? = none ∧ ∀ wallet operator, e.nonceFor? wallet operator = none := by
  cases e with
  | permitConsumed w o h n => cases silent
  | _ => exact ⟨rfl, fun _ _ => rfl⟩

/-- A permit that is consumed is unusable from then on. -/
theorem usedKey_of_consumedKey {events : List Event} {key : List (List Char)}
    (h : key ∈ events.filterMap consumedKey?) : key ∈ events.filterMap usedKey? := by
  obtain ⟨e, he, consumed⟩ := List.mem_filterMap.1 h
  refine List.mem_filterMap.2 ⟨e, he, ?_⟩
  cases e with
  | permitConsumed w o hash n => exact consumed
  | _ => cases consumed

end Event

/-- What a step may do to what is remembered about permits: nothing, or mark one permit as unusable,
or consume one that is usable, at the nonce of its operator. -/
inductive Store.PermitStep (s s' : Store) : List Event → Prop
  | idle {events : List Event} (same : s.SamePermits s')
      (silent : ∀ e ∈ events, e.usedKey? = none) : PermitStep s s' events
  | revokes (wallet : Address) (hash : Hex) (same : (s.markHashUsed wallet hash).SamePermits s') :
      PermitStep s s' [.signatureRevoked wallet hash]
  | consumes (wallet operator : Address) (hash : Hex) (usable : s.isHashUsed wallet hash = false)
      (same : ((s.markHashUsed wallet hash).incrementPermitNonce wallet operator).SamePermits s') :
      PermitStep s s' [.permitConsumed wallet operator hash (s.permitNonce wallet operator)]

theorem Store.permitStep_of_apply {s s' : Store} {call : ManagementCall} {events : List Event}
    (h : call.apply s = .ok (s', events)) : s.PermitStep s' events := by
  cases call with
  | setSessionRoot | setOperatorRemainingGas | setOperatorRemainingTimes | setSpendingLimit =>
    cases h
    exact .idle ⟨rfl, rfl⟩ (by simp [Event.usedKey?])
  | setOperatorPermission wallet operator permission =>
    obtain ⟨-, -, done⟩ := bind_eq_ok.1 h
    cases done
    exact .idle ⟨rfl, rfl⟩ (by simp [Event.usedKey?])
  | batchSetSpendingLimit wallet operator limits =>
    cases h
    exact .idle (.startSpendingLimits s wallet operator limits) (by simp [Event.usedKey?])
  | resetSpendingLimit | deleteSpendingLimit =>
    simp only [ManagementCall.apply] at h
    split at h
    · cases h
      exact .idle (.refl s) (by simp)
    · cases h
      exact .idle ⟨rfl, rfl⟩ (by simp [Event.usedKey?])
  | revokeSignature wallet hash =>
    cases h
    exact .revokes wallet hash (.refl _)

namespace PreparedOperation

variable {p : PreparedOperation} {s s' : Store} {window : ValidityWindow}

/-- Without a permit a settlement leaves alone what is remembered about permits. -/
theorem samePermits_settle (h : p.settle none s = .ok (s', window)) : s.SamePermits s' := by
  obtain ⟨s₁, s₂, installed, -, paid, settled⟩ := settle_eq_ok.1 h
  cases installed
  exact (Store.SamePermits.consumeBudget paid).trans (.settleCalls settled)

/-- With a permit that is usable at its nonce, a settlement uses it up. -/
theorem permits_settle {v : VerifiedPermit} (h : p.settle (some v) s = .ok (s', window)) :
    s.permitNonce p.op.sender p.operator = v.nonce ∧ s.isHashUsed p.op.sender v.hash = false ∧
      ((s.markHashUsed p.op.sender v.hash).incrementPermitNonce p.op.sender p.operator).SamePermits
        s' := by
  obtain ⟨s₁, s₂, installed, -, paid, settled⟩ := settle_eq_ok.1 h
  obtain ⟨nonce, unused, -, rfl⟩ := VerifiedPermit.install_eq_ok.1 installed
  have same := (Store.SamePermits.consumeBudget paid).trans (.settleCalls settled)
  refine ⟨nonce, unused, .trans ?_ same⟩
  exact .trans ⟨rfl, rfl⟩ (.startSpendingLimits _ _ _ _)

end PreparedOperation

theorem Store.permitStep_of_settle {s s' : Store} {p : PreparedOperation}
    {permit : Option VerifiedPermit} {window : ValidityWindow}
    (h : p.settle permit s = .ok (s', window)) : s.PermitStep s' (p.permitEvents permit) := by
  cases permit with
  | none => exact .idle (PreparedOperation.samePermits_settle h) nofun
  | some v =>
    obtain ⟨nonce, unused, same⟩ := PreparedOperation.permits_settle h
    simp only [PreparedOperation.permitEvents, ← nonce]
    exact .consumes p.op.sender p.operator v.hash unused same

theorem Store.Step.permits {s s' : Store} {events : List Event} (h : Store.Step s s' events) :
    s.PermitStep s' events := by
  cases h with
  | idle => exact .idle (.refl s) (by simp)
  | manages call applied => exact permitStep_of_apply applied
  | settles p permit settled => exact permitStep_of_settle settled

/-! ### One step -/

/-- Whether something is marked as unusable, by where it is filed. -/
def Store.IsUsed (s : Store) (key : List (List Char)) : Prop :=
  s.usedHashes.find? key = some ()

theorem Store.isHashUsed_eq_true {s : Store} {wallet : Address} {hash : Hex} :
    s.isHashUsed wallet hash = true ↔ s.IsUsed (wallet.key ++ hash.key) := by
  unfold isHashUsed IsUsed
  cases s.usedHashes.find? (wallet.key ++ hash.key) with
  | none => simp
  | some u => simp

theorem Store.SamePermits.isUsed {s s' : Store} (h : s.SamePermits s') (key : List (List Char)) :
    s'.IsUsed key ↔ s.IsUsed key := by
  unfold IsUsed
  rw [h.2]

theorem Store.isUsed_markHashUsed {s : Store} {wallet : Address} {hash : Hex}
    {key : List (List Char)} :
    (s.markHashUsed wallet hash).IsUsed key ↔ key = wallet.key ++ hash.key ∨ s.IsUsed key := by
  unfold IsUsed markHashUsed
  simp only [Table.find?_put]
  by_cases same : wallet.key ++ hash.key = key
  · simp [same]
  · simp [same, Ne.symm same]

theorem Store.isUsed_incrementPermitNonce {s : Store} {wallet operator : Address}
    {key : List (List Char)} : (s.incrementPermitNonce wallet operator).IsUsed key ↔ s.IsUsed key :=
  Iff.rfl

theorem Store.permitNonce_markHashUsed {s : Store} {w wallet operator : Address} {hash : Hex} :
    (s.markHashUsed w hash).permitNonce wallet operator = s.permitNonce wallet operator := rfl

theorem Store.permitNonce_incrementPermitNonce {s : Store} {w o wallet operator : Address} :
    (s.incrementPermitNonce w o).permitNonce wallet operator =
      if w.key ++ o.key = wallet.key ++ operator.key then s.permitNonce wallet operator + 1
      else s.permitNonce wallet operator := by
  unfold permitNonce incrementPermitNonce
  rw [Table.find?_put]
  split
  next same => simp [permitNonce, same]
  next => rfl

/-- What is unusable stays so, and is not consumed any more; what is consumed was usable, and is not
usable any more. -/
theorem Store.PermitStep.used {s s' : Store} {events : List Event} (h : s.PermitStep s' events)
    (key : List (List Char)) :
    (s'.IsUsed key ↔ s.IsUsed key ∨ key ∈ events.filterMap Event.usedKey?) ∧
      (events.filterMap Event.consumedKey?).Nodup ∧
      (key ∈ events.filterMap Event.consumedKey? → ¬s.IsUsed key) := by
  cases h with
  | idle same silent =>
    have used : events.filterMap Event.usedKey? = [] := List.filterMap_eq_nil_iff.2 silent
    have consumed : events.filterMap Event.consumedKey? = [] :=
      List.filterMap_eq_nil_iff.2 fun e he => (Event.not_consumed (silent e he)).1
    rw [used, consumed, same.isUsed]
    simp
  | revokes wallet hash same =>
    rw [same.isUsed, isUsed_markHashUsed]
    have consumed : [Event.signatureRevoked wallet hash].filterMap Event.consumedKey? = [] := rfl
    rw [consumed]
    simp [Event.usedKey?, or_comm]
  | consumes wallet operator hash usable same =>
    rw [same.isUsed, isUsed_incrementPermitNonce, isUsed_markHashUsed]
    refine ⟨by simp [Event.usedKey?, or_comm], by simp [Event.consumedKey?], ?_⟩
    intro consumed
    simp only [Event.consumedKey?, List.filterMap_cons, List.filterMap_nil,
      List.mem_singleton] at consumed
    rw [consumed, ← isHashUsed_eq_true, usable]
    simp

/-- The permits that a step consumes for an operator have its next nonces. -/
theorem Store.PermitStep.nonces {s s' : Store} {events : List Event} (h : s.PermitStep s' events)
    (wallet operator : Address) :
    ∃ count, s'.permitNonce wallet operator = s.permitNonce wallet operator + count ∧
      events.filterMap (Event.nonceFor? wallet operator) =
        List.range' (s.permitNonce wallet operator) count := by
  cases h with
  | idle same silent =>
    refine ⟨0, same.permitNonce wallet operator, ?_⟩
    exact List.filterMap_eq_nil_iff.2 fun e he =>
      (Event.not_consumed (silent e he)).2 wallet operator
  | revokes w hash same => exact ⟨0, same.permitNonce wallet operator, rfl⟩
  | consumes w o hash usable same =>
    rw [same.permitNonce, permitNonce_incrementPermitNonce, permitNonce_markHashUsed]
    by_cases here : w.key ++ o.key = wallet.key ++ operator.key
    · refine ⟨1, if_pos here, ?_⟩
      have nonce : s.permitNonce w o = s.permitNonce wallet operator := by
        unfold permitNonce
        rw [here]
      simp [Event.nonceFor?, here, nonce, List.range']
    · exact ⟨0, if_neg here, by simp [Event.nonceFor?, here]⟩

/-! ### Runs -/

namespace Timeline

theorem step_permits (t : Timeline) (a : Action) :
    t.engine.store.PermitStep (t.step a).1.engine.store (t.step a).2 :=
  (t.step_store a).permits

/-- After a run that is unusable which was so before, or which the run has revoked or consumed. -/
theorem isUsed_run (t : Timeline) (actions : List Action) (key : List (List Char)) :
    (t.run actions).1.engine.store.IsUsed key ↔
      t.engine.store.IsUsed key ∨ key ∈ (t.run actions).2.filterMap Event.usedKey? := by
  induction actions generalizing t with
  | nil => simp [run]
  | cons a rest ih =>
    have first := ((t.step_permits a).used key).1
    simp only [run, List.filterMap_append, List.mem_append, ih (t.step a).1, first, or_assoc]

/-- What is unusable when a run starts is not consumed in it. -/
theorem not_isUsed_of_consumed {t : Timeline} {actions : List Action} {key : List (List Char)}
    (h : key ∈ (t.run actions).2.filterMap Event.consumedKey?) : ¬t.engine.store.IsUsed key := by
  induction actions generalizing t with
  | nil => simp [run] at h
  | cons a rest ih =>
    have step := (t.step_permits a).used key
    simp only [run, List.filterMap_append, List.mem_append] at h
    rcases h with now | later
    · exact step.2.2 now
    · intro used
      exact ih later (step.1.2 (.inl used))

/-- No permit is consumed twice in a run. -/
theorem nodup_consumed (t : Timeline) (actions : List Action) :
    ((t.run actions).2.filterMap Event.consumedKey?).Nodup := by
  induction actions generalizing t with
  | nil => simp [run]
  | cons a rest ih =>
    simp only [run, List.filterMap_append]
    refine List.nodup_append.2 ⟨((t.step_permits a).used []).2.1, ih (t.step a).1, ?_⟩
    rintro key now _ later rfl
    have used := ((t.step_permits a).used key).1.2 (.inr (Event.usedKey_of_consumedKey now))
    exact not_isUsed_of_consumed later used

/-- The permits that a run consumes for an operator have the nonces that follow on the one at its
start, in order. -/
theorem nonces_run (t : Timeline) (actions : List Action) (wallet operator : Address) :
    ∃ count,
      (t.run actions).1.engine.store.permitNonce wallet operator =
        t.engine.store.permitNonce wallet operator + count ∧
      (t.run actions).2.filterMap (Event.nonceFor? wallet operator) =
        List.range' (t.engine.store.permitNonce wallet operator) count := by
  induction actions generalizing t with
  | nil => exact ⟨0, rfl, rfl⟩
  | cons a rest ih =>
    obtain ⟨now, first, events⟩ := (t.step_permits a).nonces wallet operator
    obtain ⟨later, last, more⟩ := ih (t.step a).1
    rw [first] at last more
    refine ⟨now + later, ?_, ?_⟩
    · simp only [run, last]
      omega
    · simp only [run, List.filterMap_append, events, more]
      rw [← List.range'_append_1]

end Timeline

/-- Permits are used once, in every run of an engine that starts with nothing written. No permit is
consumed twice. Those of each operator are consumed with the nonces `0, 1, 2, …` in order, and the
nonce of the operator is their number. One that was revoked or consumed is unusable after every
continuation of the run, in which it is not consumed, whatever was read of it before. -/
theorem permit_used_once (config : Config) (registry : Registry) (actions later : List Action) :
    let first := (Timeline.ofEngine ⟨config, .empty, registry⟩).run actions
    let second := first.1.run later
    (first.2.filterMap Event.consumedKey?).Nodup ∧
    (∀ wallet operator, first.2.filterMap (Event.nonceFor? wallet operator) =
      List.range (first.1.engine.store.permitNonce wallet operator)) ∧
    (∀ wallet hash, wallet.key ++ hash.key ∈ first.2.filterMap Event.usedKey? →
      second.1.engine.store.isHashUsed wallet hash = true ∧
      wallet.key ++ hash.key ∉ second.2.filterMap Event.consumedKey?) := by
  intro first second
  refine ⟨Timeline.nodup_consumed _ _, ?_, ?_⟩
  · intro wallet operator
    obtain ⟨count, nonce, events⟩ :=
      Timeline.nonces_run (Timeline.ofEngine ⟨config, .empty, registry⟩) actions wallet operator
    have start : Store.empty.permitNonce wallet operator = 0 := by
      unfold Store.permitNonce Store.empty
      rw [Table.find?_empty]
      rfl
    have count_eq : first.1.engine.store.permitNonce wallet operator = count := by
      rw [nonce, show (Timeline.ofEngine ⟨config, .empty, registry⟩).engine.store = .empty from rfl,
        start, Nat.zero_add]
    rw [events, count_eq, List.range_eq_range']
    exact congrArg (fun n => List.range' n count) start
  · intro wallet hash reported
    have used := (Timeline.isUsed_run _ actions (wallet.key ++ hash.key)).2 (.inr reported)
    refine ⟨Store.isHashUsed_eq_true.2 ((Timeline.isUsed_run _ later _).2 (.inl used)), ?_⟩
    intro consumed
    exact Timeline.not_isUsed_of_consumed consumed used

/-- A permit that is revoked before it was used is unusable after the wallet goes on. -/
theorem revoked_stays_used :
    let config : Config := ⟨.zero, .zero, 1, .zero, none, none⟩
    let revoked := (Timeline.ofEngine ⟨config, .empty, {}⟩).run
      [.manage (.revokeSignature .zero .empty)]
    (revoked.1.run [.manage (.setSessionRoot .zero .zero .empty)]).1.engine.store.isHashUsed
      .zero .empty = true := by
  intro config revoked
  have reported : Address.zero.key ++ Hex.empty.key ∈ revoked.2.filterMap Event.usedKey? :=
    List.mem_singleton_self _
  exact ((permit_used_once config {} _ _).2.2 .zero .empty reported).1

end SessionKeys
