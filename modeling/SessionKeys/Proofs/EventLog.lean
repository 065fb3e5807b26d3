import SessionKeys.Proofs.Charges
import SessionKeys.Proofs.PermitAuthority
import SessionKeys.Proofs.PermitUse
import SessionKeys.Proofs.UseLimits

/-!
The events of changes as a log. A reader of the log keeps three tables and writes into them what each event
says (`Replica.follow`). One change of an owner takes the tables of the store where its events take those of
the reader (`ManagementCall.replica_apply`), so after any changes they are the same tables, and the rest of
the store is untouched. A change without events is none. Main statement: `events_rebuild_store`.
-/

namespace SessionKeys

/-! ### Reading the log -/

/-- The tables that a reader of the log keeps. -/
structure Replica where
  /-- by wallet and operator -/
  permissions : Table OperatorPermission := ∅
  /-- by wallet, operator and token -/
  spendingLimits : Table SpendingLimitInfo := ∅
  /-- by wallet and hash -/
  usedHashes : Table Unit := ∅

namespace Replica

/-- What a reader knows before the first event. -/
def empty : Replica := {}

/-- Changes the permission in a row. Where there is none yet, it is the empty one that is changed. -/
def changePermission (r : Replica) (row : List (List Char))
    (change : OperatorPermission → OperatorPermission) : Replica :=
  { r with permissions := r.permissions.put row (change ((r.permissions.find? row).getD .empty)) }

/-- Writes down what an event says. Of a permit that was consumed the log does not tell what it grants. -/
def follow (r : Replica) : Event → Replica
  | .sessionRootSet wallet operator sessionRoot =>
    r.changePermission (permissionRow wallet operator) fun p => { p with sessionRoot }
  | .operatorRemainingGasSet wallet operator gasRemaining =>
    r.changePermission (permissionRow wallet operator) fun p => { p with gasRemaining }
  | .operatorRemainingTimesSet wallet operator timesRemaining =>
    r.changePermission (permissionRow wallet operator) fun p => { p with timesRemaining }
  | .operatorPermissionSet wallet operator permission =>
    r.changePermission (permissionRow wallet operator) fun _ => permission
  | .spendingLimitSet wallet operator token allowance =>
    { r with spendingLimits := r.spendingLimits.put (limitRow wallet operator token) ⟨allowance, 0⟩ }
  | .spendingLimitReset wallet operator token =>
    match r.spendingLimits.find? (limitRow wallet operator token) with
    | none => r
    | some info =>
      { r with
        spendingLimits := r.spendingLimits.put (limitRow wallet operator token) { info with spent := 0 } }
  | .spendingLimitDeleted wallet operator token =>
    { r with spendingLimits := r.spendingLimits.remove (limitRow wallet operator token) }
  | .signatureRevoked wallet hash =>
    { r with usedHashes := r.usedHashes.put (wallet.key ++ hash.key) () }
  | .permitConsumed .. => r

/-- Writes down what some events say, in order. -/
def followAll (r : Replica) (events : List Event) : Replica :=
  events.foldl follow r

theorem followAll_append (r : Replica) (first rest : List Event) :
    r.followAll (first ++ rest) = (r.followAll first).followAll rest :=
  List.foldl_append

/-- The store that has the tables of a reader, in which no permit and no session was used. -/
def store (r : Replica) : Store where
  permissions := r.permissions
  spendingLimits := r.spendingLimits
  usedHashes := r.usedHashes

end Replica

/-! ### One change -/

namespace Store

/-- The tables of a store that its events are about. -/
def replica (s : Store) : Replica :=
  ⟨s.permissions, s.spendingLimits, s.usedHashes⟩

/-- A reader of the log knows the limits that are set one after the other. -/
theorem replica_startSpendingLimits (s : Store) (wallet operator : Address) (limits : List SpendingLimit) :
    (s.startSpendingLimits wallet operator limits).replica =
      s.replica.followAll (limits.map fun l => .spendingLimitSet wallet operator l.token l.allowance) := by
  unfold startSpendingLimits
  induction limits generalizing s with
  | nil => rfl
  | cons l rest ih => exact ih (s.setSpendingLimit wallet operator l.token ⟨l.allowance, 0⟩)

/-- What no event of an owner is about: the nonces of permits and the uses of sessions. -/
def SameUses (s s' : Store) : Prop :=
  s'.permitNonces = s.permitNonces ∧ s'.sessionUses = s.sessionUses

theorem eq_store_replica {s : Store} (unused : Store.empty.SameUses s) : s = s.replica.store := by
  obtain ⟨permissions, spendingLimits, permitNonces, usedHashes, sessionUses⟩ := s
  obtain ⟨rfl, rfl⟩ := unused
  rfl

end Store

namespace ManagementCall

variable {s s' : Store} {call : ManagementCall} {events : List Event}

/-- A change takes the tables of a store where its events take those of a reader. -/
theorem replica_apply (h : call.apply s = .ok (s', events)) : s'.replica = s.replica.followAll events := by
  cases call with
  | setSessionRoot | setOperatorRemainingGas | setOperatorRemainingTimes | setSpendingLimit
  | revokeSignature =>
    cases h
    rfl
  | setOperatorPermission wallet operator permission =>
    obtain ⟨-, -, done⟩ := bind_eq_ok.1 h
    cases done
    rfl
  | batchSetSpendingLimit wallet operator limits =>
    cases h
    exact s.replica_startSpendingLimits wallet operator limits
  | resetSpendingLimit wallet operator token =>
    simp only [apply] at h
    split at h
    · cases h
      rfl
    next info found =>
      cases h
      -- the reader finds the limit in the same place
      have known : s.replica.spendingLimits.find? (limitRow wallet operator token) = some info := found
      simp only [Replica.followAll, List.foldl_cons, List.foldl_nil, Replica.follow, known]
      rfl
  | deleteSpendingLimit wallet operator token =>
    simp only [apply] at h
    split at h
    · cases h
      rfl
    · cases h
      rfl

theorem sameUses_apply (h : call.apply s = .ok (s', events)) : s.SameUses s' := by
  refine ⟨?_, sessionUses_apply h⟩
  cases Store.permitStep_of_apply h with
  | idle same => exact same.1
  | revokes wallet hash same => exact same.1
  | consumes => exact absurd (List.mem_singleton_self _) (not_consumed h)

/-- A change that no event reports leaves the store as it is. -/
theorem eq_of_silent (h : call.apply s = .ok (s', [])) : s' = s := by
  cases call with
  | setSessionRoot | setOperatorRemainingGas | setOperatorRemainingTimes | setSpendingLimit
  | revokeSignature => cases h
  | setOperatorPermission =>
    obtain ⟨-, -, done⟩ := bind_eq_ok.1 h
    cases done
  | batchSetSpendingLimit wallet operator limits =>
    cases limits with
    | nil =>
      cases h
      rfl
    | cons l rest => cases h
  | resetSpendingLimit | deleteSpendingLimit =>
    simp only [apply] at h
    split at h
    · cases h
      rfl
    · cases h

end ManagementCall

/-! ### Many changes -/

namespace Timeline

variable (t : Timeline)

theorem replica_step_manage (call : ManagementCall) :
    (t.step (.manage call)).1.engine.store.replica =
      t.engine.store.replica.followAll (t.step (.manage call)).2 := by
  rcases t.step_manage_cases call with idle | ⟨s, events, applied, made⟩
  · rw [idle]
    rfl
  · rw [made]
    exact ManagementCall.replica_apply applied

theorem sameUses_step_manage (call : ManagementCall) :
    t.engine.store.SameUses (t.step (.manage call)).1.engine.store := by
  rcases t.step_manage_cases call with idle | ⟨s, events, applied, made⟩
  · rw [idle]
    exact ⟨rfl, rfl⟩
  · rw [made]
    exact ManagementCall.sameUses_apply applied

/-- A step of an owner that no event reports does nothing. -/
theorem step_manage_of_silent {call : ManagementCall} (silent : (t.step (.manage call)).2 = []) :
    (t.step (.manage call)).1 = t := by
  rcases t.step_manage_cases call with idle | ⟨s, events, applied, made⟩
  · rw [idle]
  · rw [made] at silent ⊢
    obtain rfl : events = [] := silent
    rw [ManagementCall.eq_of_silent applied]

/-- After some changes of owners, made or refused, the tables of the store are those of a reader of the log. -/
theorem replica_run_manage (calls : List ManagementCall) :
    (t.run (calls.map .manage)).1.engine.store.replica =
      t.engine.store.replica.followAll (t.run (calls.map .manage)).2 := by
  induction calls generalizing t with
  | nil => rfl
  | cons call rest ih =>
    have later := ih (t.step (.manage call)).1
    rw [t.replica_step_manage call, ← Replica.followAll_append] at later
    exact later

theorem sameUses_run_manage (calls : List ManagementCall) :
    t.engine.store.SameUses (t.run (calls.map .manage)).1.engine.store := by
  induction calls generalizing t with
  | nil => exact ⟨rfl, rfl⟩
  | cons call rest ih =>
    obtain ⟨nonces, uses⟩ := t.sameUses_step_manage call
    obtain ⟨nonces', uses'⟩ := ih (t.step (.manage call)).1
    exact ⟨nonces'.trans nonces, uses'.trans uses⟩

end Timeline

/-- **The events rebuild the store.** Whatever changes are asked for on a new engine, and whichever of them are
refused, the store has the tables that a reader of the log has written from nothing, and nothing else. A
further change that no event reports leaves everything as it is. -/
theorem events_rebuild_store (config : Config) (calls : List ManagementCall) :
    let run := (Timeline.ofEngine (.ofConfig config)).run (calls.map .manage)
    run.1.engine.store = (Replica.empty.followAll run.2).store ∧
      ∀ call, (run.1.step (.manage call)).2 = [] → (run.1.step (.manage call)).1 = run.1 := by
  intro run
  have followed : run.1.engine.store.replica = Replica.empty.followAll run.2 :=
    Timeline.replica_run_manage _ calls
  have unused : Store.empty.SameUses run.1.engine.store := Timeline.sameUses_run_manage _ calls
  refine ⟨?_, fun call silent => run.1.step_manage_of_silent silent⟩
  rw [← followed]
  exact Store.eq_store_replica unused

/-- A budget is set, an empty window is refused, two limits are set at once, one of them is reset in other letters
and the other is deleted. To delete that once more is no change. -/
theorem deleted_again_unchanged :
    let address (c : Char) : Address := .ofText (String.ofList ('0' :: 'x' :: List.replicate 40 c))
    let config : Config := ⟨address '1', address '2', 1, address '5', none, none⟩
    let delete : ManagementCall := .deleteSpendingLimit (address '1') (address '6') (address 'B')
    let calls : List ManagementCall :=
      [.setOperatorRemainingGas (address '1') (address '6') 10,
        .setOperatorPermission (address '1') (address '6')
          { OperatorPermission.empty with validUntil := 10, validAfter := 20 },
        .batchSetSpendingLimit (address '1') (address '6') [⟨address 'a', 5⟩, ⟨address 'b', 7⟩],
        .resetSpendingLimit (address '1') (address '6') (address 'A'), delete,
        .revokeSignature (address '1') .empty]
    let run := (Timeline.ofEngine (.ofConfig config)).run (calls.map .manage)
    run.2.map Event.kind =
        ["OperatorRemainingGasSet", "SpendingLimitSet", "SpendingLimitSet", "SpendingLimitReset",
          "SpendingLimitDeleted", "SignatureRevoked"] ∧
      run.1.engine.store = (Replica.empty.followAll run.2).store ∧
      (run.1.step (.manage delete)).2 = [] ∧ (run.1.step (.manage delete)).1 = run.1 := by
  intro address config delete calls run
  have silent : (run.1.step (.manage delete)).2 = [] := by decide +kernel
  obtain ⟨rebuilt, unchanged⟩ := events_rebuild_store config calls
  exact ⟨by decide +kernel, rebuilt, silent, unchanged delete silent⟩

end SessionKeys
