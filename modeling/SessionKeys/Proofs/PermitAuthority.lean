import SessionKeys.Proofs.Commits
import SessionKeys.Proofs.History

/-!
Who vouches for a permit, and when. The class of the signer and its answer are looked at before a
validation ends, and other steps may come in between; the end itself looks at the nonce and at the used
hashes alone. So a permit that is installed was vouched for when it was read, and not more: a signer
that is disabled after that is not asked again. Main statement: `vouched_when_read`.
-/

namespace SessionKeys

/-- A registry vouches for a permit: its signature names a sudo validator of the wallet, which approves
it. The given answer counts if the validator is outside this library. -/
def Registry.Vouches (r : Registry) (wallet : Address) (v : VerifiedPermit)
    (answered : Except Failure Bool) : Prop :=
  ∃ addressed validator,
    splitPermitSignature v.permit.signature = .ok addressed ∧
    r.validator? addressed.validator = some validator ∧
    r.class? wallet addressed.validator = some .sudo ∧
    match validator.approves? wallet v.hash addressed.payload with
    | some approved => approved = true
    | none => answered = .ok true

/-- The registry vouches for a permit that is read and approved. -/
theorem Engine.vouches_of_request {e : Engine} {p : PreparedOperation} {request : PermitRequest}
    {answered : Except Failure Bool} (asked : e.request p = .ok (some request))
    (approved : request.IsApproved answered) :
    e.registry.Vouches p.op.sender request.verified answered := by
  obtain ⟨permit, -, read⟩ := request_eq_some.1 asked
  obtain ⟨hash, addressed, v, -, -, split, known, rank, rfl⟩ := PermitRequest.ofPermit_eq_ok.1 read
  exact ⟨addressed, v, split, known, rank, approved⟩

/-- No change of the owner consumes a permit. -/
theorem ManagementCall.not_consumed {call : ManagementCall} {s s' : Store} {events : List Event}
    (applied : call.apply s = .ok (s', events)) {wallet operator : Address} {hash : Hex} {nonce : Nat} :
    .permitConsumed wallet operator hash nonce ∉ events := by
  cases call with
  | resetSpendingLimit | deleteSpendingLimit =>
    simp only [apply] at applied
    split at applied
    · cases applied
      simp
    · cases applied
      simp
  | setOperatorPermission =>
    obtain ⟨-, -, done⟩ := bind_eq_ok.1 applied
    cases done
    simp
  | setSessionRoot | setOperatorRemainingGas | setOperatorRemainingTimes | setSpendingLimit
  | batchSetSpendingLimit | revokeSignature =>
    cases applied
    simp

namespace Timeline

/-- A permit is consumed in no step but the end of a validation that is ready to install it. -/
theorem ready_of_consumed {t : Timeline} {a : Action} {wallet operator : Address} {hash : Hex}
    {nonce : Nat} (consumed : .permitConsumed wallet operator hash nonce ∈ (t.step a).2) :
    ∃ index p v, a = .finish index ∧ t.running[index]? = some ⟨false, .ready p (some v)⟩ ∧
      p.op.sender = wallet ∧ p.operator = operator ∧ v.hash = hash ∧ v.nonce = nonce := by
  have effect := t.step_effect a
  generalize (t.step a).1.engine.store = s, (t.step a).2 = events at effect consumed
  cases effect with
  | idle | refuses => cases consumed
  | manages applied => exact absurd consumed (ManagementCall.not_consumed applied)
  | @accepts index p permit _ window ready =>
    cases permit with
    | none => cases consumed
    | some v =>
      obtain ⟨rfl, rfl, rfl, rfl⟩ := Event.permitConsumed.inj (List.mem_singleton.1 consumed)
      exact ⟨index, p, v, rfl, ready, rfl, rfl, rfl, rfl⟩

/-- The end of a validation does not look at the registry. -/
theorem step_finish_updateRegistry (t : Timeline) (index : Nat) (change : Registry → Registry) :
    (t.updateRegistry change).step (.finish index) =
      ((t.step (.finish index)).1.updateRegistry change, (t.step (.finish index)).2) := by
  simp only [step, finish, updateRegistry]
  cases t.running[index]?.bind fun r => r.outcome? t.engine.store with
  | none => rfl
  | some o => rfl

end Timeline

/-- **Permits are vouched for when they are read.** A permit that is installed at the end of a
validation was read in some step before, and approved in a later one, and the registry vouched for it
when it was read. It still does at the end if the registry was not changed since then. If it was, the
permit is installed all the same: whatever becomes of the registry, the end of the validation does to
the store, and reports, what it would do otherwise. -/
theorem vouched_when_read {t : Timeline} {actions : List Action} {last : Action}
    {wallet operator : Address} {hash : Hex} {nonce : Nat} (unread : ∀ index, t.IsUnread index)
    (consumed : .permitConsumed wallet operator hash nonce ∈ ((t.run actions).1.step last).2) :
    ∃ index p v before middle answered rest,
      last = .finish index ∧
      (t.run actions).1.running[index]? = some ⟨false, .ready p (some v)⟩ ∧
      p.op.sender = wallet ∧ p.operator = operator ∧ v.hash = hash ∧ v.nonce = nonce ∧
      actions = (before ++ .read index :: middle) ++ .answer index answered :: rest ∧
      (t.run before).1.engine.registry.Vouches wallet v answered ∧
      ((∀ a ∈ middle ++ rest, a.KeepsRegistry) →
        (t.run actions).1.engine.registry.Vouches wallet v answered) ∧
      ∀ change,
        ((t.run actions).1.updateRegistry change).step last =
          (((t.run actions).1.step last).1.updateRegistry change, ((t.run actions).1.step last).2) := by
  obtain ⟨index, p, v, rfl, ready, rfl, rfl, rfl, rfl⟩ := Timeline.ready_of_consumed consumed
  obtain ⟨before, middle, answered, rest, request, rfl, asked, -, approved, rfl⟩ :=
    Timeline.answered_of_ready (unread index) ready
  have vouches := Engine.vouches_of_request asked approved
  refine ⟨index, p, _, before, middle, answered, rest, rfl, ready, rfl, rfl, rfl, rfl, rfl, vouches,
    fun keep => ?_, Timeline.step_finish_updateRegistry _ index⟩
  have later : ∀ a ∈ .read index :: middle ++ .answer index answered :: rest, a.KeepsRegistry := by
    intro a ha
    rcases List.mem_append.1 ha with first | last
    · rcases List.mem_cons.1 first with rfl | first
      · trivial
      · exact keep a (List.mem_append_left rest first)
    · rcases List.mem_cons.1 last with rfl | last
      · trivial
      · exact keep a (List.mem_append_right middle last)
  rw [List.append_assoc, Timeline.run_append]
  simp only
  rw [Timeline.run_registry _ later]
  exact vouches

/-- The signer of a permit is disabled while it is asked. It answers, and the permit is installed, which
the registry vouched for before and does not vouch for any more. -/
theorem installed_after_disabled :
    let signer := Address.ofBytes (List.replicate 20 0x30)
    let grant : OperatorPermission := { OperatorPermission.empty with timesRemaining := 1 }
    let permit : Permit := ⟨Hex.ofBytes (List.replicate 20 0x30 ++ [1]), grant, []⟩
    let op : UserOperation := ⟨.zero, 0, .empty, .empty, 0, 0, 0, 0, 0, .empty, .empty⟩
    let p : PreparedOperation := ⟨op, .zero, true, [], some permit⟩
    let e : Engine := ⟨⟨.zero, .zero, .ofInt 1, .zero, none, none⟩, .empty,
      ({} : Registry).enable .zero signer .external .sudo⟩
    let t : Timeline := ⟨e, [⟨false, .prepared p⟩]⟩
    let actions : List Action := [.read 0, .disable .zero signer, .answer 0 (.ok true)]
    (∀ index, t.IsUnread index) ∧
      ∃ hash, .permitConsumed .zero .zero hash 0 ∈ ((t.run actions).1.step (.finish 0)).2 ∧
        ∃ v before middle answered rest, v.hash = hash ∧
          actions = (before ++ .read 0 :: middle) ++ .answer 0 answered :: rest ∧
          (t.run before).1.engine.registry.Vouches .zero v answered ∧
          ¬(t.run actions).1.engine.registry.Vouches .zero v answered := by
  intro signer grant permit op p e t actions
  obtain ⟨hash, hashed⟩ : ∃ hash, Store.empty.permitMessageHash (.ofInt 1) .zero .zero grant [] =
      .ok hash := by
    have written : (Store.empty.permitMessageHash (.ofInt 1) .zero .zero grant []).toOption.isSome =
        true := by
      decide +kernel
    cases encoded : Store.empty.permitMessageHash (.ofInt 1) .zero .zero grant [] with
    | ok hash => exact ⟨hash, rfl⟩
    | error f =>
      rw [encoded] at written
      cases written
  have split : splitPermitSignature (Hex.ofBytes (List.replicate 20 0x30 ++ [1])) =
      .ok ⟨Address.ofBytes (List.replicate 20 0x30), Hex.ofBytes [1]⟩ := rfl
  have nonce : Store.empty.permitNonce .zero .zero = 0 := by
    unfold Store.permitNonce Store.empty
    rw [Table.find?_empty]
    rfl
  have unused : Store.empty.isHashUsed .zero hash = false := by
    unfold Store.isHashUsed Store.empty
    rw [Table.find?_empty]
    rfl
  let v : VerifiedPermit := ⟨permit, hash, Store.empty.permitNonce .zero .zero⟩
  have ready : (t.run actions).1.running[0]? = some ⟨false, .ready p (some v)⟩ := by
    have known : e.registry.validator? signer = some .external := Table.find?_put_self _ _ _
    have rank : e.registry.class? .zero signer = some .sudo := Table.find?_put_self _ _ _
    let request : PermitRequest := ⟨permit, v.hash, v.nonce, signer, Hex.ofBytes [1], none⟩
    have asked : PermitRequest.ofPermit (.ofInt 1) .empty e.registry .zero .zero permit = .ok request :=
      PermitRequest.ofPermit_eq_ok.2
        ⟨hash, ⟨signer, Hex.ofBytes [1]⟩, .external, hashed, unused, split, known, rank, rfl⟩
    have requested : e.request p = .ok (some request) := by
      show (do
        return some (← PermitRequest.ofPermit (.ofInt 1) .empty e.registry .zero .zero permit)) = _
      rw [asked]
      rfl
    have read : Stage.read e (.prepared p) = .asking p request := by
      unfold Stage.read
      simp only
      rw [requested]
      rfl
    show some (Running.mk false ((Stage.read e (.prepared p)).answer (.ok true))) = _
    rw [read]
    rfl
  have settles : ∃ r, p.settle (some v) (t.run actions).1.engine.store = .ok r := by
    have granted : (v.installed .empty .zero .zero).permission .zero .zero = grant :=
      (v.inForce_installed .empty .zero .zero).1
    obtain ⟨s, paid⟩ : ∃ s, (v.installed .empty .zero .zero).consumeBudget .zero .zero op = .ok s := by
      rw [Store.exists_consumeBudget, granted]
      decide
    have always : ¬(⟨0, 0⟩ : ValidityWindow).IsEmpty := by decide
    have installed : v.install .empty .zero .zero = .ok (v.installed .empty .zero .zero) :=
      VerifiedPermit.install_eq_ok.2 ⟨rfl, unused, always, rfl⟩
    refine ⟨_, PreparedOperation.settle_eq_ok.2 ⟨_, s, installed, ?_, paid, rfl⟩⟩
    rw [show (v.installed .empty .zero .zero).permission p.op.sender p.operator = grant from granted]
    rfl
  have consumed : .permitConsumed .zero .zero hash 0 ∈ ((t.run actions).1.step (.finish 0)).2 := by
    obtain ⟨⟨s, window⟩, settled⟩ := settles
    rw [Timeline.step_finish_of_ready ready, PreparedOperation.finish_eq, settled, ← nonce]
    exact List.mem_singleton_self _
  have unread : ∀ index, t.IsUnread index := by
    intro index r h
    exact ⟨p, by rw [List.mem_singleton.1 (List.mem_of_getElem? h)]⟩
  refine ⟨unread, hash, consumed, ?_⟩
  obtain ⟨index, _, _, before, middle, answered, rest, ended, same, -, -, -, -, taken, vouches, -⟩ :=
    vouched_when_read unread consumed
  cases ended
  rw [ready] at same
  cases same
  refine ⟨v, before, middle, answered, rest, rfl, taken, vouches, ?_⟩
  rintro ⟨addressed, validator, named, -, enabled, -⟩
  rw [split, Except.ok.injEq] at named
  subst named
  have disabled : (t.run actions).1.engine.registry.class? .zero signer = none :=
    Table.find?_remove_self _ _
  rw [disabled] at enabled
  cases enabled

end SessionKeys
