import SessionKeys.Proofs.Acceptance
import SessionKeys.Proofs.Steps

/-!
What a run commits. Of all that happens in a run only two things can change a store: a change of the
owner, and the end of a validation that accepts its operation and is no dry run
(`Timeline.step_effect`). Everything else leaves the store as it is and reports nothing.
-/

namespace SessionKeys

/-- An operation that was carried out, and the permit that was installed for it. -/
abbrev Accepted := PreparedOperation × Option VerifiedPermit

namespace Timeline

/-- The operation that a step carries out, if the step ends a validation that accepts it and is no dry
run. -/
def accepted? (t : Timeline) : Action → Option Accepted
  | .finish index =>
    match t.running[index]? with
    | some ⟨false, .ready p permit⟩ =>
      match (p.finish permit false t.engine.store).result with
      | .ok data => if data.failed then none else some (p, permit)
      | .error _ => none
    | _ => none
  | _ => none

/-- The operations that a run carries out, in the order of the ends of their validations. -/
def accepted : (t : Timeline) → List Action → List Accepted
  | _, [] => []
  | t, a :: rest => (t.accepted? a).toList ++ (t.step a).1.accepted rest

/-- An operation is carried out if its validation is ready and no dry run, its operator signed it, and
it can be settled. -/
theorem accepted?_eq_some {t : Timeline} {a : Action} {p : PreparedOperation}
    {permit : Option VerifiedPermit} :
    t.accepted? a = some (p, permit) ↔
      ∃ index, a = .finish index ∧ t.running[index]? = some ⟨false, .ready p permit⟩ ∧
        p.signatureValid = true ∧ ∃ r, p.settle permit t.engine.store = .ok r := by
  have accepts := @PreparedOperation.accepts_iff_settles p permit false t.engine.store
  rw [← accepts]
  constructor
  · intro h
    cases a with
    | start | read | answer | manage | enable | disable | setOwner => cases h
    | finish index =>
      unfold accepted? at h
      simp only at h
      split at h
      next q granted ready =>
        split at h
        next data result =>
          split at h
          next => cases h
          next kept =>
            cases h
            exact ⟨index, rfl, ready, data, result, by simpa using kept⟩
        next => cases h
      next => cases h
  · rintro ⟨index, rfl, ready, data, result, kept⟩
    unfold accepted?
    simp only [ready, result, kept, Bool.false_eq_true, if_false]

/-- What a step does to the store, and the events that report it. -/
inductive Effect (t : Timeline) : Action → Store → List Event → Prop
  /-- nothing is committed -/
  | idle {a : Action} (none : t.accepted? a = none) (noCall : ∀ call, a ≠ .manage call) :
      Effect t a t.engine.store []
  /-- a change of the owner is refused -/
  | refuses {call : ManagementCall} {refusal : Refusal}
      (refused : call.apply t.engine.store = .error refusal) :
      Effect t (.manage call) t.engine.store []
  | manages {call : ManagementCall} {s : Store} {events : List Event}
      (applied : call.apply t.engine.store = .ok (s, events)) : Effect t (.manage call) s events
  /-- an operation is carried out -/
  | accepts {index : Nat} {p : PreparedOperation} {permit : Option VerifiedPermit} {s : Store}
      {window : ValidityWindow} (ready : t.running[index]? = some ⟨false, .ready p permit⟩)
      (accepted : t.accepted? (.finish index) = some (p, permit))
      (settled : p.settle permit t.engine.store = .ok (s, window)) :
      Effect t (.finish index) s (p.permitEvents permit)

theorem step_effect (t : Timeline) (a : Action) :
    t.Effect a (t.step a).1.engine.store (t.step a).2 := by
  cases a with
  | start | read | answer | enable | disable | setOwner => exact .idle rfl (by simp)
  | manage call =>
    cases applied : call.apply t.engine.store with
    | error refusal =>
      simp only [step, Engine.manage, applied]
      exact .refuses applied
    | ok x =>
      simp only [step, Engine.manage, applied]
      exact .manages applied
  | finish index =>
    cases committed : t.accepted? (.finish index) with
    | some x =>
      obtain ⟨p, permit⟩ := x
      obtain ⟨_, taken, ready, signed, ⟨s, window⟩, settled⟩ := accepted?_eq_some.1 committed
      cases taken
      rw [step_finish_of_ready ready, PreparedOperation.finish_eq, settled]
      simp only [signed, Bool.true_eq_false, if_false]
      exact .accepts ready committed settled
    | none =>
      rcases t.step_finish_cases index with idle | ⟨simulate, p, permit, ready, ends⟩
      · rw [idle]
        exact .idle committed (by simp)
      · rw [ends, PreparedOperation.finish_eq]
        cases settled : p.settle permit t.engine.store with
        | error f => exact .idle committed (by simp)
        | ok x =>
          simp only
          cases signed : p.signatureValid with
          | false => exact .idle committed (by simp)
          | true =>
            cases simulate with
            | true => exact .idle committed (by simp)
            | false =>
              have accepted := accepted?_eq_some.2 ⟨index, rfl, ready, signed, x, settled⟩
              rw [committed] at accepted
              cases accepted

/-- An operation that is carried out in a run is carried out in one of its steps. -/
theorem exists_step_of_accepted {t : Timeline} {actions : List Action} {x : Accepted} (hx : x ∈ t.accepted actions) :
    ∃ before a rest, actions = before ++ a :: rest ∧ (t.run before).1.accepted? a = some x := by
  induction actions generalizing t with
  | nil => cases hx
  | cons a rest ih =>
    rcases List.mem_append.1 hx with now | later
    · exact ⟨[], a, rest, rfl, Option.mem_toList.1 now⟩
    · obtain ⟨before, b, after, rfl, accepted⟩ := ih later
      exact ⟨a :: before, b, after, rfl, accepted⟩

/-- An operation that is carried out was ready, and the step is that of its settlement. -/
theorem settled_of_accepted {t : Timeline} {a : Action} {p : PreparedOperation}
    {permit : Option VerifiedPermit} (accepted : t.accepted? a = some (p, permit)) :
    (∃ index : Nat, t.running[index]? = some ⟨false, .ready p permit⟩) ∧
      (∃ window, p.settle permit t.engine.store = .ok ((t.step a).1.engine.store, window)) ∧
      (t.step a).2 = p.permitEvents permit := by
  have effect := t.step_effect a
  generalize (t.step a).1.engine.store = s, (t.step a).2 = events at effect ⊢
  cases effect with
  | idle none =>
    rw [none] at accepted
    cases accepted
  | refuses | manages => cases accepted
  | @accepts index _ _ _ window ready same settled =>
    rw [same, Option.some.injEq, Prod.mk.injEq] at accepted
    obtain ⟨rfl, rfl⟩ := accepted
    exact ⟨⟨index, ready⟩, ⟨window, settled⟩, rfl⟩

/-- A step that neither carries out an operation nor changes anything for the owner does nothing. -/
theorem step_of_not_accepted {t : Timeline} {a : Action} (none : t.accepted? a = none)
    (noCall : ∀ call, a ≠ .manage call) :
    (t.step a).1.engine.store = t.engine.store ∧ (t.step a).2 = [] := by
  have effect := t.step_effect a
  generalize (t.step a).1.engine.store = s, (t.step a).2 = events at effect ⊢
  cases effect with
  | idle => exact ⟨rfl, rfl⟩
  | refuses | manages => exact absurd rfl (noCall _)
  | accepts _ accepted =>
    rw [none] at accepted
    cases accepted

end Timeline

end SessionKeys
