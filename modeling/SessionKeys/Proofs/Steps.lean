import SessionKeys.Proofs.Preparation
import SessionKeys.Proofs.Settlement
import SessionKeys.Timeline

/-!
What one step of a timeline can do. To the store it does nothing, or a change of the owner, or the
settlement of one operation (`Timeline.step_store`); one validation stays where it is, or starts, or
goes on by one stage (`Timeline.step_running`). What holds in every run is derived from these two.
-/

namespace SessionKeys

/-! ### The store -/

/-- What a step may do to a store, and the events that report it. -/
inductive Store.Step : Store → Store → List Event → Prop
  | idle (s : Store) : Step s s []
  /-- the owner of a wallet makes a change -/
  | manages {s s' : Store} {events : List Event} (call : ManagementCall)
      (applied : call.apply s = .ok (s', events)) : Step s s' events
  /-- an operation is carried out -/
  | settles {s s' : Store} {window : ValidityWindow} (p : PreparedOperation)
      (permit : Option VerifiedPermit) (settled : p.settle permit s = .ok (s', window)) :
      Step s s' (p.permitEvents permit)

theorem PreparedOperation.finish_store (p : PreparedOperation) (permit : Option VerifiedPermit)
    (simulate : Bool) (s : Store) :
    Store.Step s (p.finish permit simulate s).store (p.finish permit simulate s).events := by
  rw [finish_eq]
  cases hs : p.settle permit s with
  | error f => exact .idle s
  | ok x =>
    obtain ⟨s', w⟩ := x
    simp only
    split
    · exact .idle s
    · split
      · exact .idle s
      · exact .settles p permit hs

namespace Timeline

@[simp] theorem advance_engine (t : Timeline) (index : Nat) (change : Stage → Stage) :
    (t.advance index change).engine = t.engine := rfl

/-- How a validation that is ready ends. -/
theorem step_finish_of_ready {t : Timeline} {index : Nat} {simulate : Bool} {p : PreparedOperation}
    {permit : Option VerifiedPermit} (h : t.running[index]? = some ⟨simulate, .ready p permit⟩) :
    t.step (.finish index) =
      ({ t with
          engine := { t.engine with store := (p.finish permit simulate t.engine.store).store } }.advance
          index fun _ => .done (p.finish permit simulate t.engine.store).result,
        (p.finish permit simulate t.engine.store).events) := by
  simp only [step, finish, h]
  rfl

/-- Only a validation that is ready can end. -/
theorem step_finish_cases (t : Timeline) (index : Nat) :
    t.step (.finish index) = (t, []) ∨
      ∃ simulate p permit, t.running[index]? = some ⟨simulate, .ready p permit⟩ ∧
        t.step (.finish index) =
          ({ t with
              engine := { t.engine with store := (p.finish permit simulate t.engine.store).store } }.advance
              index fun _ => .done (p.finish permit simulate t.engine.store).result,
            (p.finish permit simulate t.engine.store).events) := by
  rcases before : t.running[index]? with _ | ⟨simulate, stage⟩
  · exact .inl (by simp only [step, finish, before]; rfl)
  · cases stage with
    | prepared p => exact .inl (by simp only [step, finish, before]; rfl)
    | asking p request => exact .inl (by simp only [step, finish, before]; rfl)
    | done result => exact .inl (by simp only [step, finish, before]; rfl)
    | ready p permit => exact .inr ⟨simulate, p, permit, rfl, step_finish_of_ready before⟩

/-- A change of the owner is refused or made. -/
theorem step_manage_cases (t : Timeline) (call : ManagementCall) :
    t.step (.manage call) = (t, []) ∨
      ∃ s events, call.apply t.engine.store = .ok (s, events) ∧
        t.step (.manage call) = ({ t with engine := { t.engine with store := s } }, events) := by
  simp only [step, Engine.manage]
  cases call.apply t.engine.store with
  | error f => exact .inl rfl
  | ok x => exact .inr ⟨x.1, x.2, rfl, rfl⟩

/-- A step does one thing to the store, and its events report that. -/
theorem step_store (t : Timeline) (a : Action) :
    Store.Step t.engine.store (t.step a).1.engine.store (t.step a).2 := by
  cases a with
  | start op userOpHash simulate => exact .idle _
  | read index => exact .idle _
  | answer index approved => exact .idle _
  | finish index =>
    rcases t.step_finish_cases index with idle | ⟨simulate, p, permit, -, ends⟩
    · rw [idle]
      exact .idle _
    · rw [ends]
      exact p.finish_store permit simulate t.engine.store
  | manage call =>
    rcases t.step_manage_cases call with idle | ⟨s, events, applied, made⟩
    · rw [idle]
      exact .idle _
    · rw [made]
      exact .manages call applied
  | enable wallet address v c => exact .idle _
  | disable wallet address => exact .idle _
  | setOwner address wallet owner => exact .idle _

/-! ### The stages -/

end Timeline

namespace Stage

theorem start_cases (e : Engine) (op : UserOperation) (userOpHash : Hex) :
    (∃ f, start e op userOpHash = .done (.error f)) ∨
      ∃ p, e.prepare op userOpHash = .ok p ∧ start e op userOpHash = .prepared p := by
  unfold start
  cases e.prepare op userOpHash with
  | error f => exact .inl ⟨f, rfl⟩
  | ok p => exact .inr ⟨p, rfl, rfl⟩

/-- An operation that was read is ready if it carries no permit. -/
theorem read_prepared_cases (e : Engine) (p : PreparedOperation) :
    (∃ f, read e (.prepared p) = .done (.error f)) ∨
      (p.permit = none ∧ read e (.prepared p) = .ready p none) ∨
      ∃ permit request, p.permit = some permit ∧
        PermitRequest.ofPermit e.config.chainId e.store e.registry p.op.sender p.operator permit =
          .ok request ∧
        read e (.prepared p) = .asking p request := by
  simp only [read, Engine.request]
  cases p.permit with
  | none => exact .inr (.inl ⟨rfl, rfl⟩)
  | some permit =>
    simp only
    cases asked : PermitRequest.ofPermit e.config.chainId e.store e.registry p.op.sender p.operator
        permit with
    | error f => exact .inl ⟨f, rfl⟩
    | ok request => exact .inr (.inr ⟨permit, request, rfl, asked, rfl⟩)

/-- A validation that asks goes on with the permit that it asks about. -/
theorem answer_asking_cases (approved : Except Failure Bool) (p : PreparedOperation)
    (request : PermitRequest) :
    (∃ f, answer approved (.asking p request) = .done (.error f)) ∨
      answer approved (.asking p request) =
        .ready p (some ⟨request.permit, request.hash, request.nonce⟩) := by
  have verifies : ∀ x : Except Failure Bool,
      (∃ f, Stage.orDone (do return Stage.ready p (some (← orFail (request.verify (← x))))) =
        .done (.error f)) ∨
      Stage.orDone (do return Stage.ready p (some (← orFail (request.verify (← x))))) =
        .ready p (some ⟨request.permit, request.hash, request.nonce⟩) := by
    intro x
    rcases x with f | _ | _
    · exact .inl ⟨f, rfl⟩
    · exact .inl ⟨_, rfl⟩
    · exact .inr rfl
  simp only [answer]
  cases request.answer with
  | none => exact verifies approved
  | some b => exact verifies (.ok b)

end Stage

namespace Timeline

/-! ### The validations -/

/-- What a step makes of the validation that was started at some place. -/
inductive Moves (t : Timeline) (a : Action) (index : Nat) : Running → Prop
  | stays {r : Running} (before : t.running[index]? = some r) : Moves t a index r
  | starts {op : UserOperation} {userOpHash : Hex} {simulate : Bool}
      (taken : a = .start op userOpHash simulate) (before : t.running[index]? = none) :
      Moves t a index ⟨simulate, .start t.engine op userOpHash⟩
  | reads {r : Running} (taken : a = .read index) (before : t.running[index]? = some r) :
      Moves t a index ⟨r.simulate, r.stage.read t.engine⟩
  | hears {r : Running} {approved : Except Failure Bool} (taken : a = .answer index approved)
      (before : t.running[index]? = some r) : Moves t a index ⟨r.simulate, r.stage.answer approved⟩
  | finishes {simulate : Bool} {p : PreparedOperation} {permit : Option VerifiedPermit}
      (taken : a = .finish index) (before : t.running[index]? = some ⟨simulate, .ready p permit⟩) :
      Moves t a index ⟨simulate, .done (p.finish permit simulate t.engine.store).result⟩

/-- Only the validation at the place that is meant is changed. -/
theorem advance_running {t : Timeline} {index other : Nat} {change : Stage → Stage} {r : Running}
    (after : (t.advance index change).running[other]? = some r) :
    (other ≠ index ∧ t.running[other]? = some r) ∨
      (other = index ∧ ∃ r₀, t.running[index]? = some r₀ ∧ r = ⟨r₀.simulate, change r₀.stage⟩) := by
  unfold advance at after
  rw [List.getElem?_modify, Option.map_eq_map, Option.map_eq_some_iff] at after
  obtain ⟨r₀, before, rfl⟩ := after
  by_cases same : index = other
  · subst same
    exact .inr ⟨rfl, r₀, before, by simp⟩
  · exact .inl ⟨Ne.symm same, by simp [same, before]⟩

/-- A step leaves a validation as it is, or starts it, or takes it on by one stage. -/
theorem step_running {t : Timeline} {a : Action} {index : Nat} {r : Running}
    (after : (t.step a).1.running[index]? = some r) : t.Moves a index r := by
  cases a with
  | start op userOpHash simulate =>
    unfold step at after
    simp only [List.getElem?_append] at after
    split at after
    · exact .stays after
    next beyond =>
      simp only [List.getElem?_singleton] at after
      split at after
      · cases after
        exact .starts rfl (List.getElem?_eq_none (by omega))
      · cases after
  | read place =>
    rcases advance_running after with ⟨-, before⟩ | ⟨rfl, r₀, before, rfl⟩
    · exact .stays before
    · exact .reads rfl before
  | answer place approved =>
    rcases advance_running after with ⟨-, before⟩ | ⟨rfl, r₀, before, rfl⟩
    · exact .stays before
    · exact .hears rfl before
  | finish place =>
    rcases t.step_finish_cases place with idle | ⟨simulate, p, permit, ready, ends⟩
    · rw [idle] at after
      exact .stays after
    · rw [ends] at after
      rcases advance_running after with ⟨-, before⟩ | ⟨rfl, r₀, before, rfl⟩
      · exact .stays before
      · rw [show t.running[index]? = some r₀ from before] at ready
        cases ready
        exact .finishes rfl before
  | manage call =>
    rcases t.step_manage_cases call with idle | ⟨s, events, -, made⟩
    · rw [idle] at after
      exact .stays after
    · rw [made] at after
      exact .stays after
  | enable wallet address v c => exact .stays after
  | disable wallet address => exact .stays after
  | setOwner address wallet owner => exact .stays after

/-! ### Runs -/

/-- What holds at first and is kept by every step holds after every run. -/
theorem run_induction {motive : Timeline → Prop} (steps : ∀ t a, motive t → motive (t.step a).1)
    (t : Timeline) (actions : List Action) (start : motive t) : motive (t.run actions).1 := by
  induction actions generalizing t with
  | nil => exact start
  | cons a rest ih => exact ih (t.step a).1 (steps t a start)

end Timeline

end SessionKeys
