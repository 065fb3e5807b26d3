import Mathlib.Data.List.Induction
import SessionKeys.Proofs.Steps

/-!
What has happened to a validation. A timeline tells where a validation stands, and the actions of a run
tell how it came there: which operation it was started with (`Timeline.submitted_of_running`), when its
permit was read (`Timeline.read_of_asking`), and when the signer of the permit answered
(`Timeline.answered_of_ready`). All three are by induction on the run from its end.
-/

namespace SessionKeys

namespace Timeline

/-! ### Longer runs -/

theorem run_append (t : Timeline) (first rest : List Action) :
    t.run (first ++ rest) =
      (((t.run first).1.run rest).1, (t.run first).2 ++ ((t.run first).1.run rest).2) := by
  induction first generalizing t with
  | nil => rfl
  | cons a more ih =>
    rw [List.cons_append, run, run]
    simp only [ih (t.step a).1, List.append_assoc]

/-- A run and one more step. -/
theorem run_concat (t : Timeline) (seen : List Action) (a : Action) :
    (t.run (seen ++ [a])).1 = ((t.run seen).1.step a).1 := by
  rw [run_append]
  rfl

/-! ### What a run does not change -/

theorem step_config (t : Timeline) (a : Action) : (t.step a).1.engine.config = t.engine.config := by
  cases a with
  | finish index =>
    rcases t.step_finish_cases index with idle | ⟨simulate, p, permit, -, ends⟩
    · rw [idle]
    · rw [ends]
      rfl
  | manage call =>
    rcases t.step_manage_cases call with idle | ⟨s, events, -, made⟩
    · rw [idle]
    · rw [made]
  | start | read | answer | enable | disable | setOwner => rfl

theorem run_config (t : Timeline) (actions : List Action) :
    (t.run actions).1.engine.config = t.engine.config :=
  run_induction (motive := fun t' => t'.engine.config = t.engine.config)
    (fun t' a same => (t'.step_config a).trans same) t actions rfl

end Timeline

/-- An action leaves the validators of wallets as they are. -/
def Action.KeepsRegistry : Action → Prop
  | .enable .. | .disable .. | .setOwner .. => False
  | _ => True

namespace Timeline

theorem step_registry (t : Timeline) {a : Action} (keeps : a.KeepsRegistry) :
    (t.step a).1.engine.registry = t.engine.registry := by
  cases a with
  | finish index =>
    rcases t.step_finish_cases index with idle | ⟨simulate, p, permit, -, ends⟩
    · rw [idle]
    · rw [ends]
      rfl
  | manage call =>
    rcases t.step_manage_cases call with idle | ⟨s, events, -, made⟩
    · rw [idle]
    · rw [made]
  | start | read | answer => rfl
  | enable | disable | setOwner => exact keeps.elim

theorem run_registry (t : Timeline) {actions : List Action} (keep : ∀ a ∈ actions, a.KeepsRegistry) :
    (t.run actions).1.engine.registry = t.engine.registry := by
  induction actions generalizing t with
  | nil => rfl
  | cons a rest ih =>
    have later := ih (t.step a).1 fun b hb => keep b (List.mem_cons_of_mem a hb)
    exact later.trans (t.step_registry (keep a List.mem_cons_self))

end Timeline

/-! ### Stages -/

namespace Stage

/-- The operation that a validation is about, until it has ended. -/
def operation? : Stage → Option PreparedOperation
  | .prepared p | .asking p _ | .ready p _ => some p
  | .done _ => none

theorem operation?_start {e : Engine} {op : UserOperation} {userOpHash : Hex} {p : PreparedOperation}
    (h : (start e op userOpHash).operation? = some p) : e.prepare op userOpHash = .ok p := by
  rcases start_cases e op userOpHash with ⟨f, ended⟩ | ⟨q, prepared, started⟩
  · rw [ended] at h
    cases h
  · rw [started] at h
    cases h
    exact prepared

theorem operation?_read {e : Engine} {stage : Stage} {p : PreparedOperation}
    (h : (stage.read e).operation? = some p) : stage.operation? = some p := by
  cases stage with
  | asking | ready | done => exact h
  | prepared q =>
    rcases read_prepared_cases e q with ⟨f, went⟩ | ⟨-, went⟩ | ⟨permit, request, -, -, went⟩
    · rw [went] at h
      cases h
    · rw [went] at h
      exact h
    · rw [went] at h
      exact h

theorem operation?_answer {approved : Except Failure Bool} {stage : Stage} {p : PreparedOperation}
    (h : (stage.answer approved).operation? = some p) : stage.operation? = some p := by
  cases stage with
  | prepared | ready | done => exact h
  | asking q request =>
    rcases answer_asking_cases approved q request with ⟨f, went⟩ | went
    · rw [went] at h
      cases h
    · rw [went] at h
      exact h

/-- A validation that has just started has not read its permit. -/
theorem start_unread (e : Engine) (op : UserOperation) (userOpHash : Hex) :
    (∀ p request, start e op userOpHash ≠ .asking p request) ∧
      ∀ p permit, start e op userOpHash ≠ .ready p permit := by
  rcases start_cases e op userOpHash with ⟨f, ended⟩ | ⟨q, -, started⟩
  · rw [ended]
    simp
  · rw [started]
    simp

/-- A validation asks about a permit from the step on in which the permit is read. -/
theorem asking_of_read {e : Engine} {stage : Stage} {p : PreparedOperation} {request : PermitRequest}
    (h : stage.read e = .asking p request) :
    stage = .asking p request ∨ e.request p = .ok (some request) := by
  cases stage with
  | asking | ready | done => exact .inl h
  | prepared q =>
    refine .inr ?_
    rcases read_prepared_cases e q with ⟨f, went⟩ | ⟨-, went⟩ | ⟨permit, r, carried, asked, went⟩
    · rw [went] at h
      cases h
    · rw [went] at h
      cases h
    · rw [went] at h
      cases h
      unfold Engine.request
      rw [carried]
      simp only [asked, ok_bind, pure_eq_ok]

/-- No answer makes a validation ask. -/
theorem asking_of_answer {approved : Except Failure Bool} {stage : Stage} {p : PreparedOperation}
    {request : PermitRequest} (h : stage.answer approved = .asking p request) : False := by
  cases stage with
  | prepared | ready | done => cases h
  | asking q r =>
    rcases answer_asking_cases approved q r with ⟨f, went⟩ | went
    · rw [went] at h
      cases h
    · rw [went] at h
      cases h

/-- An operation that is ready as soon as it is read carries no permit. -/
theorem ready_of_read {e : Engine} {stage : Stage} {p : PreparedOperation} {v : VerifiedPermit}
    (h : stage.read e = .ready p (some v)) : stage = .ready p (some v) := by
  cases stage with
  | asking | ready | done => exact h
  | prepared q =>
    rcases read_prepared_cases e q with ⟨f, went⟩ | ⟨-, went⟩ | ⟨permit, r, -, -, went⟩
    · rw [went] at h
      cases h
    · rw [went] at h
      cases h
    · rw [went] at h
      cases h

end Stage

/-- The signer of a permit approves it: it is known here that it does, or it answered so. -/
def PermitRequest.IsApproved (request : PermitRequest) (answered : Except Failure Bool) : Prop :=
  match request.answer with
  | some approved => approved = true
  | none => answered = .ok true

/-- What was asked about, as far as it is kept when it is approved. -/
def PermitRequest.verified (request : PermitRequest) : VerifiedPermit :=
  ⟨request.permit, request.hash, request.nonce⟩

/-- An operation that carries a permit is ready from the step on in which the signer approves. -/
theorem Stage.ready_of_answer {answered : Except Failure Bool} {stage : Stage} {p : PreparedOperation}
    {v : VerifiedPermit} (h : stage.answer answered = .ready p (some v)) :
    stage = .ready p (some v) ∨
      ∃ request, stage = .asking p request ∧ request.IsApproved answered ∧ v = request.verified := by
  cases stage with
  | prepared | ready | done => exact .inl h
  | asking q request =>
    have verifies : ∀ x : Except Failure Bool,
        Stage.orDone (do return Stage.ready q (some (← orFail (request.verify (← x))))) =
          .ready p (some v) → x = .ok true ∧ q = p ∧ v = request.verified := by
      intro x hx
      rcases x with f | _ | _
      · cases hx
      · cases hx
      · cases hx
        exact ⟨rfl, rfl, rfl⟩
    simp only [answer] at h
    cases known : request.answer with
    | none =>
      rw [known] at h
      obtain ⟨approved, rfl, same⟩ := verifies answered h
      refine .inr ⟨request, rfl, ?_, same⟩
      unfold PermitRequest.IsApproved
      rw [known]
      exact approved
    | some b =>
      rw [known] at h
      obtain ⟨approved, rfl, same⟩ := verifies (.ok b) h
      refine .inr ⟨request, rfl, ?_, same⟩
      unfold PermitRequest.IsApproved
      rw [known]
      exact Except.ok.inj approved

/-! ### Starts -/

/-- What a validation is started with. -/
structure Submission where
  op : UserOperation
  userOpHash : Hex
  simulate : Bool

def Action.submission? : Action → Option Submission
  | .start op userOpHash simulate => some ⟨op, userOpHash, simulate⟩
  | _ => none

namespace Timeline

/-- There are as many validations as were started. -/
theorem length_running_step (t : Timeline) (a : Action) :
    (t.step a).1.running.length = t.running.length + a.submission?.toList.length := by
  cases a with
  | start op userOpHash simulate => exact List.length_append
  | read index | answer index approved => exact List.length_modify _ _ _
  | finish index =>
    rcases t.step_finish_cases index with idle | ⟨simulate, p, permit, -, ends⟩
    · rw [idle]
      rfl
    · rw [ends]
      exact List.length_modify _ _ _
  | manage call =>
    rcases t.step_manage_cases call with idle | ⟨s, events, -, made⟩
    · rw [idle]
      rfl
    · rw [made]
      rfl
  | enable | disable | setOwner => rfl

theorem length_running_run (e : Engine) (actions : List Action) :
    ((ofEngine e).run actions).1.running.length = (actions.filterMap Action.submission?).length := by
  induction actions using List.reverseRecOn with
  | nil => rfl
  | append_singleton seen a ih =>
    have one : [a].filterMap Action.submission? = a.submission?.toList := by
      rw [List.filterMap_cons]
      cases a.submission? with
      | none => rfl
      | some submitted => rfl
    rw [run_concat, length_running_step, ih, List.filterMap_append, List.length_append, one]

/-- A validation that is started is placed behind all that were started before. -/
theorem index_of_starts {e : Engine} {seen : List Action} {index : Nat} {op : UserOperation}
    {userOpHash : Hex} {simulate : Bool} {r : Running}
    (before : ((ofEngine e).run seen).1.running[index]? = none)
    (after : (((ofEngine e).run seen).1.step (.start op userOpHash simulate)).1.running[index]? = some r) :
    index = (seen.filterMap Action.submission?).length := by
  have inside := (List.getElem?_eq_some_iff.1 after).1
  have beyond := List.getElem?_eq_none_iff.1 before
  rw [length_running_step] at inside
  rw [← length_running_run e seen]
  simp only [Action.submission?, Option.toList_some, List.length_singleton] at inside
  omega

/-- A validation is about the operation that it was started with. -/
theorem submitted_of_running {e : Engine} {actions : List Action} {index : Nat} {r : Running}
    (h : ((ofEngine e).run actions).1.running[index]? = some r) :
    ∃ submitted, (actions.filterMap Action.submission?)[index]? = some submitted ∧
      r.simulate = submitted.simulate ∧
      ∀ p, r.stage.operation? = some p → e.prepare submitted.op submitted.userOpHash = .ok p := by
  induction actions using List.reverseRecOn generalizing r with
  | nil => cases h
  | append_singleton seen a ih =>
    have earlier : ∀ r₀ : Running, ((ofEngine e).run seen).1.running[index]? = some r₀ →
        r.simulate = r₀.simulate → (∀ p, r.stage.operation? = some p → r₀.stage.operation? = some p) →
        ∃ submitted, ((seen ++ [a]).filterMap Action.submission?)[index]? = some submitted ∧
          r.simulate = submitted.simulate ∧
          ∀ p, r.stage.operation? = some p →
            e.prepare submitted.op submitted.userOpHash = .ok p := by
      intro r₀ before same keeps
      obtain ⟨submitted, found, simulate, prepared⟩ := ih before
      refine ⟨submitted, ?_, same.trans simulate, fun p hp => prepared p (keeps p hp)⟩
      rw [List.filterMap_append]
      exact List.getElem?_append_left (List.getElem?_eq_some_iff.1 found).1 ▸ found
    rw [run_concat] at h
    cases step_running h with
    | stays before => exact earlier r before rfl fun p hp => hp
    | reads taken before => exact earlier _ before rfl fun p hp => Stage.operation?_read hp
    | hears taken before => exact earlier _ before rfl fun p hp => Stage.operation?_answer hp
    | finishes taken before => exact earlier _ before rfl fun p hp => by cases hp
    | @starts op userOpHash simulate taken before =>
      subst taken
      have last := index_of_starts before h
      refine ⟨⟨op, userOpHash, simulate⟩, ?_, rfl, fun p hp => ?_⟩
      · rw [List.filterMap_append, last]
        exact List.getElem?_concat_length
      · have prepared := Stage.operation?_start hp
        unfold Engine.prepare at prepared ⊢
        rw [run_config] at prepared
        exact prepared

/-- An operation that is ready was submitted in the run. -/
theorem exists_start_of_ready {e : Engine} {actions : List Action} {index : Nat} {simulate : Bool}
    {p : PreparedOperation} {permit : Option VerifiedPermit}
    (ready : ((ofEngine e).run actions).1.running[index]? = some ⟨simulate, .ready p permit⟩) :
    ∃ userOpHash simulate, .start p.op userOpHash simulate ∈ actions := by
  obtain ⟨submitted, found, -, prepared⟩ := submitted_of_running ready
  obtain ⟨_, _, _, -, -, -, -, -, rfl⟩ := PreparedOperation.ofOperation_eq_ok.1 (prepared p rfl)
  obtain ⟨a, ha, submits⟩ := List.mem_filterMap.1 (List.mem_of_getElem? found)
  cases a with
  | start op userOpHash simulate =>
    cases submits
    exact ⟨userOpHash, simulate, ha⟩
  | read | answer | finish | manage | enable | disable | setOwner => cases submits

/-! ### Permits -/

/-- The permit of a validation was not read yet: the validation was not started, or just started. -/
def IsUnread (t : Timeline) (index : Nat) : Prop :=
  ∀ r, t.running[index]? = some r → ∃ p, r.stage = .prepared p

theorem isUnread_ofEngine (e : Engine) (index : Nat) : (ofEngine e).IsUnread index := by
  intro r h
  cases h

variable {t : Timeline} {actions : List Action} {index : Nat} {simulate : Bool}
  {p : PreparedOperation}

/-- A permit that is asked about was read in some step of the run. -/
theorem read_of_asking (unread : t.IsUnread index) {request : PermitRequest}
    (h : (t.run actions).1.running[index]? = some ⟨simulate, .asking p request⟩) :
    ∃ before middle, actions = before ++ .read index :: middle ∧
      (t.run before).1.engine.request p = .ok (some request) := by
  induction actions using List.reverseRecOn with
  | nil =>
    obtain ⟨q, prepared⟩ := unread _ h
    cases prepared
  | append_singleton seen a ih =>
    have earlier : (t.run seen).1.running[index]? = some ⟨simulate, .asking p request⟩ →
        ∃ before middle, seen ++ [a] = before ++ .read index :: middle ∧
          (t.run before).1.engine.request p = .ok (some request) := by
      intro asking
      obtain ⟨before, middle, rfl, asked⟩ := ih asking
      exact ⟨before, middle ++ [a], by simp, asked⟩
    rw [run_concat] at h
    generalize went : (⟨simulate, .asking p request⟩ : Running) = r at h
    cases step_running h with
    | stays before => exact earlier (went ▸ before)
    | @starts op userOpHash _ taken before =>
      exact absurd (Running.mk.inj went).2.symm ((Stage.start_unread _ op userOpHash).1 p request)
    | @reads r₀ taken before =>
      obtain ⟨rfl, stage⟩ := Running.mk.inj went
      rcases Stage.asking_of_read stage.symm with same | asked
      · exact earlier (same ▸ before)
      · exact ⟨seen, [], by rw [taken], asked⟩
    | hears taken before => exact (Stage.asking_of_answer (Running.mk.inj went).2.symm).elim
    | finishes taken before => cases went

/-- A permit that is ready to be installed was read in some step of the run, and its signer approved
it in a later one, when the validation was still asking. -/
theorem answered_of_ready (unread : t.IsUnread index) {v : VerifiedPermit}
    (h : (t.run actions).1.running[index]? = some ⟨simulate, .ready p (some v)⟩) :
    ∃ before middle answered rest request,
      actions = (before ++ .read index :: middle) ++ .answer index answered :: rest ∧
      (t.run before).1.engine.request p = .ok (some request) ∧
      (t.run (before ++ .read index :: middle)).1.running[index]? =
        some ⟨simulate, .asking p request⟩ ∧
      request.IsApproved answered ∧ v = request.verified := by
  induction actions using List.reverseRecOn with
  | nil =>
    obtain ⟨q, prepared⟩ := unread _ h
    cases prepared
  | append_singleton seen a ih =>
    have earlier : (t.run seen).1.running[index]? = some ⟨simulate, .ready p (some v)⟩ →
        ∃ before middle answered rest request,
          seen ++ [a] = (before ++ .read index :: middle) ++ .answer index answered :: rest ∧
          (t.run before).1.engine.request p = .ok (some request) ∧
          (t.run (before ++ .read index :: middle)).1.running[index]? =
            some ⟨simulate, .asking p request⟩ ∧
          request.IsApproved answered ∧ v = request.verified := by
      intro ready
      obtain ⟨before, middle, answered, rest, request, rfl, found⟩ := ih ready
      exact ⟨before, middle, answered, rest ++ [a], request, by simp, found⟩
    rw [run_concat] at h
    generalize went : (⟨simulate, .ready p (some v)⟩ : Running) = r at h
    cases step_running h with
    | stays before => exact earlier (went ▸ before)
    | @starts op userOpHash _ taken before =>
      exact absurd (Running.mk.inj went).2.symm ((Stage.start_unread _ op userOpHash).2 p (some v))
    | @reads r₀ taken before =>
      obtain ⟨rfl, stage⟩ := Running.mk.inj went
      exact earlier (Stage.ready_of_read stage.symm ▸ before)
    | @hears r₀ answered taken before =>
      obtain ⟨rfl, stage⟩ := Running.mk.inj went
      rcases Stage.ready_of_answer stage.symm with same | ⟨request, same, approved, verified⟩
      · exact earlier (same ▸ before)
      · have asking : (t.run seen).1.running[index]? = some ⟨r₀.simulate, .asking p request⟩ :=
          same ▸ before
        obtain ⟨start, middle, rfl, asked⟩ := read_of_asking unread asking
        exact ⟨start, middle, answered, [], request, by rw [taken], asked, asking, approved, verified⟩
    | finishes taken before => cases went

end Timeline

end SessionKeys
