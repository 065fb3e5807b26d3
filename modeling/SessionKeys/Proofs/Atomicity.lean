import SessionKeys.Proofs.Preparation
import SessionKeys.Proofs.Steps

/-!
A validation does all of its work or none. Whatever is written on the way, an operation that is
refused, or that its operator did not sign, leaves every table as it was, and so does a dry run; an
operation that is accepted reports nothing but the permit that it carries. Main statement:
`validation_atomic`, for validations in one step and for validations that run side by side.
-/

namespace SessionKeys

/-- A result by which an operation is not accepted: a failure, or that of a signature that does not
verify. -/
def Rejects (result : Except Failure ValidationData) : Prop :=
  ∀ d, result = .ok d → d.failed = true

theorem rejects_error (f : Failure) : Rejects (.error f) := by
  intro d h
  cases h

theorem not_rejects_valid (w : ValidityWindow) : ¬Rejects (.ok (.valid w)) := by
  intro h
  cases h _ rfl

/-! ### The end of a validation -/

/-- What a permit that is installed for an operation is: the one that the operation carries. -/
def PreparedOperation.Carries (p : PreparedOperation) (permit : Option VerifiedPermit) : Prop :=
  permit.map (·.permit) = p.permit

/-- The events of an operation that is accepted: one use of a permit, if it carries one. -/
def PreparedOperation.Reports (p : PreparedOperation) (events : List Event) : Prop :=
  match p.permit with
  | none => events = []
  | some _ => ∃ hash nonce, events = [.permitConsumed p.op.sender p.operator hash nonce]

theorem PreparedOperation.Carries.reports {p : PreparedOperation} {permit : Option VerifiedPermit}
    (h : p.Carries permit) : p.Reports (p.permitEvents permit) := by
  unfold Carries at h
  unfold Reports
  rw [← h]
  cases permit with
  | none => rfl
  | some v => exact ⟨v.hash, v.nonce, rfl⟩

/-- A validation that ends without accepting, or that is a dry run, leaves nothing behind. -/
theorem PreparedOperation.finish_unchanged {p : PreparedOperation} {permit : Option VerifiedPermit}
    {simulate : Bool} {s : Store}
    (h : simulate = true ∨ Rejects (p.finish permit simulate s).result) :
    (p.finish permit simulate s).store = s ∧ (p.finish permit simulate s).events = [] := by
  rw [finish_eq] at h ⊢
  cases hs : p.settle permit s with
  | error f => exact ⟨rfl, rfl⟩
  | ok x =>
    obtain ⟨s', w⟩ := x
    rw [hs] at h
    simp only at h ⊢
    by_cases signed : p.signatureValid = false
    · rw [if_pos signed]
      exact ⟨rfl, rfl⟩
    · rw [if_neg signed] at h ⊢
      cases simulate with
      | true => exact ⟨rfl, rfl⟩
      | false =>
        rcases h with dry | rejects
        · cases dry
        · exact absurd rejects (not_rejects_valid w)

/-- A validation that accepts reports the permit that it installs. -/
theorem PreparedOperation.finish_events {p : PreparedOperation} {permit : Option VerifiedPermit}
    {s : Store} (h : ¬Rejects (p.finish permit false s).result) :
    (p.finish permit false s).events = p.permitEvents permit := by
  rw [finish_eq] at h ⊢
  cases hs : p.settle permit s with
  | error f =>
    rw [hs] at h
    exact absurd (rejects_error f) h
  | ok x =>
    obtain ⟨s', w⟩ := x
    rw [hs] at h
    simp only at h ⊢
    by_cases signed : p.signatureValid = false
    · rw [if_pos signed] at h
      refine absurd ?_ h
      rintro d ⟨⟩
      rfl
    · rw [if_neg signed]
      rfl

/-! ### Permits along a validation -/

theorem Engine.carries_of_verifiedPermit {e : Engine} {outside : Outside} {p : PreparedOperation}
    {permit : Option VerifiedPermit} (h : e.verifiedPermit outside p = .ok permit) :
    p.Carries permit := by
  have verified := Engine.verifiedPermit_eq_ok.1 h
  unfold PreparedOperation.Carries
  cases hp : p.permit with
  | none =>
    rw [hp] at verified
    simp only at verified
    subst verified
    rfl
  | some grant =>
    rw [hp] at verified
    obtain ⟨request, -, -, rfl⟩ := verified
    rfl

/-- A validation asks about the permit that its operation carries, and installs that one. -/
def Stage.Carries : Stage → Prop
  | .prepared _ => True
  | .asking p request => p.permit = some request.permit
  | .ready p permit => p.Carries permit
  | .done _ => True

theorem Stage.carries_start (e : Engine) (op : UserOperation) (userOpHash : Hex) :
    (Stage.start e op userOpHash).Carries := by
  rcases start_cases e op userOpHash with ⟨f, h⟩ | ⟨p, -, h⟩
  · rw [h]
    trivial
  · rw [h]
    trivial

theorem Stage.Carries.read {stage : Stage} (e : Engine) (h : stage.Carries) :
    (stage.read e).Carries := by
  cases stage with
  | asking p request => exact h
  | ready p permit => exact h
  | done result => exact h
  | prepared p =>
    rcases read_prepared_cases e p with ⟨f, hr⟩ | ⟨none, hr⟩ | ⟨permit, request, some, asked, hr⟩
    · rw [hr]
      trivial
    · rw [hr]
      exact none.symm
    · rw [hr]
      obtain ⟨_, _, _, _, _, _, _, _, rfl⟩ := PermitRequest.ofPermit_eq_ok.1 asked
      exact some

theorem Stage.Carries.answer {stage : Stage} (approved : Except Failure Bool) (h : stage.Carries) :
    (stage.answer approved).Carries := by
  cases stage with
  | prepared p => exact h
  | ready p permit => exact h
  | done result => exact h
  | asking p request =>
    rcases answer_asking_cases approved p request with ⟨f, ha⟩ | ha
    · rw [ha]
      trivial
    · rw [ha]
      exact Eq.symm h

/-- In every run each validation goes on with the permit that its operation carries. -/
theorem Timeline.carries_run (e : Engine) (actions : List Action) {index : Nat} {r : Running}
    (h : ((Timeline.ofEngine e).run actions).1.running[index]? = some r) : r.stage.Carries := by
  have always : ∀ (place : Nat) (r : Running),
      ((Timeline.ofEngine e).run actions).1.running[place]? = some r → r.stage.Carries := by
    refine run_induction
      (motive := fun t => ∀ (place : Nat) (r : Running),
        t.running[place]? = some r → r.stage.Carries) ?_ _ _ ?_
    · intro t a ih place r after
      cases step_running after with
      | stays before => exact ih place r before
      | starts taken before => exact Stage.carries_start _ _ _
      | reads taken before => exact (ih place _ before).read _
      | hears taken before => exact (ih place _ before).answer _
      | finishes taken before => trivial
    · intro place r none
      cases none
  exact always index r h

/-! ### Validations that end early -/

theorem Timeline.result?_eq_some {t : Timeline} {index : Nat} {simulate : Bool}
    {result : Except Failure ValidationData}
    (h : t.running[index]? = some ⟨simulate, .done result⟩) : t.result? index = some result := by
  unfold result?
  rw [h]
  rfl

theorem Stage.rejects_of_start {e : Engine} {op : UserOperation} {userOpHash : Hex}
    {result : Except Failure ValidationData} (h : Stage.start e op userOpHash = .done result) :
    Rejects result := by
  rcases start_cases e op userOpHash with ⟨f, hs⟩ | ⟨p, -, hs⟩
  · rw [hs] at h
    cases h
    exact rejects_error f
  · rw [hs] at h
    cases h

theorem Stage.rejects_of_read {e : Engine} {stage : Stage} {result : Except Failure ValidationData}
    (h : stage.read e = .done result) : stage = .done result ∨ Rejects result := by
  cases stage with
  | asking p request => cases h
  | ready p permit => cases h
  | done r => exact .inl h
  | prepared p =>
    rcases read_prepared_cases e p with ⟨f, hr⟩ | ⟨-, hr⟩ | ⟨permit, request, -, -, hr⟩
    · rw [hr] at h
      cases h
      exact .inr (rejects_error f)
    · rw [hr] at h
      cases h
    · rw [hr] at h
      cases h

theorem Stage.rejects_of_answer {approved : Except Failure Bool} {stage : Stage}
    {result : Except Failure ValidationData} (h : stage.answer approved = .done result) :
    stage = .done result ∨ Rejects result := by
  cases stage with
  | prepared p => cases h
  | ready p permit => cases h
  | done r => exact .inl h
  | asking p request =>
    rcases answer_asking_cases approved p request with ⟨f, ha⟩ | ha
    · rw [ha] at h
      cases h
      exact .inr (rejects_error f)
    · rw [ha] at h
      cases h

/-- A validation ends early, without accepting and with nothing written, or it was ready and is
carried out. -/
theorem Timeline.ends_cases {t : Timeline} {a : Action} {index : Nat} {simulate : Bool}
    {result : Except Failure ValidationData} (running : t.result? index = none)
    (after : (t.step a).1.running[index]? = some ⟨simulate, .done result⟩) :
    (Rejects result ∧ (t.step a).1.engine = t.engine ∧ (t.step a).2 = []) ∨
      ∃ p permit, a = .finish index ∧
        t.running[index]? = some ⟨simulate, .ready p permit⟩ ∧
        result = (p.finish permit simulate t.engine.store).result := by
  have early : ∀ stage : Stage, t.running[index]? = some ⟨simulate, stage⟩ →
      stage = .done result ∨ Rejects result → Rejects result := by
    rintro stage before (rfl | rejects)
    · rw [result?_eq_some before] at running
      cases running
    · exact rejects
  generalize hr : (⟨simulate, .done result⟩ : Running) = r at after
  cases step_running after with
  | stays before =>
    subst hr
    rw [result?_eq_some before] at running
    cases running
  | starts taken before =>
    subst taken
    obtain ⟨-, started⟩ := Running.mk.inj hr
    exact .inl ⟨Stage.rejects_of_start started.symm, rfl, rfl⟩
  | @reads r₀ taken before =>
    subst taken
    obtain ⟨rfl, went⟩ := Running.mk.inj hr
    exact .inl ⟨early r₀.stage before (Stage.rejects_of_read went.symm), rfl, rfl⟩
  | @hears r₀ approved taken before =>
    subst taken
    obtain ⟨rfl, went⟩ := Running.mk.inj hr
    exact .inl ⟨early r₀.stage before (Stage.rejects_of_answer went.symm), rfl, rfl⟩
  | @finishes _ p permit taken before =>
    obtain ⟨rfl, ended⟩ := Running.mk.inj hr
    exact .inr ⟨p, permit, taken, before, Stage.done.inj ended⟩

/-! ### All or nothing -/

/-- A validation that does not accept its operation, or that is a dry run, leaves the tables as they
were before its end and reports nothing; one that accepts reports the use of the permit that the
operation carries, and nothing if it carries none. This holds for a validation in one step, and for
each of those that run side by side with others and with changes of any kind. -/
theorem validation_atomic :
    (∀ (e : Engine) (outside : Outside) (op : UserOperation) (userOpHash : Hex) (simulate : Bool),
      let o := e.validateSignature outside op userOpHash simulate
      (simulate = true ∨ Rejects o.result → o.store = e.store ∧ o.events = []) ∧
      (simulate = false → ¬Rejects o.result →
        ∃ p, e.prepare op userOpHash = .ok p ∧ p.Reports o.events)) ∧
    (∀ (e : Engine) (actions : List Action) (a : Action) (index : Nat) (simulate : Bool)
      (result : Except Failure ValidationData),
      let t := ((Timeline.ofEngine e).run actions).1
      t.result? index = none →
      (t.step a).1.running[index]? = some ⟨simulate, .done result⟩ →
      (simulate = true ∨ Rejects result → (t.step a).1.engine = t.engine ∧ (t.step a).2 = []) ∧
      (simulate = false → ¬Rejects result →
        ∃ p permit, t.running[index]? = some ⟨false, .ready p permit⟩ ∧ p.Reports (t.step a).2)) := by
  refine ⟨?_, ?_⟩
  · intro e outside op userOpHash simulate
    unfold Engine.validateSignature
    cases hr : e.ready outside op userOpHash with
    | error f => exact ⟨fun _ => ⟨rfl, rfl⟩, fun _ accepts => absurd (rejects_error f) accepts⟩
    | ok x =>
      obtain ⟨p, permit⟩ := x
      obtain ⟨prepared, verified⟩ := Engine.ready_eq_ok.1 hr
      refine ⟨PreparedOperation.finish_unchanged, ?_⟩
      rintro rfl accepts
      refine ⟨p, prepared, ?_⟩
      simp only at accepts ⊢
      rw [PreparedOperation.finish_events accepts]
      exact (Engine.carries_of_verifiedPermit verified).reports
  · intro e actions a index simulate result t running after
    rcases Timeline.ends_cases running after with
      ⟨rejects, engine, events⟩ | ⟨p, permit, rfl, before, rfl⟩
    · exact ⟨fun _ => ⟨engine, events⟩, fun _ accepts => absurd rejects accepts⟩
    · rw [Timeline.step_finish_of_ready before]
      refine ⟨fun h => ?_, ?_⟩
      · obtain ⟨store, events⟩ := PreparedOperation.finish_unchanged h
        exact ⟨by simp [store], events⟩
      · rintro rfl accepts
        refine ⟨p, permit, before, ?_⟩
        simp only
        rw [PreparedOperation.finish_events accepts]
        exact PreparedOperation.Carries.reports (Timeline.carries_run e actions before)

/-- An operation without a signature. -/
def unsigned : UserOperation :=
  ⟨.zero, 0, .empty, .empty, 0, 0, 0, 0, 0, .empty, .empty⟩

/-- An operation without a signature is refused when it is started, and nothing is written. -/
theorem start_unsigned_unchanged :
    let e : Engine := ⟨⟨.zero, .zero, 1, .zero, none, none⟩, .empty, {}⟩
    ((Timeline.ofEngine e).step (.start unsigned .empty false)).1.engine = e ∧
      ((Timeline.ofEngine e).step (.start unsigned .empty false)).2 = [] := by
  intro e
  have ended : ((Timeline.ofEngine e).step (.start unsigned .empty false)).1.running[0]? =
      some ⟨false, .done (.error (.refused .shortSignature))⟩ := rfl
  exact (validation_atomic.2 e [] (.start unsigned .empty false) 0 false _ rfl ended).1
    (.inr (rejects_error _))

end SessionKeys
