import SessionKeys.Proofs.Atomicity
import SessionKeys.Proofs.Commits
import SessionKeys.Proofs.History

/-!
Validations that run side by side do what they would do one after the other. What a validation has read
of nonces and used hashes may be out of date when it ends, but then the transaction refuses it; if it is
not refused, the permit would be read again just so (`PermitRequest.ofPermit_again`), and so the end
does what the validation as a whole would do at that moment (`Timeline.finish_eq_validateSignature`).
Main statement: `validations_serializable`.
-/

namespace SessionKeys

/-! ### One after the other -/

/-- What is done to an engine as a whole. -/
inductive Job where
  | manage (call : ManagementCall)
  | validate (submitted : Submission)

namespace Engine

/-- Validates an operation in one step. -/
def validateSubmission (e : Engine) (outside : Outside) (submitted : Submission) : Outcome :=
  e.validateSignature outside submitted.op submitted.userOpHash submitted.simulate

/-- Does one job, and reports it. A change that is refused changes nothing. -/
def perform (outside : Outside) (e : Engine) : Job → Engine × List Event
  | .manage call =>
    match e.manage call with
    | .ok done => done
    | .error _ => (e, [])
  | .validate submitted =>
    let o := e.validateSubmission outside submitted
    ({ e with store := o.store }, o.events)

/-- Does several jobs, one after the other. -/
def performAll (outside : Outside) : Engine → List Job → Engine × List Event
  | e, [] => (e, [])
  | e, job :: rest =>
    let (next, events) := e.perform outside job
    let (last, more) := next.performAll outside rest
    (last, events ++ more)

theorem performAll_append (outside : Outside) (e : Engine) (first rest : List Job) :
    e.performAll outside (first ++ rest) =
      (((e.performAll outside first).1.performAll outside rest).1,
        (e.performAll outside first).2 ++ ((e.performAll outside first).1.performAll outside rest).2) := by
  induction first generalizing e with
  | nil => rfl
  | cons job more ih =>
    rw [List.cons_append, performAll, performAll]
    simp only [ih, List.append_assoc]

end Engine

namespace Timeline

/-- What a step commits, as a job: a change of the owner, or the validation of an operation that is
carried out. The operations are those that are submitted in the run, in the order of their starts. -/
def job? (submitted : List Submission) (t : Timeline) : Action → Option Job
  | .manage call => some (.manage call)
  | .finish index => (t.accepted? (.finish index)).bind fun _ => submitted[index]?.map .validate
  | _ => none

/-- What a run commits, in the order of the commits. -/
def jobs (submitted : List Submission) : (t : Timeline) → List Action → List Job
  | _, [] => []
  | t, a :: rest => (t.job? submitted a).toList ++ (t.step a).1.jobs submitted rest

theorem jobs_concat (submitted : List Submission) (t : Timeline) (seen : List Action) (a : Action) :
    t.jobs submitted (seen ++ [a]) =
      t.jobs submitted seen ++ ((t.run seen).1.job? submitted a).toList := by
  induction seen generalizing t with
  | nil => simp [jobs, run]
  | cons b rest ih =>
    rw [List.cons_append, jobs, jobs, ih, List.append_assoc]
    rfl

/-- What a run hears of signers outside this library: whoever approves a permit in the run is one that
approves it in `outside`. -/
def Hears (t : Timeline) (outside : Outside) (actions : List Action) : Prop :=
  ∀ before index rest simulate p request, actions = before ++ .answer index (.ok true) :: rest →
    (t.run before).1.running[index]? = some ⟨simulate, .asking p request⟩ → request.answer = none →
    outside.approves request.signer p.op.sender request.hash request.signature = .ok true

theorem Hears.of_append {t : Timeline} {outside : Outside} {seen rest : List Action}
    (h : t.Hears outside (seen ++ rest)) : t.Hears outside seen := by
  rintro before index later simulate p request rfl
  exact h before index (later ++ rest) simulate p request (by simp)

end Timeline

/-! ### The end of a validation -/

/-- A permit is read at any moment as it was read at another one, if the nonce of the operator is the
same and the permit is not used. -/
theorem PermitRequest.ofPermit_again {chainId : Number} {earlier s : Store} {r : Registry}
    {wallet operator : Address} {permit : Permit} {request : PermitRequest}
    (asked : PermitRequest.ofPermit chainId earlier r wallet operator permit = .ok request)
    (nonce : s.permitNonce wallet operator = request.nonce)
    (unused : s.isHashUsed wallet request.hash = false) :
    PermitRequest.ofPermit chainId s r wallet operator permit = .ok request := by
  obtain ⟨hash, addressed, v, hashed, -, split, known, rank, rfl⟩ :=
    PermitRequest.ofPermit_eq_ok.1 asked
  simp only at nonce unused
  refine PermitRequest.ofPermit_eq_ok.2 ⟨hash, addressed, v, ?_, unused, split, known, rank, ?_⟩
  · unfold Store.permitMessageHash at hashed ⊢
    rw [nonce]
    exact hashed
  · rw [nonce]

namespace Timeline

variable {e : Engine} {outside : Outside} {actions : List Action}

/-- What an operation is verified with at its end is what it would be verified with as a whole. -/
theorem verifiedPermit_of_ready (fixed : ∀ a ∈ actions, a.KeepsRegistry)
    (hears : (ofEngine e).Hears outside actions) {index : Nat} {simulate : Bool}
    {p : PreparedOperation} {permit : Option VerifiedPermit} {s : Store}
    (ready : ((ofEngine e).run actions).1.running[index]? = some ⟨simulate, .ready p permit⟩)
    (installed : p.installPermit permit ((ofEngine e).run actions).1.engine.store = .ok s) :
    ((ofEngine e).run actions).1.engine.verifiedPermit outside p = .ok permit := by
  rw [Engine.verifiedPermit_eq_ok]
  have carries : permit.map (·.permit) = p.permit := carries_run e actions ready
  cases permit with
  | none =>
    rw [← carries]
    rfl
  | some v =>
    obtain ⟨before, middle, answered, rest, request, rfl, asked, asking, approved, rfl⟩ :=
      answered_of_ready (isUnread_ofEngine e index) ready
    obtain ⟨nonce, unused, -, -⟩ := VerifiedPermit.install_eq_ok.1 installed
    obtain ⟨permit, carried, read⟩ := Engine.request_eq_some.1 asked
    rw [← carries] at carried ⊢
    cases carried
    -- neither the registry nor the configuration has changed since the permit was read
    have fixedThen : ∀ a ∈ before, a.KeepsRegistry := fun a ha =>
      fixed a (List.mem_append_left _ (List.mem_append_left _ ha))
    rw [run_config, run_registry _ fixedThen] at read
    rw [run_config, run_registry _ fixed]
    refine ⟨request, PermitRequest.ofPermit_again read nonce unused, ?_, rfl⟩
    rw [Engine.answer_eq_ok]
    unfold PermitRequest.IsApproved at approved
    cases known : request.answer with
    | some b =>
      rw [known] at approved
      exact approved
    | none =>
      rw [known] at approved
      subst approved
      exact hears _ index rest simulate p request rfl asking known

/-- A validation that accepts its operation does at its end what it would do as a whole. -/
theorem finish_eq_validateSignature (fixed : ∀ a ∈ actions, a.KeepsRegistry)
    (hears : (ofEngine e).Hears outside actions) {index : Nat} {simulate : Bool}
    {p : PreparedOperation} {permit : Option VerifiedPermit}
    (ready : ((ofEngine e).run actions).1.running[index]? = some ⟨simulate, .ready p permit⟩)
    (settles : ∃ r, p.settle permit ((ofEngine e).run actions).1.engine.store = .ok r) :
    ∃ submitted, (actions.filterMap Action.submission?)[index]? = some submitted ∧
      submitted.simulate = simulate ∧
      ((ofEngine e).run actions).1.engine.validateSubmission outside submitted =
        p.finish permit simulate ((ofEngine e).run actions).1.engine.store := by
  obtain ⟨submitted, found, same, prepared⟩ := submitted_of_running ready
  simp only at same
  refine ⟨submitted, found, same.symm, ?_⟩
  have prepares : ((ofEngine e).run actions).1.engine.prepare submitted.op submitted.userOpHash =
      .ok p := by
    have earlier := prepared p rfl
    unfold Engine.prepare at earlier ⊢
    rw [run_config]
    exact earlier
  obtain ⟨⟨s', window⟩, settled⟩ := settles
  obtain ⟨s₁, -, installed, -⟩ := PreparedOperation.settle_eq_ok.1 settled
  have verified := verifiedPermit_of_ready fixed hears ready installed
  unfold Engine.validateSubmission Engine.validateSignature
  rw [Engine.ready_eq_ok.2 ⟨prepares, verified⟩, same]

/-! ### Runs -/

/-- A step that keeps the registry changes nothing of the engine but the store. -/
theorem step_engine (t : Timeline) {a : Action} (keeps : a.KeepsRegistry) :
    (t.step a).1.engine = { t.engine with store := (t.step a).1.engine.store } := by
  have config := t.step_config a
  have registry := t.step_registry keeps
  show (t.step a).1.engine = ⟨t.engine.config, (t.step a).1.engine.store, t.engine.registry⟩
  rw [← config, ← registry]

/-- A step does what the job does that it commits, if it commits one, and nothing otherwise. -/
theorem step_eq_performAll {submitted : List Submission} {a : Action} (keeps : a.KeepsRegistry)
    (fixed : ∀ a ∈ actions, a.KeepsRegistry) (hears : (ofEngine e).Hears outside actions)
    (starts : ∀ (index : Nat) s, (actions.filterMap Action.submission?)[index]? = some s →
      submitted[index]? = some s) :
    let t := ((ofEngine e).run actions).1
    t.engine.performAll outside (t.job? submitted a).toList = ((t.step a).1.engine, (t.step a).2) := by
  intro t
  have effect := t.step_effect a
  rw [t.step_engine keeps]
  generalize (t.step a).1.engine.store = s, (t.step a).2 = events at effect ⊢
  cases effect with
  | idle none noCall =>
    have nothing : t.job? submitted a = Option.none := by
      cases a with
      | manage call => exact absurd rfl (noCall call)
      | finish index =>
        simp only [job?, none, Option.bind_none]
      | start | read | answer | enable | disable | setOwner => rfl
    rw [nothing]
    rfl
  | @refuses call refusal refused =>
    simp only [job?, Option.toList_some, Engine.performAll, Engine.perform, Engine.manage, refused,
      error_bind, List.append_nil]
  | @manages call _ _ applied =>
    simp only [job?, Option.toList_some, Engine.performAll, Engine.perform, Engine.manage, applied,
      ok_bind, pure_eq_ok, List.append_nil]
  | @accepts index p permit _ window ready accepted settled =>
    obtain ⟨sub, found, same, whole⟩ := finish_eq_validateSignature fixed hears ready ⟨_, settled⟩
    obtain ⟨_, taken, -, signed, -⟩ := accepted?_eq_some.1 accepted
    have job : t.job? submitted (.finish index) = some (.validate sub) := by
      simp only [job?, accepted, Option.bind_some, starts index sub found, Option.map_some]
    have ends : p.finish permit false t.engine.store =
        ⟨.ok (.valid window), s, p.permitEvents permit⟩ := by
      rw [PreparedOperation.finish_eq, settled]
      simp [signed]
    rw [job]
    simp only [Option.toList_some, Engine.performAll, Engine.perform, List.append_nil]
    rw [whole, ends]

theorem result?_step_finish {t : Timeline} {index : Nat} {simulate : Bool} {p : PreparedOperation}
    {permit : Option VerifiedPermit} (ready : t.running[index]? = some ⟨simulate, .ready p permit⟩) :
    (t.step (.finish index)).1.result? index =
      some (p.finish permit simulate t.engine.store).result := by
  have after : (t.step (.finish index)).1.running[index]? =
      some ⟨simulate, .done (p.finish permit simulate t.engine.store).result⟩ := by
    rw [step_finish_of_ready ready]
    unfold advance
    simp only
    rw [List.getElem?_modify_eq, ready]
    rfl
  exact result?_eq_some after

/-- What a validation that accepts its operation makes of the store, and reports, at its end. -/
theorem validateSubmission_of_result (fixed : ∀ a ∈ actions, a.KeepsRegistry)
    (hears : (ofEngine e).Hears outside actions) {index : Nat} {data : ValidationData}
    (running : ((ofEngine e).run actions).1.result? index = none)
    (ended : (((ofEngine e).run actions).1.step (.finish index)).1.result? index = some (.ok data))
    (kept : data.failed = false) :
    ∃ submitted, (actions.filterMap Action.submission?)[index]? = some submitted ∧
      ((ofEngine e).run actions).1.engine.validateSubmission outside submitted =
        ⟨.ok data, (((ofEngine e).run actions).1.step (.finish index)).1.engine.store,
          (((ofEngine e).run actions).1.step (.finish index)).2⟩ := by
  rcases ((ofEngine e).run actions).1.step_finish_cases index with
    idle | ⟨simulate, p, permit, ready, ends⟩
  · rw [idle] at ended
    simp only at ended
    rw [running] at ended
    cases ended
  · have result := Option.some.inj ((result?_step_finish ready).symm.trans ended)
    obtain ⟨-, settles⟩ := PreparedOperation.accepts_iff_settles.1 ⟨data, result, kept⟩
    obtain ⟨submitted, found, -, whole⟩ := finish_eq_validateSignature fixed hears ready settles
    refine ⟨submitted, found, ?_⟩
    rw [ends, whole, ← result]
    rfl

/-- A run does what the jobs do that it commits. -/
theorem performAll_jobs {submitted : List Submission} (fixed : ∀ a ∈ actions, a.KeepsRegistry)
    (hears : (ofEngine e).Hears outside actions)
    (starts : ∀ (index : Nat) s, (actions.filterMap Action.submission?)[index]? = some s →
      submitted[index]? = some s) :
    e.performAll outside ((ofEngine e).jobs submitted actions) =
      (((ofEngine e).run actions).1.engine, ((ofEngine e).run actions).2) := by
  induction actions using List.reverseRecOn with
  | nil => rfl
  | append_singleton seen a ih =>
    have fixedBefore : ∀ b ∈ seen, b.KeepsRegistry := fun b hb => fixed b (List.mem_append_left _ hb)
    have startsBefore : ∀ (index : Nat) s, (seen.filterMap Action.submission?)[index]? = some s →
        submitted[index]? = some s := by
      intro index s found
      refine starts index s ?_
      rw [List.filterMap_append, List.getElem?_append_left (List.getElem?_eq_some_iff.1 found).1]
      exact found
    have first := ih fixedBefore hears.of_append startsBefore
    have last := step_eq_performAll (fixed a (List.mem_append_right _ (List.mem_singleton_self a)))
      fixedBefore hears.of_append startsBefore
    simp only at last
    rw [jobs_concat, Engine.performAll_append, first, last, run_append]
    simp [run]

end Timeline

/-- **Validations are serializable.** While the registry is not changed, and signers outside this
library answer in the run as `outside` does, each validation that ends by accepting its operation gives
the result, has the effect on the store and reports the events that the validation of its operation as
a whole would have at that moment. So a run comes to the same as doing its changes of the owner and
the validations of the operations that were carried out one after the other, in the order of their
commits. -/
theorem validations_serializable {e : Engine} {outside : Outside} {actions : List Action}
    (fixed : ∀ a ∈ actions, a.KeepsRegistry)
    (hears : (Timeline.ofEngine e).Hears outside actions) :
    (∀ before index rest data, actions = before ++ .finish index :: rest →
      let now := ((Timeline.ofEngine e).run before).1
      let next := now.step (.finish index)
      now.result? index = none → next.1.result? index = some (.ok data) → data.failed = false →
      ∃ submitted, (before.filterMap Action.submission?)[index]? = some submitted ∧
        now.engine.validateSubmission outside submitted =
          ⟨.ok data, next.1.engine.store, next.2⟩) ∧
    let last := (Timeline.ofEngine e).run actions
    e.performAll outside
      ((Timeline.ofEngine e).jobs (actions.filterMap Action.submission?) actions) =
        (last.1.engine, last.2) := by
  refine ⟨?_, Timeline.performAll_jobs fixed hears fun _ _ found => found⟩
  rintro before index rest data rfl now next running ended kept
  exact Timeline.validateSubmission_of_result (fun a ha => fixed a (List.mem_append_left _ ha))
    hears.of_append running ended kept

/-- A validation that is refused when it starts commits nothing. A run that makes a change of the owner
before that validation is ended comes to the change. -/
theorem refused_beside_change :
    let e : Engine := ⟨⟨.zero, .zero, 1, .zero, none, none⟩, .empty, {}⟩
    let change : ManagementCall := .setSessionRoot .zero .zero .empty
    let actions : List Action := [.start unsigned .empty false, .manage change, .finish 0]
    let last := (Timeline.ofEngine e).run actions
    (∀ a ∈ actions, a.KeepsRegistry) ∧ (Timeline.ofEngine e).Hears .silent actions ∧
      e.performAll .silent [.manage change] = (last.1.engine, last.2) := by
  intro e change actions last
  have fixed : ∀ a ∈ actions, a.KeepsRegistry := by
    intro a ha
    simp only [actions, List.mem_cons, List.not_mem_nil, or_false] at ha
    rcases ha with rfl | rfl | rfl
    · trivial
    · trivial
    · trivial
  have hears : (Timeline.ofEngine e).Hears .silent actions := by
    intro before index rest simulate p request split
    have heard : Action.answer index (.ok true) ∈ actions := by
      rw [split]
      exact List.mem_append_right _ List.mem_cons_self
    simp [actions] at heard
  exact ⟨fixed, hears, (validations_serializable fixed hears).2⟩

end SessionKeys
