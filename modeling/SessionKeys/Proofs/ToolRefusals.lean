import SessionKeys.Proofs.Budgets
import SessionKeys.Proofs.Requests
import SessionKeys.Proofs.ServerSteps

/-!
What is left of a tool call that is answered with an error. A server keeps windows with whole seconds of 48
bits (`Server.hasTimes_calls`), so the results of validations can always be packed; what may still go wrong
after a change is that a time in the answer has no date. Main statement: `refused_unchanged_or_undated`.
-/

namespace SessionKeys

/-! ### Times that are kept -/

/-- The window of every permission that is filed has whole seconds of 48 bits as its bounds. -/
def Store.HasTimes (s : Store) : Prop :=
  ∀ row, (s.permissionIn row).window.HasTimes

/-- The owner changes no window but by setting a permission. -/
theorem ManagementCall.hasTimes_apply {call : ManagementCall} {s s' : Store} {events : List Event}
    (h : call.apply s = .ok (s', events)) (times : s.HasTimes)
    (other : ∀ wallet operator permission, call ≠ .setOperatorPermission wallet operator permission) :
    s'.HasTimes := by
  rcases permissions_apply h with same | ⟨wallet, operator, p, rfl, -, -, window⟩
  · intro row
    rw [Store.permissionIn_congr same]
    exact times row
  · refine Store.forall_permissionIn_setPermission (P := (·.window.HasTimes)) times ?_ wallet operator
    rw [window.resolve_right (other wallet operator p)]
    exact times (permissionRow wallet operator)

namespace Engine

variable {e : Engine} {op : UserOperation} {hash : Hex} {p : PreparedOperation}
  {permit : Option VerifiedPermit}

/-- A permit could not have been verified without being hashed. -/
theorem hasTimes_inForce (times : e.store.HasTimes) {outside : Outside}
    (ready : e.ready outside op hash = .ok (p, permit)) :
    (p.permissionInForce permit e.store).window.HasTimes := by
  obtain ⟨-, verified⟩ := ready_eq_ok.1 ready
  rw [verifiedPermit_eq_ok] at verified
  cases carried : p.permit with
  | none =>
    rw [carried] at verified
    subst verified
    exact times p.operatorRow
  | some grant =>
    rw [carried] at verified
    obtain ⟨request, asked, -, rfl⟩ := verified
    obtain ⟨_, granted⟩ := PermitRequest.exists_hash_of_ofPermit asked
    exact OperatorPermission.hasTimes_of_hash granted

theorem Ends.hasTimes {simulate : Bool} {o : Outcome} (ends : e.Ends op hash simulate o)
    (times : e.store.HasTimes) :
    o.store.HasTimes ∧ ∀ w, o.result = .ok (.valid w) → w.HasTimes := by
  cases ends with
  | keeps result unbounded =>
    refine ⟨times, fun w accepted => ?_⟩
    rcases unbounded _ accepted with same | same
    · cases same
    · exact ValidationData.valid_inj.1 same ▸ ValidityWindow.hasTimes_unbounded
  | @settles p permit s w ready settled =>
    have inForce := hasTimes_inForce times ready
    have window := PreparedOperation.hasTimes_settle settled inForce
    have kept : s.HasTimes := by
      obtain ⟨left, charged, filed⟩ := PreparedOperation.permissionIn_settle settled
      obtain ⟨-, -, rfl⟩ := OperatorPermission.afterOperation_eq_ok.1 charged
      intro row
      rw [filed]
      split
      · exact inForce
      · exact times row
    cases simulate with
    | true => exact ⟨times, fun _ same => ValidationData.valid_inj.1 (Except.ok.inj same) ▸ window⟩
    | false => exact ⟨kept, fun _ same => ValidationData.valid_inj.1 (Except.ok.inj same) ▸ window⟩

/-- The window that a request puts in force has whole seconds of 48 bits as its bounds. -/
theorem CarriesOut.hasTimes {request : ToolRequest} {w : ValidityWindow} {next : Engine}
    {events : List Event} (carried : e.CarriesOut request w next events) (times : e.store.HasTimes)
    (asked : request.HasTimes) : w.HasTimes ∧ next.store.HasTimes := by
  cases carried with
  | @grant operator permission limits nonempty =>
    have window := asked permission.window rfl
    refine ⟨window, fun row => ?_⟩
    unfold granted
    rw [Store.startSpendingLimits_eq]
    exact Store.forall_permissionIn_setPermission (P := (·.window.HasTimes)) times window _ _ row
  | @operation op hash window hashed accepted =>
    obtain ⟨kept, valid⟩ := (e.ends_tryValidateUserOp op hash false).hasTimes times
    exact ⟨valid w accepted, kept⟩

theorem hasTimes_run {request : ToolRequest} (times : e.store.HasTimes) (asked : request.HasTimes) :
    (e.run request).engine.store.HasTimes := by
  have runs := e.runs_run request
  generalize e.run request = r at runs
  cases runs with
  | keeps answer => exact times
  | @changes call next events text applied other =>
    obtain ⟨⟨s, reported⟩, applied, done⟩ := bind_eq_ok.1 applied
    cases done
    exact call.hasTimes_apply applied times other
  | carriesOut answer carried => exact (carried.hasTimes times asked).2

end Engine

namespace Server

variable {e : Engine}

/-- Every state of a server has windows with whole seconds of 48 bits as their bounds. -/
theorem hasTimes_calls (config : Config) (seen : List ToolCall) :
    (calls (.ofConfig config) seen).2.store.HasTimes := by
  have start : Store.empty.HasTimes := by
    intro row
    rw [Store.permissionIn, show Store.empty.permissions = ∅ from rfl, Table.find?_empty]
    exact ValidityWindow.hasTimes_unbounded
  refine calls_induction (motive := fun e => e.store.HasTimes) start ?_ seen
  exact fun e tool arguments request times read =>
    Engine.hasTimes_run times (ToolRequest.hasTimes_of_reader read)

end Server

/-! ### Answers -/

namespace Engine

variable {e : Engine} {request : ToolRequest} {w : ValidityWindow} {next : Engine} {events : List Event}

/-- A permission that was set is shown if its bounds have a date. -/
theorem isError_permissionSetText {tool : Tool} {operator : Address} {permission : OperatorPermission}
    {limitCount : Nat} (times : permission.window.HasTimes) :
    (ToolAnswer.ofExcept tool (permissionSetText operator permission limitCount)).isError = some true ↔
      ¬permission.window.IsDated := by
  unfold permissionSetText
  by_cases dated : permission.window.IsDated
  · obtain ⟨details, shown⟩ := OperatorPermission.exists_details times dated
    rw [shown]
    simp [ToolAnswer.ofExcept, ToolAnswer.plain, pure_eq_ok, dated]
  · rw [OperatorPermission.details_of_undated times dated]
    simp [ToolAnswer.ofExcept, ToolAnswer.failure, dated]

/-- An operation that was accepted is shown if the bounds of its window have a date. -/
theorem isError_validationAnswer {hash : Hex} {mode : String} (times : w.HasTimes) :
    (validationAnswer hash mode (.valid w)).isError = some true ↔ ¬w.IsDated := by
  obtain ⟨packed, packs⟩ := times.exists_pack
  unfold validationAnswer
  by_cases dated : w.IsDated
  · obtain ⟨details, shown⟩ := ValidationData.exists_details times dated
    simp only [shown, packs]
    simp [ValidationData.valid, dated]
  · simp [ValidationData.details_of_undated times dated, ToolAnswer.failure, dated]

/-- What is carried out is answered with an error if and only if a bound of the window has no date. -/
theorem CarriesOut.run (carried : e.CarriesOut request w next events) (times : w.HasTimes) :
    (e.run request).engine = next ∧ (e.run request).events = events ∧
      ((e.run request).answer.isError = some true ↔ ¬w.IsDated) := by
  cases carried with
  | @grant operator permission limits nonempty =>
    rw [run_setOperatorPermission, if_neg nonempty]
    exact ⟨rfl, rfl, isError_permissionSetText times⟩
  | @operation op hash window hashed accepted =>
    have ran : e.run (.validateUserOp op true) =
        ⟨validationAnswer hash "committed" (.valid w),
          { e with store := (e.tryValidateUserOp .silent op hash false).store },
          (e.tryValidateUserOp .silent op hash false).events⟩ := by
      simp only [Engine.run, runValidation, hashed, Bool.not_true, accepted, if_true]
    rw [ran]
    exact ⟨rfl, rfl, isError_validationAnswer times⟩

end Engine

/-- **An error in an answer is no promise that nothing happened.** Take any state that a server reaches
by calls of tools, and any call. If the answer is marked as an error, then either the engine is as it was
and no event is reported, or the call carried out a grant or an operation of which a bound of the window
has no date. The other way round, every such grant and every such operation is carried out and reported,
and is answered with an error if and only if a bound of its window has no date. -/
theorem refused_unchanged_or_undated (config : Config) (seen : List ToolCall) (c : ToolCall) :
    let e := (Server.calls (.ofConfig config) seen).2
    let run := Server.call e c
    (run.answer.isError = some true →
      (run.engine = e ∧ run.events = []) ∨
        ∃ request w, c.request? = some request ∧ e.CarriesOut request w run.engine run.events ∧
          ¬w.IsDated) ∧
    ∀ request w next events, c.request? = some request → e.CarriesOut request w next events →
      run.engine = next ∧ run.events = events ∧ (run.answer.isError = some true ↔ ¬w.IsDated) := by
  intro e run
  have times : e.store.HasTimes := Server.hasTimes_calls config seen
  rcases Server.call_cases e c with ⟨unread, same, silent⟩ | ⟨tool, request, read, asks, ran⟩
  · refine ⟨fun _ => .inl ⟨same, silent⟩, fun request w next events asks => ?_⟩
    rw [unread] at asks
    cases asks
  · have asked := ToolRequest.hasTimes_of_reader read
    have shown : ∀ {w next events}, e.CarriesOut request w next events →
        run.engine = next ∧ run.events = events ∧ (run.answer.isError = some true ↔ ¬w.IsDated) := by
      intro w next events carried
      rw [show run = e.run request from ran]
      exact carried.run (carried.hasTimes times asked).1
    constructor
    · intro refused
      have runs := e.runs_run request
      rw [← ran] at runs
      change e.Runs request run at runs
      generalize run = r at runs refused shown ⊢
      cases runs with
      | keeps answer => exact .inl ⟨rfl, rfl⟩
      | changes text applied other => cases refused
      | carriesOut answer carried =>
        obtain ⟨-, -, undated⟩ := shown carried
        exact .inr ⟨request, _, asks, carried, undated.1 refused⟩
    · intro other w next events asks' carried
      rw [asks, Option.some.injEq] at asks'
      subst asks'
      exact shown carried

/-- A permission is set although its end has no date: the answer is an error, and the permission is
filed. -/
theorem undated_granted :
    let c : ToolCall :=
      ⟨"set_operator_permission", some (.object
        [("operator", .string "0x6000000000000000000000000000000000000006"),
          ("permission", .object
            [("session_root",
                .string "0x5555555555555555555555555555555555555555555555555555555555555555"),
              ("valid_until", .number ⟨281474976710655, 0⟩),
              ("gas_remaining", .string "1"), ("times_remaining", .string "1")])])⟩
    let config : Config := ⟨.zero, .zero, 1, .zero, none, none⟩
    let e := (Server.calls (.ofConfig config) []).2
    (Server.call e c).answer.isError = some true ∧ (Server.call e c).events ≠ [] ∧
      ∃ operator, (e.store.permission .zero operator).validUntil = 0 ∧
        ((Server.call e c).engine.store.permission .zero operator).validUntil =
          .ofInt 281474976710655 := by
  intro c config e
  have read : c.request?.bind ToolRequest.window? = some ⟨.ofInt 281474976710655, 0⟩ := by
    decide +kernel
  clear_value c
  obtain ⟨request, asks, asked⟩ := Option.bind_eq_some_iff.1 read
  cases request with
  | setOperatorPermission operator permission limits =>
    have window : permission.window = ⟨.ofInt 281474976710655, 0⟩ := Option.some.inj asked
    have nonempty : ¬permission.window.IsEmpty := by
      rw [window]
      decide +kernel
    have undated : ¬permission.window.IsDated := by
      rw [window]
      exact fun dated => absurd (Number.ofInt_le_ofInt.1 dated.1) (by decide)
    obtain ⟨engine, events, refused⟩ :=
      (refused_unchanged_or_undated config [] c).2 _ _ _ _ asks (.grant nonempty)
    refine ⟨refused.2 undated, ?_, operator, ?_, ?_⟩
    · rw [events]
      exact List.cons_ne_nil _ _
    · rw [Store.permission, show e.store.permissions = ∅ from rfl, Table.find?_empty]
      rfl
    · rw [engine]
      have granted := (e.store.permissionIn_setPermission .zero operator permission _).trans (if_pos rfl)
      unfold Engine.granted
      rw [Store.startSpendingLimits_eq]
      exact (congrArg (·.validUntil) granted).trans (congrArg ValidityWindow.validUntil window)
  | _ => cases asked

end SessionKeys
