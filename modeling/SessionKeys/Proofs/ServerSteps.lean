import SessionKeys.Proofs.Preparation
import SessionKeys.Proofs.Settlement
import SessionKeys.Server

/-!
What one tool call can do. A validation writes nothing unless an operation of an operator is settled
(`Engine.validateSignature_cases`, `Engine.ends_tryValidateUserOp`). A request changes nothing, or makes one change that is then reported, or
is one of the two that put a window in force, whose answers show times (`Engine.runs_run`). What holds in
every state of a server is derived from these (`Server.calls_induction`).
-/

namespace SessionKeys

namespace Engine

variable {e : Engine}

/-! ### Validations -/

/-- How a validation may end if nobody outside answers. -/
inductive Ends (e : Engine) (op : UserOperation) (hash : Hex) (simulate : Bool) : Outcome → Prop
  /-- nothing is written; the operation is refused, or its signature is that of the owner, or of nobody -/
  | keeps (result : Except Failure ValidationData)
      (unbounded : ∀ d, result = .ok d → d = .signatureFailed ∨ d = .valid ⟨0, 0⟩) :
      Ends e op hash simulate (.unchanged e.store result)
  /-- an operation of an operator is settled -/
  | settles {p : PreparedOperation} {permit : Option VerifiedPermit} {s : Store} {w : ValidityWindow}
      (ready : e.ready .silent op hash = .ok (p, permit)) (settled : p.settle permit e.store = .ok (s, w)) :
      Ends e op hash simulate
        (if simulate then .unchanged e.store (.ok (.valid w))
        else ⟨.ok (.valid w), s, p.permitEvents permit⟩)

/-- A signature of the owner is valid at all times. -/
theorem validateOwnerSignature_cases {v : Validator} {op : UserOperation} {hash : Hex}
    {d : ValidationData} (h : validateOwnerSignature v op hash = .ok d) :
    d = .signatureFailed ∨ d = .valid ⟨0, 0⟩ := by
  obtain ⟨addressed, -, h⟩ := bind_eq_ok.1 h
  split at h
  · cases h
    exact .inr rfl
  · cases h
    exact .inl rfl

/-- A validation by session keys writes nothing, and the operation is refused or not signed; or an operation
is settled. -/
theorem validateSignature_cases (e : Engine) (outside : Outside) (op : UserOperation) (hash : Hex)
    (simulate : Bool) :
    (∃ result, e.validateSignature outside op hash simulate = .unchanged e.store result ∧
      ((∃ f, result = .error f) ∨ result = .ok .signatureFailed)) ∨
    ∃ p permit s w, e.ready outside op hash = .ok (p, permit) ∧ p.settle permit e.store = .ok (s, w) ∧
      e.validateSignature outside op hash simulate =
        if simulate then .unchanged e.store (.ok (.valid w))
        else ⟨.ok (.valid w), s, p.permitEvents permit⟩ := by
  unfold validateSignature
  cases made : e.ready outside op hash with
  | error f => exact .inl ⟨_, rfl, .inl ⟨f, rfl⟩⟩
  | ok ready =>
    obtain ⟨p, permit⟩ := ready
    simp only [PreparedOperation.finish_eq]
    cases settled : p.settle permit e.store with
    | error f => exact .inl ⟨_, rfl, .inl ⟨f, rfl⟩⟩
    | ok done =>
      obtain ⟨s, w⟩ := done
      by_cases unsigned : p.signatureValid = false
      · simp only [if_pos unsigned]
        exact .inl ⟨_, rfl, .inr rfl⟩
      · simp only [if_neg unsigned]
        exact .inr ⟨p, permit, s, w, rfl, settled, rfl⟩

theorem ends_tryValidateUserOp (e : Engine) (op : UserOperation) (hash : Hex) (simulate : Bool) :
    e.Ends op hash simulate (e.tryValidateUserOp .silent op hash simulate) := by
  have fails (f : Failure) : e.Ends op hash simulate (.unchanged e.store (.error f)) := .keeps _ nofun
  unfold tryValidateUserOp validateRouted
  cases e.registry.route op with
  | error f => exact fails _
  | ok routed =>
    obtain ⟨address, v⟩ := routed
    cases v with
    | external =>
      refine .keeps _ fun d hd => .inl ?_
      cases hd
      rfl
    | ecdsa owners =>
      cases answered : validateOwnerSignature (.ecdsa owners) op hash with
      | error f =>
        simp only [answered]
        exact fails _
      | ok d =>
        simp only [answered]
        refine .keeps _ fun d' same => ?_
        cases same
        exact validateOwnerSignature_cases answered
    | sessionKeys =>
      rcases e.validateSignature_cases .silent op hash simulate with
        ⟨result, ends, ⟨f, rfl⟩ | rfl⟩ | ⟨p, permit, s, w, ready, settled, ends⟩
      · simp only [ends]
        exact fails _
      · simp only [ends]
        refine .keeps _ fun d hd => .inl ?_
        cases hd
        rfl
      · have settles : e.Ends op hash simulate _ := .settles ready settled
        simp only [ends]
        cases simulate with
        | true => exact settles
        | false => exact settles

/-- Only an operation that is accepted, and is no dry run, may write something. -/
theorem Ends.keeps_or_accepts {op : UserOperation} {hash : Hex} {simulate : Bool} {o : Outcome}
    (ends : e.Ends op hash simulate o) :
    (o.store = e.store ∧ o.events = []) ∨ simulate = false ∧ ∃ w, o.result = .ok (.valid w) := by
  cases ends with
  | keeps result unbounded => exact .inl ⟨rfl, rfl⟩
  | @settles p permit s w ready settled =>
    cases simulate with
    | true => exact .inl ⟨rfl, rfl⟩
    | false => exact .inr ⟨rfl, w, rfl⟩

/-! ### Requests -/

/-- The engine in which an operator of the configured wallet is granted a permission and some limits. -/
def granted (e : Engine) (operator : Address) (permission : OperatorPermission)
    (limits : List SpendingLimit) : Engine :=
  { e with
    store := (e.store.setPermission e.config.walletAddress operator permission).startSpendingLimits
      e.config.walletAddress operator limits }

/-- The events that report such a grant. -/
def grantEvents (e : Engine) (operator : Address) (permission : OperatorPermission)
    (limits : List SpendingLimit) : List Event :=
  .operatorPermissionSet e.config.walletAddress operator permission ::
    limits.map fun l => .spendingLimitSet e.config.walletAddress operator l.token l.allowance

/-- What a request asks for is carried out, and puts a window in force that is shown in the answer. -/
inductive CarriesOut (e : Engine) : ToolRequest → ValidityWindow → Engine → List Event → Prop
  | grant {operator : Address} {permission : OperatorPermission} {limits : Option (List SpendingLimit)}
      (nonempty : ¬permission.window.IsEmpty) :
      CarriesOut e (.setOperatorPermission operator permission limits) permission.window
        (e.granted operator permission (limits.getD []))
        (e.grantEvents operator permission (limits.getD []))
  | operation {op : UserOperation} {hash : Hex} {window : ValidityWindow}
      (hashed : e.userOpHash op = .ok hash)
      (accepted : (e.tryValidateUserOp .silent op hash false).result = .ok (.valid window)) :
      CarriesOut e (.validateUserOp op true) window
        { e with store := (e.tryValidateUserOp .silent op hash false).store }
        (e.tryValidateUserOp .silent op hash false).events

/-- What the run of a request may do. -/
inductive Runs (e : Engine) (request : ToolRequest) : ToolRun → Prop
  | keeps (answer : ToolAnswer) : Runs e request ⟨answer, e, []⟩
  /-- one change is made, to which no window belongs -/
  | changes {call : ManagementCall} {next : Engine} {events : List Event} (text : String)
      (applied : e.manage call = .ok (next, events))
      (other : ∀ wallet operator permission, call ≠ .setOperatorPermission wallet operator permission) :
      Runs e request ⟨.plain text, next, events⟩
  | carriesOut {window : ValidityWindow} {next : Engine} {events : List Event} (answer : ToolAnswer)
      (carried : e.CarriesOut request window next events) : Runs e request ⟨answer, next, events⟩

theorem change_cons {tool : Tool} {call : ManagementCall} {rest : List ManagementCall} {next : Engine}
    {events : List Event} {text : Engine → Except Failure String}
    (applied : e.manage call = .ok (next, events)) :
    e.change tool (call :: rest) text =
      { next.change tool rest text with events := events ++ (next.change tool rest text).events } := by
  rw [change, applied]

/-- One change that is not refused. -/
theorem change_singleton {tool : Tool} {call : ManagementCall} {next : Engine} {events : List Event}
    {text : Engine → Except Failure String} (applied : e.manage call = .ok (next, events)) :
    e.change tool [call] text = ⟨.ofExcept tool (text next), next, events⟩ := by
  rw [change_cons applied]
  simp only [change, query, List.append_nil]

/-- No change is refused but a permission with an empty window. -/
theorem exists_manage {call : ManagementCall}
    (other : ∀ wallet operator permission, call ≠ .setOperatorPermission wallet operator permission) :
    ∃ next events, e.manage call = .ok (next, events) := by
  have changed : ∀ {s : Store} {events : List Event}, call.apply e.store = .ok (s, events) →
      ∃ next events, e.manage call = .ok (next, events) := by
    intro s events applied
    refine ⟨{ e with store := s }, events, ?_⟩
    rw [manage, applied]
    rfl
  cases call with
  | setOperatorPermission wallet operator permission => exact absurd rfl (other wallet operator permission)
  | resetSpendingLimit wallet operator token =>
    cases found : e.store.spendingLimit? wallet operator token with
    | none => exact changed (by rw [ManagementCall.apply, found])
    | some info => exact changed (by rw [ManagementCall.apply, found])
  | deleteSpendingLimit wallet operator token =>
    cases found : e.store.spendingLimit? wallet operator token with
    | none => exact changed (by rw [ManagementCall.apply, found])
    | some info => exact changed (by rw [ManagementCall.apply, found])
  | _ => exact changed rfl

theorem ne_of_limitCall {wallet operator token : Address} {allowance : Option Int}
    {action : LimitAction} {call : ManagementCall}
    (h : limitCall wallet operator token allowance action = .ok call) (w o : Address)
    (permission : OperatorPermission) : call ≠ .setOperatorPermission w o permission := by
  cases action with
  | set =>
    cases allowance with
    | none => cases h
    | some a =>
      cases h
      exact ManagementCall.noConfusion
  | reset | delete =>
    cases h
    exact ManagementCall.noConfusion

/-- What comes of a request to set a permission. -/
theorem run_setOperatorPermission (e : Engine) (operator : Address) (permission : OperatorPermission)
    (limits : Option (List SpendingLimit)) :
    e.run (.setOperatorPermission operator permission limits) =
      if permission.window.IsEmpty then
        ⟨.failure .setOperatorPermission
          (.refused (.emptyWindow permission.validUntil permission.validAfter)), e, []⟩
      else
        ⟨.ofExcept .setOperatorPermission
            (permissionSetText operator permission (limits.getD []).length),
          e.granted operator permission (limits.getD []),
          e.grantEvents operator permission (limits.getD [])⟩ := by
  by_cases empty : permission.window.IsEmpty
  · rw [if_pos empty]
    have refused : e.manage (.setOperatorPermission e.config.walletAddress operator permission) =
        .error (.emptyWindow permission.validUntil permission.validAfter) := by
      simp only [manage, ManagementCall.apply, ValidityWindow.assertValid, if_pos empty, error_bind]
      rfl
    simp only [run, change, refused]
    rfl
  · rw [if_neg empty]
    have done : e.manage (.setOperatorPermission e.config.walletAddress operator permission) =
        .ok ({ e with store := e.store.setPermission e.config.walletAddress operator permission },
          [.operatorPermissionSet e.config.walletAddress operator permission]) := by
      simp only [manage, ManagementCall.apply, ValidityWindow.assertValid, if_neg empty, ok_bind,
        pure_eq_ok]
    simp only [run]
    have limited (s : Store) : manage { e with store := s }
        (.batchSetSpendingLimit e.config.walletAddress operator (limits.getD [])) = .ok _ := rfl
    rw [change_cons done, change_singleton (limited _)]
    rfl

theorem runs_run (e : Engine) (request : ToolRequest) : e.Runs request (e.run request) := by
  have single : ∀ (call : ManagementCall) (tool : Tool) (text : Engine → String),
      (∀ wallet operator permission, call ≠ .setOperatorPermission wallet operator permission) →
      e.Runs request (e.change tool [call] fun next => .ok (text next)) := by
    intro call tool text other
    obtain ⟨next, events, applied⟩ := exists_manage (e := e) other
    rw [change_singleton applied]
    exact .changes _ applied other
  cases request with
  | buildSessionTree | checkArguments | getOperatorPermission | getSpendingLimit | getPermitHash =>
    exact .keeps _
  | setSessionRoot operator root =>
    exact single (.setSessionRoot e.config.walletAddress operator root) _ _
      fun _ _ _ => ManagementCall.noConfusion
  | revokeSignature hash =>
    exact single (.revokeSignature e.config.walletAddress hash) _ _
      fun _ _ _ => ManagementCall.noConfusion
  | setSpendingLimit operator token allowance action =>
    unfold run
    simp only
    split
    next f failed => exact .keeps _
    next call read => exact single call _ _ (ne_of_limitCall read)
  | setOperatorPermission operator permission limits =>
    rw [run_setOperatorPermission]
    split
    · exact .keeps _
    next nonempty => exact .carriesOut _ (.grant nonempty)
  | validateUserOp op commit =>
    unfold run
    simp only
    unfold runValidation
    split
    next f failed => exact .keeps _
    next hash hashed =>
      rcases (e.ends_tryValidateUserOp op hash (!commit)).keeps_or_accepts with
        ⟨store, events⟩ | ⟨committed, w, accepted⟩
      · simp only [store, events]
        exact .keeps _
      · obtain rfl : commit = true := by simpa using committed
        exact .carriesOut _ (.operation hashed accepted)

end Engine

/-! ### Calls -/

/-- What a call asks for, if its arguments can be read. -/
def ToolCall.request? (c : ToolCall) : Option ToolRequest :=
  match Tool.ofName? c.name with
  | none => none
  | some tool =>
    match ToolRequest.reader tool [] c.arguments with
    | .ok request => some request
    | _ => none

namespace Server

/-- A call that cannot be read changes nothing, and one that is read is run. -/
theorem call_cases (e : Engine) (c : ToolCall) :
    (c.request? = none ∧ (call e c).engine = e ∧ (call e c).events = []) ∨
      ∃ tool request, ToolRequest.reader tool [] c.arguments = .ok request ∧
        c.request? = some request ∧ call e c = e.run request := by
  unfold ToolCall.request? call
  cases Tool.ofName? c.name with
  | none => exact .inl ⟨rfl, rfl, rfl⟩
  | some tool =>
    cases read : ToolRequest.reader tool [] c.arguments with
    | ok request => exact .inr ⟨tool, request, read, by simp only [read], by simp only [read]⟩
    | soft issues => exact .inl ⟨by simp only [read], by simp only [read], by simp only [read]⟩
    | hard issues => exact .inl ⟨by simp only [read], by simp only [read], by simp only [read]⟩

/-- What the runs of requests that were read keep holds in every state of a server. -/
theorem calls_induction {motive : Engine → Prop} {e : Engine} (start : motive e)
    (steps : ∀ e tool arguments request, motive e →
      ToolRequest.reader tool [] arguments = .ok request → motive (e.run request).engine)
    (seen : List ToolCall) : motive (calls e seen).2 := by
  induction seen generalizing e with
  | nil => exact start
  | cons c rest ih =>
    refine ih (e := (call e c).engine) ?_
    rcases call_cases e c with ⟨-, same, -⟩ | ⟨tool, request, read, -, ran⟩
    · rw [same]
      exact start
    · rw [ran]
      exact steps e tool c.arguments request start read

end Server

end SessionKeys
