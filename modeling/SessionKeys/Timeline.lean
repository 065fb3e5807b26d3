import SessionKeys.Engine

/-!
Validations that run side by side. A validation by session keys stops four times: after it was read,
after its permit was read, after the signer of the permit answered, and at its end. Between its steps
other validations and changes of any kind may happen. A `Timeline` is an engine together with the
validations that were started on it, and `Timeline.step` is one step of any of them. All of a
validation's effects on the store happen in its last step.
-/

namespace SessionKeys

/-- Where a validation stands. -/
inductive Stage where
  | prepared (p : PreparedOperation)
  /-- the permit was read, and its signer is asked about it -/
  | asking (p : PreparedOperation) (request : PermitRequest)
  /-- the permit, if there is one, was verified -/
  | ready (p : PreparedOperation) (permit : Option VerifiedPermit)
  | done (result : Except Failure ValidationData)

structure Running where
  simulate : Bool
  stage : Stage

/-- An engine, and the validations that were started on it, in order. -/
structure Timeline where
  engine : Engine
  running : List Running

/-- What may happen to an engine. -/
inductive Action where
  /-- a validation starts, and the operation is read -/
  | start (op : UserOperation) (userOpHash : Hex) (simulate : Bool)
  /-- the permit of a validation is read -/
  | read (index : Nat)
  /-- the signer of a permit answers; the given answer counts if the signer is outside this library -/
  | answer (index : Nat) (approved : Except Failure Bool)
  /-- a validation is settled -/
  | finish (index : Nat)
  | manage (call : ManagementCall)
  | enable (wallet address : Address) (v : Validator) (c : ValidatorClass)
  | disable (wallet address : Address)
  | setOwner (address wallet owner : Address)

/-- The stage that a failing computation leads to is the end. -/
def Stage.orDone (x : Except Failure Stage) : Stage :=
  match x with
  | .ok stage => stage
  | .error f => .done (.error f)

def Stage.start (e : Engine) (op : UserOperation) (userOpHash : Hex) : Stage :=
  .orDone ((e.prepare op userOpHash).map .prepared)

/-- Reads the permit. -/
def Stage.read (e : Engine) : Stage → Stage
  | .prepared p => .orDone do
    match ← e.request p with
    | none => return .ready p none
    | some r => return .asking p r
  | stage => stage

/-- Takes the answer of the signer. -/
def Stage.answer (approved : Except Failure Bool) : Stage → Stage
  | .asking p r => .orDone do
    let b ← match r.answer with
      | some b => pure b
      | none => approved
    return .ready p (some (← orFail (r.verify b)))
  | stage => stage

/-- Settles an operation that is ready, if it is. -/
def Running.outcome? (r : Running) (s : Store) : Option Outcome :=
  match r.stage with
  | .ready p permit => some (p.finish permit r.simulate s)
  | _ => none

namespace Timeline

/-- An engine on which nothing was started. -/
def ofEngine (e : Engine) : Timeline :=
  { engine := e, running := [] }

/-- Changes the stage of one validation. -/
def advance (t : Timeline) (index : Nat) (change : Stage → Stage) : Timeline :=
  { t with running := t.running.modify index fun r => { r with stage := change r.stage } }

/-- The validation that was started at some place ends. -/
def finish (t : Timeline) (index : Nat) : Timeline × List Event :=
  match t.running[index]?.bind fun r => r.outcome? t.engine.store with
  | none => (t, [])
  | some o =>
    ({ t with engine := { t.engine with store := o.store } }.advance index fun _ => .done o.result,
      o.events)

def updateRegistry (t : Timeline) (change : Registry → Registry) : Timeline :=
  { t with engine := { t.engine with registry := change t.engine.registry } }

/-- One step, and the events that report it. -/
def step (t : Timeline) : Action → Timeline × List Event
  | .start op userOpHash simulate =>
    ({ t with running := t.running ++ [⟨simulate, .start t.engine op userOpHash⟩] }, [])
  | .read index => (t.advance index (Stage.read t.engine), [])
  | .answer index approved => (t.advance index (Stage.answer approved), [])
  | .finish index => t.finish index
  | .manage call =>
    match t.engine.manage call with
    | .ok (engine, events) => ({ t with engine }, events)
    | .error _ => (t, [])
  | .enable wallet address v c => (t.updateRegistry fun r => r.enable wallet address v c, [])
  | .disable wallet address => (t.updateRegistry fun r => r.disable wallet address, [])
  | .setOwner address wallet owner => (t.updateRegistry fun r => r.setOwner address wallet owner, [])

/-- Several steps, and the events that report them. -/
def run (t : Timeline) : List Action → Timeline × List Event
  | [] => (t, [])
  | a :: rest =>
    let (next, events) := t.step a
    let (last, more) := next.run rest
    (last, events ++ more)

/-- The result of the validation that was started at some place, if it has ended. -/
def result? (t : Timeline) (index : Nat) : Option (Except Failure ValidationData) :=
  match t.running[index]?.map Running.stage with
  | some (.done result) => some result
  | _ => none

/-- The permit that the validation at some place asks about, if it asks. -/
def asked? (t : Timeline) (index : Nat) : Option PermitRequest :=
  match t.running[index]?.map Running.stage with
  | some (.asking _ r) => some r
  | _ => none

end Timeline

end SessionKeys
