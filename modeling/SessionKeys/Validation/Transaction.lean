import SessionKeys.Event
import SessionKeys.Failure
import SessionKeys.Store

/-!
Work on the tables of a store, done in place. A step of it reads what the steps before it wrote, and
what was written before a step fails is still written after it failed. It is a transaction that takes
this back: it remembers the tables as they were, and puts them back when the work in it stops.
-/

namespace SessionKeys

/-- Why work stops before its end. -/
inductive Stop where
  | failed (f : Failure)
  /-- nothing else is wrong, but the operator did not sign -/
  | badSignature
deriving DecidableEq, Repr

/-- What is worked on: the tables, and the events that wait to be reported. -/
structure Desk where
  store : Store
  waiting : List Event

/-- Work on a desk, which may stop. -/
abbrev Work (α : Type) := ExceptT Stop (StateM Desk) α

namespace Work

variable {α : Type}

/-- How work on a desk ends, and the desk after it. -/
def on (w : Work α) (d : Desk) : Except Stop α × Desk :=
  w.run.run d

def tables : Work Store := do
  return (← get).store

/-- Writes to the tables. -/
def write (change : Store → Store) : Work Unit :=
  modify fun d => { d with store := change d.store }

/-- Puts an event behind those that wait. -/
def announce (event : Event) : Work Unit :=
  modify fun d => { d with waiting := d.waiting ++ [event] }

/-- Goes on with a value, or stops for the failure that is there instead. -/
def require (x : Except Failure α) : Work α :=
  match x with
  | .ok a => pure a
  | .error f => throw (.failed f)

/-- Makes one change that may be refused. A refused change writes nothing. -/
def change (f : Store → Except Failure Store) : Work Unit := do
  let s ← require (f (← tables))
  write fun _ => s

/-- Work that is taken back if it stops. -/
def transaction (w : Work α) : Work α := do
  let before ← tables
  tryCatch w fun stop => do
    write fun _ => before
    throw stop

/-- Work that is taken back however it ends. -/
def dryRun (w : Work α) : Work α := do
  let before ← tables
  let a ← transaction w
  write fun _ => before
  return a

/-! ### How work ends -/

@[simp] theorem on_pure (a : α) (d : Desk) : (pure a : Work α).on d = (.ok a, d) := rfl

@[simp] theorem on_throw (stop : Stop) (d : Desk) : (throw stop : Work α).on d = (.error stop, d) :=
  rfl

theorem on_bind {β : Type} (w : Work α) (f : α → Work β) (d : Desk) :
    (w >>= f).on d =
      match w.on d with
      | (.ok a, d') => (f a).on d'
      | (.error stop, d') => (.error stop, d') := by
  unfold on ExceptT.run StateT.run
  simp only [bind, ExceptT.bind, ExceptT.mk, StateT.bind, ExceptT.bindCont]
  rcases w d with ⟨_ | a, d'⟩ <;> rfl

theorem on_tryCatch (w : Work α) (f : Stop → Work α) (d : Desk) :
    (tryCatch w f).on d =
      match w.on d with
      | (.ok a, d') => (.ok a, d')
      | (.error stop, d') => (f stop).on d' := by
  unfold on ExceptT.run StateT.run
  simp only [tryCatch, tryCatchThe, MonadExceptOf.tryCatch, ExceptT.tryCatch, ExceptT.mk, bind,
    StateT.bind]
  rcases w d with ⟨_ | a, d'⟩ <;> rfl

@[simp] theorem on_tables (d : Desk) : tables.on d = (.ok d.store, d) := rfl

@[simp] theorem on_write (change : Store → Store) (d : Desk) :
    (write change).on d = (.ok (), { d with store := change d.store }) := rfl

@[simp] theorem on_announce (event : Event) (d : Desk) :
    (announce event).on d = (.ok (), { d with waiting := d.waiting ++ [event] }) := rfl

@[simp] theorem on_require_ok (a : α) (d : Desk) : (require (.ok a)).on d = (.ok a, d) := rfl

@[simp] theorem on_require_error (f : Failure) (d : Desk) :
    (require (.error f : Except Failure α)).on d = (.error (.failed f), d) := rfl

/-- A transaction that stops leaves the tables as they were. -/
theorem on_transaction (w : Work α) (d : Desk) :
    w.transaction.on d =
      match w.on d with
      | (.ok a, d') => (.ok a, d')
      | (.error stop, d') => (.error stop, { d' with store := d.store }) := by
  simp only [transaction, on_bind, on_tables, on_tryCatch, on_write, on_throw]

/-- What was written stays when work stops, if no transaction takes it back. -/
example :
    let work : Work Unit := do
      write fun s => s.markHashUsed .zero .empty
      throw .badSignature
    (work.on ⟨.empty, []⟩).2.store.isHashUsed .zero .empty = true ∧
      (work.transaction.on ⟨.empty, []⟩).2.store.isHashUsed .zero .empty = false := by
  decide

/-- A dry run leaves the tables as they were, and ends as the work ends. -/
theorem on_dryRun (w : Work α) (d : Desk) :
    w.dryRun.on d = ((w.on d).1, { (w.on d).2 with store := d.store }) := by
  simp only [dryRun, on_bind, on_tables, on_transaction]
  rcases w.on d with ⟨_ | a, d'⟩ <;> rfl

end Work

end SessionKeys
