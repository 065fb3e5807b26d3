import SessionKeys.Schema.Issue

/-!
Reading values that were handed in, with all their issues. A reading that fails is *soft* if the value
has the right shape and only a form, a size or a range is wrong, and *hard* otherwise. Readings of the
parts of a value are joined without stopping at the first failure, and the whole is soft only if all
failing parts are. Where a value may be read in several ways, the first success counts; if there is
none, the first soft failure tells what is wrong.
-/

namespace SessionKeys

/-- The result of reading a value. -/
inductive Reading (α : Type) where
  | ok (value : α)
  | soft (issues : List Issue)
  | hard (issues : List Issue)

namespace Reading

variable {α β : Type}

def issues : Reading α → List Issue
  | ok _ => []
  | soft issues => issues
  | hard issues => issues

def map (f : α → β) : Reading α → Reading β
  | ok a => ok (f a)
  | soft issues => soft issues
  | hard issues => hard issues

/-- Joins two readings. -/
def apply : Reading (α → β) → Reading α → Reading β
  | ok f, r => r.map f
  | soft issues, ok _ => soft issues
  | soft issues, soft more => soft (issues ++ more)
  | soft issues, hard more => hard (issues ++ more)
  | hard issues, r => hard (issues ++ r.issues)

instance : Applicative Reading where
  pure := ok
  seq f r := apply f (r ())
  map := map

/-- Goes on with a value that was read by a step that may fail. -/
def andThen (r : Reading α) (step : α → Reading β) : Reading β :=
  match r with
  | ok a => step a
  | soft issues => soft issues
  | hard issues => hard issues

/-- The first success, or else the first soft failure among some readings. -/
def best? : List (Reading α) → Option (Reading α)
  | [] => none
  | ok a :: _ => some (ok a)
  | soft issues :: rest =>
    match best? rest with
    | some (ok a) => some (ok a)
    | _ => some (soft issues)
  | hard _ :: rest => best? rest

/-- One of several ways to read a value. -/
def firstOf (path : Path) (readings : List (Reading α)) : Reading α :=
  (best? readings).getD (hard [⟨.noReading, path⟩])

/-- A hard failure for one cause. -/
def fail (path : Path) (cause : IssueCause) : Reading α :=
  hard [⟨cause, path⟩]

/-- A soft failure for some causes; a success if there is none. -/
def softly (path : Path) (value : α) (causes : List IssueCause) : Reading α :=
  if causes.isEmpty then ok value else soft (causes.map fun cause => ⟨cause, path⟩)

end Reading

/-- A way to read a value that may be missing and that stands at some path. -/
abbrev Reader (α : Type) := (path : Path) → (value : Option Json) → Reading α

namespace Reader

variable {α : Type}

/-- A value that may be missing. -/
def optional (read : Reader α) : Reader (Option α) := fun path value =>
  match value with
  | none => .ok none
  | some v => (read path (some v)).map some

/-- A value that stands for another one if it is missing. -/
def orElse (read : Reader α) (fallback : α) : Reader α := fun path value =>
  match value with
  | none => .ok fallback
  | some v => read path (some v)

def fields (read : (path : Path) → List (String × Json) → Reading α) : Reader α := fun path value =>
  match value with
  | some (.object fields) => read path fields
  | other => .fail path (.wrongKind "object" (.of other))

def field (read : Reader α) (name : String) (path : Path) (fields : List (String × Json)) :
    Reading α :=
  read (path ++ [.key name]) (Json.field? fields name)

/-- Reads the items of a list in order, from the one at `index` on. -/
def items (read : Reader α) (path : Path) : (index : Nat) → List Json → Reading (List α)
  | _, [] => .ok []
  | index, item :: rest =>
    (· :: ·) <$> read (path ++ [.index index]) (some item) <*> items read path (index + 1) rest

/-- A list of at least some length. -/
def list (read : Reader α) (least : Nat) : Reader (List α) := fun path value =>
  match value with
  | some (.array values) =>
    (fun _ list => list)
      <$> Reading.softly path () (if values.length < least then [.tooFewItems least] else [])
      <*> items read path 0 values
  | other => .fail path (.wrongKind "array" (.of other))

end Reader

end SessionKeys
