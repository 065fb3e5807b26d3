import SessionKeys.Json

/-!
What can be wrong with a value that was handed in, and where. The wording of every issue stands here.
-/

namespace SessionKeys

/-- The kind of a JSON value, or of a value that is missing. -/
inductive JsonKind where
  | null
  | boolean
  | number
  | string
  | array
  | object
  | missing
deriving DecidableEq, Repr

namespace JsonKind

def name : JsonKind → String
  | null => "null"
  | boolean => "boolean"
  | number => "number"
  | string => "string"
  | array => "array"
  | object => "object"
  | missing => "nothing"

/-- The kind of a value that may be missing. -/
def of : Option Json → JsonKind
  | none => missing
  | some .null => null
  | some (.bool _) => boolean
  | some (.number _) => number
  | some (.string _) => string
  | some (.array _) => array
  | some (.object _) => object

end JsonKind

/-- A step from a value into one of its parts. -/
inductive PathStep where
  | key (name : String)
  | index (i : Nat)
deriving DecidableEq, Repr

/-- The way from the whole of what was handed in to a part of it. -/
abbrev Path := List PathStep

/-- What is wrong with a value. -/
inductive IssueCause where
  | wrongKind (expected : String) (received : JsonKind)
  | fraction
  | negative
  | above (bound : Int)
  | tooFewItems (least : Nat)
  | notAllowed (allowed : List String) (received : String)
  | wrongForm (message : String)
  /-- a value fails a check of its own -/
  | rejected (message : String)
  /-- none of several readings succeeds -/
  | noReading
deriving DecidableEq, Repr

namespace IssueCause

/-- Some texts between quotes, with bars between them. -/
def alternatives (texts : List String) : String :=
  " | ".intercalate (texts.map fun t => "'" ++ t ++ "'")

def code : IssueCause → String
  | wrongKind .. | fraction => "invalid_type"
  | negative | tooFewItems _ => "too_small"
  | above _ => "too_big"
  | notAllowed .. => "invalid_enum_value"
  | wrongForm _ => "invalid_string"
  | rejected _ => "custom"
  | noReading => "invalid_union"

def message : IssueCause → String
  | wrongKind _ .missing => "Required"
  | wrongKind expected received => s!"Expected {expected}, received {received.name}"
  | fraction => "Expected integer, received float"
  | negative => "Number must be greater than or equal to 0"
  | above bound => s!"Number must be less than or equal to {bound}"
  | tooFewItems least => s!"Array must contain at least {least} element(s)"
  | notAllowed allowed received =>
    s!"Invalid enum value. Expected {alternatives allowed}, received '{received}'"
  | wrongForm m | rejected m => m
  | noReading => "Invalid input"

end IssueCause

/-- Something that is wrong in what was handed in. -/
structure Issue where
  cause : IssueCause
  path : Path
deriving DecidableEq, Repr

namespace Issue

def stepJson : PathStep → Json
  | .key name => .string name
  | .index i => .ofInt i

def json (issue : Issue) : Json :=
  .object [("code", .string issue.cause.code), ("message", .string issue.cause.message),
    ("path", .array (issue.path.map stepJson))]

end Issue

end SessionKeys
