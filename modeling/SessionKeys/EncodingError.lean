import SessionKeys.Binary64.Shortest

/-!
Why a value cannot be encoded.
-/

namespace SessionKeys

/-- Why a value cannot be encoded as the type that was asked for. -/
inductive EncodingError where
  | invalidAddress
  | integerOutOfRange
  | notWhole (number : Number)
  | bytesSizeMismatch
  | arrayLengthMismatch
  | unknownType
  | widerThanPadding
  | missingFields
  | lengthTooLarge
  | notBytes
  | invalidLeaf
deriving DecidableEq, Repr

namespace EncodingError

def message : EncodingError → String
  | invalidAddress => "address is malformed or has a wrong checksum"
  | integerOutOfRange => "integer does not fit its type"
  | notWhole number =>
    s!"The number {number.text} cannot be converted to a BigInt because it is not an integer"
  | bytesSizeMismatch => "byte string has the wrong length for its type"
  | arrayLengthMismatch => "array has the wrong length for its type"
  | unknownType => "unknown type"
  | widerThanPadding => "byte string is too long to be filled up"
  | missingFields => "fields of a tuple are missing"
  | lengthTooLarge => "byte string is too long"
  | notBytes => "text does not write bytes"
  | invalidLeaf => "session cannot be made a leaf"

end EncodingError

/-- The integer that a number is. -/
def integral (n : Number) : Except EncodingError Int :=
  match n.toInt? with
  | some i => .ok i
  | none => .error (.notWhole n)

@[simp] theorem integral_ofInt (n : Int) : integral (.ofInt n) = .ok n := by
  simp [integral]

end SessionKeys
