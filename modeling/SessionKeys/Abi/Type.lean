import SessionKeys.Address
import SessionKeys.Digits

/-!
The types of contract arguments, and the values they have. A list of fields is the type of a tuple
and of the arguments of a function. Types are *dynamic* when the size of their encoding depends on
the value; a dynamic item stands in its place by an offset. Every name is taken for a type: one that is
not understood stands for a type whose values cannot be encoded.
-/

namespace SessionKeys.Abi

mutual

/-- The type of a contract argument. -/
inductive Ty where
  | address
  | bool
  | uint (bits : Nat)
  /-- an unsigned integer given as a number, which can be encoded only if it is whole -/
  | number (bits : Nat)
  | int (bits : Nat)
  | fixedBytes (size : Nat)
  | bytes
  /-- byte strings of any length, under a name that does not tell that they are dynamic -/
  | bytesLike
  | string
  | array (item : Ty)
  | fixedArray (length : Nat) (item : Ty)
  | tuple (fields : Fields)
  /-- what a name stands for that is no type: no value can be encoded, for a reason -/
  | invalid (reason : EncodingError)

/-- The types of some items in a row. -/
inductive Fields where
  | nil
  | cons (first : Ty) (rest : Fields)

end

mutual

/-- The values of a type. Numbers are not bounded here: one that does not fit cannot be encoded. -/
@[reducible] def Ty.Val : Ty → Type
  | .address => Address
  | .bool => Bool
  | .uint _ => Int
  | .number _ => Number
  | .int _ => Int
  | .fixedBytes _ => Hex
  | .bytes => Hex
  | .bytesLike => Hex
  | .string => String
  | .array item => List item.Val
  | .fixedArray _ item => List item.Val
  | .tuple fields => fields.Val
  | .invalid _ => Unit

/-- The values of some items in a row. -/
@[reducible] def Fields.Val : Fields → Type
  | .nil => Unit
  | .cons first rest => first.Val × rest.Val

end

/-- Items in a row, followed by others. -/
@[reducible] def Fields.append : Fields → Fields → Fields
  | .nil, fields => fields
  | .cons first rest, fields => .cons first (rest.append fields)

/-- Values in a row, followed by others. -/
def Fields.join : (a b : Fields) → a.Val → b.Val → (a.append b).Val
  | .nil, _, (), v => v
  | .cons _ rest, b, (x, u), v => (x, rest.join b u v)

/-- Takes values in a row apart again. -/
def Fields.divide : (a b : Fields) → (a.append b).Val → a.Val × b.Val
  | .nil, _, v => ((), v)
  | .cons _ rest, b, (x, w) => let (u, v) := rest.divide b w; ((x, u), v)

mutual

/-- Whether a type is known to be dynamic before there is a value: byte strings, texts and arrays of
any length are. -/
def Ty.isKnownDynamic : Ty → Bool
  | .bytes | .string | .array _ => true
  | .fixedArray _ item => item.isKnownDynamic
  | .tuple fields => fields.isKnownDynamic
  | _ => false

def Fields.isKnownDynamic : Fields → Bool
  | .nil => false
  | .cons first rest => first.isKnownDynamic || rest.isKnownDynamic

end

mutual

/-- Whether the size of the encoding depends on the value. An array without items has none to tell, and
is what its items are known to be. -/
def Ty.isDynamic : Ty → Bool
  | .bytes | .bytesLike | .string | .array _ => true
  | .fixedArray 0 item => item.isKnownDynamic
  | .fixedArray (_ + 1) item => item.isDynamic
  | .tuple fields => fields.isDynamic
  | _ => false

def Fields.isDynamic : Fields → Bool
  | .nil => false
  | .cons first rest => first.isDynamic || rest.isDynamic

end

/-- Checks that it can be told of a type whether it is dynamic: of a tuple it cannot if its fields are
not given. -/
def Ty.checkFields : Ty → Except EncodingError Unit
  | .fixedArray _ item => item.checkFields
  | .invalid .missingFields => .error .missingFields
  | _ => .ok ()

mutual

/-- How many bytes an item takes in its place: one word for the offset of a dynamic item, and the
whole encoding of any other. -/
def Ty.headSize : Ty → Nat
  | .fixedArray length item => if item.isDynamic then 32 else length * item.headSize
  | .tuple fields => if fields.isDynamic then 32 else fields.headSize
  | _ => 32

def Fields.headSize : Fields → Nat
  | .nil => 0
  | .cons first rest => first.headSize + rest.headSize

end

/-! ### Names -/

/-- The size of an integer type, given what follows its name: a multiple of eight up to 256 as it is
usually written, and 256 otherwise. -/
def integerSize (suffix : List Char) : Nat :=
  match decimal? suffix with
  | some bits =>
    if bits % 8 = 0 ∧ 8 ≤ bits ∧ bits ≤ 256 ∧ suffix.head? ≠ some '0' then bits else 256
  | none => 256

/-- The start of some characters, up to where `bytes` is written. -/
def beforeBytes : List Char → List Char
  | 'b' :: 'y' :: 't' :: 'e' :: 's' :: _ => []
  | c :: cs => c :: beforeBytes cs
  | [] => []

/-- The type of byte strings, given what follows its name: of any length if nothing does, and else of
the length at its start. No byte string has a length that is negative or no number. -/
def bytesOfSuffix (suffix : List Char) : Ty :=
  match beforeBytes suffix with
  | [] => if suffix.isEmpty then .bytes else .bytesLike
  | size =>
    match leadingInteger? size with
    | some (.ofNat n) => .fixedBytes n
    | _ => .invalid .bytesSizeMismatch

/-- The type of a name that is not the name of an array. What follows the name of an integer type or of
a type of byte strings counts as far as it is understood. -/
def Ty.ofBaseName (name : List Char) : Ty :=
  match name with
  | ['t', 'u', 'p', 'l', 'e'] => .invalid .missingFields
  | ['a', 'd', 'd', 'r', 'e', 's', 's'] => .address
  | ['b', 'o', 'o', 'l'] => .bool
  | ['s', 't', 'r', 'i', 'n', 'g'] => .string
  | 'b' :: 'y' :: 't' :: 'e' :: 's' :: suffix => bytesOfSuffix suffix
  | 'u' :: 'i' :: 'n' :: 't' :: suffix => .uint (integerSize suffix)
  | 'i' :: 'n' :: 't' :: suffix => .int (integerSize suffix)
  | _ => .invalid .unknownType

/-- The brackets at the end of a name of one line, with nothing or a number between them. Given the name
backwards, this gives the number and the rest of the name, backwards too. -/
def brackets? : List Char → Option (Option Nat × List Char)
  | ']' :: cs =>
    match cs.dropWhile Char.isDigit with
    | '[' :: rest =>
      if rest.any isLineEnd then none
      else some (decimal? (cs.takeWhile Char.isDigit).reverse, rest)
    | _ => none
  | _ => none

/-- The type of a name, given backwards. -/
def Ty.ofReversedName : (fuel : Nat) → List Char → Ty
  | 0, cs => .ofBaseName cs.reverse
  | fuel + 1, cs =>
    match brackets? cs with
    | some (none, item) => .array (Ty.ofReversedName fuel item)
    | some (some length, item) => .fixedArray length (Ty.ofReversedName fuel item)
    | none => .ofBaseName cs.reverse

/-- The type of a name such as `uint256[2][]`. -/
def Ty.ofName (name : String) : Ty :=
  let cs := name.toList.reverse
  Ty.ofReversedName cs.length cs

end SessionKeys.Abi
