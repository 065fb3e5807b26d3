import SessionKeys.Abi.Encode
import SessionKeys.Abi.Decode

/-!
Calls of contract functions: the selector of the function, four bytes, and its encoded arguments.
-/

namespace SessionKeys.Abi

/-- A contract function: the first four bytes of the hash of its signature, and the types of its
arguments. -/
structure Function where
  selector : Bytes
  inputs : Fields

namespace Function

def writtenSelector (f : Function) : Hex :=
  Hex.ofBytes f.selector

def encodeCall (f : Function) (arguments : f.inputs.Val) : Except EncodingError Hex := do
  return f.writtenSelector ++ (← encodeFields f.inputs arguments)

/-- The arguments of a call of a function. The selector has to be written in small letters, and
something has to follow it. -/
def decodeCall (f : Function) (data : Hex) : Except DecodeError f.inputs.Val :=
  if data.take 4 ≠ f.writtenSelector then .error .unknownSelector
  else if data.size ≤ 4 then .error .outOfBounds
  else decodeFields f.inputs (data.drop 4)

end Function

/-- The selector that call data starts with, in small letters; the empty byte string if it is too
short. -/
def selectorOf (data : Hex) : Hex :=
  if 4 ≤ data.size then (data.take 4).lower else .empty

end SessionKeys.Abi
