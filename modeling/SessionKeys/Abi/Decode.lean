import SessionKeys.Abi.Cursor
import SessionKeys.Abi.Type

/-!
Reading encoded contract arguments. The reader follows offsets wherever they point inside the data,
does not look at filling bytes or at what no offset leads to, and does not check that a number fits
its type. It refuses to read or to go outside the data, and words used as offset, length or integer
of at most 48 bits that are above `2 ^ 53 - 1`. Only between the arguments of a function it goes
nowhere instead of outside the data, and reads the next argument where it stands.
-/

namespace SessionKeys.Abi

open Scan (moveTo follow many)

/-- The signed number that an unsigned word stands for. -/
def signed (n : Nat) : Int :=
  if n < Nat.pow 2 255 then n else (n : Int) - Nat.pow 2 256

/-- Reads an unsigned number of some bits. -/
def unsigned (data : Bytes) (bits : Nat) : Scan Nat := do
  let n ← Scan.word data
  if bits ≤ 48 then Scan.small n else return n

/-- Reads a byte string that an offset from `base` leads to. -/
def byteString (data : Bytes) (base : Nat) : Scan Hex :=
  follow data base fun start => do
    moveTo data start
    return Hex.ofBytes (← Scan.byteString data)

mutual

/-- Reads the value of a type where the cursor stands, in a row that starts at `base`. -/
def decode (data : Bytes) : (t : Ty) → (base : Nat) → Scan t.Val
  | .address, _ => do
    return Address.ofBytes ((← Scan.bytes data 32 32).drop 12)
  | .bool, _ => do
    match ← Scan.word data with
    | 0 => return false
    | 1 => return true
    | _ => throw .invalidBool
  | .uint bits, _ => return (← unsigned data bits : Nat)
  | .number bits, _ => return .ofInt (← unsigned data bits)
  | .int bits, _ => do
    let n := signed (← Scan.word data)
    if bits ≤ 48 ∧ Scan.smallBound ≤ n.natAbs then throw .unsafeInteger else return n
  | .fixedBytes size, _ => do
    return Hex.ofBytes (← Scan.bytes data size 32)
  | .bytes, base => byteString data base
  | .bytesLike, base => byteString data base
  | .string, base => follow data base fun start => do
    moveTo data start
    match String.fromUTF8? ⟨(← Scan.byteString data).toArray⟩ with
    | some s => return s
    | none => throw .invalidText
  | .array item, base => follow data base fun start => do
    moveTo data start
    let length ← Scan.size data
    let first := start + 32
    many (fun offset => moveTo data (first + offset)) (decode data item first) item.headSize length 0
  | .fixedArray length item, base =>
    if item.isDynamic then follow data base fun start =>
      many (fun offset => moveTo data (start + offset)) (decode data item start) 32 length 0
    else many (fun _ => Scan.stay) (decode data item base) item.headSize length 0
  | .tuple fields, base =>
    if fields.isDynamic then follow data base fun start =>
      decodeRow data (fun offset => moveTo data (start + offset)) fields start 0
    else decodeRow data (fun _ => Scan.stay) fields base 0
  | .invalid _, _ => throw .unknownType

/-- Reads values of a row that starts at `base`. Each stands behind the heads of those before it, and
`place` leads to it. -/
def decodeRow (data : Bytes) (place : (offset : Nat) → Scan Unit) :
    (fields : Fields) → (base offset : Nat) → Scan fields.Val
  | .nil, _, _ => pure ()
  | .cons first rest, base, offset => do
    place offset
    let v ← decode data first base
    let vs ← decodeRow data place rest base (offset + first.headSize)
    return (v, vs)

end

/-- Reads the arguments of a function. There has to be at least one word. -/
def decodeBytes (fields : Fields) (data : Bytes) : Except DecodeError fields.Val :=
  if data.length = 0 then .error .noData
  else if data.length < 32 then .error .shortData
  else (decodeRow data (Scan.approach data) fields 0 0).run' .start

/-- Reads the arguments of a function from what a text writes. -/
def decodeFields (fields : Fields) (data : Hex) : Except DecodeError fields.Val :=
  match data.read? with
  | some bytes => decodeBytes fields bytes
  | none => .error .notBytes

end SessionKeys.Abi
