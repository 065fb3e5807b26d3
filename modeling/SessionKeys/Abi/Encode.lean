import SessionKeys.Abi.Type

/-!
The standard encoding of contract arguments, as written bytes: byte strings keep the case of their
letters. Items in a row are laid out in two parts: in the head each static item stands itself and
each dynamic one by its offset from the start of the row, and the dynamic items follow in order.
-/

namespace SessionKeys.Abi

/-- How many numbers can be written with some binary digits. -/
def valueCount (bits : Nat) : Int :=
  Nat.pow 2 bits

/-- A number as a word of 32 bytes; a negative number counts down from `2 ^ 256`. -/
def word (n : Int) : Hex :=
  Hex.ofBytes (Bytes.ofNat 32 (n % valueCount 256).toNat)

@[simp] theorem size_word (n : Int) : (word n).size = 32 := by
  simp [word]

@[simp] theorem bytes?_word (n : Int) :
    (word n).bytes? = some (Bytes.ofNat 32 (n % valueCount 256).toNat) := by
  simp [word]

/-- An encoded item, and whether it is laid out by an offset. -/
structure Item where
  dynamic : Bool
  encoding : Hex

namespace Item

/-- How many bytes an item takes in the head. -/
def headSize (item : Item) : Nat :=
  if item.dynamic then 32 else item.encoding.size

def headSizes : List Item → Nat
  | [] => 0
  | item :: items => item.headSize + headSizes items

/-- The heads of some items, whose dynamic parts start at `offset`. -/
def heads : (offset : Nat) → List Item → Hex
  | _, [] => Hex.empty
  | offset, item :: items =>
    if item.dynamic then word offset ++ heads (offset + item.encoding.size) items
    else item.encoding ++ heads offset items

/-- The dynamic parts of some items. -/
def tails (items : List Item) : Hex :=
  Hex.join ((items.filter (·.dynamic)).map (·.encoding))

/-- Items in a row. -/
def layout (items : List Item) : Hex :=
  heads (headSizes items) items ++ tails items

end Item

/-- An unsigned number of some bits. -/
def encodeUnsigned (bits : Nat) (n : Int) : Except EncodingError Hex :=
  if 0 ≤ n ∧ n < valueCount bits then .ok (word n) else .error .integerOutOfRange

/-- An unsigned number of some bits, which has to be whole. -/
def encodeNumber (bits : Nat) (n : Number) : Except EncodingError Hex :=
  if 0 ≤ n ∧ n ≤ .ofInt (valueCount bits - 1) then return word (← integral n)
  else .error .integerOutOfRange

@[simp] theorem encodeNumber_ofInt (bits : Nat) (n : Int) :
    encodeNumber bits (.ofInt n) = encodeUnsigned bits n := by
  have lower : (0 : Number) ≤ .ofInt n ↔ 0 ≤ n := Number.ofInt_le_ofInt
  have upper : Number.ofInt n ≤ .ofInt (valueCount bits - 1) ↔ n < valueCount bits := by
    rw [Number.ofInt_le_ofInt]
    omega
  simp only [encodeNumber, encodeUnsigned, lower, upper, integral_ofInt]
  rfl

/-- A signed number of some bits. -/
def encodeSigned (bits : Nat) (n : Int) : Except EncodingError Hex :=
  if -valueCount (bits - 1) ≤ n ∧ n < valueCount (bits - 1) then .ok (word n)
  else .error .integerOutOfRange

/-- An address in the last twenty bytes of a word. -/
def encodeAddress (a : Address) : Except EncodingError Hex :=
  if a.isStrict then .ok (Hex.ofBytes (List.replicate 12 0) ++ a.hex.lower)
  else .error .invalidAddress

/-- A string filled up to some bytes with zeros behind it. -/
def padRight (width : Nat) (h : Hex) : Except EncodingError Hex :=
  match h.padRight? width with
  | some padded => .ok padded
  | none => .error .widerThanPadding

/-- A byte string of fixed length at the start of a word. -/
def encodeFixedBytes (size : Nat) (h : Hex) : Except EncodingError Hex :=
  if h.size ≠ size then .error .bytesSizeMismatch else padRight 32 h

/-- A byte string filled up with zeros to whole words, which are counted by its characters behind the
first two. -/
def padToWords (h : Hex) : Except EncodingError Hex :=
  if h.size % 32 = 0 then .ok h else padRight ((h.chars.length - 2 + 63) / 64 * 32) h

/-- A byte string behind its length. -/
def encodeBytes (h : Hex) : Except EncodingError Hex := do
  return word h.size ++ (← padToWords h)

mutual

/-- The encoding of a value. -/
def encode : (t : Ty) → t.Val → Except EncodingError Hex
  | .address, a => encodeAddress a
  | .bool, b => .ok (word (if b then 1 else 0))
  | .uint bits, n => encodeUnsigned bits n
  | .number bits, n => encodeNumber bits n
  | .int bits, n => encodeSigned bits n
  | .fixedBytes size, h => encodeFixedBytes size h
  | .bytes, h => encodeBytes h
  | .bytesLike, h => encodeBytes h
  | .string, s => encodeBytes (Hex.ofBytes (utf8Bytes s))
  | .array item, vs => do
    let items ← vs.mapM fun v => (encode item v).map (Item.mk item.isDynamic)
    return word vs.length ++ Item.layout items
  | .fixedArray length item, vs =>
    if vs.length ≠ length then .error .arrayLengthMismatch
    else do
      if length = 0 then item.checkFields
      let items ← vs.mapM fun v => (encode item v).map (Item.mk item.isDynamic)
      return Item.layout items
  | .tuple fields, vs => do return Item.layout (← encodeItems fields vs)
  | .invalid reason, _ => .error reason

def encodeItems : (fields : Fields) → fields.Val → Except EncodingError (List Item)
  | .nil, () => .ok []
  | .cons first rest, (v, vs) => do
    let item ← encode first v
    let items ← encodeItems rest vs
    return ⟨first.isDynamic, item⟩ :: items

end

/-- The encoding of the arguments of a function. -/
def encodeFields (fields : Fields) (values : fields.Val) : Except EncodingError Hex := do
  return Item.layout (← encodeItems fields values)

end SessionKeys.Abi
