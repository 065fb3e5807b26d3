import SessionKeys.Failure

/-!
Nested byte strings and their length-prefixed wire format. Writing is canonical; reading also accepts
lengths that are longer than they need to be and single bytes behind a prefix, but a list has to be
filled exactly by its items, nothing may follow the outermost item, and at most `Rlp.depthLimit` items
may stand one inside the other.
-/

namespace SessionKeys

/-- A byte string, or a list of such things. -/
inductive Rlp where
  | bytes (h : Hex)
  | list (items : List Rlp)

namespace Rlp

/-! ### Writing -/

/-- The first bytes of an item of `length` bytes. The kind of item is told by `offset`: `0x80` for
byte strings and `0xc0` for lists. -/
def header (offset length : Nat) : Except EncodingError Bytes :=
  if length ≤ 55 then .ok [UInt8.ofNat (offset + length)]
  else if length < 0x100 then .ok (UInt8.ofNat (offset + 56) :: Bytes.ofNat 1 length)
  else if length < 0x10000 then .ok (UInt8.ofNat (offset + 57) :: Bytes.ofNat 2 length)
  else if length < 0x1000000 then .ok (UInt8.ofNat (offset + 58) :: Bytes.ofNat 3 length)
  else if length < 0x100000000 then .ok (UInt8.ofNat (offset + 59) :: Bytes.ofNat 4 length)
  else .error .lengthTooLarge

/-- The wire form of a byte string. A single byte below `0x80` stands for itself. -/
def encodeBytes (b : Bytes) : Except EncodingError Bytes :=
  match b with
  | [x] => if x.toNat < 0x80 then .ok [x] else .ok [0x81, x]
  | b => do return (← header 0x80 b.length) ++ b

mutual

/-- The wire form of an item. -/
def encode : Rlp → Except EncodingError Bytes
  | bytes h =>
    match h.read? with
    | some b => encodeBytes b
    | none => .error .notBytes
  | list items => do
    let payload ← encodeAll items
    return (← header 0xc0 payload.length) ++ payload

def encodeAll : List Rlp → Except EncodingError Bytes
  | [] => .ok []
  | item :: items => do
    let first ← encode item
    let rest ← encodeAll items
    return first ++ rest

end

/-! ### Reading -/

/-- How many items may stand one inside the other. -/
def depthLimit : Nat := 1024

/-- The first `n` bytes, and what follows them. -/
def split (n : Nat) (b : Bytes) : Except DecodeError (Bytes × Bytes) :=
  if n ≤ b.length then .ok (b.take n, b.drop n) else .error .outOfBounds

/-- The contents of an item that starts with a prefix `short` above the offset of its kind, and what
follows the item: a short length stands in the prefix itself, a long one in the next bytes. -/
def contents (short : Nat) (b : Bytes) : Except DecodeError (Bytes × Bytes) :=
  if short ≤ 55 then split short b
  else if short ≤ 59 then do
    let (length, rest) ← split (short - 55) b
    split length.toNat rest
  else .error .invalidPrefix

/-- Reads items until nothing is left. Every item takes at least one byte, so `fuel` need not exceed
the number of bytes. -/
def readAll (read : Bytes → Except DecodeError (Rlp × Bytes)) :
    (fuel : Nat) → Bytes → Except DecodeError (List Rlp)
  | _, [] => .ok []
  | 0, _ :: _ => .error .listOverrun
  | fuel + 1, b => do
    let (item, rest) ← read b
    return item :: (← readAll read fuel rest)

/-- Reads one item in which at most `depth` items stand one inside the other, itself included, and
gives what follows it. -/
def readItem : (depth : Nat) → Bytes → Except DecodeError (Rlp × Bytes)
  | 0, _ => .error .nestedTooDeeply
  | _ + 1, [] => .error .outOfBounds
  | depth + 1, first :: rest =>
    if first.toNat < 0x80 then .ok (bytes (Hex.ofBytes [first]), rest)
    else if first.toNat < 0xc0 then do
      let (content, rest) ← contents (first.toNat - 0x80) rest
      return (bytes (Hex.ofBytes content), rest)
    else do
      let (content, rest) ← contents (first.toNat - 0xc0) rest
      return (list (← readAll (readItem depth) content.length content), rest)

/-- The item that some bytes write. No bytes at all write the empty byte string. -/
def decode (b : Bytes) : Except DecodeError Rlp :=
  match b with
  | [] => .ok (bytes .empty)
  | b => do
    let (item, rest) ← readItem depthLimit b
    if rest.isEmpty then return item else throw .trailingBytes

/-- The item that a text writes. Its digits have to come in pairs, but a single one may stand alone. -/
def ofHex (h : Hex) : Except DecodeError Rlp :=
  if 3 < h.chars.length ∧ h.chars.length % 2 = 1 then .error .notBytes
  else
    match h.read? with
    | some b => decode b
    | none => .error .notBytes

end Rlp

end SessionKeys
