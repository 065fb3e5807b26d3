import SessionKeys.Hex

/-!
The 256-bit Keccak hash with the padding `01…80`: the permutation of 24 rounds on 25 lanes of 64
bits, a sponge that takes in 17 lanes (136 bytes) at a time, and the first four lanes as the digest.
A digest has 32 bytes (`length_digest`).
-/

namespace SessionKeys

namespace Keccak

/-- The 25 lanes of a sponge; the lane in column `x` and row `y` stands at `5 * y + x`. -/
abbrev State := Vector UInt64 25

/-- The lane at column `x` and row `y`, both counted modulo five. -/
def lane (s : State) (x y : Nat) : UInt64 :=
  s.get ⟨5 * (y % 5) + x % 5, by omega⟩

/-- The state whose lane at column `x` and row `y` is `f x y`. -/
def tabulate (f : (x y : Nat) → UInt64) : State :=
  Vector.ofFn fun i => f (i.val % 5) (i.val / 5)

/-- Rotation of a lane to the left. -/
def rotateLeft (v : UInt64) (n : UInt64) : UInt64 :=
  (v <<< n) ||| (v >>> (64 - n))

/-- How far each lane is rotated. -/
def rotations : Vector UInt64 25 :=
  #v[0, 1, 62, 28, 27, 36, 44, 6, 55, 20, 3, 10, 43, 25, 39, 41, 45, 15, 21, 8, 18, 2, 61, 56, 14]

/-- What each round adds to the first lane. -/
def roundConstants : List UInt64 :=
  [0x0000000000000001, 0x0000000000008082, 0x800000000000808A, 0x8000000080008000,
   0x000000000000808B, 0x0000000080000001, 0x8000000080008081, 0x8000000000008009,
   0x000000000000008A, 0x0000000000000088, 0x0000000080008009, 0x000000008000000A,
   0x000000008000808B, 0x800000000000008B, 0x8000000000008089, 0x8000000000008003,
   0x8000000000008002, 0x8000000000000080, 0x000000000000800A, 0x800000008000000A,
   0x8000000080008081, 0x8000000000008080, 0x0000000080000001, 0x8000000080008008]

/-- Adds to each lane the parities of two neighbouring columns. -/
def mixColumns (s : State) : State :=
  let parity : Vector UInt64 5 := Vector.ofFn fun x =>
    lane s x 0 ^^^ lane s x 1 ^^^ lane s x 2 ^^^ lane s x 3 ^^^ lane s x 4
  let change : Vector UInt64 5 := Vector.ofFn fun x =>
    parity.get ⟨(x.val + 4) % 5, by omega⟩ ^^^
      rotateLeft (parity.get ⟨(x.val + 1) % 5, by omega⟩) 1
  tabulate fun x y => lane s x y ^^^ change.get ⟨x % 5, by omega⟩

/-- Rotates every lane and moves it to its new place. -/
def rotateAndMove (s : State) : State :=
  tabulate fun x y => rotateLeft (lane s (x + 3 * y) x) (lane rotations (x + 3 * y) x)

/-- Combines each lane with the next two of its row. -/
def combineRows (s : State) : State :=
  tabulate fun x y => lane s x y ^^^ (~~~(lane s (x + 1) y) &&& lane s (x + 2) y)

def round (s : State) (constant : UInt64) : State :=
  let s := combineRows (rotateAndMove (mixColumns s))
  s.set 0 (s[0] ^^^ constant)

def permute (s : State) : State :=
  roundConstants.foldl round s

/-- Bytes in one block. -/
def rate : Nat := 136

/-- A message filled up to whole blocks: a byte `01`, zeros, and the top bit of the last byte. -/
def pad (message : Bytes) : Bytes :=
  let missing := rate - message.length % rate
  if missing = 1 then message ++ [0x81]
  else message ++ [0x01] ++ List.replicate (missing - 2) 0x00 ++ [0x80]

/-- Eight bytes as a lane, least significant byte first; a short end counts as zeros. -/
def laneOfBytes (bytes : Bytes) : UInt64 :=
  bytes.foldr (fun b v => (v <<< 8) ||| b.toUInt64) 0

/-- A lane as eight bytes, least significant byte first. -/
def bytesOfLane (v : UInt64) : Bytes :=
  [v.toUInt8, (v >>> 8).toUInt8, (v >>> 16).toUInt8, (v >>> 24).toUInt8,
   (v >>> 32).toUInt8, (v >>> 40).toUInt8, (v >>> 48).toUInt8, (v >>> 56).toUInt8]

/-- Takes one block into the state. -/
def absorb (s : State) (block : Bytes) : State :=
  permute (Vector.ofFn fun i =>
    if i.val < 17 then s[i] ^^^ laneOfBytes ((block.drop (8 * i.val)).take 8) else s[i])

/-- Takes the first `count` blocks of a message into the state. -/
def absorbBlocks : (count : Nat) → State → Bytes → State
  | 0, s, _ => s
  | count + 1, s, message => absorbBlocks count (absorb s (message.take rate)) (message.drop rate)

def digest (message : Bytes) : Bytes :=
  let padded := pad message
  let s := absorbBlocks (padded.length / rate) (Vector.replicate 25 0) padded
  bytesOfLane s[0] ++ bytesOfLane s[1] ++ bytesOfLane s[2] ++ bytesOfLane s[3]

@[simp] theorem length_digest (message : Bytes) : (digest message).length = 32 := rfl

end Keccak

/-- The hash of a text in the place of a byte string, in small letters. -/
def Hex.keccak (h : Hex) : Hex :=
  Hex.ofBytes (Keccak.digest h.content)

@[simp] theorem Hex.bytes?_keccak (h : Hex) : h.keccak.bytes? = some (Keccak.digest h.content) := by
  simp [Hex.keccak]

@[simp] theorem Hex.size_keccak (h : Hex) : h.keccak.size = 32 := by
  simp [Hex.keccak]

end SessionKeys
