import SessionKeys.EncodingError
import SessionKeys.Keccak

/-!
Addresses as they are written. Any text may stand for a holder; what a holder is filed under is its
writing in small letters (`Hex.key`). A *well-formed* address has twenty bytes, and the case of its
letters can carry a checksum. A *strict* one is moreover written in small letters or with the right
checksum, and only strict addresses can be encoded.
-/

namespace SessionKeys

/-! ### Keys -/

/-- The parts of some characters between colons. -/
def segments : List Char → List (List Char)
  | [] => [[]]
  | c :: cs =>
    if c = ':' then [] :: segments cs
    else
      match segments cs with
      | [] => [[c]]
      | first :: rest => (c :: first) :: rest

theorem segments_of_not_mem {cs : List Char} (h : ':' ∉ cs) : segments cs = [cs] := by
  induction cs with
  | nil => rfl
  | cons c cs ih =>
    simp only [List.mem_cons, not_or] at h
    rw [segments, if_neg (Ne.symm h.1), ih h.2]

/-- What is filed under a text: the parts of it between colons, in small letters. Texts in a row are
filed under all their parts, so it does not show where one of them ends. -/
def Hex.key (h : Hex) : List (List Char) :=
  segments h.lower.chars

theorem Hex.colon_not_mem_ofBytes (b : Bytes) : ':' ∉ (Hex.ofBytes b).chars := by
  have digit : ∀ n < 16, hexDigit n ≠ ':' := by decide
  have digits : ':' ∉ b.flatMap Hex.byteDigits := by
    intro h
    obtain ⟨x, _, hx⟩ := List.mem_flatMap.1 h
    have hlt := x.toNat_lt
    simp only [Hex.byteDigits, List.mem_cons, List.not_mem_nil, or_false] at hx
    rcases hx with hx | hx
    · exact digit _ (by omega) hx.symm
    · exact digit _ (by omega) hx.symm
  simp only [Hex.ofBytes, Hex.ofDigits, List.mem_cons, not_or]
  exact ⟨by decide, by decide, digits⟩

/-- A byte string is filed under its writing in small letters. -/
theorem Hex.key_of_bytes? {h : Hex} {b : Bytes} (hb : h.bytes? = some b) :
    h.key = [(Hex.ofBytes b).chars] := by
  rw [Hex.key, Hex.lower_of_bytes? hb, segments_of_not_mem (Hex.colon_not_mem_ofBytes b)]

/-- Byte strings are filed under one key if they have the same bytes. -/
theorem Hex.key_inj {g h : Hex} {x y : Bytes} (hx : g.bytes? = some x) (hy : h.bytes? = some y) :
    g.key = h.key ↔ x = y := by
  rw [Hex.key_of_bytes? hx, Hex.key_of_bytes? hy, ← Hex.ofBytes_inj]
  simp [Hex.ofBytes, Hex.ofDigits]

/-! ### Addresses -/

/-- An address as written. -/
structure Address where
  hex : Hex
deriving DecidableEq, Repr

namespace Address

def key (a : Address) : List (List Char) :=
  a.hex.key

def text (a : Address) : String :=
  a.hex.text

/-- Any text, in the place of an address. -/
def ofText (s : String) : Address :=
  ⟨Hex.ofText s⟩

/-- The address of twenty zero bytes. It stands for "none" as a paymaster and for the native token. -/
def zero : Address :=
  ⟨Hex.ofBytes (List.replicate 20 0)⟩

def bytes? (a : Address) : Option Bytes :=
  a.hex.bytes?.filter fun b => b.length == 20

/-- An address has twenty bytes. -/
def IsWellFormed (a : Address) : Prop :=
  a.bytes?.isSome = true

instance (a : Address) : Decidable a.IsWellFormed :=
  inferInstanceAs (Decidable (_ = _))

theorem bytes?_eq_some_iff {a : Address} {b : Bytes} :
    a.bytes? = some b ↔ a.hex.bytes? = some b ∧ b.length = 20 := by
  simp [bytes?, Option.filter_eq_some_iff]

theorem IsWellFormed.exists_bytes {a : Address} (h : a.IsWellFormed) : ∃ b, a.bytes? = some b :=
  Option.isSome_iff_exists.1 h

/-! ### Checksum -/

/-- The checksummed writing of bytes: a letter is a capital where the hash of the small writing has
a digit of eight or more. -/
def checksum (bytes : Bytes) : Hex :=
  let digits := bytes.flatMap Hex.byteDigits
  let hash := Keccak.digest (digits.map fun c => UInt8.ofNat c.toNat)
  let marks := hash.flatMap fun b => [b.toNat / 16, b.toNat % 16]
  Hex.ofDigits (List.zipWith (fun c n => if 8 ≤ n then c.toUpper else c) digits marks)

/-- The address of some bytes, with its checksum. -/
def ofBytes (bytes : Bytes) : Address :=
  ⟨checksum bytes⟩

/-- The same address with its checksum, if it is well formed. -/
def checksummed? (a : Address) : Option Address :=
  a.bytes?.map ofBytes

/-- The address that a text in the place of a byte string writes, with its checksum. -/
def ofHex (h : Hex) : Except EncodingError Address :=
  match checksummed? ⟨h⟩ with
  | some a => .ok a
  | none => .error .invalidAddress

/-- Whether an address may be encoded. -/
def isStrict (a : Address) : Bool :=
  match a.bytes? with
  | some bytes => a.hex == a.hex.lower || a.hex == checksum bytes
  | none => false

/-! ### Comparison -/

/-- Whether two addresses are the same, whatever the case of their letters. Addresses that are not
well formed cannot be compared. -/
def same (a b : Address) : Except EncodingError Bool :=
  if a.IsWellFormed ∧ b.IsWellFormed then .ok (a.hex.same b.hex) else .error .invalidAddress

theorem same_eq_ok {a b : Address} (ha : a.IsWellFormed) (hb : b.IsWellFormed) :
    same a b = .ok (a.hex.same b.hex) := by
  simp [same, ha, hb]

theorem hexDigit?_toUpper {n : Nat} (h : n < 16) : hexDigit? (hexDigit n).toUpper = some n := by
  revert n
  decide

/-- A checksum changes no byte of an address. -/
theorem bytes?_checksum {bytes : Bytes} (h : bytes.length ≤ 32) :
    (checksum bytes).bytes? = some bytes := by
  have digit (n mark : Nat) (hn : n < 16) :
      hexDigit? (if 8 ≤ mark then (hexDigit n).toUpper else hexDigit n) = some n := by
    split
    · exact hexDigit?_toUpper hn
    · exact hexDigit?_hexDigit hn
  have general : ∀ (small hash : Bytes), small.length ≤ hash.length →
      Hex.bytesOfDigits? (List.zipWith (fun c n => if 8 ≤ n then Char.toUpper c else c)
        (small.flatMap Hex.byteDigits) (hash.flatMap fun b => [b.toNat / 16, b.toNat % 16])) =
        some small := by
    intro small hash hlen
    induction small generalizing hash with
    | nil => rfl
    | cons b rest ih =>
      cases hash with
      | nil => simp at hlen
      | cons x hash =>
        have hb := b.toNat_lt
        have hval : b = UInt8.ofNat (16 * (b.toNat / 16) + b.toNat % 16) := by
          rw [← UInt8.toNat_inj, UInt8.toNat_ofNat']
          omega
        have := ih hash (by simpa using hlen)
        exact Hex.bytesOfDigits?_cons_cons.2 ⟨_, _, rest, digit _ _ (by omega),
          digit _ _ (by omega), this, by rw [← hval]⟩
  exact general _ _ (by simpa using h)

/-- An address made from twenty bytes is well formed and has these bytes. -/
theorem bytes?_ofBytes {bytes : Bytes} (h : bytes.length = 20) : (ofBytes bytes).bytes? = some bytes :=
  bytes?_eq_some_iff.2 ⟨bytes?_checksum (by omega), h⟩

end Address

end SessionKeys
