/-!
Byte strings, and the numbers they spell with the most significant byte first.
-/

namespace SessionKeys

abbrev Bytes := List UInt8

namespace Bytes

/-- The number a byte string spells, most significant byte first. The empty string spells zero. -/
def toNat (bytes : Bytes) : Nat :=
  bytes.foldl (fun n b => 256 * n + b.toNat) 0

/-- The `width` low-order bytes of a number, most significant byte first. -/
def ofNat : (width n : Nat) → Bytes
  | 0, _ => []
  | width + 1, n => ofNat width (n / 256) ++ [UInt8.ofNat n]

@[simp] theorem length_ofNat (width n : Nat) : (ofNat width n).length = width := by
  induction width generalizing n with
  | zero => rfl
  | succ width ih => simp [ofNat, ih]

end Bytes

end SessionKeys
