import Mathlib
import SessionKeys.Bytes

/-!
Byte strings and the numbers they spell are two readings of one another: a number that fits is spelled
by the string made from it (`toNat_ofNat`), and every string is made from the number it spells
(`ofNat_toNat`).
-/

namespace SessionKeys.Bytes

theorem toNat_concat (bytes : Bytes) (b : UInt8) :
    toNat (bytes ++ [b]) = 256 * toNat bytes + b.toNat := by
  simp [toNat, List.foldl_append]

theorem toNat_ofNat (width n : Nat) : toNat (ofNat width n) = n % 256 ^ width := by
  induction width generalizing n with
  | zero => simp [ofNat, toNat, Nat.mod_one]
  | succ width ih =>
    have hmod : n % 256 ^ (width + 1) = n % 256 + 256 * (n / 256 % 256 ^ width) := by
      rw [Nat.pow_succ', Nat.mod_mul]
    rw [ofNat, toNat_concat, ih, UInt8.toNat_ofNat', hmod]
    omega

theorem toNat_lt (bytes : Bytes) : toNat bytes < 256 ^ bytes.length := by
  rw [← List.reverse_reverse bytes]
  induction bytes.reverse with
  | nil => simp [toNat]
  | cons b rest ih =>
    rw [List.reverse_cons, toNat_concat, List.length_append, List.length_singleton, Nat.pow_succ']
    have := b.toNat_lt
    omega

theorem ofNat_toNat (bytes : Bytes) : ofNat bytes.length (toNat bytes) = bytes := by
  rw [← List.reverse_reverse bytes]
  induction bytes.reverse with
  | nil => rfl
  | cons b rest ih =>
    have hb := b.toNat_lt
    rw [List.reverse_cons, toNat_concat, List.length_append, List.length_singleton, ofNat]
    rw [show (256 * toNat rest.reverse + b.toNat) / 256 = toNat rest.reverse by omega, ih]
    have hlow : UInt8.ofNat (256 * toNat rest.reverse + b.toNat) = b := by
      rw [← UInt8.toNat_inj, UInt8.toNat_ofNat']
      omega
    rw [hlow]

end SessionKeys.Bytes
