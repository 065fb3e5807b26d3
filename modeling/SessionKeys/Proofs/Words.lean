import SessionKeys.Abi.Encode
import SessionKeys.Bytes.Lemmas
import SessionKeys.Proofs.Computation

/-!
The bytes of single encoded values. An address, a number or a byte string that may be encoded has an
encoding that writes bytes, whatever the case of its letters: one word, or for a byte string of any
length some words behind its length (`Abi.encodeBytes_of_bytes?`).
-/

namespace SessionKeys

/-! ### Written fields -/

namespace Hex

theorem bytesOfDigits?_zeros (count : Nat) :
    bytesOfDigits? (List.replicate (2 * count) '0') = some (List.replicate count 0) := by
  have digits : List.replicate (2 * count) '0' =
      (List.replicate count (0 : UInt8)).flatMap byteDigits := by
    induction count with
    | zero => rfl
    | succ count ih =>
      rw [show 2 * (count + 1) = 2 * count + 1 + 1 by omega, List.replicate_succ,
        List.replicate_succ, List.replicate_succ, List.flatMap_cons, ih]
      rfl
  rw [digits, bytesOfDigits?_flatMap]

/-- A byte string that is not too long is filled up with zero bytes. -/
theorem padRight?_of_bytes? {h : Hex} {b : Bytes} (hb : h.bytes? = some b) {width : Nat}
    (fits : b.length ≤ width) :
    ∃ padded, h.padRight? width = some padded ∧
      padded.bytes? = some (b ++ List.replicate (width - b.length) 0) := by
  obtain ⟨d, rfl, hd⟩ := bytes?_eq_some_iff.1 hb
  have length := length_of_bytesOfDigits? hd
  refine ⟨ofDigits (d ++ List.replicate (2 * (width - b.length)) '0'), ?_, ?_⟩
  · unfold padRight?
    rw [digits_ofDigits, if_neg (by omega), show 2 * width - d.length = 2 * (width - b.length) by omega]
  · exact bytesOfDigits?_append hd (bytesOfDigits?_zeros _)

theorem bytes?_lower {h : Hex} {b : Bytes} (hb : h.bytes? = some b) : h.lower.bytes? = some b := by
  rw [lower_of_bytes? hb, bytes?_ofBytes]

end Hex

theorem Address.exists_bytes_of_isStrict {a : Address} (h : a.isStrict = true) :
    ∃ b, a.bytes? = some b := by
  unfold isStrict at h
  cases hb : a.bytes? with
  | none =>
    rw [hb] at h
    cases h
  | some b => exact ⟨b, rfl⟩

/-! ### Whole numbers -/

theorem Number.toInt?_eq_some {n : Number} {m : Int} : n.toInt? = some m ↔ n = .ofInt m := by
  constructor
  · intro h
    cases n with
    | infinite negative => cases h
    | finite value =>
      obtain ⟨whole, same⟩ := Option.ite_none_right_eq_some.1 h
      obtain rfl := Option.some.inj same
      exact congrArg finite ((Rat.den_eq_one_iff value).1 whole).symm
  · rintro rfl
    exact toInt?_ofInt m

theorem integral_eq_ok {n : Number} {m : Int} : integral n = .ok m ↔ n = .ofInt m := by
  rw [← Number.toInt?_eq_some]
  unfold integral
  cases n.toInt? with
  | none => simp
  | some k => simp

/-! ### Encoded fields -/

namespace Abi

/-- An address takes the last twenty bytes of a word. -/
theorem encodeAddress_of_bytes? {a : Address} {b : Bytes} (strict : a.isStrict = true)
    (hb : a.bytes? = some b) :
    ∃ h, encodeAddress a = .ok h ∧ h.bytes? = some (List.replicate 12 0 ++ b) := by
  unfold encodeAddress
  rw [if_pos strict]
  exact ⟨_, rfl, Hex.bytes?_append (Hex.bytes?_ofBytes _)
    (Hex.bytes?_lower (Address.bytes?_eq_some_iff.1 hb).1)⟩

theorem isStrict_of_encodeAddress {a : Address} {h : Hex} (encoded : encodeAddress a = .ok h) :
    a.isStrict = true := by
  unfold encodeAddress at encoded
  exact (ite_error_eq_ok.1 encoded).1

theorem encodeFixedBytes_of_bytes? {h : Hex} {b : Bytes} (hb : h.bytes? = some b)
    (fits : b.length ≤ 32) :
    ∃ e, encodeFixedBytes b.length h = .ok e ∧
      e.bytes? = some (b ++ List.replicate (32 - b.length) 0) := by
  obtain ⟨padded, fills, bytes⟩ := Hex.padRight?_of_bytes? hb fits
  refine ⟨padded, ?_, bytes⟩
  unfold encodeFixedBytes padRight
  rw [if_neg (by rw [Hex.size_of_bytes? hb]; exact fun hne => hne rfl), fills]

/-- How many zero bytes follow some bytes up to the end of a word. -/
def fillSize (length : Nat) : Nat :=
  (length + 31) / 32 * 32 - length

theorem natCast_lt_valueCount {bits n : Nat} : (n : Int) < valueCount bits ↔ n < 2 ^ bits :=
  Int.ofNat_lt

/-- A word that is made from a number of any size has the low bytes of it. -/
theorem bytes?_word_natCast (n : Nat) :
    (word n).bytes? = some (Bytes.ofNat 32 (n % 2 ^ 256)) := by
  rw [bytes?_word]
  unfold valueCount
  rw [← Int.natCast_emod, Int.toNat_natCast]
  rfl

theorem encodeBytes_of_bytes? {h : Hex} {b : Bytes} (hb : h.bytes? = some b) :
    ∃ e, encodeBytes h = .ok e ∧
      e.bytes? = some (Bytes.ofNat 32 (b.length % 2 ^ 256) ++
        (b ++ List.replicate (fillSize b.length) 0)) := by
  have size := Hex.size_of_bytes? hb
  have filled : ∃ e, padToWords h = .ok e ∧
      e.bytes? = some (b ++ List.replicate (fillSize b.length) 0) := by
    unfold padToWords
    rw [size]
    by_cases whole : b.length % 32 = 0
    · rw [if_pos whole, show fillSize b.length = 0 by unfold fillSize; omega, List.replicate_zero,
        List.append_nil]
      exact ⟨h, rfl, hb⟩
    · rw [if_neg whole]
      have chars : h.chars.length - 2 = 2 * b.length := by
        obtain ⟨d, rfl, hd⟩ := Hex.bytes?_eq_some_iff.1 hb
        have := Hex.length_of_bytesOfDigits? hd
        simp only [Hex.ofDigits, List.length_cons]
        omega
      have width : (h.chars.length - 2 + 63) / 64 * 32 = b.length + fillSize b.length := by
        unfold fillSize
        omega
      obtain ⟨padded, fills, bytes⟩ :=
        Hex.padRight?_of_bytes? hb (Nat.le_add_right b.length (fillSize b.length))
      refine ⟨padded, ?_, ?_⟩
      · unfold padRight
        rw [width, fills]
      · rw [bytes, Nat.add_sub_cancel_left]
  obtain ⟨e, pads, bytes⟩ := filled
  refine ⟨word h.size ++ e, ?_, ?_⟩
  · unfold encodeBytes
    rw [pads]
    rfl
  · rw [size]
    exact Hex.bytes?_append (bytes?_word_natCast _) bytes

theorem encodeUnsigned_eq_ok {bits : Nat} {n : Int} {h : Hex} :
    encodeUnsigned bits n = .ok h ↔ (0 ≤ n ∧ n < valueCount bits) ∧ h = word n := by
  unfold encodeUnsigned
  rw [ite_error_eq_ok, Except.ok.injEq, eq_comm (a := word n)]

/-- A number is encoded if it is whole and fits. -/
theorem encodeNumber_eq_ok {bits : Nat} {n : Number} {h : Hex} :
    encodeNumber bits n = .ok h ↔
      ∃ m : Int, n = .ofInt m ∧ (0 ≤ m ∧ m < valueCount bits) ∧ h = word m := by
  constructor
  · intro encoded
    have whole := encoded
    unfold encodeNumber at whole
    obtain ⟨-, whole⟩ := ite_error_eq_ok.1 whole
    obtain ⟨m, hm, -⟩ := bind_eq_ok.1 whole
    obtain rfl := integral_eq_ok.1 hm
    rw [encodeNumber_ofInt, encodeUnsigned_eq_ok] at encoded
    exact ⟨m, rfl, encoded⟩
  · rintro ⟨m, rfl, fits⟩
    rw [encodeNumber_ofInt, encodeUnsigned_eq_ok]
    exact fits

end Abi

end SessionKeys
