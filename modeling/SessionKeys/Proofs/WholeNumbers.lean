import Mathlib.Data.Nat.Digits.Lemmas
import SessionKeys.Proofs.Dates

/-!
Which whole numbers are kept as they are written. Digits write a number of any size, and zeros in front of
them do not matter. A number of 64 binary digits is the one that was written exactly if 53 binary digits
with zeros behind them are enough for it (`eq_value_iff_isShort`), as they are up to `2 ^ 53`; a longer one
is rounded.
-/

namespace SessionKeys

/-! ### Digits -/

/-- Some characters are decimal digits, at least one, and write a number. -/
structure WritesNumber (cs : List Char) (n : Nat) : Prop where
  nonempty : cs ≠ []
  digits : ∀ c ∈ cs, c.isDigit = true
  value : n = Nat.ofDigits 10 (cs.reverse.map fun c => c.toNat - 48)

theorem decimalValue_eq_ofDigits (cs : List Char) :
    decimalValue cs = Nat.ofDigits 10 (cs.reverse.map fun c => c.toNat - 48) := by
  have general : ∀ start : Nat, cs.foldl (fun n c => 10 * n + (c.toNat - 48)) start =
      10 ^ cs.length * start + Nat.ofDigits 10 (cs.reverse.map fun c => c.toNat - 48) := by
    induction cs with
    | nil => simp
    | cons c rest ih =>
      intro start
      rw [List.foldl_cons, ih, List.reverse_cons, List.map_append, List.map_singleton,
        Nat.ofDigits_append, Nat.ofDigits_singleton, List.length_map, List.length_reverse,
        List.length_cons]
      ring
  rw [decimalValue, general 0, Nat.mul_zero, Nat.zero_add]

theorem decimal?_eq_some {cs : List Char} {n : Nat} : decimal? cs = some n ↔ WritesNumber cs n := by
  unfold decimal?
  rw [decimalValue_eq_ofDigits]
  constructor
  · intro h
    split at h
    next digits =>
      cases h
      exact ⟨digits.1, List.all_eq_true.1 digits.2, rfl⟩
    next => cases h
  · rintro ⟨nonempty, digits, rfl⟩
    rw [if_pos ⟨nonempty, List.all_eq_true.2 digits⟩]

/-! ### Rounding -/

namespace Binary64

/-- A whole number for which 53 binary digits with zeros behind them are enough. -/
def IsShort (q : Rat) : Prop :=
  ∃ k e : Nat, k < 2 ^ 53 ∧ q = (k * 2 ^ e : Nat)

theorem isShort_natCast {n : Nat} (small : n ≤ 2 ^ 53) : IsShort n := by
  rcases Nat.lt_or_eq_of_le small with below | rfl
  · exact ⟨n, 0, below, by rw [Nat.pow_zero, Nat.mul_one]⟩
  · exact ⟨1, 53, by decide, by rw [Nat.one_mul]⟩

theorem roundedQuotient_le (n d : Nat) : roundedQuotient n d ≤ n / d + 1 := by
  unfold roundedQuotient
  split
  · exact Nat.le_succ _
  · split
    · exact Nat.le_refl _
    · exact Nat.add_le_add_left (Nat.le_of_lt_succ (Nat.mod_lt _ (by decide))) _

theorem roundedQuotient_of_dvd {n d : Nat} (positive : 0 < d) (divides : d ∣ n) :
    roundedQuotient n d = n / d := by
  unfold roundedQuotient
  rw [Nat.mod_eq_zero_of_dvd divides, if_pos (by omega)]

/-- A short number is not rounded, unless it is too large for any number. -/
theorem IsShort.ofRat_eq {q : Rat} (short : IsShort q) : ofRat q = .finite q ∨ ofRat q = .infinite false := by
  obtain ⟨k, e, small, rfl⟩ := short
  rcases Nat.lt_or_ge (k * 2 ^ e) (2 ^ 53) with below | large
  · exact .inl (ofRat_natCast_of_lt below)
  · have positive : k * 2 ^ e ≠ 0 := by omega
    have bits : (k * 2 ^ e).log2 < 53 + e := by
      rw [Nat.log2_lt positive, Nat.pow_add]
      exact Nat.mul_lt_mul_of_pos_right small (Nat.two_pow_pos e)
    have divides : 2 ^ ((k * 2 ^ e).log2 - 52) ∣ k * 2 ^ e :=
      Dvd.dvd.mul_left (Nat.pow_dvd_pow 2 (by omega)) k
    rw [ofRat_natCast_of_digits large, roundedQuotient_of_dvd (Nat.two_pow_pos _) divides,
      Nat.div_mul_cancel divides]
    simp only
    split
    · exact .inr rfl
    · exact .inl rfl

/-- A whole number that is not rounded is short. -/
theorem isShort_of_ofRat {n : Nat} (kept : ofRat n = .finite n) : IsShort n := by
  rcases Nat.lt_or_ge n (2 ^ 53) with below | large
  · exact isShort_natCast (Nat.le_of_lt below)
  · have positive : n ≠ 0 := by omega
    have digits : 53 ≤ n.log2 := (Nat.le_log2 positive).2 large
    rw [ofRat_natCast_of_digits large] at kept
    simp only at kept
    split at kept
    · cases kept
    · rw [Number.finite.injEq, Nat.cast_inj] at kept
      have most : n / 2 ^ (n.log2 - 52) < 2 ^ 53 := by
        rw [Nat.div_lt_iff_lt_mul (Nat.two_pow_pos _), ← Nat.pow_add,
          show 53 + (n.log2 - 52) = n.log2 + 1 by omega]
        exact Nat.lt_log2_self
      -- the mantissa has 53 digits, or is `2 ^ 53` if it was rounded up, which is short too
      have mantissa := roundedQuotient_le n (2 ^ (n.log2 - 52))
      obtain ⟨k, e, small, same⟩ := isShort_natCast (n := roundedQuotient n (2 ^ (n.log2 - 52))) (by omega)
      refine ⟨k, e + (n.log2 - 52), small, ?_⟩
      rw [Nat.cast_inj] at same
      rw [Nat.cast_inj, Nat.pow_add, ← Nat.mul_assoc, ← same, kept]

/-- A whole number that was read is the one that was written exactly if that is short. -/
theorem eq_value_iff_isShort {q : Rat} {n : Int} (nonneg : 0 ≤ n) (rounded : ofRat q = .ofInt n) :
    (n : Rat) = q ↔ IsShort q := by
  lift n to Nat using nonneg
  constructor
  · rintro rfl
    rw [Int.cast_natCast] at rounded ⊢
    exact isShort_of_ofRat rounded
  · intro short
    rcases short.ofRat_eq with kept | infinite
    · rw [kept] at rounded
      exact (Number.finite.inj rounded).symm
    · rw [infinite] at rounded
      cases rounded

end Binary64

end SessionKeys
