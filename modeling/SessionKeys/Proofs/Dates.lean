import Mathlib.Data.Rat.Lemmas
import Mathlib.Tactic.NormNum
import SessionKeys.Proofs.Computation
import SessionKeys.Report

/-!
Which times have a date. A whole number below `2 ^ 53` is a number of 64 binary digits itself, and no
larger one is rounded to less than `2 ^ 53`. So whole seconds are shown as a date exactly up to
`lastDatedSecond`, although their milliseconds are rounded.
-/

namespace SessionKeys

namespace Binary64

theorem le_roundedQuotient (n d : Nat) : n / d ≤ roundedQuotient n d := by
  unfold roundedQuotient
  split
  · exact Nat.le_refl _
  · split
    · exact Nat.le_succ _
    · exact Nat.le_add_right _ _

theorem roundedQuotient_one (n : Nat) : roundedQuotient n 1 = n := by
  simp [roundedQuotient, Nat.mod_one]

theorem leadingPower_one {n : Nat} (positive : n ≠ 0) : leadingPower n 1 = n.log2 := by
  have guess : (n.log2 : Int) - Nat.log2 1 = n.log2 := by
    rw [show Nat.log2 1 = 0 by decide]
    exact Int.sub_zero _
  have fits : ¬n * twoPow (-(n.log2 : Int)).toNat < 1 * twoPow (n.log2 : Int).toNat := by
    have below : 2 ^ n.log2 ≤ n := Nat.log2_self_le positive
    simpa [twoPow] using below
  unfold leadingPower
  simp only [guess]
  exact if_neg fits

theorem twoPow_le {j k : Nat} (h : j ≤ k) : twoPow j ≤ twoPow k :=
  Nat.pow_le_pow_right (by decide) h

/-- How a whole number is rounded. -/
theorem ofRat_natCast {n : Nat} (positive : n ≠ 0) :
    ofRat n =
      let mantissa := roundedQuotient (n * 2 ^ (52 - n.log2)) (2 ^ (n.log2 - 52))
      if twoPow 1024 ≤ mantissa * 2 ^ (n.log2 - 52) then .infinite false
      else .finite (mkRat (mantissa * 2 ^ (n.log2 - 52) : Nat) (2 ^ (52 - n.log2))) := by
  have exponent : max (leadingPower n 1 - 52) (-1074) = (n.log2 : Int) - 52 := by
    rw [leadingPower_one positive]
    omega
  have up : ((n.log2 : Int) - 52).toNat = n.log2 - 52 := by omega
  have down : (-((n.log2 : Int) - 52)).toNat = 52 - n.log2 := by omega
  have sign : ((n : Rat).num).sign = 1 := by
    rw [Rat.num_natCast]
    exact Int.sign_eq_one_of_pos (by omega)
  have negative : decide ((n : Rat).num < 0) = false := by
    rw [Rat.num_natCast]
    exact decide_eq_false (by omega)
  have power (k : Nat) : twoPow k = 2 ^ k := rfl
  unfold ofRat
  rw [negative, sign]
  simp only [Rat.num_natCast, Rat.den_natCast, Int.natAbs_natCast, exponent, up, down,
    if_neg positive, Nat.one_mul, Int.one_mul, power (n.log2 - 52), power (52 - n.log2)]

/-- A whole number with few digits is not rounded. -/
theorem ofRat_natCast_of_lt {n : Nat} (small : n < 2 ^ 53) : ofRat n = .finite n := by
  by_cases zero : n = 0
  · subst zero
    rfl
  · have digits : n.log2 ≤ 52 := Nat.lt_succ_iff.1 ((Nat.log2_lt zero).2 small)
    have scaled : n * 2 ^ (52 - n.log2) < twoPow 1024 := by
      calc n * 2 ^ (52 - n.log2)
        _ ≤ n * 2 ^ 52 := Nat.mul_le_mul_left n (Nat.pow_le_pow_right (by decide) (by omega))
        _ < 2 ^ 53 * 2 ^ 52 := Nat.mul_lt_mul_of_pos_right small (by decide)
        _ = twoPow 105 := rfl
        _ ≤ twoPow 1024 := twoPow_le (by decide)
    have unit : 2 ^ (n.log2 - 52) = 1 := by rw [Nat.sub_eq_zero_of_le digits, Nat.pow_zero]
    rw [ofRat_natCast zero, unit]
    simp only [roundedQuotient_one, Nat.mul_one, if_neg (Nat.not_le.2 scaled)]
    rw [Rat.mkRat_eq_div]
    push_cast
    rw [mul_div_cancel_right₀ _ (by positivity)]

/-- How a whole number with many digits is rounded. -/
theorem ofRat_natCast_of_digits {n : Nat} (large : 2 ^ 53 ≤ n) :
    ofRat n =
      let scaled := roundedQuotient n (2 ^ (n.log2 - 52)) * 2 ^ (n.log2 - 52)
      if twoPow 1024 ≤ scaled then .infinite false else .finite scaled := by
  have positive : n ≠ 0 := by omega
  have digits : 53 ≤ n.log2 := (Nat.le_log2 positive).2 large
  have unit : 2 ^ (52 - n.log2) = 1 := by rw [Nat.sub_eq_zero_of_le (by omega), Nat.pow_zero]
  rw [ofRat_natCast positive, unit]
  simp only [Nat.mul_one, Rat.mkRat_one]
  rfl

/-- A whole number with many digits is rounded to one, and stays large. -/
theorem ofRat_natCast_of_le {n : Nat} (large : 2 ^ 53 ≤ n) :
    ofRat n = .infinite false ∨ ∃ m : Nat, 2 ^ 53 ≤ m ∧ ofRat n = .finite m := by
  have positive : n ≠ 0 := by omega
  have digits : 53 ≤ n.log2 := (Nat.le_log2 positive).2 large
  rw [ofRat_natCast_of_digits large]
  simp only
  split
  · exact .inl rfl
  · refine .inr ⟨_, ?_, rfl⟩
    have most : 2 ^ 52 ≤ n / 2 ^ (n.log2 - 52) := by
      rw [Nat.le_div_iff_mul_le (Nat.two_pow_pos _), ← Nat.pow_add,
        show 52 + (n.log2 - 52) = n.log2 by omega]
      exact Nat.log2_self_le positive
    calc 2 ^ 53
      _ ≤ 2 ^ 52 * 2 ^ (n.log2 - 52) := by
        rw [← Nat.pow_add]
        exact Nat.pow_le_pow_right (by decide) (by omega)
      _ ≤ _ := Nat.mul_le_mul_right _ (Nat.le_trans most (le_roundedQuotient _ _))

end Binary64

/-! ### Dates -/

/-- The last whole second, counted from 1970, that has a date. -/
def lastDatedSecond : Nat := 8640000000000

theorem boundText_natCast {n : Nat} (bounded : n ≠ 0) :
    boundText (.ofInt n) =
      match Binary64.ofRat (1000 * n : Nat) with
      | .finite milliseconds => momentText (milliseconds.num.tdiv milliseconds.den)
      | .infinite _ => .error .dateOutOfRange := by
  have whole : 1000 * ((n : Int) : Rat) = ((1000 * n : Nat) : Rat) := by
    push_cast
    rfl
  have zero : ((n : Int) : Rat) ≠ 0 := by
    rw [Int.cast_natCast]
    exact Nat.cast_ne_zero.2 bounded
  have rounded := congrArg
    (fun q => match Binary64.ofRat q with
      | .finite milliseconds => momentText (milliseconds.num.tdiv milliseconds.den)
      | .infinite _ => .error .dateOutOfRange) whole
  exact (if_neg zero).trans rounded

theorem momentText_natCast (m : Nat) :
    momentText ((m : Rat).num.tdiv (m : Rat).den) =
      if lastDatedMillisecond < m then .error .dateOutOfRange else .ok (timeText m) := by
  rw [Rat.num_natCast, Rat.den_natCast, Int.natCast_one, Int.tdiv_one]
  rfl

/-- A whole second can be shown up to the last one that has a date. -/
theorem exists_boundText {n : Nat} (dated : n ≤ lastDatedSecond) :
    ∃ text, boundText (.ofInt n) = .ok text := by
  by_cases zero : n = 0
  · subst zero
    exact ⟨_, rfl⟩
  · have dated : 1000 * n ≤ lastDatedMillisecond := Nat.mul_le_mul_left 1000 dated
    have small : 1000 * n < 2 ^ 53 := Nat.lt_of_le_of_lt dated (by decide)
    rw [boundText_natCast zero, Binary64.ofRat_natCast_of_lt small]
    simp only [momentText_natCast, if_neg (Nat.not_lt.2 dated)]
    exact ⟨_, rfl⟩

/-- A later second cannot be shown. -/
theorem boundText_of_lt {n : Nat} (late : lastDatedSecond < n) :
    boundText (.ofInt n) = .error .dateOutOfRange := by
  have late : lastDatedMillisecond < 1000 * n :=
    Nat.mul_lt_mul_of_pos_left (k := 1000) late (by decide)
  rw [boundText_natCast (by omega)]
  by_cases small : 1000 * n < 2 ^ 53
  · rw [Binary64.ofRat_natCast_of_lt small]
    simp only [momentText_natCast, if_pos late]
  · rcases Binary64.ofRat_natCast_of_le (Nat.not_lt.1 small) with h | ⟨m, large, h⟩
    · rw [h]
    · rw [h]
      have late : lastDatedMillisecond < m := Nat.lt_of_lt_of_le (by decide) large
      simp only [momentText_natCast, if_pos late]

end SessionKeys
