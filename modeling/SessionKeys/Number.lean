/-!
Numbers that may have a fraction or be infinite, in their order.
-/

namespace SessionKeys

/-- A rational number, or one of the two infinite numbers. -/
inductive Number where
  | finite (value : Rat)
  | infinite (negative : Bool)
deriving DecidableEq, Repr

namespace Number

def ofInt (n : Int) : Number :=
  finite n

instance : Coe Int Number := ⟨ofInt⟩

instance (n : Nat) : OfNat Number n := ⟨ofInt n⟩

protected def Le : Number → Number → Prop
  | infinite true, _ => True
  | _, infinite false => True
  | finite a, finite b => a ≤ b
  | _, _ => False

instance : LE Number := ⟨Number.Le⟩

instance : LT Number := ⟨fun a b => ¬ b ≤ a⟩

instance decidableLe : (a b : Number) → Decidable (a ≤ b)
  | infinite true, _ => .isTrue (by simp [LE.le, Number.Le])
  | finite _, infinite false => .isTrue trivial
  | infinite false, infinite false => .isTrue trivial
  | finite a, finite b => inferInstanceAs (Decidable (a ≤ b))
  | finite _, infinite true => .isFalse id
  | infinite false, finite _ => .isFalse id
  | infinite false, infinite true => .isFalse id

instance decidableLt (a b : Number) : Decidable (a < b) :=
  inferInstanceAs (Decidable (¬ b ≤ a))

/-- The integer that a number is, if it is one. -/
def toInt? : Number → Option Int
  | finite value => if value.den = 1 then some value.num else none
  | infinite _ => none

@[simp] theorem toInt?_ofInt (n : Int) : (ofInt n).toInt? = some n := by
  simp [toInt?, ofInt]

@[simp] theorem finite_le_finite {a b : Rat} : finite a ≤ finite b ↔ a ≤ b := Iff.rfl

@[simp] theorem ofInt_le_ofInt {m n : Int} : ofInt m ≤ ofInt n ↔ m ≤ n :=
  finite_le_finite.trans Rat.intCast_le_intCast

theorem not_le {a b : Number} : ¬ a ≤ b ↔ b < a := Iff.rfl

theorem le_refl (a : Number) : a ≤ a := by
  match a with
  | finite a => exact Rat.le_refl
  | infinite true => trivial
  | infinite false => trivial

theorem le_total (a b : Number) : a ≤ b ∨ b ≤ a := by
  match a, b with
  | finite a, finite b => exact Rat.le_total
  | infinite true, finite _ => exact .inl trivial
  | infinite true, infinite _ => exact .inl trivial
  | infinite false, finite _ => exact .inr trivial
  | infinite false, infinite false => exact .inl trivial
  | infinite false, infinite true => exact .inr trivial
  | finite _, infinite true => exact .inr trivial
  | finite _, infinite false => exact .inl trivial

theorem le_trans {a b c : Number} (hab : a ≤ b) (hbc : b ≤ c) : a ≤ c := by
  match a, b, c with
  | infinite true, _, finite _ => trivial
  | infinite true, _, infinite _ => trivial
  | finite _, _, infinite false => trivial
  | infinite false, _, infinite false => trivial
  | finite a, finite b, finite c => exact Rat.le_trans hab hbc
  | finite _, infinite false, finite _ => exact hbc.elim
  | finite _, infinite true, finite _ => exact hab.elim
  | finite _, finite _, infinite true => exact hbc.elim
  | finite _, infinite false, infinite true => exact hbc.elim
  | finite _, infinite true, infinite true => exact hab.elim
  | infinite false, infinite false, finite _ => exact hbc.elim
  | infinite false, infinite false, infinite true => exact hbc.elim
  | infinite false, infinite true, _ => exact hab.elim
  | infinite false, finite _, _ => exact hab.elim

theorem le_antisymm {a b : Number} (hab : a ≤ b) (hba : b ≤ a) : a = b := by
  match a, b with
  | finite a, finite b => exact congrArg finite (Rat.le_antisymm hab hba)
  | infinite true, infinite true => rfl
  | infinite false, infinite false => rfl
  | infinite true, finite _ => exact hba.elim
  | infinite true, infinite false => exact hba.elim
  | infinite false, finite _ => exact hab.elim
  | infinite false, infinite true => exact hab.elim
  | finite _, infinite true => exact hab.elim
  | finite _, infinite false => exact hba.elim

end Number

end SessionKeys
