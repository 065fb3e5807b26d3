import SessionKeys.Decimal
import SessionKeys.Number

/-!
Numbers of 64 binary digits. Every number stands for the nearest one with a mantissa of 53 bits and an
exponent of at least -1074, and of two nearest ones for that with the even mantissa; numbers that would
be `2 ^ 1024` or more are infinite.
-/

namespace SessionKeys

/-- A quotient rounded to the nearest number, and of two nearest ones to the even one. -/
def roundedQuotient (n d : Nat) : Nat :=
  if 2 * (n % d) < d then n / d
  else if d < 2 * (n % d) then n / d + 1
  else n / d + n / d % 2

namespace Binary64

def twoPow (exponent : Nat) : Nat :=
  Nat.pow 2 exponent

/-- The exponent of the leading bit of a positive quotient. -/
def leadingPower (n d : Nat) : Int :=
  let guess : Int := (n.log2 : Int) - d.log2
  if n * twoPow (-guess).toNat < d * twoPow guess.toNat then guess - 1 else guess

/-- The nearest number. -/
def ofRat (q : Rat) : Number :=
  let n := q.num.natAbs
  if n = 0 then .finite 0
  else
    let exponent := max (leadingPower n q.den - 52) (-1074)
    let mantissa := roundedQuotient (n * twoPow (-exponent).toNat) (q.den * twoPow exponent.toNat)
    let scaled := mantissa * twoPow exponent.toNat
    if twoPow 1024 ≤ scaled then .infinite (decide (q.num < 0))
    else .finite (mkRat (q.num.sign * scaled) (twoPow (-exponent).toNat))

/-- The number that a decimal number stands for. -/
def ofDecimal (d : Decimal) : Number :=
  ofRat d.value

end Binary64

end SessionKeys
