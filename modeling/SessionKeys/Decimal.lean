/-!
Decimal numbers, exactly, and their writing. The digits of a number are written out, with a point
where it is needed, as long as that takes no more than 21 places in front of the point and six zeros
behind it; otherwise a power of ten follows the digits.
-/

namespace SessionKeys

/-- The number `mantissa / 10 ^ exponent`. -/
structure Decimal where
  mantissa : Int
  exponent : Nat
deriving DecidableEq, Repr

namespace Decimal

def value (d : Decimal) : Rat :=
  mkRat d.mantissa (Nat.pow 10 d.exponent)

/-- Digits without the zeros at their end. -/
def withoutZeros (digits : List Char) : List Char :=
  (digits.reverse.dropWhile (· == '0')).reverse

/-- Digits in front of a power of ten, with the point behind the first of them. -/
def powerText (digits : List Char) (power : Int) : List Char :=
  let fraction := digits.drop 1
  let point := if fraction.isEmpty then [] else ['.']
  let sign := if power < 0 then '-' else '+'
  digits.take 1 ++ point ++ fraction ++ 'e' :: sign :: (toString power.natAbs).toList

/-- A number whose digits are given up to the last that is not zero, and whose point stands behind
`point` of them; in front of the digits and behind them there are zeros. -/
def digitsText (digits : List Char) (point : Int) : List Char :=
  if 21 < point ∨ point ≤ -6 then powerText digits (point - 1)
  else if point ≤ 0 then '0' :: '.' :: (List.replicate (-point).toNat '0' ++ digits)
  else if digits.length ≤ point.toNat then
    digits ++ List.replicate (point.toNat - digits.length) '0'
  else digits.take point.toNat ++ '.' :: digits.drop point.toNat

def text (d : Decimal) : String :=
  if d.mantissa = 0 then "0"
  else
    let digits := (toString d.mantissa.natAbs).toList
    let sign := if d.mantissa < 0 then ['-'] else []
    String.ofList (sign ++ digitsText (withoutZeros digits) (digits.length - d.exponent))

end Decimal

end SessionKeys
