import SessionKeys.Binary64

/-!
Writing numbers of 64 binary digits with as few decimal digits as read back. Of two numbers with
equally few digits that both read back the nearer one is written. Seventeen digits are always enough.
-/

namespace SessionKeys

namespace Binary64

/-- The power of ten of the leading digit of a positive quotient. -/
def leadingDigitPower (n d : Nat) : Int :=
  let guess : Int := ((toString n).length : Int) - (toString d).length
  if n * Nat.pow 10 (-guess).toNat < d * Nat.pow 10 guess.toNat then guess - 1 else guess

/-- The two decimal numbers of `count` digits next to a number, the nearer one first. -/
def neighbours (q : Rat) (count : Nat) : List Decimal :=
  let n := q.num.natAbs
  let unit := leadingDigitPower n q.den + 1 - count
  let scaled := n * Nat.pow 10 (-unit).toNat
  let scale := q.den * Nat.pow 10 unit.toNat
  let decimal (units : Nat) : Decimal := ⟨q.num.sign * (units * Nat.pow 10 unit.toNat), (-unit).toNat⟩
  let below := scaled / scale
  if roundedQuotient scaled scale = below then [decimal below, decimal (below + 1)]
  else [decimal (below + 1), decimal below]

/-- The decimal number with the fewest digits that stands for the same number of 64 binary digits. A
number that is too large for them stays the whole number that it is. -/
def shortest (q : Rat) : Decimal :=
  match ofRat q with
  | .infinite _ => ⟨q.floor, 0⟩
  | .finite value =>
    if value = 0 then ⟨0, 0⟩
    else
      let readsBack (d : Decimal) : Bool := decide (ofDecimal d = .finite value)
      ((List.range 17).findSome? fun k => (neighbours value (k + 1)).find? readsBack).getD ⟨q.floor, 0⟩

end Binary64

def Number.text : Number → String
  | finite value => (Binary64.shortest value).text
  | infinite true => "-Infinity"
  | infinite false => "Infinity"

end SessionKeys
