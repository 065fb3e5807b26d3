/-!
Budgets that a number can switch off.
-/

namespace SessionKeys

/-- The budget that stands for no limit, the largest of 128 bits. It is never reduced. -/
def unlimited : Int := 0xffffffffffffffffffffffffffffffff

def charge (budget cost : Int) : Int :=
  if budget = unlimited then unlimited else budget - cost

end SessionKeys
