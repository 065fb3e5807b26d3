import SessionKeys.Failure

/-!
Windows of time in which something is valid, and the result of a validation with its packed form:
a failure mark in the low 160 bits, then 48 bits for the end of the window and 48 for its start. Times
are seconds and may have fractions or be infinite, but only whole ones can be packed.
-/

namespace SessionKeys

/-- The seconds from `validAfter` to `validUntil`, both included. A zero end is no end. -/
structure ValidityWindow where
  validUntil : Number
  validAfter : Number
deriving DecidableEq, Repr

namespace ValidityWindow

def Contains (w : ValidityWindow) (t : Number) : Prop :=
  w.validAfter ≤ t ∧ (w.validUntil = 0 ∨ t ≤ w.validUntil)

/-- A window closes before it opens. -/
def IsEmpty (w : ValidityWindow) : Prop :=
  w.validUntil ≠ 0 ∧ w.validUntil < w.validAfter

instance (w : ValidityWindow) : Decidable w.IsEmpty :=
  inferInstanceAs (Decidable (_ ∧ _))

def assertValid (w : ValidityWindow) : Except Refusal Unit :=
  if w.IsEmpty then .error (.emptyWindow w.validUntil w.validAfter) else .ok ()

def earlier (a b : Number) : Number :=
  if a ≤ b then a else b

def later (a b : Number) : Number :=
  if a ≤ b then b else a

/-- The earlier of two ends, of which zero is none. -/
def earlierEnd (a b : Number) : Number :=
  if earlier a b = 0 then later a b else earlier a b

/-- The times that two windows share. -/
def intersect (a b : ValidityWindow) : Except Refusal ValidityWindow :=
  let w : ValidityWindow :=
    ⟨earlierEnd a.validUntil b.validUntil, later a.validAfter b.validAfter⟩
  do w.assertValid; return w

end ValidityWindow

/-! ### Results -/

/-- The result of a validation: whether the signature failed, and the window of validity. -/
structure ValidationData where
  failed : Bool
  validUntil : Number
  validAfter : Number
deriving DecidableEq, Repr

namespace ValidationData

def signatureFailed : ValidationData := ⟨true, 0, 0⟩

def valid (w : ValidityWindow) : ValidationData := ⟨false, w.validUntil, w.validAfter⟩

/-- The packed mark of a failure. -/
def failureMark : Int := 1

/-- The packed weight of one second of the end, `2 ^ 160`. -/
def endWeight : Int := 0x10000000000000000000000000000000000000000

/-- The packed weight of one second of the start, `2 ^ 208`. -/
def startWeight : Int := 0x10000000000000000000000000000000000000000000000000000

/-- How many times can be packed, `2 ^ 48`. -/
def timeCount : Int := 0x1000000000000

/-- Bitwise disjunction of integers in two's complement. -/
def orBits : Int → Int → Int
  | .ofNat a, .ofNat b => .ofNat (a ||| b)
  | .ofNat a, .negSucc b => .negSucc (b - (a &&& b))
  | .negSucc a, .ofNat b => .negSucc (a - (a &&& b))
  | .negSucc a, .negSucc b => .negSucc (a &&& b)

/-- The packed form of a result. -/
def pack (d : ValidationData) : Except EncodingError Int := do
  let validUntil ← integral d.validUntil
  let validAfter ← integral d.validAfter
  return orBits (orBits (if d.failed then failureMark else 0) (validUntil * endWeight))
    (validAfter * startWeight)

def unpack (packed : Int) : ValidationData where
  failed := decide (packed % endWeight ≠ 0)
  validUntil := .ofInt (packed / endWeight % timeCount)
  validAfter := .ofInt (packed / startWeight % timeCount)

/-- The packed form of the outcome of a validation, in which every failure looks the same. -/
def packOutcome : Except Failure ValidationData → Except EncodingError Int
  | .ok d => d.pack
  | .error _ => .ok failureMark

end ValidationData

end SessionKeys
