import SessionKeys.Keccak

/-!
The curve `y² = x³ + 7` over the field of `fieldSize` elements, as far as recovering the key that
made a signature needs it. Points are kept in Jacobian coordinates `(x / z², y / z³)`, and `z = 0` is
the point at infinity.
-/

namespace SessionKeys

namespace Secp256k1

def fieldSize : Nat := 0xfffffffffffffffffffffffffffffffffffffffffffffffffffffffefffffc2f

/-- The order of the generator. -/
def order : Nat := 0xfffffffffffffffffffffffffffffffebaaedce6af48a03bbfd25e8cd0364141

/-- Coordinates of the generator. -/
def generatorX : Nat := 0x79be667ef9dcbbac55a06295ce870b07029bfcdb2dce28d959f2815b16f81798

@[inherit_doc generatorX]
def generatorY : Nat := 0x483ada7726a3c4655da4fbfc0e1108a8fd17b448a68554199c47d08ffb10d4b8

/-! ### Modular arithmetic -/

/-- The power `base ^ exponent` modulo `m`, by squaring along the `bits` low bits of the exponent. -/
def powMod (m : Nat) : (bits base exponent : Nat) → Nat
  | 0, _, _ => 1 % m
  | bits + 1, base, exponent =>
    let rest := powMod m bits (base * base % m) (exponent / 2)
    if exponent % 2 = 1 then base * rest % m else rest

/-- The inverse modulo a prime below `2 ^ 256`. -/
def inverseMod (m n : Nat) : Nat :=
  powMod m 256 (n % m) (m - 2)

def sub (a b : Nat) : Nat :=
  (a + (fieldSize - b % fieldSize)) % fieldSize

def mul (a b : Nat) : Nat :=
  a * b % fieldSize

/-! ### Points -/

/-- A point in Jacobian coordinates. -/
structure Point where
  x : Nat
  y : Nat
  z : Nat
deriving DecidableEq, Repr

namespace Point

def infinity : Point := ⟨1, 1, 0⟩

def generator : Point := ⟨generatorX, generatorY, 1⟩

def double (p : Point) : Point :=
  if p.z = 0 then infinity
  else
    let yy := mul p.y p.y
    let s := mul 4 (mul p.x yy)
    let m := mul 3 (mul p.x p.x)
    let x := sub (mul m m) (mul 2 s)
    let y := sub (mul m (sub s x)) (mul 8 (mul yy yy))
    ⟨x, y, mul 2 (mul p.y p.z)⟩

def add (p q : Point) : Point :=
  if p.z = 0 then q
  else if q.z = 0 then p
  else
    let pzz := mul p.z p.z
    let qzz := mul q.z q.z
    let u := mul p.x qzz
    let v := mul q.x pzz
    let s := mul p.y (mul qzz q.z)
    let t := mul q.y (mul pzz p.z)
    if u = v then
      if s = t then double p else infinity
    else
      let h := sub v u
      let r := sub t s
      let hh := mul h h
      let hhh := mul hh h
      let w := mul u hh
      let x := sub (sub (mul r r) hhh) (mul 2 w)
      let y := sub (mul r (sub w x)) (mul s hhh)
      ⟨x, y, mul h (mul p.z q.z)⟩

/-- A multiple of a point, along the `bits` low bits of the factor. -/
def scale : (bits factor : Nat) → Point → Point
  | 0, _, _ => infinity
  | bits + 1, factor, p =>
    let rest := scale bits (factor / 2) (double p)
    if factor % 2 = 1 then add p rest else rest

/-- The two coordinates of a point that is not at infinity. -/
def affine? (p : Point) : Option (Nat × Nat) :=
  if p.z = 0 then none
  else
    let w := inverseMod fieldSize p.z
    let ww := mul w w
    some (mul p.x ww, mul p.y (mul ww w))

/-- The point with a given first coordinate whose second one is odd or even, if there is one. -/
def ofX? (x : Nat) (odd : Bool) : Option Point :=
  let square := (mul (mul x x) x + 7) % fieldSize
  let y := powMod fieldSize 256 square ((fieldSize + 1) / 4)
  if mul y y ≠ square then none
  else if decide (y % 2 = 1) == odd then some ⟨x, y, 1⟩
  else some ⟨x, (fieldSize - y) % fieldSize, 1⟩

end Point

/-! ### Recovery -/

/-- The public key whose signature `(r, s)` of `digest` has a commitment point with first coordinate
`r` and the given parity. Nothing is recovered if `r` or `s` is zero or not below the order, or if
no such key exists. -/
def recoverKey? (digest r s : Nat) (odd : Bool) : Option (Nat × Nat) := do
  guard (0 < r ∧ r < order ∧ 0 < s ∧ s < order)
  let commitment ← Point.ofX? r odd
  let rInverse := inverseMod order r
  let u := (order - digest % order) * rInverse % order
  let v := s * rInverse % order
  ((Point.generator.scale 256 u).add (commitment.scale 256 v)).affine?

/-- The last twenty bytes of the hash of a public key. -/
def addressOfKey (key : Nat × Nat) : Bytes :=
  (Keccak.digest (Bytes.ofNat 32 key.1 ++ Bytes.ofNat 32 key.2)).drop 12

theorem length_addressOfKey (key : Nat × Nat) : (addressOfKey key).length = 20 := by
  simp [addressOfKey]

end Secp256k1

end SessionKeys
