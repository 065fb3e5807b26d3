/-!
Numbers as rows of digits, alone or at the start of a text. Only the ten digits of ASCII count as
decimal digits; a hexadecimal digit may be a small letter or a capital.
-/

namespace SessionKeys

/-! ### Decimal digits -/

/-- The number that some decimal digits write. -/
def decimalValue (digits : List Char) : Nat :=
  digits.foldl (fun n c => 10 * n + (c.toNat - 48)) 0

/-- The number that some characters write, if they are decimal digits and at least one. -/
def decimal? (cs : List Char) : Option Nat :=
  if cs ≠ [] ∧ cs.all Char.isDigit then some (decimalValue cs) else none

/-- A character of white space: the blanks and line ends of ASCII, the space separators, the line and
paragraph separators, and the byte order mark. -/
def isBlank (c : Char) : Bool :=
  let n := c.toNat
  (9 ≤ n && n ≤ 13) || n == 0x20 || n == 0xa0 || n == 0x1680 || (0x2000 ≤ n && n ≤ 0x200a) ||
    n == 0x2028 || n == 0x2029 || n == 0x202f || n == 0x205f || n == 0x3000 || n == 0xfeff

/-- A character at which a line ends. -/
def isLineEnd (c : Char) : Bool :=
  let n := c.toNat
  n == 10 || n == 13 || n == 0x2028 || n == 0x2029

/-- The number at the start of some characters, without a sign; none if there is no digit. -/
def leadingDigits? (cs : List Char) : Option Nat :=
  decimal? (cs.takeWhile Char.isDigit)

/-- The integer at the start of some characters, after white space; none if there is none. What follows
its digits is not looked at. -/
def leadingInteger? (cs : List Char) : Option Int :=
  match cs.dropWhile isBlank with
  | '-' :: cs => (leadingDigits? cs).map fun n => -(n : Int)
  | '+' :: cs => (leadingDigits? cs).map fun n => (n : Int)
  | cs => (leadingDigits? cs).map fun n => (n : Int)

/-! ### Hexadecimal digits -/

/-- The number that a character stands for as a hexadecimal digit, if it is one. -/
def hexDigit? (c : Char) : Option Nat :=
  let n := c.toNat
  if 48 ≤ n ∧ n ≤ 57 then some (n - 48)
  else if 65 ≤ n ∧ n ≤ 70 then some (n - 55)
  else if 97 ≤ n ∧ n ≤ 102 then some (n - 87)
  else none

def hexDigit (n : Nat) : Char :=
  Char.ofNat (if n < 10 then 48 + n else 87 + n)

theorem hexDigit?_hexDigit {n : Nat} (h : n < 16) : hexDigit? (hexDigit n) = some n := by
  revert n
  decide

theorem lt_of_hexDigit? {c : Char} {n : Nat} (h : hexDigit? c = some n) : n < 16 := by
  simp only [hexDigit?] at h
  split at h <;> (try split at h) <;> (try split at h) <;> simp at h <;> omega

/-- A digit is a character of ASCII. -/
theorem toNat_lt_of_hexDigit? {c : Char} {n : Nat} (h : hexDigit? c = some n) : c.toNat < 128 := by
  simp only [hexDigit?] at h
  split at h
  · omega
  · split at h
    · omega
    · split at h
      · omega
      · simp at h

/-! ### Whole numbers -/

/-- The base of the digits that stand behind `0` and a letter. -/
def baseOf? : Char → Option Nat
  | 'b' | 'B' => some 2
  | 'o' | 'O' => some 8
  | 'x' | 'X' => some 16
  | _ => none

/-- The number that some digits of a base write, if they are digits of it and at least one. -/
def numberInBase? (base : Nat) (digits : List Char) : Option Nat := do
  let values ← digits.mapM hexDigit?
  guard (digits ≠ [] ∧ values.all (· < base))
  return values.foldl (fun n d => base * n + d) 0

/-- The whole number that some characters write: decimal digits behind a sign or none, or digits of
another base behind its letter. Nothing at all writes zero. -/
def unspacedNumber? : List Char → Option Int
  | [] => some 0
  | '-' :: digits => (decimal? digits).map fun n => -(n : Int)
  | '+' :: digits => (decimal? digits).map fun n => (n : Int)
  | '0' :: letter :: digits =>
    match baseOf? letter with
    | some base => (numberInBase? base digits).map fun n => (n : Int)
    | none => (decimal? (letter :: digits)).map fun n => (n : Int)
  | digits => (decimal? digits).map fun n => (n : Int)

/-- The whole number that some characters write between white space. -/
def wholeNumber? (cs : List Char) : Option Int :=
  unspacedNumber? ((cs.dropWhile isBlank).reverse.dropWhile isBlank).reverse

end SessionKeys
