import SessionKeys.Bytes
import SessionKeys.Digits
import SessionKeys.Letters
import SessionKeys.Surrogate

/-!
Byte strings as they are written: the mark `0x`, and two hexadecimal digits for each byte, every letter
small or capital. A written string keeps the case it came with through cutting and joining, and its
meaning is `Hex.bytes?`, which forgets it. A string made from bytes is written in small letters.

Any text may stand in the place of a byte string. One that writes no bytes has none, but it can still be
measured, cut, joined, compared and hashed, and each of these does to its characters what it does to the
digits of a byte string. A character outside the basic plane counts as its two units.
-/

namespace SessionKeys

/-- A text in the place of a byte string, by its units. -/
structure Hex where
  chars : List Char
deriving DecidableEq, Repr

namespace Hex

/-! ### Text -/

def text (h : Hex) : String :=
  String.ofList (joinUnits h.chars)

/-- Any text, in the place of a byte string. -/
def ofText (s : String) : Hex :=
  ⟨splitUnits s.toList⟩

/-- The mark with some digits behind it. -/
def ofDigits (digits : List Char) : Hex :=
  ⟨'0' :: 'x' :: digits⟩

/-- Whether a text starts with the mark. -/
def isMarked (h : Hex) : Bool :=
  match h.chars with
  | '0' :: 'x' :: _ => true
  | _ => false

/-- Some characters without the first mark among them. -/
def withoutMark : List Char → List Char
  | '0' :: 'x' :: cs => cs
  | c :: cs => c :: withoutMark cs
  | [] => []

/-- The characters of a text that are taken for its digits. -/
def digits (h : Hex) : List Char :=
  withoutMark h.chars

/-! ### Bytes -/

/-- The two digits of a byte, in small letters. -/
def byteDigits (b : UInt8) : List Char :=
  [hexDigit (b.toNat / 16), hexDigit (b.toNat % 16)]

/-- The writing of a byte string in small letters. -/
def ofBytes (b : Bytes) : Hex :=
  ofDigits (b.flatMap byteDigits)

def empty : Hex :=
  ofDigits []

/-- The bytes that pairs of digits write; nothing if a digit is missing or none. -/
def bytesOfDigits? : List Char → Option Bytes
  | [] => some []
  | [_] => none
  | a :: b :: rest => do
    let high ← hexDigit? a
    let low ← hexDigit? b
    let tail ← bytesOfDigits? rest
    return UInt8.ofNat (16 * high + low) :: tail

/-- The bytes that a text writes: the mark and pairs of digits, with nothing before or after. -/
def bytes? (h : Hex) : Option Bytes :=
  match h.chars with
  | '0' :: 'x' :: digits => bytesOfDigits? digits
  | _ => none

/-- Whether a text is the mark with hexadecimal digits behind it, in pairs or not. -/
def hasDigits (h : Hex) : Bool :=
  h.isMarked && h.digits.all fun c => (hexDigit? c).isSome

/-- The bytes of digits, of which the first stands alone if their number is odd. -/
def filledBytes? (digits : List Char) : Option Bytes :=
  bytesOfDigits? (if digits.length % 2 = 0 then digits else '0' :: digits)

/-- The bytes that are read from a text. Its first two characters are not looked at, and a digit that
is missing is a zero in front. -/
def read? (h : Hex) : Option Bytes :=
  filledBytes? (h.chars.drop 2)

/-- The bytes of the text itself. -/
def utf8 (h : Hex) : Bytes :=
  utf8Bytes h.text

/-- A text as a written byte string: one of digits stays as it is, and any other stands for its own
bytes. -/
def written (h : Hex) : Hex :=
  if h.hasDigits then h else ofBytes h.utf8

/-- The bytes by which a text is hashed. -/
def content (h : Hex) : Bytes :=
  (h.written.read?).getD []

/-- The whole number that a text writes: bytes spell one, and any other text is read as a number. The
empty byte string is none. -/
def toInt? (h : Hex) : Option Int :=
  match h.bytes? with
  | some [] => none
  | some bytes => some bytes.toNat
  | none => wholeNumber? h.chars

/-! ### Parts -/

/-- The number of bytes that a text has room for: the pairs of digits behind the mark, of which the last
may be short of one, or the characters of a text without mark. -/
def size (h : Hex) : Nat :=
  if h.isMarked then (h.chars.length - 1) / 2 else h.chars.length

/-- The first `n` bytes, or all if there are less. -/
def take (n : Nat) (h : Hex) : Hex :=
  if h.isMarked then ofDigits (h.digits.take (2 * n)) else ⟨h.chars.take n⟩

/-- What follows the first `n` bytes; the empty byte string if nothing does. -/
def drop (n : Nat) (h : Hex) : Hex :=
  if h.size ≤ n then empty
  else if h.isMarked then ofDigits (h.digits.drop (2 * n))
  else ⟨h.chars.drop n⟩

/-- Two strings, one behind the other, under one mark. -/
def append (a b : Hex) : Hex :=
  ofDigits (a.digits ++ b.digits)

instance : Append Hex := ⟨append⟩

/-- Some strings, one behind the other, under one mark. -/
def join (parts : List Hex) : Hex :=
  ofDigits (parts.flatMap digits)

/-- A string filled up to `width` bytes with zeros behind it, unless it is longer. -/
def padRight? (width : Nat) (h : Hex) : Option Hex :=
  if 2 * width < h.digits.length then none
  else some (ofDigits (h.digits ++ List.replicate (2 * width - h.digits.length) '0'))

/-! ### Comparison -/

/-- The same text in small letters. -/
def lower (h : Hex) : Hex :=
  ⟨splitUnits (lowerText (joinUnits h.chars))⟩

/-- Whether two texts differ in the case of their letters at most. -/
def same (a b : Hex) : Bool :=
  a.lower == b.lower

/-! ### Written bytes -/

/-- A character as a digit in small letters. -/
theorem lowerChar_of_hexDigit? {c : Char} {n : Nat} (h : hexDigit? c = some n) :
    lowerChar c = [hexDigit n] := by
  have general : ∀ k < 128, ∀ n < 16, hexDigit? (Char.ofNat k) = some n →
      lowerChar (Char.ofNat k) = [hexDigit n] := by
    decide
  have := general c.toNat (toNat_lt_of_hexDigit? h) n (lt_of_hexDigit? h)
  rw [Char.ofNat_toNat] at this
  exact this h

theorem bytesOfDigits?_cons_cons {a b : Char} {rest : List Char} {bytes : Bytes} :
    bytesOfDigits? (a :: b :: rest) = some bytes ↔
      ∃ high low tail, hexDigit? a = some high ∧ hexDigit? b = some low ∧
        bytesOfDigits? rest = some tail ∧ bytes = UInt8.ofNat (16 * high + low) :: tail := by
  simp only [bytesOfDigits?, Option.pure_def, Option.bind_eq_bind, Option.bind_eq_some_iff,
    Option.some.injEq]
  constructor
  · rintro ⟨high, hh, low, hl, tail, ht, rfl⟩
    exact ⟨high, low, tail, hh, hl, ht, rfl⟩
  · rintro ⟨high, low, tail, hh, hl, ht, rfl⟩
    exact ⟨high, hh, low, hl, tail, ht, rfl⟩

theorem bytesOfDigits?_flatMap (b : Bytes) : bytesOfDigits? (b.flatMap byteDigits) = some b := by
  induction b with
  | nil => rfl
  | cons x rest ih =>
    have hx := x.toNat_lt
    have hval : x = UInt8.ofNat (16 * (x.toNat / 16) + x.toNat % 16) := by
      rw [← UInt8.toNat_inj, UInt8.toNat_ofNat']
      omega
    exact bytesOfDigits?_cons_cons.2 ⟨_, _, rest, hexDigit?_hexDigit (by omega),
      hexDigit?_hexDigit (by omega), ih, by rw [← hval]⟩

/-- What pairs of digits write, one pair at a time. -/
theorem bytesOfDigits?_induction {motive : List Char → Bytes → Prop} (nil : motive [] [])
    (cons : ∀ a b rest high low tail, hexDigit? a = some high → hexDigit? b = some low →
      motive rest tail → motive (a :: b :: rest) (UInt8.ofNat (16 * high + low) :: tail)) :
    ∀ {digits : List Char} {bytes : Bytes}, bytesOfDigits? digits = some bytes →
      motive digits bytes
  | [], bytes, h => by
    simp only [bytesOfDigits?, Option.some.injEq] at h
    exact h ▸ nil
  | [_], _, h => by simp [bytesOfDigits?] at h
  | a :: b :: rest, bytes, h => by
    obtain ⟨high, low, tail, hh, hl, ht, rfl⟩ := bytesOfDigits?_cons_cons.1 h
    exact cons a b rest high low tail hh hl (bytesOfDigits?_induction nil cons ht)

theorem length_of_bytesOfDigits? {digits : List Char} {bytes : Bytes}
    (h : bytesOfDigits? digits = some bytes) : digits.length = 2 * bytes.length := by
  refine bytesOfDigits?_induction (motive := fun d x => d.length = 2 * x.length) rfl ?_ h
  intro a b rest high low tail _ _ ih
  simp only [List.length_cons]
  omega

theorem bytesOfDigits?_append {d e : List Char} {x y : Bytes} (hd : bytesOfDigits? d = some x)
    (he : bytesOfDigits? e = some y) : bytesOfDigits? (d ++ e) = some (x ++ y) := by
  refine bytesOfDigits?_induction
    (motive := fun d x => bytesOfDigits? (d ++ e) = some (x ++ y)) he ?_ hd
  intro a b rest high low tail hh hl ih
  exact bytesOfDigits?_cons_cons.2 ⟨high, low, tail ++ y, hh, hl, ih, rfl⟩

theorem bytesOfDigits?_take {d : List Char} {x : Bytes} (hd : bytesOfDigits? d = some x) (n : Nat) :
    bytesOfDigits? (d.take (2 * n)) = some (x.take n) := by
  revert n
  refine bytesOfDigits?_induction
    (motive := fun d x => ∀ n, bytesOfDigits? (d.take (2 * n)) = some (x.take n))
    (by simp [bytesOfDigits?]) ?_ hd
  intro a b rest high low tail hh hl ih n
  cases n with
  | zero => simp [bytesOfDigits?]
  | succ n =>
    rw [show 2 * (n + 1) = 2 * n + 1 + 1 by omega]
    exact bytesOfDigits?_cons_cons.2 ⟨high, low, tail.take n, hh, hl, ih n, rfl⟩

theorem bytesOfDigits?_drop {d : List Char} {x : Bytes} (hd : bytesOfDigits? d = some x) (n : Nat) :
    bytesOfDigits? (d.drop (2 * n)) = some (x.drop n) := by
  revert n
  refine bytesOfDigits?_induction
    (motive := fun d x => ∀ n, bytesOfDigits? (d.drop (2 * n)) = some (x.drop n))
    (by simp [bytesOfDigits?]) ?_ hd
  intro a b rest high low tail hh hl ih n
  cases n with
  | zero => exact bytesOfDigits?_cons_cons.2 ⟨high, low, tail, hh, hl, by simpa using ih 0, rfl⟩
  | succ n =>
    rw [show 2 * (n + 1) = 2 * n + 1 + 1 by omega]
    exact ih n

theorem lowerChar_of_bytesOfDigits? {d : List Char} {x : Bytes} (hd : bytesOfDigits? d = some x) :
    d.flatMap lowerChar = x.flatMap byteDigits := by
  refine bytesOfDigits?_induction
    (motive := fun d x => d.flatMap lowerChar = x.flatMap byteDigits) rfl ?_ hd
  intro a b rest high low tail hh hl ih
  have hhigh := lt_of_hexDigit? hh
  have hlow := lt_of_hexDigit? hl
  have hval : (UInt8.ofNat (16 * high + low)).toNat = 16 * high + low := by
    rw [UInt8.toNat_ofNat']
    omega
  simp only [List.flatMap_cons, lowerChar_of_hexDigit? hh, lowerChar_of_hexDigit? hl, ih,
    byteDigits, hval, List.cons_append, List.nil_append]
  rw [show (16 * high + low) / 16 = high by omega, show (16 * high + low) % 16 = low by omega]

/-- A text that writes bytes is the mark with their digits behind it. -/
theorem bytes?_eq_some_iff {h : Hex} {b : Bytes} :
    h.bytes? = some b ↔ ∃ digits, h = ofDigits digits ∧ bytesOfDigits? digits = some b := by
  constructor
  · intro hb
    obtain ⟨chars⟩ := h
    simp only [bytes?] at hb
    split at hb
    · exact ⟨_, rfl, hb⟩
    · simp at hb
  · rintro ⟨digits, rfl, hb⟩
    exact hb

@[simp] theorem bytes?_ofDigits (d : List Char) : (ofDigits d).bytes? = bytesOfDigits? d := rfl

@[simp] theorem digits_ofDigits (d : List Char) : (ofDigits d).digits = d := rfl

@[simp] theorem isMarked_ofDigits (d : List Char) : (ofDigits d).isMarked = true := rfl

@[simp] theorem size_ofDigits (d : List Char) : (ofDigits d).size = (d.length + 1) / 2 := rfl

@[simp] theorem bytes?_ofBytes (b : Bytes) : (ofBytes b).bytes? = some b :=
  bytesOfDigits?_flatMap b

@[simp] theorem bytes?_empty : empty.bytes? = some [] := rfl

theorem size_of_bytes? {h : Hex} {b : Bytes} (hb : h.bytes? = some b) : h.size = b.length := by
  obtain ⟨d, rfl, hd⟩ := bytes?_eq_some_iff.1 hb
  have := length_of_bytesOfDigits? hd
  simp only [size_ofDigits]
  omega

@[simp] theorem size_ofBytes (b : Bytes) : (ofBytes b).size = b.length :=
  size_of_bytes? (bytes?_ofBytes b)

theorem bytes?_append {a b : Hex} {x y : Bytes} (ha : a.bytes? = some x) (hb : b.bytes? = some y) :
    (a ++ b).bytes? = some (x ++ y) := by
  obtain ⟨d, rfl, hd⟩ := bytes?_eq_some_iff.1 ha
  obtain ⟨e, rfl, he⟩ := bytes?_eq_some_iff.1 hb
  exact bytesOfDigits?_append hd he

theorem bytes?_take {h : Hex} {b : Bytes} (hb : h.bytes? = some b) (n : Nat) :
    (h.take n).bytes? = some (b.take n) := by
  obtain ⟨d, rfl, hd⟩ := bytes?_eq_some_iff.1 hb
  exact bytesOfDigits?_take hd n

theorem bytes?_drop {h : Hex} {b : Bytes} (hb : h.bytes? = some b) (n : Nat) :
    (h.drop n).bytes? = some (b.drop n) := by
  have hsize := size_of_bytes? hb
  obtain ⟨d, rfl, hd⟩ := bytes?_eq_some_iff.1 hb
  unfold drop
  split
  next hle => rw [bytes?_empty, List.drop_eq_nil_of_le (by omega)]
  next => exact bytesOfDigits?_drop hd n

/-- The characters of a written byte string are of ASCII. -/
theorem lt_of_mem_chars {h : Hex} {b : Bytes} (hb : h.bytes? = some b) :
    ∀ c ∈ h.chars, c.toNat < 128 := by
  obtain ⟨d, rfl, hd⟩ := bytes?_eq_some_iff.1 hb
  have : ∀ c ∈ d, c.toNat < 128 := by
    refine bytesOfDigits?_induction
      (motive := fun d _ => ∀ c ∈ d, c.toNat < 128) (by simp) ?_ hd
    intro a b rest high low tail hh hl ih c hc
    rcases List.mem_cons.1 hc with rfl | hc
    · exact toNat_lt_of_hexDigit? hh
    rcases List.mem_cons.1 hc with rfl | hc
    · exact toNat_lt_of_hexDigit? hl
    · exact ih c hc
  intro c hc
  rcases List.mem_cons.1 hc with rfl | hc
  · decide
  rcases List.mem_cons.1 hc with rfl | hc
  · decide
  · exact this c hc

theorem joinUnits_of_bytes? {h : Hex} {b : Bytes} (hb : h.bytes? = some b) :
    joinUnits h.chars = h.chars :=
  joinUnits_of_none fun c hc =>
    surrogate?_eq_none (Nat.lt_trans (lt_of_mem_chars hb c hc) (by decide))

theorem splitUnits_of_bytes? {h : Hex} {b : Bytes} (hb : h.bytes? = some b) :
    splitUnits h.chars = h.chars :=
  splitUnits_of_units fun c hc => isUnit_of_lt (Nat.lt_trans (lt_of_mem_chars hb c hc) (by decide))

theorem lower_of_bytes? {h : Hex} {b : Bytes} (hb : h.bytes? = some b) : h.lower = ofBytes b := by
  have plain : lowerText h.chars = h.chars.flatMap lowerChar :=
    lowerText_of_ne fun c hc => Nat.ne_of_lt (Nat.lt_trans (lt_of_mem_chars hb c hc) (by decide))
  have joined := joinUnits_of_bytes? hb
  have split := splitUnits_of_bytes? (bytes?_ofBytes b)
  obtain ⟨d, rfl, hd⟩ := bytes?_eq_some_iff.1 hb
  have mark : lowerChar '0' = ['0'] ∧ lowerChar 'x' = ['x'] := by decide
  have digits : ('0' :: 'x' :: d).flatMap lowerChar = '0' :: 'x' :: b.flatMap byteDigits := by
    rw [List.flatMap_cons, List.flatMap_cons, mark.1, mark.2, lowerChar_of_bytesOfDigits? hd]
    rfl
  rw [lower, joined, plain, ofDigits, digits]
  exact congrArg Hex.mk split

@[simp] theorem lower_ofBytes (b : Bytes) : (ofBytes b).lower = ofBytes b :=
  lower_of_bytes? (bytes?_ofBytes b)

theorem ofBytes_inj {x y : Bytes} : ofBytes x = ofBytes y ↔ x = y := by
  constructor
  · intro h
    have := congrArg bytes? h
    simpa using this
  · rintro rfl
    rfl

/-- Writings differ in the case of letters at most if they are of the same bytes. -/
theorem same_iff {a b : Hex} {x y : Bytes} (ha : a.bytes? = some x) (hb : b.bytes? = some y) :
    same a b = true ↔ x = y := by
  rw [same, beq_iff_eq, lower_of_bytes? ha, lower_of_bytes? hb, ofBytes_inj]

theorem filledBytes?_of_bytesOfDigits? {d : List Char} {b : Bytes} (hd : bytesOfDigits? d = some b) :
    filledBytes? d = some b := by
  have := length_of_bytesOfDigits? hd
  simp only [filledBytes?]
  rw [if_pos (by omega), hd]

theorem read?_of_bytes? {h : Hex} {b : Bytes} (hb : h.bytes? = some b) : h.read? = some b := by
  obtain ⟨d, rfl, hd⟩ := bytes?_eq_some_iff.1 hb
  exact filledBytes?_of_bytesOfDigits? hd

theorem hasDigits_of_bytes? {h : Hex} {b : Bytes} (hb : h.bytes? = some b) : h.hasDigits = true := by
  obtain ⟨d, rfl, hd⟩ := bytes?_eq_some_iff.1 hb
  have : d.all (fun c => (hexDigit? c).isSome) = true := by
    refine bytesOfDigits?_induction
      (motive := fun d _ => d.all (fun c => (hexDigit? c).isSome) = true) rfl ?_ hd
    intro a b rest high low tail hh hl ih
    simpa [hh, hl] using ih
  simpa [hasDigits] using this

/-- A text that writes bytes is hashed by them. -/
theorem content_of_bytes? {h : Hex} {b : Bytes} (hb : h.bytes? = some b) : h.content = b := by
  simp [content, written, hasDigits_of_bytes? hb, read?_of_bytes? hb]

@[simp] theorem content_ofBytes (b : Bytes) : (ofBytes b).content = b :=
  content_of_bytes? (bytes?_ofBytes b)

theorem toInt?_of_bytes? {h : Hex} {b : Bytes} (hb : h.bytes? = some b) (hne : b ≠ []) :
    h.toInt? = some (b.toNat : Int) := by
  simp [toInt?, hb]

/-- A written byte string reads back as what it was written from. -/
theorem ofText_text {h : Hex} {b : Bytes} (hb : h.bytes? = some b) : ofText h.text = h := by
  simp [ofText, text, joinUnits_of_bytes? hb, splitUnits_of_bytes? hb]

/-- A text in which no surrogate stands alone is kept. -/
theorem text_ofText {s : String} (h : ∀ c ∈ s.toList, surrogate? c = none) : (ofText s).text = s := by
  simp [ofText, text, joinUnits_splitUnits h]

end Hex

end SessionKeys
