/-!
Texts in units of sixteen bits. A character outside the basic plane takes two units, a high surrogate
and a low one; every other character takes one. A text may also hold a surrogate without its partner.
It is no character, so one of a block that is assigned to nothing stands for it, and a character of that
block itself is kept as its two surrogates. Main statements: a text is what its units make, and whatever
units it is made from are its units.
-/

namespace SessionKeys

/-- The surrogate that a character stands for. -/
def surrogate? (c : Char) : Option Nat :=
  if 0x8d800 ≤ c.toNat ∧ c.toNat < 0x8e000 then some (c.toNat - 0x80000) else none

/-- The character that stands for a unit. -/
def unitChar (unit : Nat) : Char :=
  Char.ofNat (if 0xd800 ≤ unit ∧ unit < 0xe000 then unit + 0x80000 else unit)

/-- Whether a character stands for a unit. -/
def isUnit (c : Char) : Bool :=
  c.toNat < 0x10000 || (surrogate? c).isSome

/-- The units of a character. -/
def charUnits (c : Char) : List Char :=
  if c.toNat < 0x10000 then [c]
  else
    [unitChar (0xd800 + (c.toNat - 0x10000) / 0x400), unitChar (0xdc00 + (c.toNat - 0x10000) % 0x400)]

/-- The units of a text. -/
def splitUnits (cs : List Char) : List Char :=
  cs.flatMap fun c => if isUnit c then [c] else charUnits c

/-- The character that two units make, if they are a high surrogate and a low one. -/
def pair? (first second : Char) : Option Char :=
  match surrogate? first, surrogate? second with
  | some high, some low =>
    if high < 0xdc00 ∧ 0xdc00 ≤ low then
      some (Char.ofNat (0x10000 + 0x400 * (high - 0xd800) + (low - 0xdc00)))
    else none
  | _, _ => none

/-- The text that some units make. -/
def joinUnits : List Char → List Char
  | first :: second :: cs =>
    match (pair? first second).filter fun c => !isUnit c with
    | some c => c :: joinUnits cs
    | none => first :: joinUnits (second :: cs)
  | cs => cs

/-! ### UTF-8 -/

/-- A character that can be written alone: the replacement character for a surrogate. -/
def writable (c : Char) : Char :=
  if (surrogate? c).isSome then Char.ofNat 0xfffd else c

/-- The characters that some units make, each surrogate without its partner replaced. -/
def writableChars : List Char → List Char
  | first :: second :: cs =>
    match pair? first second with
    | some c => c :: writableChars cs
    | none => writable first :: writableChars (second :: cs)
  | cs => cs.map writable

/-- The bytes of a text in UTF-8. A surrogate without its partner is written as the replacement
character. -/
def utf8Bytes (s : String) : List UInt8 :=
  (String.ofList (writableChars (splitUnits s.toList))).toUTF8.toList

/-! ### Joining and splitting -/

theorem surrogate?_eq_none {c : Char} (h : c.toNat < 0x8d800) : surrogate? c = none := by
  simp [surrogate?]
  omega

theorem isUnit_of_lt {c : Char} (h : c.toNat < 0x10000) : isUnit c = true := by
  simp [isUnit, h]

theorem toNat_ofNat_of_valid {n : Nat} (h : n.isValidChar) : (Char.ofNat n).toNat = n := by
  rw [Char.ofNat, dif_pos h]
  rfl

/-- A surrogate is in the range of surrogates, and its character stands for it. -/
theorem eq_unitChar_of_surrogate? {c : Char} {n : Nat} (h : surrogate? c = some n) :
    c = unitChar n ∧ 0xd800 ≤ n ∧ n < 0xe000 := by
  simp only [surrogate?] at h
  split at h
  next hc =>
    obtain rfl := Option.some.inj h
    have range : 0xd800 ≤ c.toNat - 0x80000 ∧ c.toNat - 0x80000 < 0xe000 := by omega
    refine ⟨?_, range⟩
    rw [unitChar, if_pos range, Nat.sub_add_cancel (by omega), Char.ofNat_toNat]
  next => simp at h

theorem pair?_eq_none {first second : Char} (h : surrogate? first = none) :
    pair? first second = none := by
  simp [pair?, h]

/-- The units of the character that two units make are those two. -/
theorem charUnits_of_pair? {first second c : Char} (h : pair? first second = some c) :
    charUnits c = [first, second] := by
  simp only [pair?] at h
  split at h
  next high low hf hs =>
    obtain ⟨rfl, hh, _⟩ := eq_unitChar_of_surrogate? hf
    obtain ⟨rfl, _, hl⟩ := eq_unitChar_of_surrogate? hs
    split at h
    next order =>
      obtain rfl := Option.some.inj h
      have number : (Char.ofNat (0x10000 + 0x400 * (high - 0xd800) + (low - 0xdc00))).toNat =
          0x10000 + 0x400 * (high - 0xd800) + (low - 0xdc00) :=
        toNat_ofNat_of_valid (Or.inr ⟨by omega, by omega⟩)
      have first : 0xd800 + (0x10000 + 0x400 * (high - 0xd800) + (low - 0xdc00) - 0x10000) / 0x400 =
          high := by
        omega
      have second : 0xdc00 + (0x10000 + 0x400 * (high - 0xd800) + (low - 0xdc00) - 0x10000) % 0x400 =
          low := by
        omega
      rw [charUnits, number, if_neg (by omega), first, second]
    next => simp at h
  next => simp at h

theorem splitUnits_of_units {cs : List Char} (h : ∀ c ∈ cs, isUnit c = true) : splitUnits cs = cs := by
  induction cs with
  | nil => rfl
  | cons c cs ih =>
    have hcs := ih fun d hd => h d (List.mem_cons_of_mem c hd)
    simp only [splitUnits] at hcs
    simp [splitUnits, h c List.mem_cons_self, hcs]

theorem joinUnits_cons {c : Char} (h : surrogate? c = none) (cs : List Char) :
    joinUnits (c :: cs) = c :: joinUnits cs := by
  cases cs with
  | nil => rfl
  | cons d cs => simp [joinUnits, pair?_eq_none h]

/-- The units of a text are those that it is made from. -/
theorem splitUnits_joinUnits {cs : List Char} (h : ∀ c ∈ cs, isUnit c = true) :
    splitUnits (joinUnits cs) = cs := by
  fun_induction joinUnits cs with
  | case1 first second cs c hc ih =>
    obtain ⟨hpair, hunit⟩ := Option.filter_eq_some_iff.1 hc
    have hcs := ih fun d hd => h d (by simp [hd])
    simp only [splitUnits] at hcs
    simp only [Bool.not_eq_true'] at hunit
    simp [splitUnits, hunit, charUnits_of_pair? hpair, hcs]
  | case2 first second cs _ ih =>
    have hcs := ih fun d hd => h d (List.mem_cons_of_mem first hd)
    simp only [splitUnits] at hcs
    simp [splitUnits, h first List.mem_cons_self, hcs]
  | case3 cs => exact splitUnits_of_units h

theorem surrogate?_unitChar {unit : Nat} (h : 0xd800 ≤ unit) (h' : unit < 0xe000) :
    surrogate? (unitChar unit) = some unit := by
  have : (unitChar unit).toNat = unit + 0x80000 := by
    rw [unitChar, if_pos ⟨h, h'⟩]
    exact toNat_ofNat_of_valid (Or.inr ⟨by omega, by omega⟩)
  rw [surrogate?, this, if_pos (by omega), Nat.add_sub_cancel]

/-- A high surrogate and a low one make a character. -/
theorem pair?_of_surrogates {first second : Char} {high low : Nat} (hf : surrogate? first = some high)
    (hs : surrogate? second = some low) (hh : high < 0xdc00) (hl : 0xdc00 ≤ low) :
    pair? first second = some (Char.ofNat (0x10000 + 0x400 * (high - 0xd800) + (low - 0xdc00))) := by
  simp [pair?, hf, hs, hh, hl]

/-- A character outside the basic plane has two units, which make it again. -/
theorem exists_charUnits {c : Char} (h : 0x10000 ≤ c.toNat) :
    ∃ first second, charUnits c = [first, second] ∧ pair? first second = some c := by
  have hc : c.toNat < 0x110000 := by
    have := c.valid
    simp only [UInt32.isValidChar, Nat.isValidChar] at this
    simp only [Char.toNat]
    omega
  have high : surrogate? _ = some (0xd800 + (c.toNat - 0x10000) / 0x400) :=
    surrogate?_unitChar (by omega) (by omega)
  have low : surrogate? _ = some (0xdc00 + (c.toNat - 0x10000) % 0x400) :=
    surrogate?_unitChar (by omega) (by omega)
  have value : 0x10000 + 0x400 * (0xd800 + (c.toNat - 0x10000) / 0x400 - 0xd800) +
      (0xdc00 + (c.toNat - 0x10000) % 0x400 - 0xdc00) = c.toNat := by
    omega
  refine ⟨_, _, by rw [charUnits, if_neg (Nat.not_lt.2 h)], ?_⟩
  rw [pair?_of_surrogates high low (by omega) (by omega), value, Char.ofNat_toNat]

/-- A text in which no surrogate stands alone is what its units make. -/
theorem joinUnits_splitUnits {cs : List Char} (h : ∀ c ∈ cs, surrogate? c = none) :
    joinUnits (splitUnits cs) = cs := by
  induction cs with
  | nil => rfl
  | cons c cs ih =>
    have hc := h c List.mem_cons_self
    have hcs := ih fun d hd => h d (List.mem_cons_of_mem c hd)
    simp only [splitUnits] at hcs
    by_cases hn : c.toNat < 0x10000
    · have unit := isUnit_of_lt hn
      simp only [splitUnits, List.flatMap_cons, unit, if_true, List.cons_append, List.nil_append,
        joinUnits_cons hc, hcs]
    · have unit : isUnit c = false := by simp [isUnit, hn, hc]
      obtain ⟨first, second, units, pair⟩ := exists_charUnits (Nat.le_of_not_lt hn)
      simp [splitUnits, unit, units, joinUnits, pair, Option.filter, hcs]

theorem joinUnits_of_none {cs : List Char} (h : ∀ c ∈ cs, surrogate? c = none) :
    joinUnits cs = cs := by
  induction cs with
  | nil => rfl
  | cons c cs ih => rw [joinUnits_cons (h c (by simp)), ih fun d hd => h d (by simp [hd])]

end SessionKeys
