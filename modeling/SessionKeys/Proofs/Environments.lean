import SessionKeys.Proofs.Routing
import SessionKeys.Proofs.WholeNumbers

/-!
Which environments a server is configured from. The addresses are texts of forty hexadecimal digits behind the
mark, in any case of letters (`Address.isSome_bytes?_ofText`). The number of the chain is the one that its text
begins with (`leadingInteger?_eq_some`), whatever follows: so a text of which something is left besides white
space is cut, and the configuration is for another chain than the text says. Main statement:
`environment_loaded_as_written_iff`.
-/

namespace SessionKeys

/-! ### Numerals -/

/-- Some characters are a decimal numeral, with a sign or none. -/
inductive WritesInteger : List Char → Int → Prop
  | unsigned {digits : List Char} {n : Nat} (writes : WritesNumber digits n) : WritesInteger digits n
  | plus {digits : List Char} {n : Nat} (writes : WritesNumber digits n) : WritesInteger ('+' :: digits) n
  | minus {digits : List Char} {n : Nat} (writes : WritesNumber digits n) : WritesInteger ('-' :: digits) (-n)

/-- Some characters begin with a numeral, behind white space, and `rest` is what follows it. -/
def BeginsWith (cs : List Char) (n : Int) (rest : List Char) : Prop :=
  ∃ blanks numeral, cs = blanks ++ (numeral ++ rest) ∧ (∀ c ∈ blanks, isBlank c = true) ∧
    WritesInteger numeral n ∧ ∀ c ∈ rest.head?, c.isDigit = false

/-- Some characters are a numeral as a whole, white space around it aside. -/
def IsNumeral (cs : List Char) (n : Int) : Prop :=
  ∃ before numeral after, cs = before ++ (numeral ++ after) ∧ (∀ c ∈ before, isBlank c = true) ∧
    WritesInteger numeral n ∧ ∀ c ∈ after, isBlank c = true

theorem isDigit_iff {c : Char} : c.isDigit = true ↔ 48 ≤ c.toNat ∧ c.toNat ≤ 57 := by
  simp only [Char.isDigit, Bool.and_eq_true, decide_eq_true_eq, ge_iff_le, UInt32.le_iff_toNat_le]
  exact Iff.rfl

theorem not_isBlank_of_isDigit {c : Char} (digit : c.isDigit = true) : isBlank c = false := by
  have range := isDigit_iff.1 digit
  simp [isBlank]
  omega

theorem not_isDigit_of_isBlank {c : Char} (blank : isBlank c = true) : c.isDigit = false := by
  by_contra digit
  rw [not_isBlank_of_isDigit (by simpa using digit)] at blank
  cases blank

/-- What is left where some characters are dropped does not begin with one of them. -/
theorem head?_dropWhile_eq_false {p : Char → Bool} (cs : List Char) :
    ∀ c ∈ (cs.dropWhile p).head?, p c = false := by
  intro c first
  have stops := List.head?_dropWhile_not p cs
  rw [Option.mem_def.1 first] at stops
  exact stops

/-- What is dropped ends where the first other character stands. -/
theorem dropWhile_append_eq_right {p : Char → Bool} {cs rest : List Char} (inside : ∀ c ∈ cs, p c = true)
    (ends : ∀ c ∈ rest.head?, p c = false) : (cs ++ rest).dropWhile p = rest := by
  rw [List.dropWhile_append_of_pos inside]
  cases rest with
  | nil => rfl
  | cons c rest => exact List.dropWhile_cons_of_neg (by simp [ends c rfl])

theorem takeWhile_append_eq_left {p : Char → Bool} {cs rest : List Char} (inside : ∀ c ∈ cs, p c = true)
    (ends : ∀ c ∈ rest.head?, p c = false) : (cs ++ rest).takeWhile p = cs := by
  have whole := List.takeWhile_append_dropWhile (p := p) (l := cs ++ rest)
  rw [dropWhile_append_eq_right inside ends] at whole
  exact List.append_cancel_right whole

/-- A number at the start of some characters is written by all digits up to the first other character. -/
theorem leadingDigits?_eq_some {cs : List Char} {n : Nat} : leadingDigits? cs = some n ↔
    ∃ digits rest, cs = digits ++ rest ∧ WritesNumber digits n ∧ ∀ c ∈ rest.head?, c.isDigit = false := by
  unfold leadingDigits?
  constructor
  · intro read
    exact ⟨_, _, List.takeWhile_append_dropWhile.symm, decimal?_eq_some.1 read, head?_dropWhile_eq_false cs⟩
  · rintro ⟨digits, rest, rfl, writes, ends⟩
    rw [takeWhile_append_eq_left writes.digits ends]
    exact decimal?_eq_some.2 writes

theorem WritesNumber.exists_cons {digits : List Char} {n : Nat} (writes : WritesNumber digits n) :
    ∃ d ds, digits = d :: ds ∧ d.isDigit = true := by
  obtain ⟨d, ds, rfl⟩ := List.exists_cons_of_ne_nil writes.nonempty
  exact ⟨d, ds, rfl, writes.digits d List.mem_cons_self⟩

/-- White space in front of a numeral ends where the numeral begins. -/
theorem WritesInteger.dropWhile_blanks {blanks numeral : List Char} {n : Int} (writes : WritesInteger numeral n)
    (blank : ∀ c ∈ blanks, isBlank c = true) (rest : List Char) :
    (blanks ++ (numeral ++ rest)).dropWhile isBlank = numeral ++ rest := by
  rw [List.dropWhile_append_of_pos blank]
  cases writes with
  | plus => rfl
  | minus => rfl
  | unsigned writes =>
    obtain ⟨d, ds, rfl, digit⟩ := writes.exists_cons
    exact List.dropWhile_cons_of_neg (by simp [not_isBlank_of_isDigit digit])

/-- The integer that is read at the start of some characters is the one that they begin with. -/
theorem leadingInteger?_eq_some {cs : List Char} {n : Int} :
    leadingInteger? cs = some n ↔ ∃ rest, BeginsWith cs n rest := by
  constructor
  · intro read
    have begins {numeral rest : List Char} (same : cs.dropWhile isBlank = numeral ++ rest)
        (writes : WritesInteger numeral n) (ends : ∀ c ∈ rest.head?, c.isDigit = false) :
        ∃ rest, BeginsWith cs n rest :=
      ⟨rest, _, numeral, by rw [← same, List.takeWhile_append_dropWhile],
        fun _ => List.mem_takeWhile_imp, writes, ends⟩
    unfold leadingInteger? at read
    split at read
    next ds same =>
      obtain ⟨_, lifted, rfl⟩ := Option.map_eq_some_iff.1 read
      obtain ⟨m, digits, ⟨⟩⟩ := Option.bind_eq_some_iff.1 lifted
      obtain ⟨digits, rest, rfl, writes, ends⟩ := leadingDigits?_eq_some.1 digits
      exact begins same (.minus writes) ends
    next ds same =>
      obtain ⟨_, lifted, rfl⟩ := Option.map_eq_some_iff.1 read
      obtain ⟨m, digits, ⟨⟩⟩ := Option.bind_eq_some_iff.1 lifted
      obtain ⟨digits, rest, rfl, writes, ends⟩ := leadingDigits?_eq_some.1 digits
      exact begins same (.plus writes) ends
    next =>
      obtain ⟨_, lifted, rfl⟩ := Option.map_eq_some_iff.1 read
      obtain ⟨m, digits, ⟨⟩⟩ := Option.bind_eq_some_iff.1 lifted
      obtain ⟨digits, rest, same, writes, ends⟩ := leadingDigits?_eq_some.1 digits
      exact begins same (.unsigned writes) ends
  · rintro ⟨rest, blanks, numeral, rfl, blank, writes, ends⟩
    have reads {digits : List Char} {m : Nat} (writes : WritesNumber digits m) (signed : Int → Int) :
        (do let k ← leadingDigits? (digits ++ rest); pure (k : Int)).map signed = some (signed m) := by
      rw [leadingDigits?_eq_some.2 ⟨digits, rest, rfl, writes, ends⟩]
      rfl
    unfold leadingInteger?
    rw [writes.dropWhile_blanks blank]
    cases writes with
    | plus writes => exact reads writes id
    | minus writes => exact reads writes fun k => -k
    | unsigned writes =>
      have read := reads writes id
      obtain ⟨d, ds, rfl, digit⟩ := writes.exists_cons
      -- a digit is no sign
      split
      next same =>
        cases same
        exact absurd digit (by decide)
      next same =>
        cases same
        exact absurd digit (by decide)
      next => exact read

/-- Some characters without the sign that they begin with, if there is one. -/
def withoutSign : List Char → List Char
  | '-' :: cs => cs
  | '+' :: cs => cs
  | cs => cs

/-- A number without a sign begins with a digit, which is no sign. -/
theorem WritesNumber.withoutSign_append {digits : List Char} {n : Nat} (writes : WritesNumber digits n)
    (rest : List Char) : withoutSign (digits ++ rest) = digits ++ rest := by
  obtain ⟨d, ds, rfl, digit⟩ := writes.exists_cons
  unfold withoutSign
  split
  next same =>
    cases same
    exact absurd digit (by decide)
  next same =>
    cases same
    exact absurd digit (by decide)
  next => rfl

/-- What follows the numeral is all that stands behind its digits. -/
theorem BeginsWith.rest_eq {cs rest : List Char} {n : Int} (begins : BeginsWith cs n rest) :
    rest = (withoutSign (cs.dropWhile isBlank)).dropWhile Char.isDigit := by
  obtain ⟨blanks, numeral, rfl, blank, writes, ends⟩ := begins
  rw [writes.dropWhile_blanks blank]
  cases writes with
  | plus writes => exact (dropWhile_append_eq_right writes.digits ends).symm
  | minus writes => exact (dropWhile_append_eq_right writes.digits ends).symm
  | unsigned writes => rw [writes.withoutSign_append, dropWhile_append_eq_right writes.digits ends]

/-- A numeral as a whole is a number at the start that nothing but white space follows. -/
theorem isNumeral_iff {cs : List Char} {n : Int} :
    IsNumeral cs n ↔ ∃ rest, BeginsWith cs n rest ∧ ∀ c ∈ rest, isBlank c = true := by
  constructor
  · rintro ⟨before, numeral, after, rfl, blank, writes, blankAfter⟩
    refine ⟨after, ⟨before, numeral, rfl, blank, writes, fun c first => ?_⟩, blankAfter⟩
    exact not_isDigit_of_isBlank (blankAfter c (List.mem_of_head? first))
  · rintro ⟨rest, ⟨before, numeral, rfl, blank, writes, -⟩, blankAfter⟩
    exact ⟨before, numeral, rest, rfl, blank, writes, blankAfter⟩

/-! ### Addresses -/

/-- A text is an address of twenty bytes: the mark, and forty hexadecimal digits in any case of letters. -/
def WritesAddress (text : String) : Prop :=
  ∃ digits, text.toList = '0' :: 'x' :: digits ∧ digits.length = 40 ∧ ∀ c ∈ digits, (hexDigit? c).isSome = true

theorem WritesAddress.ne_empty {text : String} (writes : WritesAddress text) : text ≠ "" := by
  rintro rfl
  obtain ⟨digits, same, -⟩ := writes
  cases same

/-- A text none of whose units is a surrogate has one unit for each character. -/
theorem splitUnits_eq_self {cs : List Char} (plain : ∀ c ∈ splitUnits cs, surrogate? c = none) :
    splitUnits cs = cs := by
  refine splitUnits_of_units fun c hc => ?_
  by_contra outside
  have large : 0x10000 ≤ c.toNat := by
    by_contra small
    exact outside (isUnit_of_lt (Nat.lt_of_not_le small))
  obtain ⟨first, second, units, pair⟩ := exists_charUnits large
  have listed : first ∈ splitUnits cs := by
    refine List.mem_flatMap.2 ⟨c, hc, ?_⟩
    rw [if_neg outside, units]
    exact List.mem_cons_self
  rw [pair?_eq_none (plain first listed)] at pair
  cases pair

namespace Hex

theorem exists_bytesOfDigits? : ∀ {digits : List Char}, digits.length % 2 = 0 →
    (∀ c ∈ digits, (hexDigit? c).isSome = true) → ∃ b, bytesOfDigits? digits = some b
  | [], _, _ => ⟨[], rfl⟩
  | [_], odd, _ => by cases odd
  | x :: y :: rest, even, digits => by
    obtain ⟨high, hx⟩ := Option.isSome_iff_exists.1 (digits x (by simp))
    obtain ⟨low, hy⟩ := Option.isSome_iff_exists.1 (digits y (by simp))
    have evenRest : rest.length % 2 = 0 := by simpa [Nat.add_assoc] using even
    obtain ⟨tail, ht⟩ := exists_bytesOfDigits? evenRest fun c hc => digits c (by simp [hc])
    exact ⟨_, bytesOfDigits?_cons_cons.2 ⟨high, low, tail, hx, hy, ht, rfl⟩⟩

/-- Only hexadecimal digits write bytes. -/
theorem isSome_hexDigit?_of_bytesOfDigits? {digits : List Char} {b : Bytes}
    (writes : bytesOfDigits? digits = some b) : ∀ c ∈ digits, (hexDigit? c).isSome = true := by
  have marked := hasDigits_of_bytes? ((bytes?_ofDigits digits).trans writes)
  simpa [hasDigits] using marked

end Hex

/-- A text in the place of an address is well formed if it writes one. -/
theorem Address.isSome_bytes?_ofText {text : String} :
    (Address.ofText text).bytes?.isSome = true ↔ WritesAddress text := by
  rw [Option.isSome_iff_exists]
  constructor
  · rintro ⟨b, read⟩
    obtain ⟨written, length⟩ := bytes?_eq_some_iff.1 read
    have plain := splitUnits_eq_self fun c hc =>
      surrogate?_eq_none (Nat.lt_trans (Hex.lt_of_mem_chars written c hc) (by decide))
    obtain ⟨digits, same, writes⟩ := Hex.bytes?_eq_some_iff.1 written
    refine ⟨digits, plain.symm.trans (congrArg Hex.chars same), ?_,
      Hex.isSome_hexDigit?_of_bytesOfDigits? writes⟩
    rw [Hex.length_of_bytesOfDigits? writes, length]
  · rintro ⟨digits, same, length, hex⟩
    obtain ⟨b, writes⟩ := Hex.exists_bytesOfDigits? (by omega) hex
    have written : (Hex.ofDigits digits).bytes? = some b := (Hex.bytes?_ofDigits digits).trans writes
    have chars : (Address.ofText text).hex = Hex.ofDigits digits := by
      unfold Address.ofText Hex.ofText
      rw [same]
      exact congrArg Hex.mk (Hex.splitUnits_of_bytes? written)
    have size := Hex.length_of_bytesOfDigits? writes
    exact ⟨b, bytes?_eq_some_iff.2 ⟨by rw [chars, written], by omega⟩⟩

/-! ### Variables -/

namespace Config

variable {env : Environment} {config : Config} {name : String} {n : Int}

/-- A variable has a text that is not empty. -/
def IsSet (env : Environment) (name : String) : Prop :=
  ∃ text, env name = some text ∧ text ≠ ""

/-- A variable has the text of an address. -/
def IsAddress (env : Environment) (name : String) : Prop :=
  ∃ text, env name = some text ∧ WritesAddress text

/-- A variable is absent, or empty, or has the text of an address. -/
def IsOptional (env : Environment) (name : String) : Prop :=
  ∀ text, env name = some text → text = "" ∨ WritesAddress text

theorem present?_eq_some {text : String} : present? env name = some text ↔ env name = some text ∧ text ≠ "" := by
  simp [present?, Option.filter_eq_some_iff]

theorem isAddress_iff : IsAddress env name ↔ ∃ b, bytes? env name = some b := by
  unfold IsAddress bytes?
  constructor
  · rintro ⟨text, set, writes⟩
    obtain ⟨b, read⟩ := Option.isSome_iff_exists.1 (Address.isSome_bytes?_ofText.2 writes)
    exact ⟨b, Option.bind_eq_some_iff.2 ⟨text, present?_eq_some.2 ⟨set, writes.ne_empty⟩, read⟩⟩
  · rintro ⟨b, read⟩
    obtain ⟨text, present, writes⟩ := Option.bind_eq_some_iff.1 read
    exact ⟨text, (present?_eq_some.1 present).1,
      Address.isSome_bytes?_ofText.1 (Option.isSome_iff_exists.2 ⟨b, writes⟩)⟩

/-- An optional variable is set if it has an address. -/
theorem IsOptional.isSet_iff (optional : IsOptional env name) : IsSet env name ↔ (bytes? env name).isSome = true := by
  rw [Option.isSome_iff_exists, ← isAddress_iff]
  constructor
  · rintro ⟨text, set, nonempty⟩
    exact ⟨text, set, (optional text set).resolve_left nonempty⟩
  · rintro ⟨text, set, writes⟩
    exact ⟨text, set, writes.ne_empty⟩

theorem optionalAddress_eq_ok_iff {a : Option Address} :
    optionalAddress env name = .ok a ↔ IsOptional env name ∧ a = (bytes? env name).map .ofBytes := by
  constructor
  · intro read
    refine ⟨fun text set => or_iff_not_imp_left.2 fun nonempty => ?_, eq_of_optionalAddress read⟩
    unfold optionalAddress at read
    rw [present?_eq_some.2 ⟨set, nonempty⟩] at read
    obtain ⟨_, parsed, -⟩ := bind_eq_ok.1 read
    obtain ⟨b, writes, -⟩ := parseAddress_eq_ok.1 parsed
    exact Address.isSome_bytes?_ofText.1 (Option.isSome_iff_exists.2 ⟨b, writes⟩)
  · rintro ⟨optional, rfl⟩
    cases written : bytes? env name with
    | some b => exact optionalAddress_eq_ok.2 ⟨b, written, rfl⟩
    | none =>
      have unset : ¬IsSet env name := fun set => by
        rw [optional.isSet_iff, written] at set
        cases set
      have absent : present? env name = none :=
        Option.eq_none_iff_forall_ne_some.2 fun text present => unset ⟨text, present?_eq_some.1 present⟩
      unfold optionalAddress
      rw [absent]
      rfl

/-! ### Chain numbers -/

/-- The number of the chain that an environment writes; one if it writes none. -/
def WritesChain (env : Environment) (n : Int) : Prop :=
  match env "CHAIN_ID" with
  | none => n = 1
  | some text => IsNumeral text.toList n ∧ 0 < n ∧ n < 2 ^ 53

/-- The number of the chain that an environment begins to write. -/
def StartsChain (env : Environment) (n : Int) : Prop :=
  match env "CHAIN_ID" with
  | none => n = 1
  | some text => (∃ rest, BeginsWith text.toList n rest) ∧ 0 < n ∧ n < 2 ^ 53

/-- An environment begins to write the number of a chain, and writes more than white space behind it. -/
def CutsChain (env : Environment) : Prop :=
  ∃ text n rest, env "CHAIN_ID" = some text ∧ BeginsWith text.toList n rest ∧ (0 < n ∧ n < 2 ^ 53) ∧
    ∃ c ∈ rest, isBlank c = false

theorem parseChainId_eq_ok {text : String} :
    parseChainId text = .ok n ↔ (∃ rest, BeginsWith text.toList n rest) ∧ 0 < n ∧ n < 2 ^ 53 := by
  have bound : chainIdBound = 2 ^ 53 := by decide
  unfold parseChainId
  rw [← leadingInteger?_eq_some, bound]
  cases leadingInteger? text.toList with
  | none => simp
  | some m =>
    simp only [ite_error_eq_ok, Except.ok.injEq, Option.some.injEq]
    constructor
    · rintro ⟨range, rfl⟩
      exact ⟨rfl, range⟩
    · rintro ⟨rfl, range⟩
      exact ⟨range, rfl⟩

theorem startsChain_iff : StartsChain env n ↔ parseChainId ((env "CHAIN_ID").getD "1") = .ok n := by
  unfold StartsChain
  cases env "CHAIN_ID" with
  | none =>
    have one : parseChainId "1" = .ok 1 := by decide +kernel
    simp [one, eq_comm]
  | some text => exact parseChainId_eq_ok.symm

/-- A chain that is written is begun, and nothing is cut from it. -/
theorem writesChain_iff : WritesChain env n ↔ StartsChain env n ∧ ¬CutsChain env := by
  unfold WritesChain StartsChain CutsChain
  cases env "CHAIN_ID" with
  | none => simp
  | some text =>
    dsimp only
    rw [isNumeral_iff]
    constructor
    · rintro ⟨⟨rest, begins, blank⟩, range⟩
      refine ⟨⟨⟨rest, begins⟩, range⟩, ?_⟩
      rintro ⟨_, m, other, ⟨⟩, again, -, c, hc, more⟩
      rw [again.rest_eq, ← begins.rest_eq] at hc
      rw [blank c hc] at more
      cases more
    · rintro ⟨⟨⟨rest, begins⟩, range⟩, whole⟩
      refine ⟨⟨rest, begins, fun c hc => ?_⟩, range⟩
      by_contra more
      exact whole ⟨text, n, rest, rfl, begins, range, c, hc, by simpa using more⟩

theorem CutsChain.exists_startsChain (cuts : CutsChain env) : ∃ n, StartsChain env n := by
  obtain ⟨text, n, rest, set, begins, range, -⟩ := cuts
  refine ⟨n, ?_⟩
  unfold StartsChain
  rw [set]
  exact ⟨⟨rest, begins⟩, range⟩

/-! ### Configurations -/

/-- The addresses of an environment are well formed, and there is a validator for an owner. -/
structure HasAddresses (env : Environment) : Prop where
  wallet : IsAddress env "WALLET_ADDRESS"
  validator : IsAddress env "VALIDATOR_ADDRESS"
  entryPoint : IsOptional env "ENTRY_POINT_ADDRESS"
  owner : IsOptional env "OWNER_ADDRESS"
  signer : IsOptional env "SUDO_VALIDATOR_ADDRESS"
  complete : IsSet env "OWNER_ADDRESS" → IsSet env "SUDO_VALIDATOR_ADDRESS"

/-- A configuration has the addresses of an environment, with their checksums. -/
structure TakesAddresses (config : Config) (env : Environment) : Prop where
  wallet : some config.walletAddress = (bytes? env "WALLET_ADDRESS").map .ofBytes
  validator : some config.validatorAddress = (bytes? env "VALIDATOR_ADDRESS").map .ofBytes
  entryPoint : config.entryPointAddress =
    ((bytes? env "ENTRY_POINT_ADDRESS").map .ofBytes).getD defaultEntryPoint
  owner : config.ownerAddress = (bytes? env "OWNER_ADDRESS").map .ofBytes
  signer : config.sudoValidatorAddress = (bytes? env "SUDO_VALIDATOR_ADDRESS").map .ofBytes

/-- What an environment has to be for a configuration to be made of it, and which one that is. -/
theorem isMadeOf_iff : config.IsMadeOf env ↔
    HasAddresses env ∧ config.TakesAddresses env ∧ ∃ n, StartsChain env n ∧ config.chainId = .ofInt n := by
  constructor
  · intro made
    obtain ⟨w, hw, wallet⟩ := made.wallet
    obtain ⟨v, hv, validator⟩ := made.validator
    obtain ⟨n, chain, same⟩ := made.chain
    obtain ⟨_, entry, entryPoint⟩ := made.entryPoint
    obtain ⟨optional, rfl⟩ := optionalAddress_eq_ok_iff.1 entry
    obtain ⟨optionalOwner, owner⟩ := optionalAddress_eq_ok_iff.1 made.owner
    obtain ⟨optionalSigner, signer⟩ := optionalAddress_eq_ok_iff.1 made.signer
    refine ⟨⟨isAddress_iff.2 ⟨w, hw⟩, isAddress_iff.2 ⟨v, hv⟩, optional, optionalOwner, optionalSigner, ?_⟩,
      ⟨by rw [hw, wallet, Option.map_some], by rw [hv, validator, Option.map_some], entryPoint, owner, signer⟩,
      n, startsChain_iff.2 chain, same⟩
    have complete := made.complete
    rw [owner, signer, Option.isSome_map, Option.isSome_map] at complete
    rwa [optionalOwner.isSet_iff, optionalSigner.isSet_iff]
  · rintro ⟨has, takes, n, chain, same⟩
    obtain ⟨w, hw, wallet⟩ := Option.map_eq_some_iff.1 takes.wallet.symm
    obtain ⟨v, hv, validator⟩ := Option.map_eq_some_iff.1 takes.validator.symm
    refine ⟨⟨w, hw, wallet.symm⟩, ⟨v, hv, validator.symm⟩, ⟨n, startsChain_iff.1 chain, same⟩,
      ⟨_, optionalAddress_eq_ok_iff.2 ⟨has.entryPoint, rfl⟩, takes.entryPoint⟩,
      optionalAddress_eq_ok_iff.2 ⟨has.owner, takes.owner⟩,
      optionalAddress_eq_ok_iff.2 ⟨has.signer, takes.signer⟩, ?_⟩
    rw [takes.owner, takes.signer, Option.isSome_map, Option.isSome_map, ← has.owner.isSet_iff,
      ← has.signer.isSet_iff]
    exact has.complete

/-- A configuration is loaded from every environment that has addresses and begins to write a chain. -/
theorem HasAddresses.exists_load (has : HasAddresses env) (chain : StartsChain env n) :
    ∃ config, load env = .ok config ∧ config.chainId = .ofInt n := by
  obtain ⟨w, hw⟩ := isAddress_iff.1 has.wallet
  obtain ⟨v, hv⟩ := isAddress_iff.1 has.validator
  let config : Config :=
    { walletAddress := .ofBytes w
      validatorAddress := .ofBytes v
      chainId := .ofInt n
      entryPointAddress := ((bytes? env "ENTRY_POINT_ADDRESS").map .ofBytes).getD defaultEntryPoint
      ownerAddress := (bytes? env "OWNER_ADDRESS").map .ofBytes
      sudoValidatorAddress := (bytes? env "SUDO_VALIDATOR_ADDRESS").map .ofBytes }
  have takes : config.TakesAddresses env :=
    ⟨by rw [hw, Option.map_some], by rw [hv, Option.map_some], rfl, rfl, rfl⟩
  exact ⟨config, load_eq_ok.2 (isMadeOf_iff.2 ⟨has, takes, n, chain, rfl⟩), rfl⟩

/-- A configuration is loaded from an environment exactly if this has addresses and writes a chain, and is for
the chain that it writes. -/
def LoadsAsWritten (env : Environment) : Prop :=
  ((∃ config, load env = .ok config) ↔ HasAddresses env ∧ ∃ n, WritesChain env n) ∧
    ∀ config, load env = .ok config → ∃ n, WritesChain env n ∧ config.chainId = .ofInt n

theorem loadsAsWritten_iff : LoadsAsWritten env ↔ ¬(HasAddresses env ∧ CutsChain env) := by
  constructor
  · rintro ⟨-, written⟩ ⟨has, cuts⟩
    obtain ⟨n, chain⟩ := cuts.exists_startsChain
    obtain ⟨config, loaded, -⟩ := has.exists_load chain
    obtain ⟨m, whole, -⟩ := written config loaded
    exact (writesChain_iff.1 whole).2 cuts
  · intro kept
    have written (config : Config) (loaded : load env = .ok config) :
        HasAddresses env ∧ ∃ n, WritesChain env n ∧ config.chainId = .ofInt n := by
      obtain ⟨has, -, n, chain, same⟩ := isMadeOf_iff.1 (load_eq_ok.1 loaded)
      exact ⟨has, n, writesChain_iff.2 ⟨chain, fun cuts => kept ⟨has, cuts⟩⟩, same⟩
    refine ⟨⟨?_, ?_⟩, fun config loaded => (written config loaded).2⟩
    · rintro ⟨config, loaded⟩
      obtain ⟨has, n, whole, -⟩ := written config loaded
      exact ⟨has, n, whole⟩
    · rintro ⟨has, n, whole⟩
      obtain ⟨config, loaded, -⟩ := has.exists_load (writesChain_iff.1 whole).1
      exact ⟨config, loaded⟩

end Config

/-- **Which environments configure a server.** A configuration is loaded from an environment exactly if its
addresses are well formed, an owner has a validator, and the number of the chain, if there is one, begins with a
numeral from 1 to `2 ^ 53 - 1`; the configuration then has these addresses, and is for that number. This is what
the environment writes, unless the numeral is cut: something else than white space follows it. -/
theorem environment_loaded_as_written_iff (env : Environment) :
    (∀ config, Config.load env = .ok config ↔ Config.HasAddresses env ∧ config.TakesAddresses env ∧
      ∃ n, Config.StartsChain env n ∧ config.chainId = .ofInt n) ∧
    (Config.LoadsAsWritten env ↔ ¬(Config.HasAddresses env ∧ Config.CutsChain env)) :=
  ⟨fun _ => Config.load_eq_ok.trans Config.isMadeOf_iff, Config.loadsAsWritten_iff⟩

/-- A fraction is cut: it is no chain number, and the configuration is for the whole part of it. -/
theorem fraction_cut :
    let env : Environment := fun name =>
      if name = "WALLET_ADDRESS" then some "0x1000000000000000000000000000000000000001"
      else if name = "VALIDATOR_ADDRESS" then some "0x2000000000000000000000000000000000000002"
      else if name = "CHAIN_ID" then some "1.5"
      else none
    (∃ config, Config.load env = .ok config ∧ config.chainId = .ofInt 1) ∧ ¬Config.LoadsAsWritten env ∧
      ∀ n, ¬Config.WritesChain env n := by
  intro env
  have unset {name : String} (absent : env name = none) : Config.IsOptional env name := by
    intro text set
    rw [absent] at set
    cases set
  have has : Config.HasAddresses env :=
    { wallet := Config.isAddress_iff.2 ⟨16 :: List.replicate 18 0 ++ [1], by decide +kernel⟩
      validator := Config.isAddress_iff.2 ⟨32 :: List.replicate 18 0 ++ [2], by decide +kernel⟩
      entryPoint := unset rfl
      owner := unset rfl
      signer := unset rfl
      complete := fun ⟨_, set, _⟩ => by cases set }
  have begins : BeginsWith "1.5".toList 1 ['.', '5'] :=
    ⟨[], ['1'], by decide +kernel, by simp, .unsigned ⟨by simp, List.forall_mem_singleton.2 rfl, rfl⟩,
      fun _ first => by cases first; rfl⟩
  have cuts : Config.CutsChain env :=
    ⟨"1.5", 1, ['.', '5'], rfl, begins, by decide, '.', by simp, by decide⟩
  obtain ⟨-, written⟩ := environment_loaded_as_written_iff env
  exact ⟨has.exists_load ⟨⟨_, begins⟩, by decide⟩, fun whole => written.1 whole ⟨has, cuts⟩,
    fun n writes => (Config.writesChain_iff.1 writes).2 cuts⟩

end SessionKeys
