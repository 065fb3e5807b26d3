import SessionKeys.Proofs.Amounts
import SessionKeys.Proofs.OwnerControl
import SessionKeys.Proofs.SignatureForms

/-!
What is read can be encoded. The readers of single values take nothing but what the types of the encoded
fields have values for: addresses with their checksum, byte strings of the right size, and numbers below the
bound of their type. So a session that is read can be committed (`Reader.isEncodable_of_session`). Only
amounts have no bound.
-/

namespace SessionKeys

theorem Address.IsWritten.isStrict {a : Address} (h : a.IsWritten) : a.isStrict = true := by
  obtain ⟨bytes, length, rfl⟩ := h
  exact Abi.isStrict_ofBytes length

theorem Address.isStrict_zero : Address.zero.isStrict = true := by decide

/-- The value that was read, if one was. -/
def Reading.value? {α : Type} : Reading α → Option α
  | ok a => some a
  | _ => none

theorem Reading.value?_eq_some {α : Type} {r : Reading α} {a : α} : r.value? = some a ↔ r = .ok a := by
  cases r <;> simp [value?]

namespace Reader

variable {α : Type} {path : Path} {value : Option Json}

theorem accepted_eq_ok {accept : String → Option α} {message : String} {a : α} :
    accepted accept message path value = .ok a ↔ ∃ s, value = some (.string s) ∧ accept s = some a := by
  unfold accepted
  split
  next s =>
    cases found : accept s with
    | none => simp [Reading.fail, found]
    | some b => simp [found]
  next other =>
    constructor
    · intro h
      cases h
    · rintro ⟨s, rfl, -⟩
      exact absurd rfl (other s)

theorem isWritten_of_address {a : Address} (h : address path value = .ok a) : a.IsWritten := by
  obtain ⟨s, -, found⟩ := accepted_eq_ok.1 h
  obtain ⟨bytes, hb, rfl⟩ := Option.map_eq_some_iff.1 found
  exact ⟨bytes, (Address.bytes?_eq_some_iff.1 hb).2, rfl⟩

theorem isStrict_of_address {a : Address} (h : address path value = .ok a) : a.isStrict = true :=
  (isWritten_of_address h).isStrict

theorem exists_bytes_of_hex {h : Hex} (read : hex path value = .ok h) : ∃ b, h.bytes? = some b := by
  obtain ⟨s, -, found⟩ := accepted_eq_ok.1 read
  obtain ⟨-, writes⟩ := Option.filter_eq_some_iff.1 found
  exact Option.isSome_iff_exists.1 writes

theorem hexOfLength?_eq_some {length : Nat} {s : String} {h : Hex} :
    hexOfLength? length s = some h ↔ h = Hex.ofText s ∧ ∃ b, h.bytes? = some b ∧ b.length = length := by
  unfold hexOfLength? hexOf?
  simp only [Option.filter_eq_some_iff, Option.some.injEq, Option.isSome_iff_exists, beq_iff_eq]
  constructor
  · rintro ⟨⟨rfl, b, hb⟩, size⟩
    exact ⟨rfl, b, hb, Hex.size_of_bytes? hb ▸ size⟩
  · rintro ⟨rfl, b, hb, length⟩
    exact ⟨⟨rfl, b, hb⟩, Hex.size_of_bytes? hb ▸ length⟩

theorem exists_bytes_of_selector {h : Hex} (read : selector path value = .ok h) :
    ∃ b, h.bytes? = some b ∧ b.length = 4 := by
  obtain ⟨s, -, found⟩ := accepted_eq_ok.1 read
  exact (hexOfLength?_eq_some.1 found).2

theorem writesHash_of_hash {h : Hex} (read : hash path value = .ok h) : h.WritesHash := by
  obtain ⟨s, -, found⟩ := accepted_eq_ok.1 read
  exact (hexOfLength?_eq_some.1 found).2

/-- The text of a hash is read as the hash. -/
theorem hash_text {h : Hex} (writes : h.WritesHash) (path : Path) :
    hash path (some (.string h.text)) = .ok h := by
  obtain ⟨b, hb, length⟩ := writes
  have same := Hex.ofText_text hb
  exact accepted_eq_ok.2 ⟨_, rfl, hexOfLength?_eq_some.2 ⟨same.symm, b, hb, length⟩⟩

/-! ### Records -/

/-- The arguments of a form, given or made from predicates, are a byte string. -/
theorem exists_bytes_of_wireArguments {form : SessionForm} {h : Hex}
    (given : ∀ a, form.allowedArguments = some a → ∃ b, a.bytes? = some b)
    (wire : form.wireArguments = .ok h) : ∃ b, h.bytes? = some b := by
  unfold SessionForm.wireArguments at wire
  split at wire
  next same =>
    cases wire
    exact given _ same
  next =>
    unfold encodeAllowedArguments at wire
    obtain ⟨items, -, wire⟩ := bind_eq_ok.1 wire
    obtain ⟨b, -, wire⟩ := bind_eq_ok.1 wire
    cases wire
    exact ⟨b, Hex.bytes?_ofBytes b⟩

/-- A session that is read can be encoded. -/
theorem isEncodable_of_session {s : Session} (h : session path value = .ok s) : s.IsEncodable := by
  obtain ⟨parts, -, read⟩ := fields_eq_ok.1 h
  obtain ⟨form, fields, made⟩ := Reading.andThen_eq_ok.1 read
  simp only [Reading.seq_eq_ok, Reading.fmap_eq_ok] at fields
  obtain ⟨_, timesLimit, ⟨_, validAfter, ⟨_, validUntil, ⟨_, paymaster, ⟨_, _, ⟨_, arguments, ⟨_, selector,
    ⟨target, htarget, rfl⟩, hselector, rfl⟩, harguments, rfl⟩, -, rfl⟩, hpaymaster, rfl⟩, huntil, rfl⟩,
    hafter, rfl⟩, hlimit, rfl⟩ := fields
  unfold SessionForm.session at made
  split at made
  next => cases made
  next allowed wire =>
    cases made
    obtain ⟨target', ht⟩ := Address.exists_bytes_of_isStrict (isStrict_of_address htarget)
    obtain ⟨sel, hs, lengthS⟩ := exists_bytes_of_selector hselector
    have written : ∀ a, arguments = some a → ∃ b, a.bytes? = some b :=
      optional_ensures (fun _ _ _ => exists_bytes_of_hex) harguments
    obtain ⟨args, ha⟩ := exists_bytes_of_wireArguments written wire
    have strict : (paymaster.getD .zero).isStrict = true := by
      cases paymaster with
      | none => exact Address.isStrict_zero
      | some a => exact optional_ensures (fun _ _ _ => isStrict_of_address) hpaymaster a rfl
    have time {found : Option Number} {name : String}
        (read : field (optional timestamp) name path parts = .ok found) : (found.getD 0).IsTime := by
      cases found with
      | none => exact Number.isTime_zero
      | some t => exact optional_ensures (fun _ _ _ => isTime_of_timestamp) read t rfl
    have limit : IsBudget (timesLimit.getD 0) := by
      cases timesLimit with
      | none => exact ⟨Int.le_refl 0, by decide⟩
      | some n => exact optional_ensures (fun _ _ _ => isBudget_budget) hlimit n rfl
    obtain ⟨pay, hp⟩ := Address.exists_bytes_of_isStrict strict
    obtain ⟨validUntil', until_eq, until_lt⟩ := time huntil
    obtain ⟨validAfter', after_eq, after_lt⟩ := time hafter
    obtain ⟨times, times_eq⟩ := Int.eq_ofNat_of_zero_le limit.1
    have below := limit.2
    unfold unlimited at below
    refine ⟨isStrict_of_address htarget, strict, {
      target := target', selector := sel, allowedArguments := args, paymaster := pay
      validUntil := validUntil', validAfter := validAfter', timesLimit := times
      target_length := (Address.bytes?_eq_some_iff.1 ht).2
      selector_length := lengthS
      paymaster_length := (Address.bytes?_eq_some_iff.1 hp).2
      validUntil_lt := until_lt
      validAfter_lt := after_lt
      timesLimit_lt := by omega }, ht, hs, ha, hp, until_eq, after_eq, times_eq⟩

end Reader

end SessionKeys
