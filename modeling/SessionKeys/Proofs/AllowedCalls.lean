import SessionKeys.Proofs.PredicateWire
import SessionKeys.Proofs.Recasing

/-!
Which calls a session allows, in terms of the bytes of a call and of the slots that are presented for it.
What the check does in several steps, on two lists that are read apart and on a cut that an operator chooses,
is one condition here (`Session.Admits`). Main statement: `call_allowed_iff`.
-/

namespace SessionKeys

/-! ### Slots that match a call -/

/-- Slots match a call of some value with some bytes behind the selector, and satisfy the predicates in
their places. Without any predicate there is nothing to send; otherwise the first slot is the word of the
value, and the others joined are the bytes. -/
inductive Session.Matches (value : Int) (arguments : Bytes) : List Predicate → List Bytes → Prop
  | nothing (noValue : value = 0) (noArguments : arguments = []) : Matches value arguments [] []
  | places {predicates : List Predicate} {n : Nat} {slots : List Bytes} (fits : n < 2 ^ 256)
      (isValue : value = n) (joined : slots.flatten = arguments)
      (accepted : List.Forall₂ Predicate.Accepts predicates (Bytes.ofNat 32 n :: slots)) :
      Matches value arguments predicates (Bytes.ofNat 32 n :: slots)

/-- The selector of a call with some bytes: the first four, or four zeros if there is none. -/
def selectorBytes (data : Bytes) : Bytes :=
  if data = [] then [0, 0, 0, 0] else data.take 4

/-- A session admits a call with some bytes and a value, for which some arguments are presented. -/
structure Session.Admits (s : Session) (target : Address) (data : Bytes) (value : Int) (actual : Hex) :
    Prop where
  target : s.target.Agrees target
  long : data = [] ∨ 4 ≤ data.length
  selector : s.selector.bytes? = some (selectorBytes data)
  arguments : ∃ predicates slots, decodeAllowedArguments s.allowedArguments = .ok predicates ∧
    Rlp.ofHex actual = .ok (byteStrings (slots.map Hex.ofBytes)) ∧
    Matches value (data.drop 4) predicates slots

/-! ### Steps of the check -/

variable {data : Hex} {d : Bytes}

theorem selectorBytes_of_long (long : 4 ≤ d.length) : selectorBytes d = d.take 4 := by
  unfold selectorBytes
  rw [if_neg]
  rintro rfl
  contradiction

/-- A call with no bytes, or with a whole selector, has that selector. -/
theorem calledSelector_eq_ok {selector : Hex} (hd : data.bytes? = some d)
    (hselector : selector.WritesBytes) :
    (∃ called, calledSelector data = .ok called ∧ called.same selector = true) ↔
      (d = [] ∨ 4 ≤ d.length) ∧ selector.bytes? = some (selectorBytes d) := by
  obtain ⟨w, hw⟩ := hselector
  have size := Hex.size_of_bytes? hd
  unfold calledSelector
  rw [size, hw, Option.some.injEq, eq_comm (a := w)]
  by_cases none : d.length = 0
  · have empty : d = [] := List.length_eq_zero_iff.1 none
    subst empty
    have fallback := Hex.same_iff (Hex.bytes?_ofBytes [0, 0, 0, 0]) hw
    simp only [List.length_nil, if_true, Except.ok.injEq, exists_eq_left', true_or, true_and]
    exact fallback
  · have some : d ≠ [] := List.ne_nil_of_length_pos (Nat.pos_of_ne_zero none)
    rw [if_neg none]
    by_cases short : d.length < 4
    · rw [if_pos short]
      exact iff_of_false (by rintro ⟨called, ⟨⟩, -⟩) fun h => (h.1.resolve_left some).not_gt short
    · have long : 4 ≤ d.length := by omega
      rw [if_neg short, selectorBytes_of_long long]
      simp only [Except.ok.injEq, exists_eq_left', long, or_true, true_and]
      exact Hex.same_iff (Hex.bytes?_take hd 4) hw

/-- A slot of 32 bytes that is read as a number is the word of this number. -/
theorem slot_reads_iff {slot : Bytes} {value : Int} :
    slot.length = 32 ∧ (Hex.ofBytes slot).toInt = .ok value ↔
      ∃ n : Nat, n < 2 ^ 256 ∧ value = n ∧ slot = Bytes.ofNat 32 n := by
  constructor
  · rintro ⟨word, reads⟩
    have nonempty : slot ≠ [] := List.ne_nil_of_length_pos (by omega)
    rw [Hex.toInt_of_bytes? (Hex.bytes?_ofBytes slot) nonempty, Except.ok.injEq] at reads
    have bound := Bytes.toNat_lt slot
    rw [word] at bound
    refine ⟨Bytes.toNat slot, by omega, reads.symm, ?_⟩
    rw [← word, Bytes.ofNat_toNat]
  · rintro ⟨n, fits, isValue, isWord⟩
    rw [isWord, isValue]
    refine ⟨Bytes.length_ofNat 32 n, ?_⟩
    rw [Hex.toInt_of_bytes? (Hex.bytes?_ofBytes _)
      (List.ne_nil_of_length_pos (by rw [Bytes.length_ofNat]; omega)), Bytes.toNat_ofNat,
      show 256 ^ 32 = 2 ^ 256 by norm_num, Nat.mod_eq_of_lt fits]

/-- Without predicates, nothing may be presented. -/
theorem isAllowedCalldata_nil {allowed actual : Hex} {value : Int}
    (decoded : decodeAllowedArguments allowed = .ok []) :
    isAllowedCalldata allowed actual value = .ok true ↔ decodeActualArguments actual = .ok [] := by
  unfold isAllowedCalldata
  rw [decoded, ok_bind]
  simp only [bind_eq_ok, orFail_eq_ok, throw_eq_error, error_bind, error_ite_eq_ok, ne_eq,
    Decidable.not_not]
  constructor
  · rintro ⟨slots, read, none, -⟩
    rw [read, List.eq_nil_of_length_eq_zero none.symm]
  · intro read
    exact ⟨[], read, rfl, rfl⟩

/-- Slots are those of a call, and satisfy the predicates in their places, exactly if they match. -/
theorem presents_and_allowed_iff (s : Session) (actual : Hex) (value : Int) (hd : data.bytes? = some d) :
    (∃ values, decodeActualArguments actual = .ok values ∧ presentsCall values data value = true ∧
        isAllowedCalldata s.allowedArguments actual value = .ok true) ↔
      ∃ predicates slots, decodeAllowedArguments s.allowedArguments = .ok predicates ∧
        Rlp.ofHex actual = .ok (byteStrings (slots.map Hex.ofBytes)) ∧
        Session.Matches value (d.drop 4) predicates slots := by
  have behind := Hex.bytes?_drop hd 4
  constructor
  · rintro ⟨values, read, presents, allowed⟩
    obtain ⟨predicates, decoded, -⟩ := bind_eq_ok.1 (show _ = _ from allowed)
    -- without predicates there are no slots either, and then nothing may be sent
    cases predicates with
    | nil =>
      rw [(isAllowedCalldata_nil decoded).1 allowed, Except.ok.injEq] at read
      subst read
      rw [presentsCall, Bool.and_eq_true, beq_iff_eq, beq_iff_eq] at presents
      obtain ⟨noValue, empty⟩ := presents
      rw [empty, Hex.bytes?_empty, Option.some.injEq] at behind
      exact ⟨[], [], decoded, decodeActualArguments_eq_ok.1 ((isAllowedCalldata_nil decoded).1 allowed),
        .nothing noValue behind.symm⟩
    | cons p₀ ps =>
      obtain ⟨slot, slots, read', word, reads, accepted⟩ := (isAllowedCalldata_eq_true decoded).1 allowed
      rw [read', Except.ok.injEq] at read
      subst read
      obtain ⟨n, fits, isValue, isWord⟩ := slot_reads_iff.1 ⟨word, reads⟩
      rw [isWord] at accepted read'
      have joined := (Hex.same_iff (Hex.bytes?_join slots) behind).1 presents
      exact ⟨p₀ :: ps, _, decoded, decodeActualArguments_eq_ok.1 read', .places fits isValue joined accepted⟩
  · rintro ⟨predicates, slots, decoded, list, fitting⟩
    have read := decodeActualArguments_eq_ok.2 list
    cases fitting with
    | nothing noValue noArguments =>
      rw [noArguments] at behind
      refine ⟨[], read, ?_, (isAllowedCalldata_nil decoded).2 read⟩
      rw [presentsCall, noValue, Hex.eq_empty_of_bytes? behind]
      rfl
    | @places _ n slots fits isValue joined accepted =>
      obtain ⟨word, reads⟩ := slot_reads_iff.2 ⟨n, fits, isValue, rfl⟩
      refine ⟨_, read, (Hex.same_iff (Hex.bytes?_join slots) behind).2 joined, ?_⟩
      obtain ⟨p₀, ps, first, others, rfl⟩ := List.forall₂_cons_right_iff.1 accepted
      exact (isAllowedCalldata_eq_true decoded).2 ⟨_, slots, read, word, reads, accepted⟩

/-- A session admits the calls that the check lets through. -/
theorem checkArguments_eq_ok_iff_admits {s : Session} (target : Address) (value : Int) (actual : Hex)
    (hd : data.bytes? = some d) (hselector : s.selector.WritesBytes) :
    checkArguments s target data value actual = .ok () ↔ s.Admits target d value actual := by
  have selects := calledSelector_eq_ok hd hselector
  have presents := presents_and_allowed_iff s actual value hd
  unfold checkArguments
  simp only [bind_eq_ok, orFail_eq_ok, throw_eq_error, error_bind, ite_error_eq_ok]
  constructor
  · rintro ⟨same, agrees, rfl, selector, called, chosen, values, read, shown, b, allowed, rfl, -⟩
    obtain ⟨long, code⟩ := selects.1 ⟨selector, called, chosen⟩
    exact ⟨Address.same_eq_true.1 agrees, long, code, presents.1 ⟨values, read, shown, allowed⟩⟩
  · rintro ⟨agrees, long, code, arguments⟩
    obtain ⟨selector, called, chosen⟩ := selects.2 ⟨long, code⟩
    obtain ⟨values, read, shown, allowed⟩ := presents.2 arguments
    exact ⟨true, Address.same_eq_true.2 agrees, rfl, selector, called, chosen, values, read, shown, true,
      allowed, rfl, rfl⟩

/-! ### Literals -/

/-- Literals that write the bytes of some slots, one by one, write what the slots make up when they are joined. -/
theorem Hex.bytes?_join_of_forall₂ {literals : List Hex} {slots : List Bytes}
    (each : List.Forall₂ (fun literal b => literal.bytes? = some b) literals slots) :
    (Hex.join literals).bytes? = some slots.flatten := by
  have digits : Hex.bytesOfDigits? (literals.flatMap Hex.digits) = some slots.flatten := by
    induction each with
    | nil => rfl
    | cons here _ ih =>
      obtain ⟨own, rfl, read⟩ := Hex.bytes?_eq_some_iff.1 here
      rw [List.flatMap_cons, List.flatten_cons]
      exact Hex.bytesOfDigits?_append read ih
  exact digits

/-- An argument that is compared for equality has the bytes of the literal. -/
theorem Predicate.bytes?_of_accepts_eq {literal : Hex} {b : Bytes} (known : literal.WritesBytes)
    (accepted : Predicate.Accepts (.compare .eq literal) b) : literal.bytes? = some b := by
  obtain ⟨w, hw⟩ := known
  have same : literal.same (Hex.ofBytes b) = true := Except.ok.inj accepted
  rw [hw, (Hex.same_iff hw (Hex.bytes?_ofBytes b)).1 same]

/-- Slots that are all compared for equality have the bytes of the literals. -/
theorem forall₂_of_accepts_eq {literals : List Hex} {slots : List Bytes}
    (known : Predicate.AreWritten (literals.map (.compare .eq)))
    (accepted : List.Forall₂ Predicate.Accepts (literals.map (.compare .eq)) slots) :
    List.Forall₂ (fun literal b => literal.bytes? = some b) literals slots := by
  induction literals generalizing slots with
  | nil =>
    cases accepted
    exact .nil
  | cons literal literals ih =>
    obtain ⟨b, rest, first, others, rfl⟩ := List.forall₂_cons_left_iff.1 accepted
    exact .cons (Predicate.bytes?_of_accepts_eq known.1 first) (ih known.2 others)

/-- If all predicates behind the one on the value are of equality, what is sent is given by the literals. -/
theorem Session.Admits.join_literals {s : Session} {target : Address} {value : Int} {actual : Hex}
    (admits : s.Admits target d value actual) {predicates : List Predicate} {literals : List Hex}
    (decoded : decodeAllowedArguments s.allowedArguments = .ok predicates)
    (equal : predicates.tail = literals.map (.compare .eq)) :
    (Hex.join literals).bytes? = some (d.drop 4) := by
  have known := (givesOrRefuses_decodeAllowedArguments s.allowedArguments).holds decoded
  obtain ⟨predicates', slots, decoded', -, fitting⟩ := admits.arguments
  rw [decoded, Except.ok.injEq] at decoded'
  subst decoded'
  cases fitting with
  | nothing noValue noArguments =>
    rw [List.map_eq_nil_iff.1 equal.symm, noArguments]
    rfl
  | @places _ n slots fits isValue joined accepted =>
    obtain ⟨p₀, ps, first, others, rfl⟩ := List.forall₂_cons_right_iff.1 accepted
    rw [List.tail_cons] at equal
    subst equal
    rw [← joined]
    exact Hex.bytes?_join_of_forall₂ (forall₂_of_accepts_eq known.2 others)

/-! ### Calls -/

/-- **Which calls a session allows.** Between well-formed addresses, with a selector and call data that write
bytes, and for whatever value and texts in the place of the allowed and the presented arguments, a call is
allowed exactly if the session admits it, and refused otherwise. If all predicates behind the one on the
value compare for equality, the bytes behind the selector of every call that is allowed are the literals, one
behind the other. -/
theorem call_allowed_iff (s : Session) (target : Address) (data : Hex) (value : Int) (actual : Hex)
    (d : Bytes) (hsession : s.target.IsWellFormed) (htarget : target.IsWellFormed)
    (hselector : s.selector.WritesBytes) (hd : data.bytes? = some d) :
    (checkArguments s target data value actual = .ok () ↔ s.Admits target d value actual) ∧
    (¬s.Admits target d value actual →
      ∃ refusal, checkArguments s target data value actual = .error (.refused refusal)) ∧
    ∀ predicates literals, decodeAllowedArguments s.allowedArguments = .ok predicates →
      predicates.tail = literals.map (.compare .eq) →
      checkArguments s target data value actual = .ok () →
      (Hex.join literals).bytes? = some (d.drop 4) := by
  have allowed := checkArguments_eq_ok_iff_admits target value actual hd hselector
  have refuses := onlyRefuses_checkArguments hsession htarget data value actual
  refine ⟨allowed, fun outside => ?_, fun predicates literals decoded equal checked =>
    (allowed.1 checked).join_literals decoded equal⟩
  cases ends : checkArguments s target data value actual with
  | ok _ => exact absurd (allowed.1 ends) outside
  | error f =>
    obtain ⟨refusal, rfl⟩ := refuses.exists_refusal ends
    exact ⟨refusal, rfl⟩

/-! ### Transfers with fixed arguments -/

/-- A session for transfers with the two bytes five and six behind the selector. -/
def fixedTransfers : Session :=
  { smallTransfers with
    allowedArguments := Hex.ofBytes [0xc8, 0xc2, 0x00, 0x80, 0xc4, 0x02, 0x82, 0x05, 0x06] }

/-- The value zero, then the two bytes five and six. -/
def fixedSlots : Hex :=
  Hex.ofBytes ([0xe4, 0xa0] ++ Bytes.ofNat 32 0 ++ [0x82, 0x05, 0x06])

/-- The session allows the transfer with the bytes five and six, and no other one for the same slots. -/
theorem fixedTransfers_sent :
    checkArguments fixedTransfers fixedTransfers.target
        (Hex.ofBytes (TokenFunction.transfer.selector ++ [5, 6])) 0 fixedSlots = .ok () ∧
      ∃ refusal, checkArguments fixedTransfers fixedTransfers.target
        (Hex.ofBytes (TokenFunction.transfer.selector ++ [5, 7])) 0 fixedSlots = .error (.refused refusal) := by
  have call := fun d : Bytes => call_allowed_iff fixedTransfers fixedTransfers.target (Hex.ofBytes d) 0 fixedSlots
    d (by decide) (by decide) (Hex.writesBytes_ofBytes _) (Hex.bytes?_ofBytes d)
  refine ⟨by decide +kernel, (call _).2.1 fun admits => ?_⟩
  have sent := (call _).2.2 [.any, .compare .eq (Hex.ofBytes [5, 6])] [Hex.ofBytes [5, 6]] rfl rfl
    ((call _).1.2 admits)
  revert sent
  decide +kernel

end SessionKeys
