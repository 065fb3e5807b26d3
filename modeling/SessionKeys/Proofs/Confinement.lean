import SessionKeys.Proofs.Alignment
import SessionKeys.Proofs.Preparation
import SessionKeys.Session.Call

/-!
Which sessions confine the arguments of a call. The operator chooses how the bytes behind the
selector are cut into slots, and only the slots joined together are compared with the call. Main
statement: `arguments_confined_iff`: the predicates of a session are held to the words of the
arguments in every call exactly if they are aligned.
-/

namespace SessionKeys

/-! ### Slots -/

theorem Hex.bytes?_join (slots : List Bytes) :
    (Hex.join (slots.map Hex.ofBytes)).bytes? = some slots.flatten := by
  have digits : Hex.bytesOfDigits? ((slots.map Hex.ofBytes).flatMap Hex.digits) =
      some slots.flatten := by
    induction slots with
    | nil => rfl
    | cons slot slots ih =>
      rw [List.map_cons, List.flatMap_cons, List.flatten_cons]
      exact Hex.bytesOfDigits?_append (Hex.bytesOfDigits?_flatMap slot) ih
  exact digits

/-- The slots that were read are byte strings in small letters. -/
theorem exists_slots_of_decode {actual : Hex} {slots : List Hex}
    (h : decodeActualArguments actual = .ok slots) :
    ∃ bytes : List Bytes, slots = bytes.map Hex.ofBytes := by
  unfold decodeActualArguments decodeList at h
  obtain ⟨items, read, each⟩ := bind_eq_ok.1 h
  split at read
  next => cases read
  next => cases read
  next _ hitems =>
    cases read
    have small : ∀ slot, .bytes slot ∈ items → ∃ c, slot = Hex.ofBytes c := fun slot hs =>
      Rlp.exists_ofBytes_of_ofHex hitems hs
    clear hitems h
    induction items generalizing slots with
    | nil =>
      cases each
      exact ⟨[], rfl⟩
    | cons item items ih =>
      rw [List.mapM_cons] at each
      obtain ⟨slot, one, others⟩ := bind_eq_ok.1 each
      obtain ⟨rest, more, done⟩ := bind_eq_ok.1 others
      cases done
      obtain ⟨bytes, rfl⟩ := ih more fun s hs => small s (List.mem_cons_of_mem item hs)
      cases item with
      | list inside => cases one
      | bytes text =>
        cases one
        obtain ⟨c, rfl⟩ := small _ List.mem_cons_self
        exact ⟨c :: bytes, rfl⟩

/-- Slots that were written are read back. -/
theorem decodeActualArguments_encode {slots : List Bytes} {enc : Bytes}
    (h : Rlp.encode (.list (slots.map fun b => .bytes (Hex.ofBytes b))) = .ok enc) :
    decodeActualArguments (Hex.ofBytes enc) = .ok (slots.map Hex.ofBytes) := by
  have each : ∀ values : List Bytes,
      (values.map fun b => Rlp.bytes (Hex.ofBytes b)).mapM actualArgument =
        .ok (values.map Hex.ofBytes) := by
    intro values
    induction values with
    | nil => rfl
    | cons b values ih =>
      rw [List.map_cons, List.mapM_cons, ih]
      rfl
  unfold decodeActualArguments decodeList
  rw [Rlp.ofHex_encode_list h]
  exact each slots

/-- All predicates hold of the slots in their places. -/
theorem evaluateSlots_iff {predicates : List Predicate} {slots : List Bytes}
    (hlength : predicates.length = slots.length) :
    (∃ results, evaluateSlots predicates (slots.map Hex.ofBytes) = .ok results ∧
        results.all id = true) ↔ List.Forall₂ Predicate.Accepts predicates slots := by
  induction predicates generalizing slots with
  | nil =>
    cases slots with
    | cons slot slots => cases hlength
    | nil => simp [evaluateSlots]
  | cons p predicates ih =>
    cases slots with
    | nil => cases hlength
    | cons slot slots =>
      have hrest : predicates.length = slots.length := by simpa using hlength
      rw [List.forall₂_cons, ← ih hrest]
      simp only [List.map_cons, evaluateSlots, bind_eq_ok, pure_eq_ok, Except.ok.injEq,
        Predicate.Accepts]
      constructor
      · rintro ⟨_, ⟨first, hfirst, rest, others, rfl⟩, all⟩
        rw [List.all_cons, Bool.and_eq_true] at all
        obtain ⟨here, later⟩ := all
        rw [id_eq] at here
        rw [here] at hfirst
        exact ⟨hfirst, rest, others, later⟩
      · rintro ⟨hfirst, rest, others, later⟩
        refine ⟨_, ⟨true, hfirst, rest, others, rfl⟩, ?_⟩
        rw [List.all_cons, later]
        rfl

/-! ### Calls -/

/-- What is checked of the slots, when a session puts predicates on the value and on some arguments.
-/
theorem isAllowedCalldata_eq_true {allowed actual : Hex} {value : Int} {p₀ : Predicate}
    {ps : List Predicate} (decoded : decodeAllowedArguments allowed = .ok (p₀ :: ps)) :
    isAllowedCalldata allowed actual value = .ok true ↔
      ∃ slot slots, decodeActualArguments actual = .ok ((slot :: slots).map Hex.ofBytes) ∧
        slot.length = 32 ∧ (Hex.ofBytes slot).toInt = .ok value ∧
        List.Forall₂ Predicate.Accepts (p₀ :: ps) (slot :: slots) := by
  unfold isAllowedCalldata
  rw [decoded, ok_bind]
  simp only [bind_eq_ok, orFail_eq_ok, throw_eq_error, error_bind, error_ite_eq_ok, ne_eq,
    Decidable.not_not]
  constructor
  · rintro ⟨actual', read, hlength, rest⟩
    obtain ⟨bytes, rfl⟩ := exists_slots_of_decode read
    cases bytes with
    | nil => cases hlength
    | cons slot slots =>
      simp only [List.map_cons, bind_eq_ok, error_ite_eq_ok, Decidable.not_not, pure_eq_ok,
        Except.ok.injEq, Hex.size_ofBytes] at rest
      obtain ⟨size, number, reads, rfl, results, evaluated, all⟩ := rest
      refine ⟨slot, slots, read, size, reads, ?_⟩
      exact (evaluateSlots_iff (by simpa using hlength)).1 ⟨results, evaluated, all⟩
  · rintro ⟨slot, slots, read, size, reads, accepted⟩
    have hlength := accepted.length_eq
    obtain ⟨results, evaluated, all⟩ := (evaluateSlots_iff hlength).2 accepted
    refine ⟨_, read, by simpa using hlength, ?_⟩
    simp only [List.map_cons, bind_eq_ok, error_ite_eq_ok, Decidable.not_not, pure_eq_ok,
      Except.ok.injEq, Hex.size_ofBytes]
    exact ⟨size, value, reads, rfl, results, evaluated, all⟩

/-- What is checked of a call, when a session puts predicates on the value and on some arguments. -/
theorem checkArguments_eq_ok {session : Session} {p₀ : Predicate} {ps : List Predicate}
    (decoded : decodeAllowedArguments session.allowedArguments = .ok (p₀ :: ps)) {target : Address}
    {data : Hex} {value : Int} {actual : Hex} :
    checkArguments session target data value actual = .ok () ↔
      ∃ selector slot slots,
        session.target.Agrees target ∧
        calledSelector data = .ok selector ∧ selector.same session.selector = true ∧
        decodeActualArguments actual = .ok ((slot :: slots).map Hex.ofBytes) ∧
        (Hex.join (slots.map Hex.ofBytes)).same (data.drop 4) = true ∧
        slot.length = 32 ∧ (Hex.ofBytes slot).toInt = .ok value ∧
        List.Forall₂ Predicate.Accepts (p₀ :: ps) (slot :: slots) := by
  unfold checkArguments
  simp only [bind_eq_ok, orFail_eq_ok, throw_eq_error, error_bind, ite_error_eq_ok]
  constructor
  · rintro ⟨same, agrees, rfl, selector, called, selects, actual', read, presents, b, allowed, rfl, -⟩
    obtain ⟨slot, slots, read', size, reads, accepted⟩ := (isAllowedCalldata_eq_true decoded).1 allowed
    rw [read, Except.ok.injEq] at read'
    subst read'
    exact ⟨selector, slot, slots, Address.same_eq_true.1 agrees, called, selects, read, presents, size,
      reads, accepted⟩
  · rintro ⟨selector, slot, slots, agrees, called, selects, read, presents, size, reads, accepted⟩
    exact ⟨true, Address.same_eq_true.2 agrees, rfl, selector, called, selects, _, read, presents, true,
      (isAllowedCalldata_eq_true decoded).2 ⟨slot, slots, read, size, reads, accepted⟩, rfl, rfl⟩

/-- A call has a selector of four bytes. -/
theorem calledSelector_bytes {data selector : Hex} {bytes : Bytes} (hdata : data.bytes? = some bytes)
    (h : calledSelector data = .ok selector) :
    ∃ code, selector.bytes? = some code ∧ code.length = 4 := by
  have size := Hex.size_of_bytes? hdata
  unfold calledSelector at h
  by_cases empty : data.size = 0
  · rw [if_pos empty] at h
    cases h
    exact ⟨[0, 0, 0, 0], rfl, rfl⟩
  · rw [if_neg empty] at h
    obtain ⟨long, done⟩ := error_ite_eq_ok.1 h
    cases done
    refine ⟨bytes.take 4, Hex.bytes?_take hdata 4, ?_⟩
    rw [List.length_take]
    omega

/-- A call with given selector and argument bytes. -/
theorem calledSelector_ofBytes {code : Bytes} (hcode : code.length = 4) (arguments : Bytes) :
    ∃ selector, calledSelector (Hex.ofBytes (code ++ arguments)) = .ok selector ∧
      selector.bytes? = some code ∧
      ((Hex.ofBytes (code ++ arguments)).drop 4).bytes? = some arguments := by
  have hdata := Hex.bytes?_ofBytes (code ++ arguments)
  refine ⟨(Hex.ofBytes (code ++ arguments)).take 4, ?_, ?_, ?_⟩
  · unfold calledSelector
    rw [Hex.size_ofBytes, List.length_append, hcode, if_neg (by omega), if_neg (by omega)]
  · rw [Hex.bytes?_take hdata 4, List.take_append_of_le_length (by omega),
      List.take_of_length_le (by omega)]
  · rw [Hex.bytes?_drop hdata 4, List.drop_append, List.drop_eq_nil_of_le (by omega),
      List.nil_append, hcode, Nat.sub_self, List.drop_zero]

theorem Hex.same_congr {a b c : Hex} {x : Bytes} (ha : a.bytes? = some x) (hb : b.bytes? = some x) :
    a.same c = b.same c := by
  unfold Hex.same
  rw [Hex.lower_of_bytes? ha, Hex.lower_of_bytes? hb]

/-! ### Confinement -/

/-- The predicates that a session puts on the arguments hold of the words behind the selector, in
every call that it allows. -/
def Session.Confines (session : Session) (ps : List Predicate) : Prop :=
  ∀ (target : Address) (data : Hex) (value : Int) (actual : Hex) (bytes : Bytes),
    data.bytes? = some bytes → checkArguments session target data value actual = .ok () →
      Predicate.Confined ps (bytes.drop 4)

/-- Aligned predicates are held to the words of the arguments, however an operator cuts them. -/
theorem Session.confines_of_aligned {session : Session} {p₀ : Predicate} {ps : List Predicate}
    (decoded : decodeAllowedArguments session.allowedArguments = .ok (p₀ :: ps))
    (aligned : Predicate.Aligned ps) : session.Confines ps := by
  intro target data value actual bytes hdata allowed
  obtain ⟨_, slot, slots, -, -, -, -, presents, -, -, accepted⟩ :=
    (checkArguments_eq_ok decoded).1 allowed
  have joined := (Hex.same_iff (Hex.bytes?_join slots) (Hex.bytes?_drop hdata 4)).1 presents
  rw [← joined]
  exact aligned.confines (List.forall₂_cons.1 accepted).2

/-- How many arguments a session may have for a call with them to be written in any case. -/
def argumentBound : Nat := 0x1000000

/-- A session with literals of one word confines the arguments of every call that it allows exactly
if its predicates are aligned. Otherwise some call, cut into slots that are no words, gets past a
predicate on a word. -/
theorem arguments_confined_iff (session : Session) (p₀ : Predicate) (ps : List Predicate)
    (decoded : decodeAllowedArguments session.allowedArguments = .ok (p₀ :: ps))
    (words : ∀ p ∈ ps, p.LiteralsAreWords) (few : ps.length < argumentBound)
    (usable : ∃ target data value actual bytes, data.bytes? = some bytes ∧
      checkArguments session target data value actual = .ok ()) :
    session.Confines ps ↔ Predicate.Aligned ps := by
  refine ⟨fun confines => ?_, Session.confines_of_aligned decoded⟩
  by_contra misaligned
  obtain ⟨target, data, value, actual, bytes, hdata, allowed⟩ := usable
  obtain ⟨selector, slot, slots, agrees, called, selects, -, -, size, reads, accepted⟩ :=
    (checkArguments_eq_ok decoded).1 allowed
  obtain ⟨first, accepted⟩ := List.forall₂_cons.1 accepted
  obtain ⟨code, hselector, hcode⟩ := calledSelector_bytes hdata called
  obtain ⟨cut, cutAccepted, unconfined, room⟩ :=
    Predicate.escapes_of_misaligned words ⟨slots, accepted⟩ misaligned
  have writable : Rlp.room (slot :: cut) < Rlp.lengthBound := by
    unfold argumentBound at few
    unfold Rlp.lengthBound
    rw [Rlp.room_cons]
    omega
  obtain ⟨enc, written⟩ := Rlp.exists_encode_list writable
  obtain ⟨selector', called', hselector', harguments⟩ :=
    calledSelector_ofBytes hcode cut.flatten
  refine unconfined ?_
  have confined := confines target (Hex.ofBytes (code ++ cut.flatten)) value (Hex.ofBytes enc) _
    (Hex.bytes?_ofBytes _) ((checkArguments_eq_ok decoded).2
      ⟨selector', slot, cut, agrees, called', ?_, decodeActualArguments_encode written, ?_, size, reads,
        .cons first cutAccepted⟩)
  · rw [List.drop_append, List.drop_eq_nil_of_le (by omega), List.nil_append, hcode,
      Nat.sub_self, List.drop_zero] at confined
    exact confined
  · rw [Hex.same_congr hselector' hselector]
    exact selects
  · exact (Hex.same_iff (Hex.bytes?_join cut) harguments).2 rfl

/-! ### Transfers of small amounts -/

/-- The amount is below a hundred. -/
def belowHundred : Predicate :=
  .compare .lt (Hex.ofBytes (Bytes.ofNat 32 100))

/-- A session for transfers to anyone of an amount below a hundred. -/
def smallTransfers : Session where
  target := ⟨Hex.ofBytes (0x40 :: List.replicate 18 0 ++ [0x04])⟩
  selector := Hex.ofBytes TokenFunction.transfer.selector
  allowedArguments := Hex.ofBytes
    ([0xe9, 0xc2, 0x00, 0x80, 0xc2, 0x00, 0x80, 0xe2, 0x04, 0xa0] ++ Bytes.ofNat 32 100)
  paymaster := .zero
  validUntil := 0
  validAfter := 0
  timesLimit := 0

/-- A transfer of a thousand, with one more word behind it. -/
def largeTransfer : Hex :=
  Hex.ofBytes (TokenFunction.transfer.selector ++ Bytes.ofNat 32 7 ++ Bytes.ofNat 32 1000 ++
    Bytes.ofNat 32 5)

/-- The transfer cut into the value, the recipient together with the amount, and the word behind
them. -/
def largeTransferSlots : Hex :=
  Hex.ofBytes ([0xf8, 0x84, 0xa0] ++ Bytes.ofNat 32 0 ++ [0xb8, 0x40] ++ Bytes.ofNat 32 7 ++
    Bytes.ofNat 32 1000 ++ [0xa0] ++ Bytes.ofNat 32 5)

/-- The session allows the transfer of a thousand, so it does not confine the amount. -/
theorem smallTransfers_not_confined :
    decodeAllowedArguments smallTransfers.allowedArguments = .ok [.any, .any, belowHundred] ∧
      checkArguments smallTransfers smallTransfers.target largeTransfer 0 largeTransferSlots = .ok () ∧
      ¬smallTransfers.Confines [.any, belowHundred] := by
  have decoded : decodeAllowedArguments smallTransfers.allowedArguments =
      .ok [.any, .any, belowHundred] := rfl
  have allowed : checkArguments smallTransfers smallTransfers.target largeTransfer 0
      largeTransferSlots = .ok () := by decide +kernel
  refine ⟨decoded, allowed, ?_⟩
  rw [arguments_confined_iff smallTransfers .any [.any, belowHundred] decoded ?_ (by decide)
    ⟨_, _, _, _, _, Hex.bytes?_ofBytes _, allowed⟩]
  · rintro ⟨reads, -⟩
    have word := (reads [] rfl).1
    cases word
  · intro p hp
    simp only [List.mem_cons, List.not_mem_nil, or_false] at hp
    rcases hp with rfl | rfl
    · rw [Predicate.LiteralsAreWords]
      trivial
    · rw [belowHundred, Predicate.LiteralsAreWords]
      exact ⟨_, Hex.bytes?_ofBytes _, Bytes.length_ofNat 32 100⟩

end SessionKeys
