import SessionKeys.Proofs.Confinement
import SessionKeys.Proofs.Isolation

/-!
What the case of the letters of a byte string tells. Two texts are recased (`Hex.Recased`) if they differ in
the case of their digits at most. Nearly everything is read from the bytes that a text writes, so it is the
same for recased texts, or differs in the texts that a refusal shows. The one exception are the readers of
calls: they look a selector up in small letters, and then read the arguments only if it is also written in
small letters (`Abi.KnowsSmallSelectors`).
-/

namespace SessionKeys

/-! ### Texts -/

namespace Hex

/-- The same text but for the case of its digits: the texts are equal, or write the same bytes. -/
def Recased (a b : Hex) : Prop :=
  a = b ∨ ∃ bytes, a.bytes? = some bytes ∧ b.bytes? = some bytes

theorem eq_empty_of_bytes? {h : Hex} (none : h.bytes? = some []) : h = .empty := by
  obtain ⟨digits, rfl, read⟩ := bytes?_eq_some_iff.1 none
  have length := length_of_bytesOfDigits? read
  rw [List.length_nil, Nat.mul_zero, List.length_eq_zero_iff] at length
  rw [length]
  rfl

namespace Recased

variable {a b c d : Hex}

theorem refl (a : Hex) : a.Recased a :=
  .inl rfl

theorem of_bytes? {bytes : Bytes} (ha : a.bytes? = some bytes) (hb : b.bytes? = some bytes) : a.Recased b :=
  .inr ⟨bytes, ha, hb⟩

/-- What is told by the bytes of a text is told by each of its recased writings. -/
theorem congr {α : Type} {f : Hex → α} {g : Bytes → α} (h : a.Recased b)
    (told : ∀ {text : Hex} {bytes : Bytes}, text.bytes? = some bytes → f text = g bytes) : f a = f b := by
  obtain rfl | ⟨bytes, ha, hb⟩ := h
  · rfl
  · rw [told ha, told hb]

theorem lower_eq (h : a.Recased b) : a.lower = b.lower :=
  h.congr lower_of_bytes?

theorem read?_eq (h : a.Recased b) : a.read? = b.read? :=
  h.congr read?_of_bytes?

theorem size_eq (h : a.Recased b) : a.size = b.size :=
  h.congr size_of_bytes?

theorem content_eq (h : a.Recased b) : a.content = b.content :=
  h.congr content_of_bytes?

theorem bytes?_eq (h : a.Recased b) : a.bytes? = b.bytes? :=
  h.congr id

theorem length_eq (h : a.Recased b) : a.chars.length = b.chars.length := by
  refine h.congr (f := fun text => text.chars.length) (g := fun bytes => 2 * bytes.length + 2)
    fun {text bytes} read => ?_
  obtain ⟨digits, rfl, hdigits⟩ := bytes?_eq_some_iff.1 read
  rw [← length_of_bytesOfDigits? hdigits]
  rfl

theorem toInt_eq (h : a.Recased b) : a.toInt = b.toInt := by
  refine h.congr (g := fun bytes => (ofBytes bytes).toInt) fun {text bytes} read => ?_
  by_cases none : bytes = []
  · subst none
    rw [eq_empty_of_bytes? read]
    rfl
  · rw [toInt_of_bytes? read none, toInt_of_bytes? (bytes?_ofBytes bytes) none]

theorem same_eq (h : a.Recased b) (h' : c.Recased d) : a.same c = b.same d := by
  rw [same, same, h.lower_eq, h'.lower_eq]

theorem isEmpty_eq (h : a.Recased b) : (a == .empty) = (b == .empty) := by
  refine h.congr (f := (· == .empty)) (g := (· == [])) fun {text bytes} read => ?_
  rw [Bool.eq_iff_iff, beq_iff_eq, beq_iff_eq]
  constructor
  · rintro rfl
    rw [bytes?_empty, Option.some.injEq] at read
    exact read.symm
  · rintro rfl
    exact eq_empty_of_bytes? read

theorem take (h : a.Recased b) (n : Nat) : (a.take n).Recased (b.take n) := by
  obtain rfl | ⟨bytes, ha, hb⟩ := h
  · exact .refl _
  · exact .of_bytes? (bytes?_take ha n) (bytes?_take hb n)

theorem drop (h : a.Recased b) (n : Nat) : (a.drop n).Recased (b.drop n) := by
  obtain rfl | ⟨bytes, ha, hb⟩ := h
  · exact .refl _
  · exact .of_bytes? (bytes?_drop ha n) (bytes?_drop hb n)

end Recased

end Hex

/-! ### Readers of data -/

section

variable {a b : Hex}

theorem Abi.decodeFields_recased (h : a.Recased b) (fields : Abi.Fields) :
    Abi.decodeFields fields a = Abi.decodeFields fields b := by
  unfold Abi.decodeFields
  rw [h.read?_eq]

theorem Rlp.ofHex_recased (h : a.Recased b) : Rlp.ofHex a = Rlp.ofHex b := by
  unfold Rlp.ofHex
  rw [h.length_eq, h.read?_eq]

theorem decodeAllowedArguments_recased (h : a.Recased b) :
    decodeAllowedArguments a = decodeAllowedArguments b := by
  unfold decodeAllowedArguments decodeList
  rw [Rlp.ofHex_recased h]

theorem decodeActualArguments_recased (h : a.Recased b) :
    decodeActualArguments a = decodeActualArguments b := by
  unfold decodeActualArguments decodeList
  rw [Rlp.ofHex_recased h]

/-- What a session allows does not depend on the case of letters, neither in what it allows nor in what
is presented. -/
theorem isAllowedCalldata_recased {allowed allowed' actual actual' : Hex} (h : allowed.Recased allowed')
    (h' : actual.Recased actual') (value : Int) :
    isAllowedCalldata allowed actual value = isAllowedCalldata allowed' actual' value := by
  unfold isAllowedCalldata
  rw [decodeAllowedArguments_recased h, decodeActualArguments_recased h']

theorem decodePayload_recased (h : a.Recased b) (mode : ExecutionMode) (fields : Abi.Fields)
    (base : fields.Val → Except Refusal SignatureBase) :
    decodePayload mode fields base a = decodePayload mode fields base b := by
  unfold decodePayload
  simp only [Abi.decodeFields_recased h, h.size_eq, Hex.Recased.same_eq (.refl _) h]

/-- What a payload shows does not depend on the case of its letters. -/
theorem SessionSignature.decode_recased (h : a.Recased b) (mode : ExecutionMode) :
    SessionSignature.decode mode a = SessionSignature.decode mode b := by
  unfold SessionSignature.decode
  simp only [decodePayload_recased h]

/-! ### Readers of calls -/

/-- Call data with the selector of one of some functions, in which a letter of it is a capital. -/
def Abi.HasCapitalSelector (known : List Bytes) (data : Hex) : Prop :=
  ∃ selector ∈ known, Abi.selectorOf data = Hex.ofBytes selector ∧ data.take 4 ≠ Hex.ofBytes selector

instance (known : List Bytes) (data : Hex) : Decidable (Abi.HasCapitalSelector known data) :=
  inferInstanceAs (Decidable (∃ selector ∈ known, _))

/-- A reader of calls of some functions, to which the case of letters does not matter behind a selector:
but call data of a known function is malformed if there is a capital in its selector. -/
structure Abi.KnowsSmallSelectors {α : Type} (known : List Bytes) (what : String)
    (read : Hex → Except Failure α) : Prop where
  capital : ∀ {data : Hex}, HasCapitalSelector known data →
    read data = .error (.refused (.malformed what "unknown function selector"))
  small : ∀ {a b : Hex}, a.Recased b → ¬HasCapitalSelector known a → ¬HasCapitalSelector known b →
    read a = read b

/-- Recased call data is read alike if both or none of the selectors are capitalized. -/
theorem Abi.KnowsSmallSelectors.read_eq {α : Type} {known : List Bytes} {what : String}
    {read : Hex → Except Failure α} (knows : KnowsSmallSelectors known what read) (h : a.Recased b)
    (alike : HasCapitalSelector known a ↔ HasCapitalSelector known b) : read a = read b := by
  by_cases capital : HasCapitalSelector known a
  · rw [knows.capital capital, knows.capital (alike.1 capital)]
  · exact knows.small h capital (capital ∘ alike.2)

theorem Abi.selectorOf_recased (h : a.Recased b) : Abi.selectorOf a = Abi.selectorOf b := by
  unfold Abi.selectorOf
  rw [h.size_eq, (h.take 4).lower_eq]

namespace Abi.Function

variable {f : Abi.Function} {known : List Bytes}

theorem take_eq_of_small {data : Hex} (small : ¬HasCapitalSelector known data) (mem : f.selector ∈ known)
    (named : selectorOf data = f.writtenSelector) : data.take 4 = f.writtenSelector := by
  by_contra capital
  exact small ⟨f.selector, mem, named, capital⟩

theorem decodeCall_recased (h : a.Recased b) (small : ¬HasCapitalSelector known a)
    (small' : ¬HasCapitalSelector known b) (mem : f.selector ∈ known)
    (named : selectorOf b = f.writtenSelector) : f.decodeCall a = f.decodeCall b := by
  have named' : selectorOf a = f.writtenSelector := (selectorOf_recased h).trans named
  unfold decodeCall
  rw [take_eq_of_small small mem named', take_eq_of_small small' mem named, h.size_eq,
    decodeFields_recased (h.drop 4)]

end Abi.Function

namespace WalletOperation

/-- The selectors of the functions that a session can authorise. -/
def selectors : List Bytes :=
  [normalExecute.selector, batchNormalExecute.selector]

theorem decode_knowsSmallSelectors : Abi.KnowsSmallSelectors selectors "wallet calldata" decode where
  capital {data} := by
    rintro ⟨selector, known, named, capital⟩
    simp only [selectors, List.mem_cons, List.not_mem_nil, or_false] at known
    unfold decode
    rcases known with rfl | rfl
    · have single : Abi.selectorOf data = normalExecute.writtenSelector := named
      have refused : normalExecute.decodeCall data = .error .unknownSelector := if_pos capital
      simp only [if_pos single, refused]
      rfl
    · have batch : Abi.selectorOf data = batchNormalExecute.writtenSelector := named
      have other : Abi.selectorOf data ≠ normalExecute.writtenSelector := by
        rw [batch]
        decide
      have refused : batchNormalExecute.decodeCall data = .error .unknownSelector := if_pos capital
      simp only [if_neg other, if_pos batch, refused]
      rfl
  small {a b} h small small' := by
    have reads (f : Abi.Function) (mem : f.selector ∈ selectors)
        (named : Abi.selectorOf b = f.writtenSelector) : f.decodeCall a = f.decodeCall b :=
      Abi.Function.decodeCall_recased h small small' mem named
    unfold decode
    simp only [Abi.selectorOf_recased h]
    split
    next named => rw [reads normalExecute (by decide) named]
    next =>
      split
      next named => rw [reads batchNormalExecute (by decide) named]
      next => rfl

end WalletOperation

namespace TokenFunction

/-- The selectors of the functions that spend tokens. -/
def selectors : List Bytes :=
  all.map selector

theorem selector_mem (f : TokenFunction) : f.selector ∈ selectors := by
  cases f <;> decide

theorem called?_of_selectorOf {data : Hex} {f : TokenFunction}
    (named : Abi.selectorOf data = Hex.ofBytes f.selector) : called? data = some f := by
  unfold called?
  rw [named]
  cases f <;> decide

theorem selectorOf_of_called? {data : Hex} {f : TokenFunction} (called : called? data = some f) :
    Abi.selectorOf data = Hex.ofBytes f.selector := by
  unfold called? at called
  have named := List.find?_some called
  exact eq_of_beq named

theorem amountTaken_of_capital {f : TokenFunction} {data : Hex} (wallet : Address)
    (capital : data.take 4 ≠ Hex.ofBytes f.selector) :
    f.amountTaken wallet data =
      .error (.refused (.malformed "token call" "unknown function selector")) := by
  have refused (g : Abi.Function) (same : g.selector = f.selector) :
      g.decodeCall data = .error .unknownSelector :=
    if_pos (by rwa [Abi.Function.writtenSelector, same])
  have sent := refused f.toRecipient rfl
  unfold amountTaken
  cases f with
  | transferFrom =>
    simp only [refused betweenHolders rfl]
    rfl
  | transfer | approve | increaseAllowance =>
    simp only [sent]
    rfl

theorem amountTaken_recased {f : TokenFunction} (h : a.Recased b) (wallet : Address)
    (small : ¬Abi.HasCapitalSelector selectors a) (small' : ¬Abi.HasCapitalSelector selectors b)
    (named : Abi.selectorOf b = Hex.ofBytes f.selector) :
    f.amountTaken wallet a = f.amountTaken wallet b := by
  have reads (g : Abi.Function) (same : g.selector = f.selector) : g.decodeCall a = g.decodeCall b :=
    Abi.Function.decodeCall_recased h small small' (same ▸ f.selector_mem)
      (by rwa [Abi.Function.writtenSelector, same])
  have sent := reads f.toRecipient rfl
  unfold amountTaken
  cases f with
  | transferFrom => simp only [reads betweenHolders rfl]
  | transfer | approve | increaseAllowance => simp only [sent]

end TokenFunction

theorem WalletCall.spends_knowsSmallSelectors (wallet : Address) (call : WalletCall) :
    Abi.KnowsSmallSelectors TokenFunction.selectors "token call"
      fun data => WalletCall.spends wallet { call with data } where
  capital {data} := by
    rintro ⟨_, known, named, capital⟩
    obtain ⟨f, -, rfl⟩ := List.mem_map.1 known
    unfold spends tokenSpends
    simp only [TokenFunction.called?_of_selectorOf named, f.amountTaken_of_capital wallet capital]
    rfl
  small {a b} h small small' := by
    have called : TokenFunction.called? a = TokenFunction.called? b := by
      unfold TokenFunction.called?
      rw [Abi.selectorOf_recased h]
    unfold spends tokenSpends
    simp only [called]
    cases hf : TokenFunction.called? b with
    | none => rfl
    | some f =>
      simp only [TokenFunction.amountTaken_recased h wallet small small'
        (TokenFunction.selectorOf_of_called? hf)]
      rfl

end

/-! ### Endings with one code -/

/-- Failures that look the same but for the text of a refusal. -/
inductive Failure.SameCode : Failure → Failure → Prop
  | same (f : Failure) : SameCode f f
  | coded {r r' : Refusal} (code : r.code = r'.code) : SameCode (.refused r) (.refused r')

section

variable {α β γ δ : Type} {R : α → β → Prop}

/-- Two computations end with one code: they fail, and look the same but for the text of a refusal, or
they end well with related values. -/
inductive EndsWithCode (R : α → β → Prop) : Except Failure α → Except Failure β → Prop
  | fails {f g : Failure} (code : f.SameCode g) : EndsWithCode R (.error f) (.error g)
  | ends {a : α} {b : β} (related : R a b) : EndsWithCode R (.ok a) (.ok b)

namespace EndsWithCode

theorem bind {Q : γ → δ → Prop} {x : Except Failure α} {y : Except Failure β}
    {f : α → Except Failure γ} {g : β → Except Failure δ} (h : EndsWithCode R x y)
    (next : ∀ a b, R a b → EndsWithCode Q (f a) (g b)) : EndsWithCode Q (x >>= f) (y >>= g) := by
  cases h with
  | fails code => exact .fails code
  | ends related => exact next _ _ related

/-- What comes after one computation ends with one code if it does for each of its values. -/
theorem after (x : Except Failure γ) {f : γ → Except Failure α} {g : γ → Except Failure β}
    (next : ∀ c, EndsWithCode R (f c) (g c)) : EndsWithCode R (x >>= f) (x >>= g) := by
  cases x with
  | error e => exact .fails (.same e)
  | ok c => exact next c

theorem refl (x : Except Failure α) : EndsWithCode Eq x x := by
  cases x with
  | error e => exact .fails (.same e)
  | ok a => exact .ends rfl

end EndsWithCode

theorem EndsAlike.withCode {x : Except Failure α} {y : Except Failure β} (h : EndsAlike R x y) :
    EndsWithCode R x y := by
  cases h with
  | fails f => exact .fails (.same f)
  | ends related => exact .ends related

end

/-! ### Checks of a call -/

/-- The same session but for the case of the letters in its selector and in what it allows. -/
structure Session.Recased (s t : Session) : Prop where
  selector : s.selector.Recased t.selector
  allowedArguments : s.allowedArguments.Recased t.allowedArguments
  others : { s with selector := t.selector, allowedArguments := t.allowedArguments } = t

theorem calledSelector_recased {a b : Hex} (h : a.Recased b) :
    EndsAlike Hex.Recased (calledSelector a) (calledSelector b) := by
  unfold calledSelector
  rw [h.size_eq]
  split
  · exact .ends (.refl _)
  · split
    · exact .fails _
    · exact .ends (h.take 4)

theorem presentsCall_recased {a b : Hex} (h : a.Recased b) (actual : List Hex) (value : Int) :
    presentsCall actual a value = presentsCall actual b value := by
  unfold presentsCall
  cases actual with
  | nil => simp only [(h.drop 4).isEmpty_eq]
  | cons slot slots => simp only [Hex.Recased.same_eq (.refl _) (h.drop 4)]

/-- Letter case does not matter to the check of a call, neither in the session nor in the call nor in what
is presented of it, except in the text that a refusal shows. -/
theorem checkArguments_recased {s t : Session} {data data' actual actual' : Hex} (session : s.Recased t)
    (call : data.Recased data') (presented : actual.Recased actual') (target : Address) (value : Int) :
    EndsWithCode Eq (checkArguments s target data value actual)
      (checkArguments t target data' value actual') := by
  rw [← session.others]
  unfold checkArguments
  simp only [decodeActualArguments_recased presented, presentsCall_recased call,
    isAllowedCalldata_recased session.allowedArguments presented]
  refine .after _ fun same => ?_
  cases same with
  | false => exact .fails (.same _)
  | true =>
    refine (calledSelector_recased call).orFail.withCode.bind fun selector selector' recased => ?_
    rw [recased.same_eq session.selector]
    split
    · exact .refl _
    · exact .fails (.coded rfl)

/-- Letter case does not matter to the check of a paymaster, except in the text that a refusal shows. -/
theorem validatePaymaster_recased {a b : Address} (h : a.hex.Recased b.hex) (pinned : Address) :
    EndsWithCode Eq (validatePaymaster pinned a) (validatePaymaster pinned b) := by
  have wellFormed : a.IsWellFormed ↔ b.IsWellFormed := by
    unfold Address.IsWellFormed Address.bytes?
    rw [h.bytes?_eq]
  have same : pinned.same a = pinned.same b := by
    simp only [Address.same, wellFormed, Hex.Recased.same_eq (.refl _) h]
  unfold validatePaymaster
  rw [same]
  refine .after _ fun number => ?_
  split
  · exact .refl _
  · refine .after _ fun agrees => ?_
    split
    · exact .refl _
    · exact .fails (.coded rfl)

/-- Letter case does not matter in the root under which a session is committed. -/
theorem verifySessionMembership_recased {root root' : Hex} (h : root.Recased root') (proof : List Hex)
    (s : Session) : verifySessionMembership proof root s = verifySessionMembership proof root' s := by
  unfold verifySessionMembership validateSessionRoot
  rw [h.toInt_eq]

end SessionKeys
