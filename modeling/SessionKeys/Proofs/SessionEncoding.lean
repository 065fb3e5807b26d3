import SessionKeys.Proofs.Layout
import SessionKeys.Session

/-!
What the encoding of a session tells. The fields of a session stand for bytes and numbers
(`Session.Has`), whatever the case of their letters. The encoding depends on these alone
(`Session.Has.exists_encoding`), and no two different fields have the same one
(`SessionContent.encode_injective`), although one of them is of any length.
-/

namespace SessionKeys

/-! ### Sessions -/

/-- What the fields of a session stand for. -/
structure SessionContent where
  target : Bytes
  selector : Bytes
  allowedArguments : Bytes
  paymaster : Bytes
  validUntil : Nat
  validAfter : Nat
  timesLimit : Nat
  target_length : target.length = 20 := by decide
  selector_length : selector.length = 4 := by decide
  paymaster_length : paymaster.length = 20 := by decide
  validUntil_lt : validUntil < 2 ^ 48 := by decide
  validAfter_lt : validAfter < 2 ^ 48 := by decide
  timesLimit_lt : timesLimit < 2 ^ 256 := by decide

/-- The fields of a session stand for some content. -/
structure Session.Has (s : Session) (c : SessionContent) : Prop where
  target : s.target.bytes? = some c.target
  selector : s.selector.bytes? = some c.selector
  allowedArguments : s.allowedArguments.bytes? = some c.allowedArguments
  paymaster : s.paymaster.bytes? = some c.paymaster
  validUntil : s.validUntil = .ofInt c.validUntil
  validAfter : s.validAfter = .ofInt c.validAfter
  timesLimit : s.timesLimit = c.timesLimit

/-- A session whose fields are values of their types: they have the right sizes, and the addresses
may be encoded. -/
structure Session.IsEncodable (s : Session) : Prop where
  target : s.target.isStrict = true
  paymaster : s.paymaster.isStrict = true
  content : ∃ c, s.Has c

/-- Two sessions have the same field values. -/
def Session.SameValues (s t : Session) : Prop :=
  ∃ c, s.Has c ∧ t.Has c

/-- What the fields of a session stand for, if they have the right sizes. -/
def Session.content? (s : Session) : Option SessionContent :=
  match s.target.bytes?, s.selector.bytes?, s.allowedArguments.bytes?, s.paymaster.bytes?,
    s.validUntil.toInt?, s.validAfter.toInt?, s.timesLimit with
  | some target, some selector, some allowedArguments, some paymaster, some (.ofNat validUntil),
    some (.ofNat validAfter), .ofNat timesLimit =>
    if h : (target.length = 20 ∧ selector.length = 4 ∧ paymaster.length = 20) ∧
        validUntil < 2 ^ 48 ∧ validAfter < 2 ^ 48 ∧ timesLimit < 2 ^ 256 then
      some
        { target, selector, allowedArguments, paymaster, validUntil, validAfter, timesLimit
          target_length := h.1.1
          selector_length := h.1.2.1
          paymaster_length := h.1.2.2
          validUntil_lt := h.2.1
          validAfter_lt := h.2.2.1
          timesLimit_lt := h.2.2.2 }
    else none
  | _, _, _, _, _, _, _ => none

theorem Session.content?_eq_some {s : Session} {c : SessionContent} :
    s.content? = some c ↔ s.Has c := by
  unfold content?
  constructor
  · intro h
    split at h
    next target selector arguments paymaster validUntil validAfter limit =>
      split at h
      next sizes =>
        cases h
        exact ⟨target, selector, arguments, paymaster, Number.toInt?_eq_some.1 validUntil,
          Number.toInt?_eq_some.1 validAfter, limit⟩
      next => cases h
    next => cases h
  · intro has
    rw [has.target, has.selector, has.allowedArguments, has.paymaster,
      Number.toInt?_eq_some.2 has.validUntil, Number.toInt?_eq_some.2 has.validAfter, has.timesLimit]
    exact dif_pos ⟨⟨c.target_length, c.selector_length, c.paymaster_length⟩, c.validUntil_lt,
      c.validAfter_lt, c.timesLimit_lt⟩

deriving instance DecidableEq for SessionContent

instance (s t : Session) : Decidable (s.SameValues t) :=
  decidable_of_iff (s.content?.isSome ∧ s.content? = t.content?) <| by
    unfold Session.SameValues
    simp only [← Session.content?_eq_some]
    constructor
    · rintro ⟨some, same⟩
      obtain ⟨c, hc⟩ := Option.isSome_iff_exists.1 some
      exact ⟨c, hc, same ▸ hc⟩
    · rintro ⟨c, hs, ht⟩
      exact ⟨hs ▸ rfl, hs.trans ht.symm⟩

namespace SessionContent

theorem ext_fields {c d : SessionContent} (target : c.target = d.target)
    (selector : c.selector = d.selector) (allowedArguments : c.allowedArguments = d.allowedArguments)
    (paymaster : c.paymaster = d.paymaster) (validUntil : c.validUntil = d.validUntil)
    (validAfter : c.validAfter = d.validAfter) (timesLimit : c.timesLimit = d.timesLimit) : c = d := by
  cases c
  cases d
  simp only at *
  subst target selector allowedArguments paymaster validUntil validAfter timesLimit
  rfl

/-- The encoding of a session with some content: seven words, of which the third tells where the
allowed arguments start, and behind them the allowed arguments and their length. -/
def encode (c : SessionContent) : Bytes :=
  (List.replicate 12 0 ++ c.target) ++ ((c.selector ++ List.replicate 28 0) ++ (Bytes.ofNat 32 224 ++
    ((List.replicate 12 0 ++ c.paymaster) ++ (Bytes.ofNat 32 c.validUntil ++
      (Bytes.ofNat 32 c.validAfter ++ (Bytes.ofNat 32 c.timesLimit ++
        (Bytes.ofNat 32 (c.allowedArguments.length % 2 ^ 256) ++ (c.allowedArguments ++
          List.replicate (Abi.fillSize c.allowedArguments.length) 0))))))))

theorem ofNat_inj {m n : Nat} (hm : m < 2 ^ 256) (hn : n < 2 ^ 256)
    (h : Bytes.ofNat 32 m = Bytes.ofNat 32 n) : m = n := by
  have same := congrArg Bytes.toNat h
  rw [Bytes.toNat_ofNat, Bytes.toNat_ofNat, Nat.mod_eq_of_lt (by norm_num; omega),
    Nat.mod_eq_of_lt (by norm_num; omega)] at same
  exact same

/-- Filled up to whole words behind their length, byte strings are told apart. The length is written
modulo `2 ^ 256`, but longer strings fill more words. -/
theorem fill_inj {x y : Bytes}
    (length : Bytes.ofNat 32 (x.length % 2 ^ 256) = Bytes.ofNat 32 (y.length % 2 ^ 256))
    (filled : x ++ List.replicate (Abi.fillSize x.length) 0 =
      y ++ List.replicate (Abi.fillSize y.length) 0) : x = y := by
  have low : x.length % 2 ^ 256 = y.length % 2 ^ 256 :=
    ofNat_inj (Nat.mod_lt _ (by norm_num)) (Nat.mod_lt _ (by norm_num)) length
  have total := congrArg List.length filled
  simp only [List.length_append, List.length_replicate] at total
  have same : x.length = y.length := by
    unfold Abi.fillSize at total
    omega
  exact (List.append_inj filled same).1

/-- Content is told apart by its encoding. -/
theorem encode_injective : Function.Injective encode := by
  intro c d h
  have lengths := And.intro c.target_length d.target_length
  have selectors := And.intro c.selector_length d.selector_length
  have paymasters := And.intro c.paymaster_length d.paymaster_length
  unfold encode at h
  obtain ⟨target, h⟩ := List.append_inj h (by simp [lengths])
  obtain ⟨selector, h⟩ := List.append_inj h (by simp [selectors])
  obtain ⟨-, h⟩ := List.append_inj h rfl
  obtain ⟨paymaster, h⟩ := List.append_inj h (by simp [paymasters])
  obtain ⟨validUntil, h⟩ := List.append_inj h (by simp)
  obtain ⟨validAfter, h⟩ := List.append_inj h (by simp)
  obtain ⟨timesLimit, h⟩ := List.append_inj h (by simp)
  obtain ⟨length, filled⟩ := List.append_inj h (by simp)
  have small : ∀ {n : Nat}, n < 2 ^ 48 → n < 2 ^ 256 := fun hn => Nat.lt_trans hn (by norm_num)
  exact ext_fields (List.append_inj target rfl).2
    (List.append_inj selector (selectors.1.trans selectors.2.symm)).1 (fill_inj length filled)
    (List.append_inj paymaster rfl).2 (ofNat_inj (small c.validUntil_lt) (small d.validUntil_lt) validUntil)
    (ofNat_inj (small c.validAfter_lt) (small d.validAfter_lt) validAfter)
    (ofNat_inj c.timesLimit_lt d.timesLimit_lt timesLimit)

end SessionContent

namespace Session

variable {s t : Session} {c d : SessionContent}

/-- A session stands for one content. -/
theorem Has.unique (hc : s.Has c) (hd : s.Has d) : c = d := by
  refine SessionContent.ext_fields ?_ ?_ ?_ ?_ ?_ ?_ ?_
  · exact Option.some.inj (hc.target.symm.trans hd.target)
  · exact Option.some.inj (hc.selector.symm.trans hd.selector)
  · exact Option.some.inj (hc.allowedArguments.symm.trans hd.allowedArguments)
  · exact Option.some.inj (hc.paymaster.symm.trans hd.paymaster)
  · have same := congrArg Number.toInt? (hc.validUntil.symm.trans hd.validUntil)
    simpa using same
  · have same := congrArg Number.toInt? (hc.validAfter.symm.trans hd.validAfter)
    simpa using same
  · have same := hc.timesLimit.symm.trans hd.timesLimit
    omega

theorem encodeFields_eq_ok {s : Session} {h : Hex} :
    Abi.encodeFields fields s.values = .ok h ↔
      ∃ target selector allowedArguments paymaster validUntil validAfter timesLimit,
        Abi.encodeAddress s.target = .ok target ∧ Abi.encodeFixedBytes 4 s.selector = .ok selector ∧
        Abi.encodeBytes s.allowedArguments = .ok allowedArguments ∧
        Abi.encodeAddress s.paymaster = .ok paymaster ∧
        Abi.encodeNumber 48 s.validUntil = .ok validUntil ∧
        Abi.encodeNumber 48 s.validAfter = .ok validAfter ∧
        Abi.encodeUnsigned 256 s.timesLimit = .ok timesLimit ∧
        h = Abi.Item.layout [⟨false, target⟩, ⟨false, selector⟩, ⟨true, allowedArguments⟩,
          ⟨false, paymaster⟩, ⟨false, validUntil⟩, ⟨false, validAfter⟩, ⟨false, timesLimit⟩] := by
  unfold Abi.encodeFields values
  simp only [Abi.encodeItems, Abi.encode, bind_eq_ok, pure_eq_ok, Except.ok.injEq, Abi.Ty.isDynamic]
  constructor
  · rintro ⟨_, ⟨x₁, h₁, _, ⟨x₂, h₂, _, ⟨x₃, h₃, _, ⟨x₄, h₄, _, ⟨x₅, h₅, _, ⟨x₆, h₆, _, ⟨x₇, h₇, _,
      rfl, rfl⟩, rfl⟩, rfl⟩, rfl⟩, rfl⟩, rfl⟩, rfl⟩, rfl⟩
    exact ⟨x₁, x₂, x₃, x₄, x₅, x₆, x₇, h₁, h₂, h₃, h₄, h₅, h₆, h₇, rfl⟩
  · rintro ⟨x₁, x₂, x₃, x₄, x₅, x₆, x₇, h₁, h₂, h₃, h₄, h₅, h₆, h₇, rfl⟩
    exact ⟨_, ⟨x₁, h₁, _, ⟨x₂, h₂, _, ⟨x₃, h₃, _, ⟨x₄, h₄, _, ⟨x₅, h₅, _, ⟨x₆, h₆, _, ⟨x₇, h₇, _,
      rfl, rfl⟩, rfl⟩, rfl⟩, rfl⟩, rfl⟩, rfl⟩, rfl⟩, rfl⟩

/-- A session with some content fits the types of its fields, if its addresses may be encoded. -/
theorem Has.fits (has : s.Has c) (target : s.target.isStrict = true)
    (paymaster : s.paymaster.isStrict = true) : fields.Fits s.values := by
  have range {n bits : Nat} (hn : n < 2 ^ bits) : (0 : Int) ≤ n ∧ (n : Int) < Abi.valueCount bits :=
    ⟨Int.natCast_nonneg n, Abi.natCast_lt_valueCount.2 hn⟩
  have limit : (Abi.Ty.uint 256).Fits s.timesLimit := by
    rw [has.timesLimit]
    exact range c.timesLimit_lt
  exact ⟨target, ⟨_, has.selector, c.selector_length⟩, ⟨_, has.allowedArguments⟩, paymaster,
    ⟨_, has.validUntil, range c.validUntil_lt⟩, ⟨_, has.validAfter, range c.validAfter_lt⟩, limit, trivial⟩

/-- The fields of a session are laid out as its content tells. -/
theorem Has.layout_parts (has : s.Has c) : Abi.Part.layout (fields.parts s.values) = c.encode := by
  have small : ∀ {m : Nat}, m < 2 ^ 48 → m < 2 ^ 256 := fun hm => Nat.lt_trans hm (by norm_num)
  have parts : fields.parts s.values =
      [⟨false, List.replicate 12 0 ++ c.target⟩, ⟨false, c.selector ++ List.replicate 28 0⟩,
        ⟨true, Abi.wordBytes c.allowedArguments.length ++
          (c.allowedArguments ++ List.replicate (Abi.fillSize c.allowedArguments.length) 0)⟩,
        ⟨false, List.replicate 12 0 ++ c.paymaster⟩, ⟨false, Bytes.ofNat 32 c.validUntil⟩,
        ⟨false, Bytes.ofNat 32 c.validAfter⟩, ⟨false, Bytes.ofNat 32 c.timesLimit⟩] := by
    simp only [values, Abi.Fields.parts, Abi.Ty.encoding, Abi.Ty.isDynamic, has.target, has.selector,
      has.allowedArguments, has.paymaster, has.validUntil, has.validAfter, has.timesLimit,
      Option.getD_some, Number.toInt?_ofInt, Int.toNat_natCast, Abi.wordBytes_of_lt (small c.validUntil_lt),
      Abi.wordBytes_of_lt (small c.validAfter_lt), Abi.wordBytes_of_lt c.timesLimit_lt]
  have sizes : Abi.Part.headSizes (fields.parts s.values) = 224 := by
    rw [parts]
    simp [Abi.Part.headSizes, Abi.Part.headSize, c.target_length, c.selector_length, c.paymaster_length]
  have offset : Abi.wordBytes 224 = Bytes.ofNat 32 224 := Abi.wordBytes_of_lt (by norm_num)
  unfold Abi.Part.layout SessionContent.encode
  rw [sizes, parts]
  simp only [Abi.Part.heads, Abi.Part.head, Abi.Part.tailSize, Abi.Part.tails, Abi.Part.tail, if_true,
    Bool.false_eq_true, if_false, Nat.add_zero, List.append_assoc, List.nil_append, List.append_nil, offset]
  rfl

/-- A session whose addresses may be encoded is encoded by its content. -/
theorem Has.exists_encoding (has : s.Has c) (target : s.target.isStrict = true)
    (paymaster : s.paymaster.isStrict = true) :
    ∃ h, Abi.encodeFields fields s.values = .ok h ∧ h.bytes? = some c.encode := by
  obtain ⟨h, encoded, bytes⟩ := Abi.encodeFields_of_fits (by decide) (has.fits target paymaster)
  exact ⟨h, encoded, has.layout_parts ▸ bytes⟩

/-- Of what an encoded session stands for, all but its byte strings is checked on the way. -/
theorem exists_content_of_encodeFields {h : Hex} {selector allowedArguments : Bytes}
    (hselector : s.selector.bytes? = some selector) (length : selector.length = 4)
    (harguments : s.allowedArguments.bytes? = some allowedArguments)
    (encoded : Abi.encodeFields fields s.values = .ok h) :
    ∃ c, s.Has c ∧ h.bytes? = some c.encode := by
  obtain ⟨a, e, f, p, u, v, l, ha, -, -, hp, hu, hv, hl, -⟩ := encodeFields_eq_ok.1 encoded
  have target := Abi.isStrict_of_encodeAddress ha
  have paymaster := Abi.isStrict_of_encodeAddress hp
  obtain ⟨x, hx⟩ := Address.exists_bytes_of_isStrict target
  obtain ⟨y, hy⟩ := Address.exists_bytes_of_isStrict paymaster
  obtain ⟨validUntil, until_eq, ⟨until_nonneg, until_lt⟩, -⟩ := Abi.encodeNumber_eq_ok.1 hu
  obtain ⟨validAfter, after_eq, ⟨after_nonneg, after_lt⟩, -⟩ := Abi.encodeNumber_eq_ok.1 hv
  obtain ⟨⟨limit_nonneg, limit_lt⟩, -⟩ := Abi.encodeUnsigned_eq_ok.1 hl
  lift validUntil to Nat using until_nonneg
  lift validAfter to Nat using after_nonneg
  obtain ⟨limit, hlimit⟩ := Int.eq_ofNat_of_zero_le limit_nonneg
  rw [hlimit] at limit_lt
  let c : SessionContent :=
    { target := x, selector, allowedArguments, paymaster := y, validUntil, validAfter
      timesLimit := limit
      target_length := (Address.bytes?_eq_some_iff.1 hx).2
      selector_length := length
      paymaster_length := (Address.bytes?_eq_some_iff.1 hy).2
      validUntil_lt := Abi.natCast_lt_valueCount.1 until_lt
      validAfter_lt := Abi.natCast_lt_valueCount.1 after_lt
      timesLimit_lt := Abi.natCast_lt_valueCount.1 limit_lt }
  have has : s.Has c := ⟨hx, hselector, harguments, hy, until_eq, after_eq, hlimit⟩
  obtain ⟨h', encoded', bytes⟩ := has.exists_encoding target paymaster
  rw [encoded, Except.ok.injEq] at encoded'
  exact ⟨c, has, encoded' ▸ bytes⟩

end Session

end SessionKeys
