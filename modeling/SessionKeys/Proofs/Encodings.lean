import SessionKeys.Proofs.Preparation
import SessionKeys.Proofs.Layout

/-!
Values are told apart by their encodings. A value of which every byte string writes bytes
(`Ty.Written`) fits its type if it can be encoded (`fits_of_encode`). Two values of a type that is not
dynamic have the same encoding only if they are the same, up to the case of letters (`Ty.Same`,
`same_of_encoding`); so have two lists of such values, whatever their lengths (`same_of_encoding_array`).
-/

namespace SessionKeys.Abi

/-! ### The same values -/

mutual

/-- Two values are the same: addresses and byte strings with the same bytes, and equal numbers. -/
def Ty.Same : (t : Ty) → t.Val → t.Val → Prop
  | .address, a, b => a.Agrees b
  | .uint _, m, n => m = n
  | .number _, m, n => m = n
  | .fixedBytes _, g, h => g.bytes? = h.bytes?
  | .bytes, g, h => g.bytes? = h.bytes?
  | .array item, vs, ws => List.Forall₂ item.Same vs ws
  | .tuple fields, vs, ws => fields.Same vs ws
  | _, _, _ => False

def Fields.Same : (fields : Fields) → fields.Val → fields.Val → Prop
  | .nil, _, _ => True
  | .cons first rest, (v, vs), (w, ws) => first.Same v w ∧ rest.Same vs ws

end

mutual

/-- Every byte string in a value writes bytes. -/
def Ty.Written : (t : Ty) → t.Val → Prop
  | .fixedBytes _, h => ∃ b, h.bytes? = some b
  | .bytes, h => ∃ b, h.bytes? = some b
  | .array item, vs => ∀ v ∈ vs, item.Written v
  | .tuple fields, vs => fields.Written vs
  | _, _ => True

def Fields.Written : (fields : Fields) → fields.Val → Prop
  | .nil, _ => True
  | .cons first rest, (v, vs) => first.Written v ∧ rest.Written vs

end

/-! ### What is encoded fits -/

mutual

/-- Of a value that is encoded, all but its byte strings is checked on the way. -/
theorem fits_of_encode : (t : Ty) → {v : t.Val} → {h : Hex} → t.isReadable = true → t.Written v →
    encode t v = .ok h → t.Fits v
  | .address, _, _, _, _, encoded => isStrict_of_encodeAddress encoded
  | .uint _, _, _, _, _, encoded => (encodeUnsigned_eq_ok.1 encoded).1
  | .number _, _, _, _, _, encoded => by
    obtain ⟨m, whole, range, -⟩ := encodeNumber_eq_ok.1 encoded
    exact ⟨m, whole, range⟩
  | .fixedBytes size, h, _, _, ⟨b, hb⟩, encoded => by
    rw [encode, encodeFixedBytes, error_ite_eq_ok, Hex.size_of_bytes? hb] at encoded
    exact ⟨b, hb, Decidable.not_not.1 encoded.1⟩
  | .bytes, _, _, _, written, _ => written
  | .array item, vs, _, readable, written, encoded => by
    intro v listed
    obtain ⟨items, each, -⟩ := bind_eq_ok.1 encoded
    obtain ⟨_, encoded⟩ := exists_ok_of_mem each listed
    cases made : encode item v with
    | error f =>
      rw [made] at encoded
      cases encoded
    | ok h => exact fits_of_encode item readable (written v listed) made
  | .tuple fields, _, _, readable, written, encoded => by
    obtain ⟨items, encoded, -⟩ := bind_eq_ok.1 encoded
    exact fits_of_encodeItems fields (Bool.and_eq_true_iff.1 readable).2 written encoded

theorem fits_of_encodeItems : (fields : Fields) → {vs : fields.Val} → {items : List Item} →
    fields.isReadable = true → fields.Written vs → encodeItems fields vs = .ok items → fields.Fits vs
  | .nil, _, _, _, _, _ => trivial
  | .cons first rest, (v, vs), _, readable, ⟨one, others⟩, encoded => by
    obtain ⟨here, later⟩ := Bool.and_eq_true_iff.1 readable
    obtain ⟨_, encoded, more⟩ := bind_eq_ok.1 encoded
    obtain ⟨_, more, -⟩ := bind_eq_ok.1 more
    exact ⟨fits_of_encode first here one encoded, fits_of_encodeItems rest later others more⟩

end

/-- Arguments that are encoded fit their types, and are hashed by their layout. -/
theorem fits_of_encodeFields {fields : Fields} {vs : fields.Val} {e : Hex}
    (readable : fields.isReadable = true) (written : fields.Written vs)
    (encoded : encodeFields fields vs = .ok e) :
    fields.Fits vs ∧ e.content = Part.layout (fields.parts vs) := by
  obtain ⟨items, made, -⟩ := bind_eq_ok.1 encoded
  have fits := fits_of_encodeItems fields readable written made
  obtain ⟨_, again, bytes⟩ := encodeFields_of_fits readable fits
  rw [encoded, Except.ok.injEq] at again
  exact ⟨fits, again ▸ Hex.content_of_bytes? bytes⟩

/-! ### Told apart -/

/-- Items that are not dynamic stand one behind the other. -/
theorem Part.layout_of_static {parts : List Part} (static : ∀ part ∈ parts, part.dynamic = false) :
    layout parts = parts.flatMap (·.bytes) := by
  have rows : ∀ offset, heads offset parts = parts.flatMap (·.bytes) ∧ tails parts = [] := by
    induction parts with
    | nil => exact fun _ => ⟨rfl, rfl⟩
    | cons part parts ih =>
      obtain ⟨here, later⟩ := List.forall_mem_cons.1 static
      intro offset
      obtain ⟨heads_eq, tails_eq⟩ := ih later (offset + part.tailSize)
      rw [heads, tails, heads_eq, tails_eq, head, tail, here]
      exact ⟨rfl, rfl⟩
  obtain ⟨heads_eq, tails_eq⟩ := rows (headSizes parts)
  rw [layout, heads_eq, tails_eq, List.append_nil]

theorem dynamic_parts_of_static : (fields : Fields) → {vs : fields.Val} → fields.isDynamic = false →
    ∀ part ∈ fields.parts vs, part.dynamic = false
  | .nil, _, _, _, listed => absurd listed List.not_mem_nil
  | .cons first rest, (v, vs), static, part, listed => by
    obtain ⟨here, later⟩ := Bool.or_eq_false_iff.1 static
    rcases List.mem_cons.1 listed with rfl | listed
    · exact here
    · exact dynamic_parts_of_static rest later part listed

/-- Numbers that fit some bits are told apart by their words. -/
theorem eq_of_wordBytes {bits : Nat} {m n : Int} (readable : bits ≤ 256)
    (hm : 0 ≤ m ∧ m < valueCount bits) (hn : 0 ≤ n ∧ n < valueCount bits)
    (same : wordBytes m.toNat = wordBytes n.toNat) : m = n := by
  have bound {k : Int} (hk : 0 ≤ k ∧ k < valueCount bits) : k.toNat < 2 ^ 256 := by
    obtain ⟨nonneg, small⟩ := hk
    lift k to Nat using nonneg
    exact Nat.lt_of_lt_of_le (natCast_lt_valueCount.1 small) (Nat.pow_le_pow_right (by norm_num) readable)
  have value := congrArg Bytes.toNat same
  rw [toNat_wordBytes (bound hm), toNat_wordBytes (bound hn)] at value
  omega

mutual

/-- Values whose type is not dynamic are told apart by their encodings. -/
theorem same_of_encoding : (t : Ty) → {v w : t.Val} → t.isReadable = true → t.isDynamic = false →
    t.Fits v → t.Fits w → t.encoding v = t.encoding w → t.Same v w
  | .address, a, b, _, _, fitsA, fitsB => by
    intro same
    obtain ⟨x, hx⟩ := Address.exists_bytes_of_isStrict fitsA
    obtain ⟨y, hy⟩ := Address.exists_bytes_of_isStrict fitsB
    rw [Ty.encoding, Ty.encoding, hx, hy] at same
    obtain rfl := List.append_cancel_left same
    exact ⟨x, hx, hy⟩
  | .uint _, m, n, readable, _, fitsM, fitsN => by
    intro same
    rw [Ty.encoding, Ty.encoding] at same
    exact eq_of_wordBytes (of_decide_eq_true readable) fitsM fitsN same
  | .number _, _, _, readable, _, ⟨m, hm, rangeM⟩, ⟨n, hn, rangeN⟩ => by
    intro same
    rw [Ty.encoding, Ty.encoding, hm, hn, Number.toInt?_ofInt, Number.toInt?_ofInt] at same
    obtain rfl := eq_of_wordBytes (of_decide_eq_true readable) rangeM rangeN same
    exact hm.trans hn.symm
  | .fixedBytes _, g, h, _, _, ⟨x, hx, lengthX⟩, ⟨y, hy, lengthY⟩ => by
    intro same
    rw [Ty.encoding, Ty.encoding, hx, hy] at same
    obtain rfl := (List.append_inj same (lengthX.trans lengthY.symm)).1
    exact hx.trans hy.symm
  | .tuple fields, _, _, readable, static, fitsV, fitsW =>
    same_of_layout fields (Bool.and_eq_true_iff.1 readable).2 static fitsV fitsW

theorem same_of_layout : (fields : Fields) → {vs ws : fields.Val} → fields.isReadable = true →
    fields.isDynamic = false → fields.Fits vs → fields.Fits ws →
    Part.layout (fields.parts vs) = Part.layout (fields.parts ws) → fields.Same vs ws
  | .nil, _, _, _, _, _, _ => fun _ => trivial
  | .cons first rest, (v, vs), (w, ws), readable, static, ⟨oneV, othersV⟩, ⟨oneW, othersW⟩ => by
    intro same
    obtain ⟨here, later⟩ := Bool.and_eq_true_iff.1 readable
    obtain ⟨staticFirst, staticRest⟩ := Bool.or_eq_false_iff.1 static
    rw [Part.layout_of_static (dynamic_parts_of_static _ static),
      Part.layout_of_static (dynamic_parts_of_static _ static), Fields.parts, Fields.parts,
      List.flatMap_cons, List.flatMap_cons, ← Part.layout_of_static (dynamic_parts_of_static rest staticRest),
      ← Part.layout_of_static (dynamic_parts_of_static rest staticRest)] at same
    have lengths : (first.encoding v).length = (first.encoding w).length :=
      (length_encoding first here staticFirst oneV).trans (length_encoding first here staticFirst oneW).symm
    obtain ⟨sameFirst, sameRest⟩ := List.append_inj same lengths
    exact ⟨same_of_encoding first here staticFirst oneV oneW sameFirst,
      same_of_layout rest later staticRest othersV othersW sameRest⟩

end

/-- Lists of values whose type is not dynamic are told apart by their encodings. The length in front is
written modulo `2 ^ 256`, so it is the items themselves that tell how many there are. -/
theorem same_of_encoding_array {item : Ty} {vs ws : List item.Val} (readable : item.isReadable = true)
    (static : item.isDynamic = false) (fitsV : ∀ v ∈ vs, item.Fits v) (fitsW : ∀ w ∈ ws, item.Fits w)
    (same : (Ty.array item).encoding vs = (Ty.array item).encoding ws) :
    List.Forall₂ item.Same vs ws := by
  have inPlace (us : List item.Val) :
      Part.layout (us.map fun v => ⟨item.isDynamic, item.encoding v⟩) = us.flatMap item.encoding := by
    rw [Part.layout_of_static (List.forall_mem_map.2 fun _ _ => static), List.flatMap_map]
  rw [Ty.encoding, Ty.encoding, inPlace, inPlace] at same
  replace same := (List.append_inj same (by rw [length_wordBytes, length_wordBytes])).2
  induction vs generalizing ws with
  | nil =>
    cases ws with
    | nil => exact .nil
    | cons w ws =>
      have long := le_length_encoding readable (fitsW w List.mem_cons_self)
      rw [List.flatMap_nil, List.flatMap_cons] at same
      rw [(List.append_eq_nil_iff.1 same.symm).1] at long
      cases long
  | cons v vs ih =>
    obtain ⟨oneV, othersV⟩ := List.forall_mem_cons.1 fitsV
    cases ws with
    | nil =>
      have long := le_length_encoding readable oneV
      rw [List.flatMap_nil, List.flatMap_cons] at same
      rw [(List.append_eq_nil_iff.1 same).1] at long
      cases long
    | cons w ws =>
      obtain ⟨oneW, othersW⟩ := List.forall_mem_cons.1 fitsW
      rw [List.flatMap_cons, List.flatMap_cons] at same
      have lengths : (item.encoding v).length = (item.encoding w).length :=
        (length_encoding item readable static oneV).trans (length_encoding item readable static oneW).symm
      obtain ⟨sameFirst, sameRest⟩ := List.append_inj same lengths
      exact .cons (same_of_encoding item readable static oneV oneW sameFirst)
        (ih othersV othersW sameRest)

/-! ### Hashed arguments -/

section Content

variable {fields : Fields} {vs ws : fields.Val} {e f : Hex}

/-- Arguments that are not dynamic are told apart by what they are hashed by. -/
theorem same_of_content (readable : fields.isReadable = true) (static : fields.isDynamic = false)
    (writtenV : fields.Written vs) (writtenW : fields.Written ws)
    (encodedV : encodeFields fields vs = .ok e) (encodedW : encodeFields fields ws = .ok f)
    (same : e.content = f.content) : fields.Same vs ws := by
  obtain ⟨fitsV, contentV⟩ := fits_of_encodeFields readable writtenV encodedV
  obtain ⟨fitsW, contentW⟩ := fits_of_encodeFields readable writtenW encodedW
  exact same_of_layout fields readable static fitsV fitsW (contentV.symm.trans (same.trans contentW))

/-- Arguments that are not dynamic are hashed by as many bytes as their types tell. -/
theorem length_content (readable : fields.isReadable = true) (static : fields.isDynamic = false)
    (written : fields.Written vs) (encoded : encodeFields fields vs = .ok e) :
    e.content.length = fields.headSize := by
  obtain ⟨fits, content⟩ := fits_of_encodeFields readable written encoded
  obtain ⟨heads, tails⟩ := sizes_parts_of_static fields readable static fits
  rw [content, Part.length_layout, heads, tails, Nat.add_zero]

/-- A list of values that are not dynamic is told apart by what it is hashed by as the only argument. -/
theorem same_of_content_array {item : Ty} {vs ws : List item.Val} (readable : item.isReadable = true)
    (static : item.isDynamic = false) (writtenV : ∀ v ∈ vs, item.Written v)
    (writtenW : ∀ w ∈ ws, item.Written w)
    (encodedV : encodeFields (.cons (.array item) .nil) (vs, ()) = .ok e)
    (encodedW : encodeFields (.cons (.array item) .nil) (ws, ()) = .ok f) (same : e.content = f.content) :
    List.Forall₂ item.Same vs ws := by
  have whole : Fields.isReadable (.cons (.array item) .nil) = true := by
    rw [Fields.isReadable, Ty.isReadable, readable]
    rfl
  have alone {us : List item.Val} (written : ∀ u ∈ us, item.Written u) :
      Fields.Written (.cons (.array item) .nil) (us, ()) :=
    ⟨written, trivial⟩
  obtain ⟨⟨fitsV, -⟩, contentV⟩ := fits_of_encodeFields whole (alone writtenV) encodedV
  obtain ⟨⟨fitsW, -⟩, contentW⟩ := fits_of_encodeFields whole (alone writtenW) encodedW
  have behindOffset (us : List item.Val) : Part.layout (Fields.parts (.cons (.array item) .nil) (us, ())) =
      wordBytes 32 ++ (Ty.array item).encoding us := by
    unfold Part.layout
    simp [Fields.parts, Part.heads, Part.head, Part.tails, Part.tail, Part.headSizes, Part.headSize,
      Ty.isDynamic]
  rw [contentV, contentW, behindOffset, behindOffset] at same
  exact same_of_encoding_array readable static fitsV fitsW (List.append_cancel_left same)

end Content

end SessionKeys.Abi
