import SessionKeys.Proofs.Words

/-!
The bytes of encoded contract arguments. Of a type that reads back (`Ty.isReadable`), a value that fits
(`Ty.Fits`) is encoded, and its encoding is what `Ty.encoding` tells of it (`encode_of_fits`). Writing
the bytes in small letters and the addresses with their checksums (`Ty.normal`) changes nothing of it
(`encoding_normal`). The encoding of fields and more fields is longer than that of the fields alone
(`length_layout_lt_append`).
-/

namespace SessionKeys

/-- The same address as it is read: with its checksum. -/
def Address.normal (a : Address) : Address :=
  a.checksummed?.getD a

theorem Address.normal_of_bytes? {a : Address} {b : Bytes} (hb : a.bytes? = some b) :
    a.normal = ofBytes b := by
  unfold normal checksummed?
  rw [hb]
  rfl

namespace Abi

/-! ### Rows -/

/-- The bytes of an encoded item, and whether it is laid out by an offset. -/
structure Part where
  dynamic : Bool
  bytes : Bytes

/-- A number in a word. -/
def wordBytes (n : Nat) : Bytes :=
  Bytes.ofNat 32 (n % 2 ^ 256)

@[simp] theorem length_wordBytes (n : Nat) : (wordBytes n).length = 32 :=
  Bytes.length_ofNat 32 _

theorem wordBytes_of_lt {n : Nat} (hn : n < 2 ^ 256) : wordBytes n = Bytes.ofNat 32 n := by
  rw [wordBytes, Nat.mod_eq_of_lt hn]

theorem toNat_wordBytes {n : Nat} (hn : n < 2 ^ 256) : (wordBytes n).toNat = n := by
  rw [wordBytes_of_lt hn, Bytes.toNat_ofNat, Nat.mod_eq_of_lt (by norm_num; omega)]

namespace Part

/-- How many bytes a part takes in the head. -/
def headSize (part : Part) : Nat :=
  if part.dynamic then 32 else part.bytes.length

/-- How many bytes a part takes behind the heads. -/
def tailSize (part : Part) : Nat :=
  if part.dynamic then part.bytes.length else 0

/-- What stands in the head for a part, whose dynamic bytes are at `offset`. -/
def head (offset : Nat) (part : Part) : Bytes :=
  if part.dynamic then wordBytes offset else part.bytes

def tail (part : Part) : Bytes :=
  if part.dynamic then part.bytes else []

def headSizes : List Part → Nat
  | [] => 0
  | part :: parts => part.headSize + headSizes parts

def tailSizes : List Part → Nat
  | [] => 0
  | part :: parts => part.tailSize + tailSizes parts

/-- The heads of some parts, whose dynamic bytes start at `offset`. -/
def heads : (offset : Nat) → List Part → Bytes
  | _, [] => []
  | offset, part :: parts => part.head offset ++ heads (offset + part.tailSize) parts

def tails : List Part → Bytes
  | [] => []
  | part :: parts => part.tail ++ tails parts

/-- Parts in a row. -/
def layout (parts : List Part) : Bytes :=
  heads (headSizes parts) parts ++ tails parts

@[simp] theorem length_head (offset : Nat) (part : Part) :
    (part.head offset).length = part.headSize := by
  unfold head headSize
  split
  · exact length_wordBytes offset
  · rfl

@[simp] theorem length_tail (part : Part) : part.tail.length = part.tailSize := by
  unfold tail tailSize
  split <;> rfl

@[simp] theorem length_heads (offset : Nat) (parts : List Part) :
    (heads offset parts).length = headSizes parts := by
  induction parts generalizing offset with
  | nil => rfl
  | cons part parts ih => rw [heads, headSizes, List.length_append, length_head, ih]

@[simp] theorem length_tails (parts : List Part) : (tails parts).length = tailSizes parts := by
  induction parts with
  | nil => rfl
  | cons part parts ih => rw [tails, tailSizes, List.length_append, length_tail, ih]

theorem length_layout (parts : List Part) :
    (layout parts).length = headSizes parts + tailSizes parts := by
  rw [layout, List.length_append, length_heads, length_tails]

theorem headSizes_append (parts others : List Part) :
    headSizes (parts ++ others) = headSizes parts + headSizes others := by
  induction parts with
  | nil => exact (Nat.zero_add _).symm
  | cons part parts ih => rw [List.cons_append, headSizes, headSizes, ih, Nat.add_assoc]

theorem tailSizes_append (parts others : List Part) :
    tailSizes (parts ++ others) = tailSizes parts + tailSizes others := by
  induction parts with
  | nil => exact (Nat.zero_add _).symm
  | cons part parts ih => rw [List.cons_append, tailSizes, tailSizes, ih, Nat.add_assoc]

/-- A row that goes on is longer. -/
theorem length_layout_lt_append (parts : List Part) {others : List Part}
    (more : 0 < headSizes others) :
    (layout parts).length < (layout (parts ++ others)).length := by
  rw [length_layout, length_layout, headSizes_append, tailSizes_append]
  omega

end Part

/-- A written item has the bytes of a part. -/
structure Item.Writes (item : Item) (part : Part) : Prop where
  dynamic : item.dynamic = part.dynamic
  bytes : item.encoding.bytes? = some part.bytes

namespace Item

variable {items : List Item} {parts : List Part}

theorem headSizes_of_writes (h : List.Forall₂ Writes items parts) :
    headSizes items = Part.headSizes parts := by
  induction h with
  | nil => rfl
  | cons first rest ih =>
    rw [headSizes, Part.headSizes, ih, headSize, Part.headSize, first.dynamic,
      Hex.size_of_bytes? first.bytes]

theorem bytes?_heads (h : List.Forall₂ Writes items parts) (offset : Nat) :
    (heads offset items).bytes? = some (Part.heads offset parts) := by
  induction h generalizing offset with
  | nil => exact Hex.bytes?_empty
  | @cons item part items parts first rest ih =>
    rw [heads, Part.heads, Part.head, Part.tailSize, first.dynamic]
    cases part.dynamic with
    | true =>
      rw [if_pos rfl, if_pos rfl, if_pos rfl, Hex.size_of_bytes? first.bytes]
      exact Hex.bytes?_append (bytes?_word_natCast offset) (ih _)
    | false =>
      exact Hex.bytes?_append first.bytes (ih _)

theorem bytes?_tails (h : List.Forall₂ Writes items parts) :
    (tails items).bytes? = some (Part.tails parts) := by
  induction h with
  | nil => exact Hex.bytes?_empty
  | @cons item part items parts first rest ih =>
    rw [Part.tails, Part.tail]
    unfold tails at ih ⊢
    rw [List.filter_cons, first.dynamic]
    cases part.dynamic with
    | true => exact Hex.bytes?_append first.bytes ih
    | false => exact ih

theorem bytes?_layout (h : List.Forall₂ Writes items parts) :
    (layout items).bytes? = some (Part.layout parts) := by
  unfold layout Part.layout
  rw [headSizes_of_writes h]
  exact Hex.bytes?_append (bytes?_heads h _) (bytes?_tails h)

end Item

/-! ### Values -/

mutual

/-- Whether the values of a type are read back from their encodings here: numbers and byte strings of
fixed length take one word, and every tuple takes at least one. -/
def Ty.isReadable : Ty → Bool
  | .address | .bytes => true
  | .uint bits | .number bits => bits ≤ 256
  | .fixedBytes size => size ≤ 32
  | .array item => item.isReadable
  | .tuple fields => 32 ≤ fields.headSize && fields.isReadable
  | _ => false

def Fields.isReadable : Fields → Bool
  | .nil => true
  | .cons first rest => first.isReadable && rest.isReadable

end

mutual

/-- A value that fits its type: its addresses may be encoded, its numbers are in range and its byte
strings write bytes. -/
def Ty.Fits : (t : Ty) → t.Val → Prop
  | .address, a => a.isStrict = true
  | .uint bits, n => 0 ≤ n ∧ n < valueCount bits
  | .number bits, n => ∃ m : Int, n = .ofInt m ∧ 0 ≤ m ∧ m < valueCount bits
  | .fixedBytes size, h => ∃ b, h.bytes? = some b ∧ b.length = size
  | .bytes, h => ∃ b, h.bytes? = some b
  | .array item, vs => ∀ v ∈ vs, item.Fits v
  | .tuple fields, vs => fields.Fits vs
  | _, _ => False

def Fields.Fits : (fields : Fields) → fields.Val → Prop
  | .nil, _ => True
  | .cons first rest, (v, vs) => first.Fits v ∧ rest.Fits vs

end

mutual

/-- The bytes of an encoded value. -/
def Ty.encoding : (t : Ty) → t.Val → Bytes
  | .address, a => List.replicate 12 0 ++ a.bytes?.getD []
  | .uint _, n => wordBytes n.toNat
  | .number _, n => wordBytes (n.toInt?.getD 0).toNat
  | .fixedBytes size, h => h.bytes?.getD [] ++ List.replicate (32 - size) 0
  | .bytes, h =>
    let b := h.bytes?.getD []
    wordBytes b.length ++ (b ++ List.replicate (fillSize b.length) 0)
  | .array item, vs =>
    wordBytes vs.length ++ Part.layout (vs.map fun v => ⟨item.isDynamic, item.encoding v⟩)
  | .tuple fields, vs => Part.layout (fields.parts vs)
  | _, _ => []

/-- The row in which values are laid out. -/
def Fields.parts : (fields : Fields) → fields.Val → List Part
  | .nil, _ => []
  | .cons first rest, (v, vs) => ⟨first.isDynamic, first.encoding v⟩ :: rest.parts vs

end

mutual

/-- The same value as it is read: byte strings in small letters, and addresses with their checksums. -/
def Ty.normal : (t : Ty) → t.Val → t.Val
  | .address, a => a.normal
  | .fixedBytes _, h => h.lower
  | .bytes, h => h.lower
  | .array item, vs => vs.map item.normal
  | .tuple fields, vs => fields.normal vs
  | _, v => v

def Fields.normal : (fields : Fields) → fields.Val → fields.Val
  | .nil, vs => vs
  | .cons first rest, (v, vs) => (first.normal v, rest.normal vs)

end

/-! ### Encodings -/

theorem bytes?_word_of_nonneg {n : Int} (hn : 0 ≤ n) : (word n).bytes? = some (wordBytes n.toNat) := by
  lift n to Nat using hn
  rw [bytes?_word_natCast, Int.toNat_natCast]
  rfl

mutual

/-- A value that fits its type is encoded. -/
theorem encode_of_fits : (t : Ty) → {v : t.Val} → t.isReadable = true → t.Fits v →
    ∃ h, encode t v = .ok h ∧ h.bytes? = some (t.encoding v)
  | .address, a, _, fits => by
    change a.isStrict = true at fits
    obtain ⟨b, hb⟩ := Address.exists_bytes_of_isStrict fits
    obtain ⟨h, encoded, bytes⟩ := encodeAddress_of_bytes? fits hb
    refine ⟨h, encoded, ?_⟩
    rw [bytes, Ty.encoding, hb]
    rfl
  | .uint _, n, _, fits =>
    ⟨word n, encodeUnsigned_eq_ok.2 ⟨fits, rfl⟩, bytes?_word_of_nonneg fits.1⟩
  | .number _, n, _, ⟨m, whole, range⟩ => by
    refine ⟨word m, encodeNumber_eq_ok.2 ⟨m, whole, range, rfl⟩, ?_⟩
    rw [bytes?_word_of_nonneg range.1, Ty.encoding, whole, Number.toInt?_ofInt]
    rfl
  | .fixedBytes size, h, readable, ⟨b, hb, length⟩ => by
    subst length
    obtain ⟨e, encoded, bytes⟩ := encodeFixedBytes_of_bytes? hb (of_decide_eq_true readable)
    refine ⟨e, encoded, ?_⟩
    rw [bytes, Ty.encoding, hb]
    rfl
  | .bytes, h, _, ⟨b, hb⟩ => by
    obtain ⟨e, encoded, bytes⟩ := encodeBytes_of_bytes? hb
    refine ⟨e, encoded, ?_⟩
    rw [bytes, Ty.encoding, hb]
    rfl
  | .array item, vs, readable, fits => by
    have each : ∀ v ∈ vs, ∃ e, (encode item v).map (Item.mk item.isDynamic) = .ok e ∧
        e.Writes ⟨item.isDynamic, item.encoding v⟩ := by
      intro v hv
      obtain ⟨h, encoded, bytes⟩ := encode_of_fits item readable (fits v hv)
      exact ⟨⟨item.isDynamic, h⟩, by rw [encoded]; rfl, rfl, bytes⟩
    obtain ⟨items, encoded, written⟩ := exists_mapM_eq_ok each
    refine ⟨word vs.length ++ Item.layout items, ?_, ?_⟩
    · rw [encode, encoded]
      rfl
    · exact Hex.bytes?_append (bytes?_word_natCast _) (Item.bytes?_layout written)
  | .tuple fields, vs, readable, fits => by
    obtain ⟨-, each⟩ := Bool.and_eq_true_iff.1 readable
    obtain ⟨items, encoded, written⟩ := encodeItems_of_fits fields each fits
    refine ⟨Item.layout items, ?_, Item.bytes?_layout written⟩
    rw [encode, encoded]
    rfl

theorem encodeItems_of_fits : (fields : Fields) → {vs : fields.Val} → fields.isReadable = true →
    fields.Fits vs →
    ∃ items, encodeItems fields vs = .ok items ∧ List.Forall₂ Item.Writes items (fields.parts vs)
  | .nil, (), _, _ => ⟨[], rfl, .nil⟩
  | .cons first rest, (v, vs), readable, ⟨one, others⟩ => by
    obtain ⟨here, later⟩ := Bool.and_eq_true_iff.1 readable
    obtain ⟨h, encoded, bytes⟩ := encode_of_fits first here one
    obtain ⟨items, encodedItems, written⟩ := encodeItems_of_fits rest later others
    refine ⟨⟨first.isDynamic, h⟩ :: items, ?_, .cons ⟨rfl, bytes⟩ written⟩
    rw [encodeItems, encoded, ok_bind, encodedItems]
    rfl

end

/-- The arguments of a function that fit their types are encoded. -/
theorem encodeFields_of_fits {fields : Fields} {vs : fields.Val} (readable : fields.isReadable = true)
    (fits : fields.Fits vs) :
    ∃ h, encodeFields fields vs = .ok h ∧ h.bytes? = some (Part.layout (fields.parts vs)) := by
  obtain ⟨items, encoded, written⟩ := encodeItems_of_fits fields readable fits
  refine ⟨Item.layout items, ?_, Item.bytes?_layout written⟩
  rw [encodeFields, encoded]
  rfl

/-! ### Normal values -/

theorem isStrict_ofBytes {b : Bytes} (length : b.length = 20) :
    (Address.ofBytes b).isStrict = true := by
  unfold Address.isStrict
  rw [Address.bytes?_ofBytes length]
  simp [Address.ofBytes]

mutual

/-- A value as it is read fits too, and has the same encoding. -/
theorem normal_of_fits : (t : Ty) → {v : t.Val} → t.Fits v →
    t.Fits (t.normal v) ∧ t.encoding (t.normal v) = t.encoding v
  | .address, a, fits => by
    change a.isStrict = true at fits
    obtain ⟨b, hb⟩ := Address.exists_bytes_of_isStrict fits
    have length := (Address.bytes?_eq_some_iff.1 hb).2
    rw [Ty.normal, Address.normal_of_bytes? hb]
    refine ⟨isStrict_ofBytes length, ?_⟩
    rw [Ty.encoding, Ty.encoding, Address.bytes?_ofBytes length, hb]
  | .uint _, _, fits => ⟨fits, rfl⟩
  | .number _, _, fits => ⟨fits, rfl⟩
  | .fixedBytes _, h, ⟨b, hb, length⟩ => by
    have lower := Hex.bytes?_lower hb
    refine ⟨⟨b, lower, length⟩, ?_⟩
    rw [Ty.encoding, Ty.encoding, Ty.normal, lower, hb]
  | .bytes, h, ⟨b, hb⟩ => by
    have lower := Hex.bytes?_lower hb
    refine ⟨⟨b, lower⟩, ?_⟩
    rw [Ty.encoding, Ty.encoding, Ty.normal, lower, hb]
  | .array item, vs, fits => by
    have each : ∀ v ∈ vs, item.Fits (item.normal v) ∧ item.encoding (item.normal v) = item.encoding v :=
      fun v hv => normal_of_fits item (fits v hv)
    constructor
    · intro w hw
      obtain ⟨v, hv, rfl⟩ := List.mem_map.1 hw
      exact (each v hv).1
    · rw [Ty.encoding, Ty.encoding, Ty.normal, List.length_map, List.map_map]
      refine congrArg (fun parts => _ ++ Part.layout parts) (List.map_congr_left fun v hv => ?_)
      exact congrArg (Part.mk item.isDynamic) (each v hv).2
  | .tuple fields, vs, fits => by
    obtain ⟨again, same⟩ := normal_of_fields_fit fields fits
    exact ⟨again, congrArg Part.layout same⟩

theorem normal_of_fields_fit : (fields : Fields) → {vs : fields.Val} → fields.Fits vs →
    fields.Fits (fields.normal vs) ∧ fields.parts (fields.normal vs) = fields.parts vs
  | .nil, (), _ => ⟨trivial, rfl⟩
  | .cons first rest, (v, vs), ⟨one, others⟩ => by
    obtain ⟨fitsFirst, sameFirst⟩ := normal_of_fits first one
    obtain ⟨fitsRest, sameRest⟩ := normal_of_fields_fit rest others
    refine ⟨⟨fitsFirst, fitsRest⟩, ?_⟩
    change Part.mk _ (first.encoding (first.normal v)) :: rest.parts (rest.normal vs) = _
    rw [sameFirst, sameRest]
    rfl

end

/-! ### Sizes -/

theorem headSize_of_isDynamic : (t : Ty) → t.isReadable = true → t.isDynamic = true → t.headSize = 32
  | .address, _, _ | .bytes, _, _ | .uint _, _, _ | .number _, _, _ | .fixedBytes _, _, _
  | .array _, _, _ => rfl
  | .tuple _, _, dynamic => if_pos dynamic

theorem le_headSize : (t : Ty) → t.isReadable = true → 32 ≤ t.headSize
  | .address, _ | .bytes, _ | .uint _, _ | .number _, _ | .fixedBytes _, _ | .array _, _ =>
    Nat.le_refl 32
  | .tuple fields, readable => by
    have enough : 32 ≤ fields.headSize := of_decide_eq_true (Bool.and_eq_true_iff.1 readable).1
    unfold Ty.headSize
    split
    · exact Nat.le_refl 32
    · exact enough

mutual

/-- The encoding of a value whose type is not dynamic takes what its type tells. -/
theorem length_encoding : (t : Ty) → {v : t.Val} → t.isReadable = true → t.isDynamic = false →
    t.Fits v → (t.encoding v).length = t.headSize
  | .address, a, _, _, fits => by
    change a.isStrict = true at fits
    obtain ⟨b, hb⟩ := Address.exists_bytes_of_isStrict fits
    rw [Ty.encoding, hb, List.length_append, Option.getD_some, (Address.bytes?_eq_some_iff.1 hb).2]
    rfl
  | .uint _, n, _, _, _ => length_wordBytes _
  | .number _, n, _, _, _ => length_wordBytes _
  | .fixedBytes size, h, readable, _, ⟨b, hb, length⟩ => by
    have fits : size ≤ 32 := of_decide_eq_true readable
    rw [Ty.encoding, hb, List.length_append, Option.getD_some, List.length_replicate, length]
    exact Nat.add_sub_cancel' fits
  | .tuple fields, vs, readable, static, fits => by
    obtain ⟨-, each⟩ := Bool.and_eq_true_iff.1 readable
    obtain ⟨heads, tails⟩ := sizes_parts_of_static fields each static fits
    change fields.isDynamic = false at static
    rw [Ty.encoding, Part.length_layout, heads, tails, Ty.headSize, static]
    rfl

theorem sizes_parts_of_static : (fields : Fields) → {vs : fields.Val} → fields.isReadable = true →
    fields.isDynamic = false → fields.Fits vs →
    Part.headSizes (fields.parts vs) = fields.headSize ∧ Part.tailSizes (fields.parts vs) = 0
  | .nil, (), _, _, _ => ⟨rfl, rfl⟩
  | .cons first rest, (v, vs), readable, static, ⟨one, others⟩ => by
    obtain ⟨here, later⟩ := Bool.and_eq_true_iff.1 readable
    obtain ⟨staticFirst, staticRest⟩ := Bool.or_eq_false_iff.1 static
    obtain ⟨heads, tails⟩ := sizes_parts_of_static rest later staticRest others
    have size := length_encoding first here staticFirst one
    constructor
    · rw [Fields.parts, Part.headSizes, heads, Part.headSize, staticFirst, Fields.headSize, ← size]
      rfl
    · rw [Fields.parts, Part.tailSizes, tails, Part.tailSize, staticFirst]
      rfl

end

/-- An encoded value takes in the head what its type tells. -/
theorem headSize_part {t : Ty} {v : t.Val} (readable : t.isReadable = true) (fits : t.Fits v) :
    (Part.mk t.isDynamic (t.encoding v)).headSize = t.headSize := by
  unfold Part.headSize
  by_cases dynamic : t.isDynamic = true
  · rw [if_pos dynamic, headSize_of_isDynamic t readable dynamic]
  · rw [if_neg dynamic]
    exact length_encoding t readable (Bool.eq_false_iff.2 dynamic) fits

theorem headSizes_parts : (fields : Fields) → {vs : fields.Val} → fields.isReadable = true →
    fields.Fits vs → Part.headSizes (fields.parts vs) = fields.headSize
  | .nil, (), _, _ => rfl
  | .cons first rest, (v, vs), readable, ⟨one, others⟩ => by
    obtain ⟨here, later⟩ := Bool.and_eq_true_iff.1 readable
    rw [Fields.parts, Part.headSizes, headSize_part here one, headSizes_parts rest later others]
    rfl

theorem headSizes_items {item : Ty} (readable : item.isReadable = true) {vs : List item.Val}
    (fits : ∀ v ∈ vs, item.Fits v) :
    Part.headSizes (vs.map fun v => ⟨item.isDynamic, item.encoding v⟩) = vs.length * item.headSize := by
  induction vs with
  | nil => exact (Nat.zero_mul _).symm
  | cons v vs ih =>
    rw [List.map_cons, Part.headSizes, headSize_part readable (fits v List.mem_cons_self),
      ih fun w hw => fits w (List.mem_cons_of_mem v hw), List.length_cons, Nat.succ_mul, Nat.add_comm]

theorem le_length_encoding_of_isDynamic : (t : Ty) → {v : t.Val} → t.isReadable = true →
    t.isDynamic = true → t.Fits v → 32 ≤ (t.encoding v).length
  | .bytes, _, _, _, _ | .array _, _, _, _, _ => by
    rw [Ty.encoding, List.length_append, length_wordBytes]
    exact Nat.le_add_right 32 _
  | .tuple fields, vs, readable, _, fits => by
    obtain ⟨enough, here⟩ := Bool.and_eq_true_iff.1 readable
    have enough : 32 ≤ fields.headSize := of_decide_eq_true enough
    rw [Ty.encoding, Part.length_layout, headSizes_parts fields here fits]
    exact Nat.le_add_right_of_le enough

/-- The encoding of a value takes at least one word. -/
theorem le_length_encoding {t : Ty} {v : t.Val} (readable : t.isReadable = true) (fits : t.Fits v) :
    32 ≤ (t.encoding v).length := by
  by_cases dynamic : t.isDynamic = true
  · exact le_length_encoding_of_isDynamic t readable dynamic fits
  · rw [length_encoding t readable (Bool.eq_false_iff.2 dynamic) fits]
    exact le_headSize t readable

/-! ### More fields -/

section Join

variable {b : Fields} {v : b.Val}

@[simp] theorem divide_join : (a : Fields) → {u : a.Val} → a.divide b (a.join b u v) = (u, v)
  | .nil, () => rfl
  | .cons _ rest, (x, u) => by rw [Fields.join, Fields.divide, divide_join rest]

@[simp] theorem join_divide : (a : Fields) → {w : (a.append b).Val} →
    a.join b (a.divide b w).1 (a.divide b w).2 = w
  | .nil, _ => rfl
  | .cons _ rest, (x, w) => by rw [Fields.divide, Fields.join, join_divide rest]

theorem isReadable_append : (a : Fields) → a.isReadable = true → b.isReadable = true →
    (a.append b).isReadable = true
  | .nil, _, others => others
  | .cons _ rest, readable, others => by
    obtain ⟨here, later⟩ := Bool.and_eq_true_iff.1 readable
    exact Bool.and_eq_true_iff.2 ⟨here, isReadable_append rest later others⟩

theorem headSize_append : (a b : Fields) → (a.append b).headSize = a.headSize + b.headSize
  | .nil, _ => (Nat.zero_add _).symm
  | .cons first rest, b => by
    rw [Fields.append, Fields.headSize, headSize_append rest b, Fields.headSize, Nat.add_assoc]

theorem fits_join : (a : Fields) → {u : a.Val} → a.Fits u → b.Fits v →
    (a.append b).Fits (a.join b u v)
  | .nil, (), _, others => others
  | .cons _ rest, (_, _), fits, others => ⟨fits.1, fits_join rest fits.2 others⟩

/-- Of fields that fit, the last ones do. -/
theorem fits_divide : (a : Fields) → {w : (a.append b).Val} → (a.append b).Fits w →
    b.Fits (a.divide b w).2
  | .nil, _, fits => fits
  | .cons _ rest, (_, _), fits => fits_divide rest fits.2

theorem parts_join : (a : Fields) → {u : a.Val} →
    (a.append b).parts (a.join b u v) = a.parts u ++ b.parts v
  | .nil, () => rfl
  | .cons _ rest, (_, _) => congrArg (_ :: ·) (parts_join rest)

theorem normal_join : (a : Fields) → {u : a.Val} →
    (a.append b).normal (a.join b u v) = a.join b (a.normal u) (b.normal v)
  | .nil, () => rfl
  | .cons first rest, (x, _) => congrArg (Prod.mk (first.normal x)) (normal_join rest)

end Join

end Abi

end SessionKeys
