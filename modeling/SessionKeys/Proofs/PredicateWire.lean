import SessionKeys.Proofs.RlpLimits

/-!
Predicates and arguments on the wire and back. The wire form of a predicate is an item (`Predicate.item`) that
is made for every predicate whose connectives have two children or more (`Predicate.IsBranching`). What is
decoded are the same predicates with the literals in small letters (`Predicate.written`), as long as no more
items stand one inside the other than may. Main statements: `exists_encodeAllowedArguments`,
`decode_encodeAllowedArguments`, `decode_encodeActualArguments`.
-/

namespace SessionKeys

namespace Predicate

/-! ### Wire forms -/

mutual

/-- The wire form of a predicate, whatever number of children its connectives have. -/
def item : Predicate → Rlp
  | any => .list [tagItem .any, .bytes .empty]
  | compare op literal => .list [tagItem (.comparison op), .bytes literal]
  | combine op children => .list [tagItem (.connective op), .list (items children)]

def items : List Predicate → List Rlp
  | [] => []
  | child :: children => item child :: items children

end

/-- The wire form of the predicates of a session. -/
def forest (predicates : List Predicate) : Rlp :=
  .list (items predicates)

mutual

/-- Every connective in a predicate has two children or more. -/
def IsBranching : Predicate → Prop
  | any => True
  | compare _ _ => True
  | combine _ children => 2 ≤ children.length ∧ AreBranching children

def AreBranching : List Predicate → Prop
  | [] => True
  | child :: children => IsBranching child ∧ AreBranching children

end

mutual

/-- A predicate as it is read back: its literals in small letters. -/
def written : Predicate → Predicate
  | any => any
  | compare op literal => compare op (Hex.ofBytes literal.content)
  | combine op children => combine op (writtenAll children)

def writtenAll : List Predicate → List Predicate
  | [] => []
  | child :: children => written child :: writtenAll children

end

/-! ### Encoding -/

mutual

/-- Exactly the branching predicates have a wire form. -/
theorem toRlp_eq_ok : ∀ {p : Predicate} {i : Rlp}, toRlp p = .ok i ↔ p.IsBranching ∧ p.item = i
  | any, i | compare _ _, i => by
    rw [toRlp, IsBranching, item, Except.ok.injEq, true_and]
  | combine op children, i => by
    rw [toRlp, IsBranching, item, error_ite_eq_ok, Nat.not_lt, and_assoc]
    simp only [bind_eq_ok, pure_eq_ok, Except.ok.injEq, toRlpAll_eq_ok, and_assoc, exists_and_left,
      exists_eq_left']

theorem toRlpAll_eq_ok : ∀ {children : List Predicate} {l : List Rlp},
    toRlpAll children = .ok l ↔ AreBranching children ∧ items children = l
  | [], l => by
    rw [toRlpAll, AreBranching, items, Except.ok.injEq, true_and]
  | child :: children, l => by
    rw [toRlpAll, AreBranching, items]
    simp only [bind_eq_ok, pure_eq_ok, Except.ok.injEq, toRlp_eq_ok, toRlpAll_eq_ok, and_assoc,
      exists_and_left, exists_eq_left']

end

mutual

theorem isWritten_item : ∀ p : Predicate, p.IsWritten → p.item.IsWritten
  | any, _ => ⟨Hex.writesBytes_ofBytes _, ⟨[], Hex.bytes?_empty⟩, trivial⟩
  | compare _ _, known => ⟨Hex.writesBytes_ofBytes _, known, trivial⟩
  | combine _ children, known => ⟨Hex.writesBytes_ofBytes _, areWritten_items children known, trivial⟩

theorem areWritten_items : ∀ children : List Predicate, AreWritten children →
    Rlp.AreWritten (items children)
  | [], _ => trivial
  | child :: children, ⟨here, later⟩ => ⟨isWritten_item child here, areWritten_items children later⟩

end

/-! ### Decoding -/

theorem tagOf_number (tag : PredicateTag) : tagOf (Hex.ofBytes [UInt8.ofNat tag.number]) = .ok tag := by
  cases tag with
  | any => rfl
  | comparison op => cases op <;> rfl
  | connective op => cases op <;> rfl

theorem written_tagItem (tag : PredicateTag) : (tagItem tag).written = tagItem tag := by
  rw [tagItem, Rlp.written, Hex.read?_of_bytes? (Hex.bytes?_ofBytes _)]
  rfl

theorem length_writtenAll_items (children : List Predicate) :
    (Rlp.writtenAll (items children)).length = children.length := by
  induction children with
  | nil => rfl
  | cons child children ih => rw [items, Rlp.writtenAll, List.length_cons, List.length_cons, ih]

/-- A connective is read if there are two children or more. -/
theorem connectiveOf_connective (op : Connective) {count : Nat} (branches : 2 ≤ count) :
    connectiveOf (.connective op) count = .ok op := by
  obtain ⟨n, rfl⟩ : ∃ n, count = n + 2 := ⟨count - 2, by omega⟩
  rfl

mutual

/-- What is read from the wire form of a branching predicate is the predicate. -/
theorem ofRlp_item : ∀ p : Predicate, p.IsWritten → p.IsBranching → ofRlp p.item.written = .ok p.written
  | any, _, _ => rfl
  | compare op literal, ⟨b, hb⟩, _ => by
    rw [item, Rlp.written, Rlp.writtenAll, Rlp.writtenAll, Rlp.writtenAll, written_tagItem, Rlp.written,
      tagItem, ofRlp, tagOf_number, written, Hex.content_of_bytes? hb, Hex.read?_of_bytes? hb]
    rfl
  | combine op children, known, ⟨branches, inside⟩ => by
    rw [item, Rlp.written, Rlp.writtenAll, Rlp.writtenAll, Rlp.writtenAll, written_tagItem, Rlp.written,
      tagItem, ofRlp, tagOf_number, ok_bind, length_writtenAll_items, connectiveOf_connective op branches,
      orFail_ok, ok_bind, ofRlpAll_items children known inside, written]
    rfl

theorem ofRlpAll_items : ∀ children : List Predicate, AreWritten children → AreBranching children →
    ofRlpAll (Rlp.writtenAll (items children)) = .ok (writtenAll children)
  | [], _, _ => rfl
  | child :: children, ⟨here, later⟩, ⟨branches, others⟩ => by
    rw [items, Rlp.writtenAll, ofRlpAll, ofRlp_item child here branches, ok_bind,
      ofRlpAll_items children later others, writtenAll]
    rfl

end

end Predicate

/-! ### Lists of predicates -/

theorem encodeAllowedArguments_eq_ok {predicates : List Predicate} {h : Hex} :
    encodeAllowedArguments predicates = .ok h ↔
      Predicate.AreBranching predicates ∧
        ∃ enc, Rlp.encode (Predicate.forest predicates) = .ok enc ∧ Hex.ofBytes enc = h := by
  unfold encodeAllowedArguments Predicate.forest
  simp only [bind_eq_ok, orFail_eq_ok, pure_eq_ok, Except.ok.injEq, Predicate.toRlpAll_eq_ok, and_assoc,
    exists_and_left, exists_eq_left']

theorem isWritten_forest {predicates : List Predicate} (known : Predicate.AreWritten predicates) :
    (Predicate.forest predicates).IsWritten :=
  Predicate.areWritten_items predicates known

/-- Predicates can be encoded exactly if they branch and keep to the limits. -/
theorem exists_encodeAllowedArguments {predicates : List Predicate}
    (known : Predicate.AreWritten predicates) :
    (∃ h, encodeAllowedArguments predicates = .ok h) ↔
      Predicate.AreBranching predicates ∧ (Predicate.forest predicates).Fits := by
  rw [← (Rlp.writes_encode _ (isWritten_forest known)).exists_iff]
  simp only [encodeAllowedArguments_eq_ok]
  constructor
  · rintro ⟨h, branches, enc, encoded, -⟩
    exact ⟨branches, enc, encoded⟩
  · rintro ⟨branches, enc, encoded⟩
    exact ⟨_, branches, enc, encoded, rfl⟩

/-- What was encoded is decoded, unless more items stand one inside the other than may. -/
theorem decode_encodeAllowedArguments {predicates : List Predicate} {h : Hex}
    (known : Predicate.AreWritten predicates) (encoded : encodeAllowedArguments predicates = .ok h) :
    decodeAllowedArguments h =
      if (Predicate.forest predicates).depth ≤ Rlp.depthLimit then .ok (Predicate.writtenAll predicates)
      else .error (.refused (.malformed "allowed arguments" DecodeError.nestedTooDeeply.message)) := by
  obtain ⟨branches, enc, written, rfl⟩ := encodeAllowedArguments_eq_ok.1 encoded
  unfold decodeAllowedArguments decodeList
  rw [Rlp.ofHex_encode written]
  split_ifs with deep
  · exact Predicate.ofRlpAll_items predicates known branches
  · rfl

/-- Branching predicates that keep to the limits are encoded, and read back if less lists stand one inside the
other than may items. -/
theorem decode_encode_of_nesting {predicates : List Predicate} (known : Predicate.AreWritten predicates)
    (branches : Predicate.AreBranching predicates)
    (nesting : (Predicate.forest predicates).nesting < Rlp.depthLimit)
    (fits : (Predicate.forest predicates).Fits) :
    ∃ h, encodeAllowedArguments predicates = .ok h ∧
      decodeAllowedArguments h = .ok (Predicate.writtenAll predicates) := by
  obtain ⟨h, encoded⟩ := (exists_encodeAllowedArguments known).2 ⟨branches, fits⟩
  have depth := Rlp.depth_le_nesting (Predicate.forest predicates)
  refine ⟨h, encoded, ?_⟩
  rw [decode_encodeAllowedArguments known encoded]
  exact if_pos (by omega)

/-! ### Lists of byte strings -/

theorem mapM_actualArgument_eq_ok {items : List Rlp} {values : List Hex} :
    items.mapM actualArgument = .ok values ↔ items = values.map .bytes := by
  induction items generalizing values with
  | nil =>
    rw [List.mapM_nil, pure_eq_ok, Except.ok.injEq]
    cases values with
    | nil => exact iff_of_true rfl rfl
    | cons _ _ => exact iff_of_false nofun nofun
  | cons item items ih =>
    rw [List.mapM_cons]
    simp only [bind_eq_ok, pure_eq_ok, Except.ok.injEq, ih]
    constructor
    · rintro ⟨value, one, rest, rfl, rfl⟩
      cases item with
      | list inside => cases one
      | bytes h =>
        cases one
        rfl
    · intro same
      cases values with
      | nil => cases same
      | cons value values =>
        rw [List.map_cons, List.cons.injEq] at same
        obtain ⟨rfl, rfl⟩ := same
        exact ⟨value, rfl, values, rfl, rfl⟩

/-- The wire form of some byte strings. -/
def byteStrings (values : List Hex) : Rlp :=
  .list (values.map .bytes)

/-- Arguments are read exactly from a list of byte strings. -/
theorem decodeActualArguments_eq_ok {h : Hex} {values : List Hex} :
    decodeActualArguments h = .ok values ↔ Rlp.ofHex h = .ok (byteStrings values) := by
  unfold decodeActualArguments decodeList byteStrings
  rw [bind_eq_ok]
  constructor
  · rintro ⟨items, read, strings⟩
    split at read
    next => cases read
    next => cases read
    next _ list =>
      cases read
      rw [list, mapM_actualArgument_eq_ok.1 strings]
  · intro list
    rw [list]
    exact ⟨_, rfl, mapM_actualArgument_eq_ok.2 rfl⟩

theorem isWritten_byteStrings {values : List Hex} (known : ∀ v ∈ values, v.WritesBytes) :
    (byteStrings values).IsWritten := by
  rw [byteStrings, Rlp.IsWritten]
  induction values with
  | nil => trivial
  | cons v values ih =>
    obtain ⟨here, later⟩ := List.forall_mem_cons.1 known
    exact ⟨here, ih later⟩

theorem written_byteStrings {values : List Hex} (known : ∀ v ∈ values, v.WritesBytes) :
    (byteStrings values).written = byteStrings (values.map fun v => Hex.ofBytes v.content) := by
  rw [byteStrings, byteStrings, Rlp.written, Rlp.list.injEq]
  induction values with
  | nil => rfl
  | cons v values ih =>
    obtain ⟨⟨b, hb⟩, later⟩ := List.forall_mem_cons.1 known
    rw [List.map_cons, List.map_cons, List.map_cons, Rlp.writtenAll, Rlp.written, ih later,
      Hex.read?_of_bytes? hb, Hex.content_of_bytes? hb]
    rfl

theorem depth_byteStrings (values : List Hex) : (byteStrings values).depth ≤ 2 := by
  rw [byteStrings, Rlp.depth]
  refine Nat.succ_le_succ ?_
  induction values with
  | nil => exact Nat.zero_le 1
  | cons v values ih =>
    rw [List.map_cons, Rlp.depthAll, Rlp.depth]
    exact Nat.max_le.2 ⟨Nat.le_refl 1, ih⟩

/-- Byte strings that keep to the limits are read back. -/
theorem decode_encodeActualArguments {values : List Hex} (known : ∀ v ∈ values, v.WritesBytes)
    (fits : (byteStrings values).Fits) :
    ∃ h, encodeActualArguments values = .ok h ∧
      decodeActualArguments h = .ok (values.map fun v => Hex.ofBytes v.content) := by
  obtain ⟨enc, encoded⟩ := (Rlp.writes_encode _ (isWritten_byteStrings known)).exists_iff.2 fits
  have shallow : (byteStrings values).depth ≤ Rlp.depthLimit :=
    (depth_byteStrings values).trans (by decide)
  refine ⟨Hex.ofBytes enc, ?_, decodeActualArguments_eq_ok.2 ?_⟩
  · unfold encodeActualArguments
    rw [← byteStrings, encoded]
    rfl
  · rw [Rlp.ofHex_encode encoded, if_pos shallow, written_byteStrings known]

end SessionKeys
