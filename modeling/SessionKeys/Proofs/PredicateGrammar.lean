import SessionKeys.Proofs.PredicateWire

/-!
The grammar of predicates on the wire. An item spells a predicate (`Rlp.Spells`) if it is a pair of a tag and
a payload that suits the tag, and so are the children of a connective. Reading takes exactly the items that
spell a predicate. Any other item has nodes that are not sound by themselves, and the first of them, in the
order in which a node is met before its children and these from left to right, tells with which code the item
is refused (`Rlp.firstDefect?`). Main statement: `predicate_grammar`.
-/

namespace SessionKeys

namespace Rlp

/-! ### Tags -/

/-- The number that an item is, if it is a single byte. -/
def singleByte? : Rlp → Option Nat
  | bytes h =>
    match h.bytes? with
    | some [b] => some b.toNat
    | _ => none
  | list _ => none

theorem singleByte?_eq_some {h : Hex} {n : Nat} :
    singleByte? (bytes h) = some n ↔ ∃ b : UInt8, h.bytes? = some [b] ∧ b.toNat = n := by
  unfold singleByte?
  dsimp only
  split
  next b single => simp [single]
  next other =>
    refine iff_of_false nofun ?_
    rintro ⟨b, single, -⟩
    exact other b single

/-- A decimal digit is written in one way. -/
theorem eq_hexDigit_of_hexDigit? {c : Char} {n : Nat} (digit : hexDigit? c = some n) (decimal : n < 10) :
    c = hexDigit n := by
  have general : ∀ m < 10, ∀ k < 128, hexDigit? (Char.ofNat k) = some m → Char.ofNat k = hexDigit m := by
    decide
  have same := general n decimal c.toNat (toNat_lt_of_hexDigit? digit)
  rw [Char.ofNat_toNat] at same
  exact same digit

/-- A byte below ten is written in one way. -/
theorem eq_ofBytes_of_singleByte? {h : Hex} {n : Nat} (single : singleByte? (bytes h) = some n)
    (decimal : n < 10) : h = Hex.ofBytes [UInt8.ofNat n] := by
  obtain ⟨b, one, rfl⟩ := singleByte?_eq_some.1 single
  obtain ⟨digits, rfl, write⟩ := Hex.bytes?_eq_some_iff.1 one
  match digits, Hex.length_of_bytesOfDigits? write with
  | [x, y], _ =>
    obtain ⟨high, low, rest, hx, hy, -, same⟩ := Hex.bytesOfDigits?_cons_cons.1 write
    have bound := lt_of_hexDigit? hx
    have bound' := lt_of_hexDigit? hy
    obtain ⟨rfl, -⟩ := List.cons.inj same
    have value : (UInt8.ofNat (16 * high + low)).toNat = 16 * high + low := by
      rw [UInt8.toNat_ofNat']
      omega
    rw [value] at decimal ⊢
    -- both digits are below ten, so neither is a letter, which could be a capital
    obtain rfl : high = 0 := by omega
    obtain rfl := eq_hexDigit_of_hexDigit? hx (by decide)
    obtain rfl := eq_hexDigit_of_hexDigit? hy (by omega)
    change Hex.ofDigits _ = Hex.ofDigits (Hex.byteDigits _ ++ [])
    rw [Hex.byteDigits, value, Nat.div_eq_of_lt (by omega), Nat.mod_eq_of_lt (by omega), Nat.mul_zero,
      Nat.zero_add]
    rfl

/-! ### The grammar -/

mutual

/-- An item is the wire form of a predicate: a pair of a tag, which is a single byte, and a payload. Beside
the tag of a connective there are two children or more, and beside any other a byte string. -/
inductive Spells : Rlp → Predicate → Prop
  | any {tag payload : Hex} (kind : singleByte? (bytes tag) = some PredicateTag.any.number) :
    Spells (list [bytes tag, bytes payload]) .any
  | compare {op : Comparison} {tag literal : Hex}
      (kind : singleByte? (bytes tag) = some (PredicateTag.comparison op).number) :
    Spells (list [bytes tag, bytes literal]) (.compare op literal)
  | combine {op : Connective} {tag : Hex} {items : List Rlp} {children : List Predicate}
      (kind : singleByte? (bytes tag) = some (PredicateTag.connective op).number)
      (branches : 2 ≤ items.length) (each : SpellAll items children) :
    Spells (list [bytes tag, list items]) (.combine op children)

/-- Some items are the wire forms of some predicates, one by one. -/
inductive SpellAll : List Rlp → List Predicate → Prop
  | nil : SpellAll [] []
  | cons {item : Rlp} {items : List Rlp} {p : Predicate} {predicates : List Predicate}
      (first : Spells item p) (rest : SpellAll items predicates) :
    SpellAll (item :: items) (p :: predicates)

end

theorem SpellAll.length_eq {items : List Rlp} {predicates : List Predicate}
    (each : SpellAll items predicates) : items.length = predicates.length := by
  induction items generalizing predicates with
  | nil =>
    cases each
    rfl
  | cons item items ih =>
    cases each with
    | cons first rest => rw [List.length_cons, List.length_cons, ih rest]

/-! ### Nodes -/

mutual

/-- The nodes of an item in the order in which they are met: each before its children, and these from left
to right. -/
def nodes : Rlp → List Rlp
  | list [tag, list children] => list [tag, list children] :: nodesAll children
  | item => [item]

def nodesAll : List Rlp → List Rlp
  | [] => []
  | item :: items => nodes item ++ nodesAll items

end

/-- A node is sound by itself, whatever its children are. -/
def isSound : Rlp → Bool
  | list [tag, bytes _] => (singleByte? tag).any fun n => n ≤ 4
  | list [tag, list children] =>
    (singleByte? tag).any fun n => (n == 5 || n == 6) && decide (2 ≤ children.length)
  | _ => false

/-- A node is a pair whose tag is a single byte, but not the tag of a predicate. -/
def hasUnknownTag : Rlp → Bool
  | list [tag, _] => (singleByte? tag).any fun n => 6 < n
  | _ => false

/-- The first node of an item that is not sound by itself. -/
def firstDefect? (item : Rlp) : Option Rlp :=
  item.nodes.find? fun node => !node.isSound

/-- The first node of some items that is not sound by itself. -/
def firstDefectIn? (items : List Rlp) : Option Rlp :=
  (nodesAll items).find? fun node => !node.isSound

/-- The code with which a node is refused that is not sound by itself. -/
def defectCode (node : Rlp) : RefusalCode :=
  if node.hasUnknownTag then .invalidCalldataPrefix else .malformedInput

mutual

/-- An item without the bytes beside the tags of predicates that always hold. -/
def withoutIdleBytes : Rlp → Rlp
  | list [tag, bytes payload] =>
    list [tag, bytes (if singleByte? tag = some PredicateTag.any.number then .empty else payload)]
  | list [tag, list children] => list [tag, list (withoutIdleBytesAll children)]
  | item => item

def withoutIdleBytesAll : List Rlp → List Rlp
  | [] => []
  | item :: items => withoutIdleBytes item :: withoutIdleBytesAll items

end

/-! ### Defects -/

section Defects

variable {item tag : Rlp} {payload : Hex} {children : List Rlp}

theorem exists_nodes_eq_cons (item : Rlp) : ∃ others, item.nodes = item :: others := by
  unfold nodes
  split
  · exact ⟨_, rfl⟩
  · exact ⟨_, rfl⟩

/-- A node that is not sound is met before its children. -/
theorem firstDefect?_of_unsound (unsound : item.isSound = false) : item.firstDefect? = some item := by
  obtain ⟨others, met⟩ := item.exists_nodes_eq_cons
  rw [firstDefect?, met, List.find?_cons_of_pos (by rw [unsound]; rfl)]

theorem firstDefect?_of_sound_leaf (sound : isSound (list [tag, bytes payload]) = true) :
    firstDefect? (list [tag, bytes payload]) = none := by
  rw [firstDefect?, nodes, List.find?_cons_of_neg (by rw [sound]; decide), List.find?_nil]
  exact nofun

theorem firstDefect?_of_sound_branch (sound : isSound (list [tag, list children]) = true) :
    firstDefect? (list [tag, list children]) = firstDefectIn? children := by
  rw [firstDefect?, nodes, List.find?_cons_of_neg (by rw [sound]; decide), firstDefectIn?]

/-- The nodes of an item are met before those of the items behind it. -/
theorem firstDefectIn?_cons (item : Rlp) (items : List Rlp) :
    firstDefectIn? (item :: items) = item.firstDefect?.or (firstDefectIn? items) := by
  rw [firstDefectIn?, nodesAll, List.find?_append]
  rfl

end Defects

end Rlp

namespace Predicate

open Rlp (singleByte? nodes nodesAll firstDefect? defectCode)

/-! ### Reading a tag -/

theorem ofNumber?_cases (n : Nat) :
    (∃ kind : PredicateTag, PredicateTag.ofNumber? n = some kind ∧ kind.number = n) ∨
      PredicateTag.ofNumber? n = none ∧ 6 < n := by
  match n with
  | 0 | 1 | 2 | 3 | 4 | 5 | 6 => exact .inl ⟨_, rfl, rfl⟩
  | n + 7 => exact .inr ⟨rfl, by omega⟩

/-- A tag is known, or it is a single byte that is none, or no single byte. -/
theorem tagOf_cases {tag : Hex} (writes : tag.WritesBytes) :
    (∃ kind : PredicateTag, tagOf tag = .ok kind ∧ singleByte? (.bytes tag) = some kind.number) ∨
    (∃ n, tagOf tag = .error (.refused (.unknownTag tag)) ∧ singleByte? (.bytes tag) = some n ∧ 6 < n) ∨
      tagOf tag = .error (.refused .tagShape) ∧ singleByte? (.bytes tag) = none := by
  obtain ⟨b, hb⟩ := writes
  unfold tagOf singleByte?
  rw [Hex.size_of_bytes? hb]
  match b with
  | [] => exact .inr (.inr ⟨rfl, by simp only [hb]⟩)
  | [x] =>
    have number := Hex.toInt_of_bytes? hb (List.cons_ne_nil x [])
    have value : Bytes.toNat [x] = x.toNat := by simp [Bytes.toNat]
    simp only [hb, number, value]
    rcases ofNumber?_cases x.toNat with ⟨kind, known, same⟩ | ⟨unknown, above⟩
    · exact .inl ⟨kind, by simp [known, pure_eq_ok], by rw [same]⟩
    · exact .inr (.inl ⟨_, by simp [unknown, throw_eq_error], rfl, above⟩)
  | x :: y :: b => exact .inr (.inr ⟨rfl, by simp only [hb]⟩)

/-! ### Reading an item -/

/-- An item is read as the predicate that it spells, or refused for the first of its nodes that is not
sound. -/
inductive ReadsAs (item : Rlp) : Except Failure Predicate → Prop
  | spells {p : Predicate} (spells : item.Spells p) (sound : item.firstDefect? = none) : ReadsAs item (.ok p)
  | defective {node : Rlp} {r : Refusal} (first : item.firstDefect? = some node)
      (code : r.code = node.defectCode) : ReadsAs item (.error (.refused r))

/-- Some items are read as the predicates that they spell, or refused for the first of their nodes that is not
sound. -/
inductive ReadAsAll (items : List Rlp) : Except Failure (List Predicate) → Prop
  | spell {predicates : List Predicate} (spell : Rlp.SpellAll items predicates)
      (sound : Rlp.firstDefectIn? items = none) : ReadAsAll items (.ok predicates)
  | defective {node : Rlp} {r : Refusal} (first : Rlp.firstDefectIn? items = some node)
      (code : r.code = node.defectCode) : ReadAsAll items (.error (.refused r))

/-- An item that is not sound is refused before its children are read. -/
theorem ReadsAs.unsound {item : Rlp} {r : Refusal} (unsound : item.isSound = false)
    (code : r.code = item.defectCode) : ReadsAs item (.error (.refused r)) :=
  .defective (Rlp.firstDefect?_of_unsound unsound) code

section Nodes

variable {tag : Hex} {kind : PredicateTag}

/-- A pair whose tag is the tag of no predicate is refused for its tag. -/
theorem ReadsAs.of_tag (writes : tag.WritesBytes) (payload : Rlp)
    {read : PredicateTag → Except Failure Predicate}
    (known : ∀ kind, singleByte? (.bytes tag) = some kind.number →
      ReadsAs (.list [.bytes tag, payload]) (read kind)) :
    ReadsAs (.list [.bytes tag, payload]) (tagOf tag >>= read) := by
  rcases tagOf_cases writes with ⟨kind, told, single⟩ | ⟨n, told, single, above⟩ | ⟨told, single⟩
  · rw [told]
    exact known kind single
  · rw [told]
    refine .unsound ?_ ?_
    · cases payload <;> simp [Rlp.isSound, single] <;> omega
    · simp [defectCode, Rlp.hasUnknownTag, single, Refusal.code, above]
  · rw [told]
    refine .unsound ?_ ?_
    · cases payload <;> simp [Rlp.isSound, single]
    · simp [defectCode, Rlp.hasUnknownTag, single, Refusal.code]

/-- A node whose tag is the tag of a predicate is not refused for it. -/
theorem defectCode_of_number (single : singleByte? (.bytes tag) = some kind.number) (payload : Rlp) :
    defectCode (.list [.bytes tag, payload]) = .malformedInput := by
  have bound := kind.number_lt
  rw [defectCode, Rlp.hasUnknownTag, single, Option.any_some, if_neg (by simpa using by omega)]

theorem isSound_leaf (single : singleByte? (.bytes tag) = some kind.number) (payload : Hex) :
    Rlp.isSound (.list [.bytes tag, .bytes payload]) = true ↔ ∀ op, kind ≠ .connective op := by
  rw [Rlp.isSound, single, Option.any_some, decide_eq_true_iff]
  cases kind with
  | any => exact iff_of_true (by decide) nofun
  | comparison op => exact iff_of_true (by cases op <;> decide) nofun
  | connective op => exact iff_of_false (by cases op <;> decide) fun h => h op rfl

theorem isSound_branch (single : singleByte? (.bytes tag) = some kind.number) (children : List Rlp) :
    Rlp.isSound (.list [.bytes tag, .list children]) = true ↔
      (∃ op, kind = .connective op) ∧ 2 ≤ children.length := by
  rw [Rlp.isSound, single, Option.any_some, Bool.and_eq_true, decide_eq_true_iff]
  refine and_congr_left' ?_
  cases kind with
  | any => exact iff_of_false (by decide) nofun
  | comparison op => exact iff_of_false (by cases op <;> decide) nofun
  | connective op => exact iff_of_true (by cases op <;> decide) ⟨op, rfl⟩

/-- A pair of a tag and a byte string is read by its tag. -/
theorem readsAs_leaf (writes : tag.WritesBytes) (payload : Hex) :
    ReadsAs (.list [.bytes tag, .bytes payload]) (ofRlp (.list [.bytes tag, .bytes payload])) := by
  rw [ofRlp]
  refine ReadsAs.of_tag writes _ fun kind single => ?_
  have sound := isSound_leaf single payload
  cases kind with
  | any => exact .spells (.any single) (Rlp.firstDefect?_of_sound_leaf (sound.2 nofun))
  | comparison op => exact .spells (.compare single) (Rlp.firstDefect?_of_sound_leaf (sound.2 nofun))
  | connective op =>
    exact .unsound (Bool.eq_false_iff.2 fun h => sound.1 h op rfl) (defectCode_of_number single _).symm

/-- A pair of a tag and a list is read by its tag and the number of its children, and then as these are. -/
theorem readsAs_branch (writes : tag.WritesBytes) {children : List Rlp}
    (inside : ReadAsAll children (ofRlpAll children)) :
    ReadsAs (.list [.bytes tag, .list children]) (ofRlp (.list [.bytes tag, .list children])) := by
  rw [ofRlp]
  refine ReadsAs.of_tag writes _ fun kind single => ?_
  have sound := isSound_branch single children
  have code := (defectCode_of_number single (.list children)).symm
  cases kind with
  | any | comparison op =>
    refine .unsound (Bool.eq_false_iff.2 fun h => ?_) code
    obtain ⟨⟨_, same⟩, -⟩ := sound.1 h
    cases same
  | connective op =>
    -- too few children are refused before any of them is read
    match children with
    | [] => exact .unsound (Bool.eq_false_iff.2 fun h => absurd (sound.1 h).2 (by decide)) code
    | [_] => exact .unsound (Bool.eq_false_iff.2 fun h => absurd (sound.1 h).2 (by simp)) code
    | first :: second :: others =>
      have branches : 2 ≤ (first :: second :: others).length := by simp
      have descend := Rlp.firstDefect?_of_sound_branch (sound.2 ⟨⟨op, rfl⟩, branches⟩)
      rw [connectiveOf_connective op branches, orFail_ok, ok_bind]
      generalize ofRlpAll (first :: second :: others) = read at inside ⊢
      cases inside with
      | spell each none => exact .spells (.combine single branches each) (descend.trans none)
      | defective found code => exact .defective (descend.trans found) code

end Nodes

mutual

/-- Every item is read as the predicate that it spells, or refused for its first defect. -/
theorem readsAs_ofRlp : ∀ item : Rlp, item.IsWritten → ReadsAs item (ofRlp item)
  | .bytes _, _ | .list [], _ | .list [.bytes _], _ | .list [.list _], _ => .unsound rfl rfl
  | .list (.bytes _ :: .bytes _ :: _ :: _), _ | .list (.bytes _ :: .list _ :: _ :: _), _ => .unsound rfl rfl
  | .list (.list _ :: .bytes _ :: _ :: _), _ | .list (.list _ :: .list _ :: _ :: _), _ => .unsound rfl rfl
  | .list [.list _, .bytes _], _ | .list [.list _, .list _], _ => .unsound rfl rfl
  | .list [.bytes _, .bytes payload], ⟨writes, _⟩ => readsAs_leaf writes payload
  | .list [.bytes _, .list children], ⟨writes, inside, _⟩ =>
    readsAs_branch writes (readAsAll_ofRlpAll children inside)

theorem readAsAll_ofRlpAll : ∀ items : List Rlp, Rlp.AreWritten items → ReadAsAll items (ofRlpAll items)
  | [], _ => .spell .nil rfl
  | item :: items, ⟨here, later⟩ => by
    have first := readsAs_ofRlp item here
    have rest := readAsAll_ofRlpAll items later
    have descend := Rlp.firstDefectIn?_cons item items
    rw [ofRlpAll]
    generalize ofRlp item = read at first ⊢
    generalize ofRlpAll items = others at rest ⊢
    -- a defect of the first item is met before those of the others
    cases first with
    | defective found code =>
      rw [found] at descend
      exact .defective descend code
    | spells spells sound =>
      rw [sound, Option.none_or] at descend
      cases rest with
      | spell each none => exact .spell (.cons spells each) (descend.trans none)
      | defective found code => exact .defective (descend.trans found) code

end

/-! ### The predicate that an item spells -/

/-- The number of a kind is written in one way. -/
theorem eq_tagItem_of_number {tag : Hex} (kind : PredicateTag)
    (single : singleByte? (.bytes tag) = some kind.number) : .bytes tag = tagItem kind := by
  have bound := kind.number_lt
  rw [Rlp.eq_ofBytes_of_singleByte? single (by omega), tagItem]

mutual

/-- An item is read as each predicate that it spells, which is therefore a single one. -/
theorem ofRlp_of_spells : ∀ {item : Rlp} {p : Predicate}, item.Spells p → ofRlp item = .ok p
  | _, _, .any single => by
    rw [eq_tagItem_of_number .any single, tagItem, ofRlp, tagOf_number]
    rfl
  | _, _, .compare single => by
    rw [eq_tagItem_of_number _ single, tagItem, ofRlp, tagOf_number]
    rfl
  | _, _, .combine single branches each => by
    rw [eq_tagItem_of_number _ single, tagItem, ofRlp, tagOf_number, ok_bind,
      connectiveOf_connective _ branches, orFail_ok, ok_bind, ofRlpAll_of_spellAll each]
    rfl

theorem ofRlpAll_of_spellAll : ∀ {items : List Rlp} {predicates : List Predicate},
    Rlp.SpellAll items predicates → ofRlpAll items = .ok predicates
  | _, _, .nil => rfl
  | _, _, .cons first rest => by
    rw [ofRlpAll, ofRlp_of_spells first, ok_bind, ofRlpAll_of_spellAll rest]
    rfl

end

mutual

/-- The wire form of the predicate that an item spells is the item without its idle bytes. -/
theorem toRlp_of_spells : ∀ {item : Rlp} {p : Predicate}, item.Spells p →
    p.toRlp = .ok item.withoutIdleBytes
  | _, _, .any single => by
    rw [toRlp, Rlp.withoutIdleBytes, if_pos single, eq_tagItem_of_number .any single]
  | .list [.bytes tag, .bytes literal], .compare op _, .compare single => by
    have busy : singleByte? (.bytes tag) ≠ some PredicateTag.any.number := by
      rw [single]
      cases op <;> decide
    rw [toRlp, Rlp.withoutIdleBytes, if_neg busy, eq_tagItem_of_number _ single]
  | _, _, .combine single branches each => by
    rw [toRlp, if_neg (Nat.not_lt.2 (each.length_eq ▸ branches)), toRlpAll_of_spellAll each,
      Rlp.withoutIdleBytes, eq_tagItem_of_number _ single]
    rfl

theorem toRlpAll_of_spellAll : ∀ {items : List Rlp} {predicates : List Predicate},
    Rlp.SpellAll items predicates → toRlpAll predicates = .ok (Rlp.withoutIdleBytesAll items)
  | _, _, .nil => rfl
  | _, _, .cons first rest => by
    rw [toRlpAll, toRlp_of_spells first, ok_bind, toRlpAll_of_spellAll rest, Rlp.withoutIdleBytesAll]
    rfl

end

end Predicate

/-- An item is read exactly if it spells a predicate, which is the case if none of its nodes has a defect, and
then the predicate is encoded as the item without its idle bytes. Any other item is refused, and the code of
the refusal is that of the first defect. -/
theorem predicate_grammar {item : Rlp} (written : item.IsWritten) :
    (∀ p, Predicate.ofRlp item = .ok p ↔ item.Spells p) ∧
      ((∃ p, item.Spells p) ↔ item.firstDefect? = none) ∧
      (∀ p, item.Spells p → p.toRlp = .ok item.withoutIdleBytes) ∧
      ∀ node, item.firstDefect? = some node →
        ∃ r, Predicate.ofRlp item = .error (.refused r) ∧ r.code = node.defectCode := by
  have reads := Predicate.readsAs_ofRlp item written
  refine ⟨fun p => ⟨fun read => ?_, Predicate.ofRlp_of_spells⟩, ⟨?_, fun sound => ?_⟩,
    fun p => Predicate.toRlp_of_spells, fun node found => ?_⟩
  · rw [read] at reads
    cases reads with
    | spells spells _ => exact spells
  · rintro ⟨p, spells⟩
    rw [Predicate.ofRlp_of_spells spells] at reads
    cases reads with
    | spells _ sound => exact sound
  · generalize Predicate.ofRlp item = read at reads
    cases reads with
    | spells spells _ => exact ⟨_, spells⟩
    | defective first _ => cases sound.symm.trans first
  · generalize Predicate.ofRlp item = read at reads
    cases reads with
    | spells _ sound => cases found.symm.trans sound
    | defective first code =>
      obtain rfl := Option.some.inj (found.symm.trans first)
      exact ⟨_, rfl, code⟩

/-- A conjunction of a node that always holds, with some bytes beside its tag, and a comparison. -/
def conjunctionBeside (idle : Bytes) : Rlp :=
  .list [.bytes (Hex.ofBytes [5]), .list [
    .list [.bytes (Hex.ofBytes [0]), .bytes (Hex.ofBytes idle)],
    .list [.bytes (Hex.ofBytes [2]), .bytes (Hex.ofBytes [1])]]]

/-- A disjunction of a node with an unknown tag, which stands first, and one with a list in place of a byte
string. -/
def unknownDisjunction : Rlp :=
  .list [.bytes (Hex.ofBytes [6]), .list [
    .list [.bytes (Hex.ofBytes [7]), .list []],
    .list [.bytes (Hex.ofBytes [0]), .list []]]]

theorem conjunction_and_disjunction_read :
    ((conjunctionBeside [0xab]).IsWritten ∧
      ∃ p, Predicate.ofRlp (conjunctionBeside [0xab]) = .ok p ∧ p.toRlp = .ok (conjunctionBeside [])) ∧
    unknownDisjunction.IsWritten ∧
      ∃ r, Predicate.ofRlp unknownDisjunction = .error (.refused r) ∧
        r.code = .invalidCalldataPrefix := by
  have writes (b : Bytes) : (Hex.ofBytes b).WritesBytes := Hex.writesBytes_ofBytes b
  have conjunction : (conjunctionBeside [0xab]).IsWritten :=
    ⟨writes _, ⟨⟨writes _, writes _, trivial⟩, ⟨writes _, writes _, trivial⟩, trivial⟩, trivial⟩
  have disjunction : unknownDisjunction.IsWritten :=
    ⟨writes _, ⟨⟨writes _, trivial, trivial⟩, ⟨writes _, trivial, trivial⟩, trivial⟩, trivial⟩
  obtain ⟨reads, spelled, back, -⟩ := predicate_grammar conjunction
  obtain ⟨p, spells⟩ := spelled.2 rfl
  obtain ⟨-, -, -, refused⟩ := predicate_grammar disjunction
  exact ⟨⟨conjunction, p, (reads p).2 spells, back p spells⟩, disjunction,
    refused (.list [.bytes (Hex.ofBytes [7]), .list []]) rfl⟩

end SessionKeys
