import SessionKeys.JsonForm
import SessionKeys.Proofs.EncodableRequests
import SessionKeys.Proofs.PredicateWire
import SessionKeys.Schema.Record

/-!
Predicates in their JSON form, and on the wire. The reader of predicates takes exactly those that have a wire
form, so what was read can be encoded, and is the same when it is decoded, unless it is too long or nested
too deeply. Main statement: `predicates_read_back`.
-/

namespace SessionKeys

/-! ### The reader of predicates -/

/-- Where the first two ways to read a value fail, the third counts. -/
theorem Reading.firstOf_eq_ok_of_hard {α : Type} {path : Path} {first second third : Reading α} {a : α}
    (hfirst : ∃ issues, first = .hard issues) (hsecond : ∃ issues, second = .hard issues) :
    firstOf path [first, second, third] = .ok a ↔ third = .ok a := by
  obtain ⟨_, rfl⟩ := hfirst
  obtain ⟨_, rfl⟩ := hsecond
  cases third <;> simp [firstOf, best?]

namespace Reader

open JsonForm (ofPredicate ofPredicates part)

theorem length_ofPredicates (predicates : List Predicate) :
    (ofPredicates predicates).length = predicates.length := by
  induction predicates with
  | nil => rfl
  | cons p predicates ih => rw [ofPredicates, List.length_cons, List.length_cons, ih]

/-- The text of a byte string is read as the byte string. -/
theorem hex_text {h : Hex} (writes : h.WritesBytes) (path : Path) :
    hex path (some (.string h.text)) = .ok h := by
  obtain ⟨b, hb⟩ := writes
  refine accepted_eq_ok.2 ⟨_, rfl, ?_⟩
  rw [hexOf?, Hex.ofText_text hb]
  exact Option.filter_eq_some_iff.2 ⟨rfl, Option.isSome_iff_exists.2 ⟨b, hb⟩⟩

/-- An object with the name of another kind of node is not read as the predicate that always holds. -/
theorem anyPredicate_comparison (op : Comparison) (path : Path) (fields : List (String × Json)) :
    ∃ issues, anyPredicate path (part "op" op.name ++ fields) = .hard issues := by
  cases op <;> exact ⟨_, rfl⟩

theorem anyPredicate_connective (op : Connective) (path : Path) (fields : List (String × Json)) :
    ∃ issues, anyPredicate path (part "op" op.name ++ fields) = .hard issues := by
  cases op <;> exact ⟨_, rfl⟩

theorem comparison_connective (op : Connective) (path : Path) (fields : List (String × Json)) :
    ∃ issues, comparison path (part "op" op.name ++ fields) = .hard issues := by
  cases op <;> exact ⟨_, rfl⟩

theorem comparison_eq_ok (op : Comparison) {literal : Hex} (known : literal.WritesBytes) (path : Path) :
    comparison path (part "op" op.name ++ part "value" literal) = .ok (.compare op literal) := by
  have read := hex_text known (path ++ [.key "value"])
  unfold comparison
  rw [Reading.seq_eq_ok]
  refine ⟨.compare op, literal, ?_, read, rfl⟩
  cases op <;> rfl

theorem choice_connective (op : Connective) (path : Path) (fields : List (String × Json)) :
    field (choice connectives) "op" path (part "op" op.name ++ fields) = .ok op := by
  cases op <;> rfl

theorem children_of_connective (op : Connective) (path : Path) (children : List Predicate) :
    childrenOf path (part "op" op.name ++ [("children", .array (ofPredicates children))]) =
      ((fun _ list => list)
        <$> Reading.softly (path ++ [.key "children"]) ()
          (if (ofPredicates children).length < 2 then [.tooFewItems 2] else [])
        <*> childItemsOf (path ++ [.key "children"]) 0 (ofPredicates children)) := by
  rfl

mutual

/-- The JSON form of a predicate is read exactly if the predicate is branching, and then as the predicate. -/
theorem predicateOf_eq_ok (path : Path) : ∀ {p q : Predicate}, p.IsWritten →
    (predicateOf path (ofPredicate p) = .ok q ↔ p.IsBranching ∧ p = q)
  | .any, q, _ => by
    rw [show predicateOf path (ofPredicate .any) = .ok .any from rfl, Predicate.IsBranching,
      Reading.ok.injEq, true_and]
  | .compare op literal, q, known => by
    obtain ⟨issues, any⟩ := anyPredicate_comparison op path (part "value" literal)
    rw [ofPredicate, predicateOf, any, comparison_eq_ok op known, Predicate.IsBranching, true_and]
    simp only [Reading.firstOf, Reading.best?, Option.getD_some, Reading.ok.injEq]
  | .combine op children, q, known => by
    -- the name of a connective keeps the first two ways to read the object from succeeding
    rw [ofPredicate, predicateOf, Reading.firstOf_eq_ok_of_hard (anyPredicate_connective op path _)
      (comparison_connective op path _), Predicate.IsBranching, children_of_connective]
    simp only [Reading.seq_eq_ok, Reading.fmap_eq_ok, Reading.softly_eq_ok, choice_connective,
      childItemsOf_eq_ok _ known, length_ofPredicates]
    constructor
    · rintro ⟨_, _, ⟨_, ⟨⟩, rfl⟩, ⟨_, _, ⟨_, ⟨enough, -⟩, rfl⟩, ⟨branches, rfl⟩, rfl⟩, rfl⟩
      split at enough
      next => cases enough
      next many => exact ⟨⟨Nat.le_of_not_lt many, branches⟩, rfl⟩
    · rintro ⟨⟨many, branches⟩, rfl⟩
      exact ⟨_, children, ⟨op, rfl, rfl⟩, ⟨_, children, ⟨(), ⟨if_neg (Nat.not_lt.2 many), trivial⟩, rfl⟩,
        ⟨branches, rfl⟩, rfl⟩, rfl⟩

theorem childItemsOf_eq_ok (path : Path) : ∀ {index : Nat} {children l : List Predicate},
    Predicate.AreWritten children →
    (childItemsOf path index (ofPredicates children) = .ok l ↔
      Predicate.AreBranching children ∧ children = l)
  | _, [], l, _ => by
    rw [ofPredicates, childItemsOf, Predicate.AreBranching, Reading.ok.injEq, true_and]
  | index, child :: children, l, ⟨here, later⟩ => by
    rw [ofPredicates, childItemsOf, Predicate.AreBranching]
    simp only [Reading.seq_eq_ok, Reading.fmap_eq_ok, predicateOf_eq_ok _ here,
      childItemsOf_eq_ok path later]
    constructor
    · rintro ⟨_, rest, ⟨first, ⟨branches, rfl⟩, rfl⟩, ⟨others, rfl⟩, rfl⟩
      exact ⟨⟨branches, others⟩, rfl⟩
    · rintro ⟨⟨branches, others⟩, rfl⟩
      exact ⟨_, children, ⟨child, ⟨branches, rfl⟩, rfl⟩, ⟨others, rfl⟩, rfl⟩

end

end Reader

/-- Predicates are branching exactly if the reader takes each of them, wherever it stands. -/
theorem Predicate.areBranching_iff_read {predicates : List Predicate} (known : AreWritten predicates)
    (path : Path) :
    AreBranching predicates ↔
      ∀ p ∈ predicates, ∃ q, Reader.predicate path (some (json p)) = .ok q := by
  induction predicates with
  | nil => exact iff_of_true trivial (List.forall_mem_nil _)
  | cons p predicates ih =>
    obtain ⟨here, later⟩ := known
    rw [AreBranching, ih later, List.forall_mem_cons]
    refine and_congr_left fun _ => ?_
    constructor
    · intro branches
      exact ⟨p, (Reader.predicateOf_eq_ok path here).2 ⟨branches, rfl⟩⟩
    · rintro ⟨q, read⟩
      exact ((Reader.predicateOf_eq_ok path here).1 read).1

/-! ### Reading back -/

/-- **What is written is read back.** Predicates with literals that write bytes, of which every connective has
two children or more, are encoded and decoded to the same predicates, if in their wire form less than 1024
lists stand one inside the other and the contents of no item take `2 ^ 32` bytes or more. Predicates of such
a size are encoded exactly if the reader of predicates takes each of them. And byte strings of such a size
are encoded and decoded to the same byte strings. -/
theorem predicates_read_back :
    (∀ predicates, Predicate.AreWritten predicates → Predicate.AreBranching predicates →
      (Predicate.forest predicates).nesting < 1024 → (Predicate.forest predicates).Fits →
      ∃ h, encodeAllowedArguments predicates = .ok h ∧
        decodeAllowedArguments h = .ok (Predicate.writtenAll predicates)) ∧
    (∀ predicates path, Predicate.AreWritten predicates → (Predicate.forest predicates).Fits →
      ((∃ h, encodeAllowedArguments predicates = .ok h) ↔
        ∀ p ∈ predicates, ∃ q, Reader.predicate path (some (json p)) = .ok q)) ∧
    ∀ values : List Hex, (∀ v ∈ values, v.WritesBytes) → (byteStrings values).Fits →
      ∃ h, encodeActualArguments values = .ok h ∧
        decodeActualArguments h = .ok (values.map fun v => Hex.ofBytes v.content) := by
  refine ⟨fun _ known branches nesting fits => decode_encode_of_nesting known branches nesting fits,
    fun predicates path known fits => ?_, fun _ known fits => decode_encodeActualArguments known fits⟩
  rw [exists_encodeAllowedArguments known, ← Predicate.areBranching_iff_read known path, and_iff_left fits]

/-- An empty literal, one below `0x80`, and an alternative with one from there on. -/
def shortLiterals : List Predicate :=
  [.compare .eq (Hex.ofBytes []), .compare .ne (Hex.ofBytes [0x7f]),
    .combine .or [.compare .gt (Hex.ofBytes [0x80]), .any]]

/-- Short literals are read back; an alternative of one is neither encoded nor read. -/
theorem shortLiterals_read_back :
    (∃ h, encodeAllowedArguments shortLiterals = .ok h ∧ decodeAllowedArguments h = .ok shortLiterals) ∧
    ¬(∃ h, encodeAllowedArguments [.combine .or [.any]] = .ok h) ∧
    ∃ h, encodeActualArguments [.empty, Hex.ofBytes [0x80]] = .ok h ∧
      decodeActualArguments h = .ok [.empty, Hex.ofBytes [0x80]] := by
  obtain ⟨forests, encodable, lists⟩ := predicates_read_back
  refine ⟨?_, ?_, ?_⟩
  · refine forests shortLiterals ?_ ?_ (by decide) (by decide)
    · exact ⟨Hex.writesBytes_ofBytes [], Hex.writesBytes_ofBytes [0x7f],
        ⟨Hex.writesBytes_ofBytes [0x80], trivial, trivial⟩, trivial⟩
    · exact ⟨trivial, trivial, ⟨Nat.le_refl 2, trivial, trivial, trivial⟩, trivial⟩
  · intro encoded
    obtain ⟨q, read⟩ := (encodable [.combine .or [.any]] [] ⟨⟨trivial, trivial⟩, trivial⟩ (by decide)).1 encoded
      _ List.mem_cons_self
    cases read
  · refine lists [.empty, Hex.ofBytes [0x80]] ?_ (by decide)
    exact List.forall_mem_cons.2 ⟨Hex.writesBytes_ofBytes [], List.forall_mem_singleton.2
      (Hex.writesBytes_ofBytes [0x80])⟩

/-! ### Predicates that are nested too deeply -/

/-- Conjunctions of a predicate and one that always holds, one inside the other. -/
def nestedAnds : Nat → Predicate
  | 0 => .any
  | n + 1 => .combine .and [nestedAnds n, .any]

namespace Predicate

theorem isBranching_nestedAnds (n : Nat) : (nestedAnds n).IsBranching := by
  induction n with
  | zero => trivial
  | succ n ih => exact ⟨Nat.le_refl 2, ih, trivial, trivial⟩

theorem isWritten_nestedAnds (n : Nat) : (nestedAnds n).IsWritten := by
  induction n with
  | zero => trivial
  | succ n ih => exact ⟨ih, trivial, trivial⟩

theorem depth_nestedAnds (n : Nat) : (nestedAnds n).item.depth = 2 * n + 2 := by
  induction n with
  | zero => rfl
  | succ n ih =>
    simp only [nestedAnds, item, items, Rlp.depth, Rlp.depthAll, tagItem, ih]
    omega

theorem nesting_nestedAnds (n : Nat) : (nestedAnds n).item.nesting = 2 * n + 1 := by
  induction n with
  | zero => rfl
  | succ n ih =>
    simp only [nestedAnds, item, items, Rlp.nesting, Rlp.nestingAll, tagItem, ih]
    omega

theorem encodedLength_tagItem (tag : PredicateTag) : (tagItem tag).encodedLength = 1 := by
  rw [tagItem, Rlp.encodedLength, Hex.content_ofBytes]
  cases tag with
  | any => rfl
  | comparison op => cases op <;> rfl
  | connective op => cases op <;> rfl

theorem fits_tagItem (tag : PredicateTag) : (tagItem tag).Fits := by
  rw [tagItem, Rlp.Fits, Hex.content_ofBytes]
  show 1 < Rlp.lengthBound
  decide

theorem fits_any : any.item.Fits := by decide

/-- How long the contents of a conjunction and of the list of its children are. -/
theorem contentLength_nestedAnds (n : Nat) :
    Rlp.contentLength (items [nestedAnds n, .any]) = (nestedAnds n).item.encodedLength + 3 ∧
      Rlp.contentLength [tagItem (.connective .and), .list (items [nestedAnds n, .any])] ≤
        (nestedAnds n).item.encodedLength + 9 := by
  have inner : Rlp.contentLength (items [nestedAnds n, .any]) =
      (nestedAnds n).item.encodedLength + 3 := rfl
  have header := Rlp.headerLength_le ((nestedAnds n).item.encodedLength + 3)
  refine ⟨inner, ?_⟩
  rw [Rlp.contentLength, Rlp.contentLength, Rlp.contentLength, encodedLength_tagItem, Rlp.encodedLength, inner]
  omega

/-- A conjunction adds its tag, a predicate of three bytes and two headers. -/
theorem encodedLength_nestedAnds_le (n : Nat) : (nestedAnds n).item.encodedLength ≤ 14 * n + 3 := by
  induction n with
  | zero => exact Nat.le_refl 3
  | succ n ih =>
    obtain ⟨-, outer⟩ := contentLength_nestedAnds n
    have header := Rlp.headerLength_le
      (Rlp.contentLength [tagItem (.connective .and), .list (items [nestedAnds n, .any])])
    rw [nestedAnds, item, Rlp.encodedLength]
    omega

theorem fits_nestedAnds (n : Nat) (few : 14 * n + 3 < Rlp.lengthBound) : (nestedAnds n).item.Fits := by
  induction n with
  | zero => exact fits_any
  | succ n ih =>
    obtain ⟨inner, outer⟩ := contentLength_nestedAnds n
    have length := encodedLength_nestedAnds_le n
    have children : Rlp.AllFit (items [nestedAnds n, .any]) :=
      ⟨ih (by omega), fits_any, trivial⟩
    refine ⟨⟨fits_tagItem _, ⟨children, ?_⟩, trivial⟩, ?_⟩
    · omega
    · exact outer.trans_lt (by omega)

end Predicate

/-- The wire form of nested conjunctions. In the innermost of its lists there are byte strings. -/
theorem forest_nestedAnds (n : Nat) (few : 14 * n + 3 < Rlp.lengthBound) :
    (Predicate.forest [nestedAnds n]).nesting = 2 * n + 2 ∧
      (Predicate.forest [nestedAnds n]).depth = 2 * n + 3 ∧ (Predicate.forest [nestedAnds n]).Fits := by
  have length := Predicate.encodedLength_nestedAnds_le n
  refine ⟨?_, ?_, ⟨Predicate.fits_nestedAnds n few, trivial⟩, ?_⟩
  · simp only [Predicate.forest, Predicate.items, Rlp.nesting, Rlp.nestingAll, Predicate.nesting_nestedAnds]
    omega
  · simp only [Predicate.forest, Predicate.items, Rlp.depth, Rlp.depthAll, Predicate.depth_nestedAnds]
    omega
  · exact length.trans_lt few

/-- Conjunctions that are nested too deeply are encoded, but not read back. -/
theorem exists_encode_nestedAnds (n : Nat) (few : 14 * n + 3 < Rlp.lengthBound)
    (deep : Rlp.depthLimit < 2 * n + 3) :
    ∃ h, encodeAllowedArguments [nestedAnds n] = .ok h ∧ decodeAllowedArguments h =
      .error (.refused (.malformed "allowed arguments" DecodeError.nestedTooDeeply.message)) := by
  have known : Predicate.AreWritten [nestedAnds n] := ⟨Predicate.isWritten_nestedAnds n, trivial⟩
  obtain ⟨-, depth, fits⟩ := forest_nestedAnds n few
  obtain ⟨h, encoded⟩ := (exists_encodeAllowedArguments known).2
    ⟨⟨Predicate.isBranching_nestedAnds n, trivial⟩, fits⟩
  refine ⟨h, encoded, ?_⟩
  rw [decode_encodeAllowedArguments known encoded, depth]
  exact if_neg (Nat.not_le.2 deep)

/-- In the wire form of 511 nested conjunctions 1024 lists stand one inside the other, and no item is long. It
is encoded, but not read back. -/
theorem nestedAnds_not_read_back :
    (nestedAnds 511).IsWritten ∧ (nestedAnds 511).IsBranching ∧
      (Predicate.forest [nestedAnds 511]).nesting = 1024 ∧ (Predicate.forest [nestedAnds 511]).Fits ∧
      ∃ h, encodeAllowedArguments [nestedAnds 511] = .ok h ∧ decodeAllowedArguments h =
        .error (.refused (.malformed "allowed arguments" DecodeError.nestedTooDeeply.message)) := by
  have few : 14 * 511 + 3 < Rlp.lengthBound := by decide
  obtain ⟨nesting, -, fits⟩ := forest_nestedAnds 511 few
  exact ⟨Predicate.isWritten_nestedAnds 511, Predicate.isBranching_nestedAnds 511, nesting, fits,
    exists_encode_nestedAnds 511 few (by decide)⟩

end SessionKeys
