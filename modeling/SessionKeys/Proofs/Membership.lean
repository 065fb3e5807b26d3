import SessionKeys.Proofs.Acceptance
import SessionKeys.Proofs.SessionEncoding
import SessionKeys.Session.Tree

/-!
Sessions that a proof leads from to the root of a tree are sessions of the tree, unless two byte
strings with one hash were met on the way. The proof may have any length, and nothing is assumed of
the nodes in it: a leaf is the hash of 32 bytes and an inner node that of 64, so neither passes for
the other. Main statement: `listed_or_collides`.
-/

namespace SessionKeys

/-! ### How a tree grows -/

namespace MerkleTree

variable {α : Type}

/-- The pairs of nodes that are joined when inner nodes are put in front of some nodes. -/
def joins (join : α → α → α) : (count : Nat) → List α → List (α × α)
  | 0, _ => []
  | i + 1, nodes =>
    match nodes[i]?, nodes[i + 1]? with
    | some left, some right => (left, right) :: joins join i (join left right :: nodes)
    | _, _ => []

variable {join : α → α → α}

/-- What is put in front of some nodes, of which there are enough. -/
theorem grow_eq_append {count : Nat} {nodes : List α} (enough : count < nodes.length) :
    ∃ inner, grow join count nodes = inner ++ nodes ∧ inner.length = count := by
  induction count generalizing nodes with
  | zero => exact ⟨[], rfl, rfl⟩
  | succ i ih =>
    have left : nodes[i]? = some nodes[i] := List.getElem?_eq_getElem (by omega)
    have right : nodes[i + 1]? = some nodes[i + 1] := List.getElem?_eq_getElem enough
    have more : i < (join nodes[i] nodes[i + 1] :: nodes).length := by
      rw [List.length_cons]
      omega
    obtain ⟨inner, grown, length⟩ := ih more
    refine ⟨inner ++ [join nodes[i] nodes[i + 1]], ?_, by simp [length]⟩
    rw [grow, left, right]
    simp only
    rw [grown, List.append_assoc, List.singleton_append]

theorem subset_grow (join : α → α → α) (count : Nat) (nodes : List α) :
    nodes ⊆ grow join count nodes := by
  induction count generalizing nodes with
  | zero => exact fun x hx => hx
  | succ i ih =>
    intro x hx
    rw [grow]
    split
    · exact ih _ (List.mem_cons_of_mem _ hx)
    · exact hx

/-- A node was there before, or joins two nodes. -/
theorem mem_grow_cases {count : Nat} {nodes : List α} {x : α} (h : x ∈ grow join count nodes) :
    x ∈ nodes ∨ ∃ left right, (left, right) ∈ joins join count nodes ∧ x = join left right ∧
      left ∈ grow join count nodes ∧ right ∈ grow join count nodes := by
  induction count generalizing nodes with
  | zero => exact .inl h
  | succ i ih =>
    cases hl : nodes[i]? with
    | none =>
      rw [grow, hl] at h
      exact .inl h
    | some left =>
      cases hr : nodes[i + 1]? with
      | none =>
        rw [grow, hl, hr] at h
        exact .inl h
      | some right =>
        rw [grow, hl, hr] at h ⊢
        rw [joins, hl, hr]
        have known := subset_grow join i (join left right :: nodes)
        rcases ih h with before | ⟨l, r, joined, hx, inner⟩
        · rcases List.mem_cons.1 before with rfl | before
          · exact .inr ⟨left, right, List.mem_cons_self, rfl,
              known (List.mem_cons_of_mem _ (List.mem_of_getElem? hl)),
              known (List.mem_cons_of_mem _ (List.mem_of_getElem? hr))⟩
          · exact .inl before
        · exact .inr ⟨l, r, List.mem_cons_of_mem _ joined, hx, inner⟩

/-- The leaves of a tree come last among its nodes. -/
theorem drop_nodes_ofLeaves (leaves : List α) :
    (ofLeaves join leaves).nodes.drop (leaves.length - 1) = leaves.reverse := by
  show (grow join (leaves.length - 1) leaves.reverse).drop (leaves.length - 1) = leaves.reverse
  rcases Nat.eq_zero_or_pos leaves.length with none | some
  · rw [none]
    rfl
  · have enough : leaves.length - 1 < leaves.reverse.length := by
      rw [List.length_reverse]
      omega
    obtain ⟨inner, grown, length⟩ := @grow_eq_append _ join _ _ enough
    rw [grown, ← length, List.drop_left]

/-- A node of a tree is a leaf, or joins two nodes. -/
theorem mem_nodes_cases {leaves : List α} {x : α} (h : x ∈ (ofLeaves join leaves).nodes) :
    x ∈ leaves ∨ ∃ left right,
      (left, right) ∈ joins join (leaves.length - 1)
          ((ofLeaves join leaves).nodes.drop (leaves.length - 1)) ∧
        x = join left right ∧ left ∈ (ofLeaves join leaves).nodes ∧
          right ∈ (ofLeaves join leaves).nodes := by
  rw [drop_nodes_ofLeaves]
  rcases mem_grow_cases h with leaf | joined
  · exact .inl (List.mem_reverse.1 leaf)
  · exact .inr joined

theorem exists_root (join : α → α → α) {leaves : List α} (some : leaves ≠ []) :
    ∃ root ∈ (ofLeaves join leaves).nodes, (ofLeaves join leaves).root? = root := by
  have inside : ∃ x, x ∈ (ofLeaves join leaves).nodes := by
    obtain ⟨x, hx⟩ := List.exists_mem_of_ne_nil leaves some
    exact ⟨x, subset_grow join _ _ (List.mem_reverse.2 hx)⟩
  obtain ⟨x, hx⟩ := inside
  obtain ⟨root, rest, nodes⟩ := List.exists_cons_of_ne_nil (List.ne_nil_of_mem hx)
  refine ⟨root, ?_, ?_⟩
  · rw [nodes]
    exact List.mem_cons_self
  · unfold root?
    rw [nodes, List.head?_cons]

end MerkleTree

/-! ### What is hashed -/

/-- The bytes that are hashed for two nodes. -/
def pairContent (a b : Hex) : Bytes :=
  if a.toInt?.getD 0 < b.toInt?.getD 0 then (a ++ b).content else (b ++ a).content

/-- The byte strings that are hashed for the leaf of a session: its encoding, and the hash of that. -/
def Session.hashed (s : Session) : List Bytes :=
  match Abi.encodeFields fields s.values with
  | .ok encoding => [encoding.content, Keccak.digest encoding.content]
  | .error _ => []

/-- The byte strings that are hashed on the way of a proof from a node. -/
def hashedOnWay : (proof : List Hex) → (node : Hex) → List Bytes
  | [], _ => []
  | sibling :: rest, node => pairContent node sibling :: hashedOnWay rest (hashPair node sibling)

/-- The byte strings that are hashed to follow a proof from the leaf of a session. -/
def Session.hashedToProve (s : Session) (proof : List Hex) : List Bytes :=
  s.hashed ++
    match s.leaf with
    | .ok leaf => hashedOnWay proof leaf
    | .error _ => []

/-- The byte strings that are hashed to build the tree of some sessions: those for their leaves, and
those for the inner nodes over the leaves, which come last among the nodes. -/
def SessionTree.hashed (tree : SessionTree) (sessions : List Session) : List Bytes :=
  (sessions.filterMap Session.filled?).flatMap Session.hashed ++
    (MerkleTree.joins hashPair (tree.leafCount - 1) (tree.nodes.drop (tree.leafCount - 1))).map
      fun (left, right) => pairContent left right

/-- Two different byte strings among some have the same hash. -/
def Collides (hashed : List Bytes) : Prop :=
  ∃ x ∈ hashed, ∃ y ∈ hashed, x ≠ y ∧ Keccak.digest x = Keccak.digest y

/-- Byte strings with the same hash are the same, or collide. -/
theorem eq_or_collides {hashed : List Bytes} {x y : Bytes} (hx : x ∈ hashed) (hy : y ∈ hashed)
    (same : Keccak.digest x = Keccak.digest y) : x = y ∨ Collides hashed := by
  by_cases h : x = y
  · exact .inl h
  · exact .inr ⟨x, hx, y, hy, h, same⟩

theorem hashPair_eq (a b : Hex) : hashPair a b = Hex.ofBytes (Keccak.digest (pairContent a b)) := by
  unfold hashPair pairContent
  split
  · rfl
  · rfl

/-- Two nodes are hashed one behind the other. -/
theorem pairContent_cases {a b : Hex} {x y : Bytes} (ha : a.bytes? = some x)
    (hb : b.bytes? = some y) : pairContent a b = x ++ y ∨ pairContent a b = y ++ x := by
  unfold pairContent
  split
  · exact .inl (Hex.content_of_bytes? (Hex.bytes?_append ha hb))
  · exact .inr (Hex.content_of_bytes? (Hex.bytes?_append hb ha))

/-! ### Nodes -/

/-- A text writes a hash of 32 bytes. -/
def Hex.WritesHash (h : Hex) : Prop :=
  ∃ b, h.bytes? = some b ∧ b.length = 32

/-- A hash of 32 bytes in small letters, as all nodes of a tree are. -/
def Hex.IsNode (h : Hex) : Prop :=
  ∃ b : Bytes, h = Hex.ofBytes b ∧ b.length = 32

theorem Hex.IsNode.writesHash {h : Hex} (node : h.IsNode) : h.WritesHash := by
  obtain ⟨b, rfl, length⟩ := node
  exact ⟨b, Hex.bytes?_ofBytes b, length⟩

theorem isNode_hashPair (a b : Hex) : (hashPair a b).IsNode :=
  ⟨_, hashPair_eq a b, Keccak.length_digest _⟩

theorem Hex.WritesHash.exists_toInt {h : Hex} (hash : h.WritesHash) :
    ∃ b, h.bytes? = some b ∧ b.length = 32 ∧ h.toInt? = some (b.toNat : Int) := by
  obtain ⟨b, hb, length⟩ := hash
  refine ⟨b, hb, length, Hex.toInt?_of_bytes? hb ?_⟩
  rintro rfl
  cases length

/-- Nodes are told apart by the numbers they write. -/
theorem Hex.IsNode.eq_of_toInt {a b : Hex} (ha : a.IsNode) (hb : b.IsNode)
    (same : a.toInt? = b.toInt?) : a = b := by
  obtain ⟨x, hx, lengthX, numberX⟩ := ha.writesHash.exists_toInt
  obtain ⟨y, hy, lengthY, numberY⟩ := hb.writesHash.exists_toInt
  rw [numberX, numberY, Option.some.injEq, Nat.cast_inj] at same
  have bytes : x = y := by
    rw [← Bytes.ofNat_toNat x, ← Bytes.ofNat_toNat y, same, lengthX, lengthY]
  obtain ⟨u, rfl, -⟩ := ha
  obtain ⟨v, rfl, -⟩ := hb
  rw [Hex.bytes?_ofBytes, Option.some.injEq] at hx hy
  rw [hx, hy, bytes]

theorem length_pairContent {a b : Hex} (ha : a.WritesHash) (hb : b.WritesHash) :
    (pairContent a b).length = 64 := by
  obtain ⟨x, hx, lengthX⟩ := ha
  obtain ⟨y, hy, lengthY⟩ := hb
  rcases pairContent_cases hx hy with h | h
  · rw [h, List.length_append]
    omega
  · rw [h, List.length_append]
    omega

/-- Of two pairs that are hashed alike, the first node of one is a node of the other. -/
theorem eq_or_eq_of_pairContent {a b left right : Hex} (ha : a.IsNode) (hb : b.WritesHash)
    (hl : left.IsNode) (hr : right.IsNode) (same : pairContent a b = pairContent left right) :
    a = left ∨ a = right := by
  obtain ⟨x, rfl, lengthX⟩ := ha
  obtain ⟨y, hy, lengthY⟩ := hb
  obtain ⟨l, rfl, lengthL⟩ := hl
  obtain ⟨r, rfl, lengthR⟩ := hr
  have halves : ∀ {p q p' q' : Bytes}, p.length = 32 → p'.length = 32 → p ++ q = p' ++ q' →
      p = p' ∧ q = q' := fun hp hp' h => List.append_inj h (hp.trans hp'.symm)
  rcases pairContent_cases (Hex.bytes?_ofBytes x) hy with h | h <;>
    rcases pairContent_cases (Hex.bytes?_ofBytes l) (Hex.bytes?_ofBytes r) with h' | h' <;>
    rw [h, h'] at same
  · exact .inl (by rw [(halves lengthX lengthL same).1])
  · exact .inr (by rw [(halves lengthX lengthR same).1])
  · exact .inr (by rw [(halves lengthY lengthL same).2])
  · exact .inl (by rw [(halves lengthY lengthR same).2])

/-! ### The way up -/

/-- What is known of the nodes of a tree: each is a leaf, or made from two others by a hash that was
taken. -/
structure NodesOf (isLeaf : Hex → Prop) (hashed : List Bytes) (nodes : List Hex) : Prop where
  isNode : ∀ x ∈ nodes, x.IsNode
  leaf_or_pair : ∀ x ∈ nodes, isLeaf x ∨
    ∃ left ∈ nodes, ∃ right ∈ nodes, x = hashPair left right ∧ pairContent left right ∈ hashed

/-- A leaf is the hash of one of 32 bytes. -/
def HashesHash (hashed : List Bytes) (x : Hex) : Prop :=
  ∃ b ∈ hashed, b.length = 32 ∧ x = Hex.ofBytes (Keccak.digest b)

theorem HashesHash.mono {hashed more : List Bytes} {x : Hex} (h : HashesHash hashed x)
    (sub : hashed ⊆ more) : HashesHash more x := by
  obtain ⟨b, hb, length, same⟩ := h
  exact ⟨b, sub hb, length, same⟩

theorem NodesOf.mono {isLeaf : Hex → Prop} {hashed more : List Bytes} {nodes : List Hex}
    (tree : NodesOf isLeaf hashed nodes) (sub : hashed ⊆ more) : NodesOf isLeaf more nodes := by
  refine ⟨tree.isNode, fun x hx => ?_⟩
  rcases tree.leaf_or_pair x hx with leaf | ⟨left, hl, right, hr, same, taken⟩
  · exact .inl leaf
  · exact .inr ⟨left, hl, right, hr, same, sub taken⟩

theorem Hex.ofBytes_injective : Function.Injective Hex.ofBytes := by
  intro x y h
  have same := congrArg Hex.content h
  rwa [Hex.content_ofBytes, Hex.content_ofBytes] at same

variable {isLeaf : Hex → Prop} {hashed : List Bytes} {nodes : List Hex}

/-- If a pair is hashed to a node of a tree, then its first node is one of the tree. -/
theorem NodesOf.mem_of_hashPair (tree : NodesOf isLeaf hashed nodes)
    (leaves : ∀ x, isLeaf x → HashesHash hashed x) {a b : Hex} (ha : a.IsNode) (hb : b.WritesHash)
    (known : pairContent a b ∈ hashed) (joined : hashPair a b ∈ nodes) :
    a ∈ nodes ∨ Collides hashed := by
  have length := length_pairContent ha.writesHash hb
  rcases tree.leaf_or_pair _ joined with leaf | ⟨left, hl, right, hr, same, taken⟩
  · obtain ⟨x, hx, lengthX, same⟩ := leaves _ leaf
    rw [hashPair_eq] at same
    rcases eq_or_collides known hx (Hex.ofBytes_injective same) with h | h
    · rw [h, lengthX] at length
      omega
    · exact .inr h
  · rw [hashPair_eq, hashPair_eq] at same
    rcases eq_or_collides known taken (Hex.ofBytes_injective same) with h | h
    · rcases eq_or_eq_of_pairContent ha hb (tree.isNode _ hl) (tree.isNode _ hr) h with rfl | rfl
      · exact .inl hl
      · exact .inl hr
    · exact .inr h

/-- What a proof leads from is a node of the tree if what it leads to is. The induction is on the
proof, whose first sibling is joined first, so the tree is gone down from where the proof ends. -/
theorem NodesOf.mem_of_climb (tree : NodesOf isLeaf hashed nodes)
    (leaves : ∀ x, isLeaf x → HashesHash hashed x) {proof : List Hex}
    (hashes : ∀ h ∈ proof, h.WritesHash) {node : Hex} (isNode : node.IsNode)
    (known : hashedOnWay proof node ⊆ hashed) (reached : proof.foldl hashPair node ∈ nodes) :
    node ∈ nodes ∨ Collides hashed := by
  induction proof generalizing node with
  | nil => exact .inl reached
  | cons sibling rest ih =>
    rw [List.foldl_cons] at reached
    have later : hashedOnWay rest (hashPair node sibling) ⊆ hashed :=
      fun x hx => known (List.mem_cons_of_mem _ hx)
    have step := ih (fun h hh => hashes h (List.mem_cons_of_mem _ hh))
      (isNode_hashPair node sibling) later reached
    rcases step with inside | collide
    · exact tree.mem_of_hashPair leaves isNode (hashes sibling List.mem_cons_self)
        (known List.mem_cons_self) inside
    · exact .inr collide

/-- The hash of two nodes does not depend on their order. -/
theorem hashPair_comm {a b : Hex} (ha : a.IsNode) (hb : b.IsNode) : hashPair a b = hashPair b a := by
  obtain ⟨x, -, -, numberA⟩ := ha.writesHash.exists_toInt
  obtain ⟨y, -, -, numberB⟩ := hb.writesHash.exists_toInt
  rcases lt_trichotomy (x.toNat : Int) y.toNat with less | same | greater
  · unfold hashPair
    rw [numberA, numberB, Option.getD_some, Option.getD_some, if_pos less, if_neg (by omega)]
  · rw [ha.eq_of_toInt hb (by rw [numberA, numberB, same])]
  · unfold hashPair
    rw [numberA, numberB, Option.getD_some, Option.getD_some, if_neg (by omega), if_pos greater]

theorem joinNodes_of_isNode {a b : Hex} (ha : a.IsNode) (hb : b.IsNode) :
    joinNodes a b = .ok (hashPair a b) := by
  obtain ⟨x, -, -, numberA⟩ := ha.writesHash.exists_toInt
  obtain ⟨y, -, -, numberB⟩ := hb.writesHash.exists_toInt
  unfold joinNodes
  rw [Hex.toInt_eq_ok.2 numberA, Hex.toInt_eq_ok.2 numberB]
  rfl

theorem joinNodes_eq_ok {a b c : Hex} (h : joinNodes a b = .ok c) : c = hashPair a b := by
  unfold joinNodes at h
  cases ha : a.toInt with
  | error f =>
    rw [ha] at h
    cases h
  | ok n =>
    cases hb : b.toInt with
    | error f =>
      rw [ha, hb] at h
      cases h
    | ok m =>
      rw [ha, hb] at h
      exact (Except.ok.inj h).symm

/-- Where a proof leads to. -/
theorem processProof_eq_ok {proof : List Hex} {leaf node : Hex}
    (h : processProof proof leaf = .ok node) : node = proof.foldl hashPair leaf := by
  unfold processProof at h
  induction proof generalizing leaf with
  | nil => exact (Except.ok.inj h).symm
  | cons sibling rest ih =>
    rw [List.foldlM_cons, bind_eq_ok] at h
    obtain ⟨joined, first, later⟩ := h
    rw [List.foldl_cons, ← joinNodes_eq_ok first]
    exact ih later

theorem isNode_foldl_hashPair {proof : List Hex} {node : Hex} (isNode : node.IsNode) :
    (proof.foldl hashPair node).IsNode := by
  induction proof generalizing node with
  | nil => exact isNode
  | cons sibling rest ih => exact ih (isNode_hashPair node sibling)

/-! ### Leaves -/

/-- The leaf of the sessions with some content. -/
def SessionContent.leaf (c : SessionContent) : Hex :=
  Hex.ofBytes (Keccak.digest (Keccak.digest c.encode))

namespace Session

variable {s t : Session} {leaf : Hex}

theorem leaf_eq_ok : s.leaf = .ok leaf ↔ ∃ encoding, Abi.encodeFields fields s.values = .ok encoding ∧
    leaf = Hex.ofBytes (Keccak.digest (Keccak.digest encoding.content)) := by
  unfold Session.leaf
  simp only [bind_eq_ok, pure_eq_ok, Except.ok.injEq, Hex.keccak, Hex.content_ofBytes]
  constructor
  · rintro ⟨encoding, encoded, rfl⟩
    exact ⟨encoding, encoded, rfl⟩
  · rintro ⟨encoding, encoded, rfl⟩
    exact ⟨encoding, encoded, rfl⟩

theorem treeLeaf_eq_ok :
    s.treeLeaf = .ok leaf ↔ ∃ u, s.filled? = some u ∧ u.leaf = .ok leaf := by
  unfold treeLeaf
  cases hs : s.filled? with
  | none => simp
  | some u =>
    cases hu : u.leaf with
    | error f => simp [hu, Except.toOption]
    | ok l => simp [hu, Except.toOption]

theorem isNode_of_leaf (h : s.leaf = .ok leaf) : leaf.IsNode := by
  obtain ⟨encoding, -, rfl⟩ := leaf_eq_ok.1 h
  exact ⟨_, rfl, Keccak.length_digest _⟩

theorem hashesHash_of_leaf (h : s.leaf = .ok leaf) : HashesHash s.hashed leaf := by
  obtain ⟨encoding, encoded, rfl⟩ := leaf_eq_ok.1 h
  refine ⟨_, ?_, Keccak.length_digest encoding.content, rfl⟩
  unfold hashed
  rw [encoded]
  exact List.mem_cons_of_mem _ List.mem_cons_self

/-- A session that a tree has filled up has byte strings of the right sizes. -/
theorem exists_content_of_filled? {u : Session} (filled : s.filled? = some u) {h : Hex}
    (encoded : Abi.encodeFields fields u.values = .ok h) :
    ∃ c, u.Has c ∧ h.bytes? = some c.encode := by
  unfold filled? at filled
  simp only [Option.bind_eq_bind, Option.bind_eq_some_iff, Option.guard_eq_some', Option.some.injEq,
    Option.pure_def] at filled
  obtain ⟨target, -, selector, -, allowedArguments, -, paymaster, -, -, short, rfl⟩ := filled
  refine exists_content_of_encodeFields (Hex.bytes?_ofBytes _) ?_ (Hex.bytes?_ofBytes _) encoded
  rw [List.length_append, List.length_replicate]
  omega

/-- A session of well-formed fields is filled up to one with the same values. -/
theorem Has.exists_filled {c : SessionContent} (has : s.Has c) :
    ∃ u, s.filled? = some u ∧ u.IsEncodable ∧ u.Has c := by
  have address : ∀ {a : Address} {b : Bytes}, a.bytes? = some b →
      a.filled? = some ⟨Hex.ofBytes b⟩ ∧ (⟨Hex.ofBytes b⟩ : Address).isStrict = true ∧
        (⟨Hex.ofBytes b⟩ : Address).bytes? = some b := by
    intro a b hb
    obtain ⟨bytes, length⟩ := Address.bytes?_eq_some_iff.1 hb
    have small : (⟨Hex.ofBytes b⟩ : Address).bytes? = some b :=
      Address.bytes?_eq_some_iff.2 ⟨Hex.bytes?_ofBytes b, length⟩
    refine ⟨?_, ?_, small⟩
    · unfold Address.filled?
      rw [Hex.treeBytes?_of_bytes? bytes]
      simp [length]
    · unfold Address.isStrict
      rw [small]
      simp [Hex.lower_of_bytes? (Hex.bytes?_ofBytes b)]
  obtain ⟨target, strictTarget, bytesTarget⟩ := address has.target
  obtain ⟨paymaster, strictPaymaster, bytesPaymaster⟩ := address has.paymaster
  let u : Session :=
    { s with
      target := ⟨Hex.ofBytes c.target⟩
      selector := Hex.ofBytes c.selector
      allowedArguments := Hex.ofBytes c.allowedArguments
      paymaster := ⟨Hex.ofBytes c.paymaster⟩ }
  have hasU : u.Has c := ⟨bytesTarget, Hex.bytes?_ofBytes _, Hex.bytes?_ofBytes _, bytesPaymaster,
    has.validUntil, has.validAfter, has.timesLimit⟩
  refine ⟨u, ?_, ⟨strictTarget, strictPaymaster, c, hasU⟩, hasU⟩
  unfold filled?
  rw [target, paymaster, Hex.treeBytes?_of_bytes? has.selector,
    Hex.treeBytes?_of_bytes? has.allowedArguments]
  simp [c.selector_length, u]

/-- The leaf of a session depends on what its fields stand for alone. -/
theorem IsEncodable.leaf_of_has {c : SessionContent} (hs : s.IsEncodable) (has : s.Has c) :
    s.leaf = .ok c.leaf := by
  obtain ⟨h, encoded, bytes⟩ := has.exists_encoding hs.target hs.paymaster
  refine leaf_eq_ok.2 ⟨h, encoded, ?_⟩
  rw [Hex.content_of_bytes? bytes]
  rfl

theorem Has.treeLeaf {c : SessionContent} (has : s.Has c) : s.treeLeaf = .ok c.leaf := by
  obtain ⟨u, filled, encodable, hasU⟩ := has.exists_filled
  exact treeLeaf_eq_ok.2 ⟨u, filled, encodable.leaf_of_has hasU⟩

/-- Sessions with one leaf have the same field values, or a collision was met. -/
theorem sameValues_or_collides {u : Session} {hashed : List Bytes} (hs : s.IsEncodable)
    (filled : t.filled? = some u) (leafS : s.leaf = .ok leaf) (leafU : u.leaf = .ok leaf)
    (knownS : s.hashed ⊆ hashed) (knownU : u.hashed ⊆ hashed) :
    s.SameValues u ∨ Collides hashed := by
  obtain ⟨c, hasC⟩ := hs.content
  obtain ⟨e, encodedS, bytesS⟩ := hasC.exists_encoding hs.target hs.paymaster
  obtain ⟨e', encodedS', same⟩ := leaf_eq_ok.1 leafS
  rw [encodedS, Except.ok.injEq] at encodedS'
  subst encodedS'
  obtain ⟨f, encodedU, rfl⟩ := leaf_eq_ok.1 leafU
  obtain ⟨d, hasD, bytesU⟩ := exists_content_of_filled? filled encodedU
  unfold Session.hashed at knownS knownU
  rw [encodedS] at knownS
  rw [encodedU] at knownU
  have outer := eq_or_collides (knownU (List.mem_cons_of_mem _ List.mem_cons_self))
    (knownS (List.mem_cons_of_mem _ List.mem_cons_self)) (Hex.ofBytes_injective same)
  rcases outer with inner | collide
  · rcases eq_or_collides (knownU List.mem_cons_self) (knownS List.mem_cons_self) inner with h | h
    · rw [Hex.content_of_bytes? bytesU, Hex.content_of_bytes? bytesS] at h
      have content := SessionContent.encode_injective h
      exact .inl ⟨c, hasC, content ▸ hasD⟩
    · exact .inr h
  · exact .inr collide

end Session

/-! ### Trees of sessions -/

namespace SessionTree

variable {sessions : List Session} {tree : SessionTree}

/-- A node is the leaf of a session in a list. -/
def IsLeaf (sessions : List Session) (x : Hex) : Prop :=
  ∃ t ∈ sessions, ∃ u, t.filled? = some u ∧ u.leaf = .ok x

theorem IsLeaf.isNode {x : Hex} (h : IsLeaf sessions x) : x.IsNode := by
  obtain ⟨t, -, u, -, leaf⟩ := h
  exact Session.isNode_of_leaf leaf

theorem hashed_subset (tree : SessionTree) {t u : Session} (ht : t ∈ sessions)
    (filled : t.filled? = some u) : u.hashed ⊆ tree.hashed sessions := by
  intro x hx
  refine List.mem_append_left _ (List.mem_flatMap.2 ⟨u, ?_, hx⟩)
  exact List.mem_filterMap.2 ⟨t, ht, filled⟩

/-- A tree is built over at least one session, from the leaves of all in ascending order. -/
theorem ofSessions_eq_ok : ofSessions sessions = .ok tree ↔ sessions ≠ [] ∧ ∃ leaves,
    (sessions.mapM fun s => orFail s.treeLeaf) = .ok leaves ∧ tree = MerkleTree.ofLeaves hashPair
      (leaves.mergeSort fun a b => decide (a.toInt?.getD 0 ≤ b.toInt?.getD 0)) := by
  unfold ofSessions
  cases sessions with
  | nil =>
    constructor
    · intro h
      cases h
    · rintro ⟨some, -⟩
      exact absurd rfl some
  | cons s rest =>
    rw [if_neg (by simp)]
    simp only [pure_eq_ok, bind_eq_ok, Except.ok.injEq, ne_eq, reduceCtorEq, not_false_eq_true,
      true_and, eq_comm (b := tree)]

/-- The nodes of a tree of sessions, the root among them. -/
theorem nodesOf_of_ofSessions (built : ofSessions sessions = .ok tree) :
    NodesOf (IsLeaf sessions) (tree.hashed sessions) tree.nodes ∧ tree.root ∈ tree.nodes := by
  obtain ⟨some, unsorted, mapped, rfl⟩ := ofSessions_eq_ok.1 built
  have leaf : ∀ x ∈ unsorted.mergeSort fun a b => decide (a.toInt?.getD 0 ≤ b.toInt?.getD 0),
      IsLeaf sessions x := by
    intro x hx
    obtain ⟨t, ht, found⟩ := exists_of_mem_mapM mapped (List.mem_mergeSort.1 hx)
    obtain ⟨u, filled, leaf⟩ := Session.treeLeaf_eq_ok.1 (orFail_eq_ok.1 found)
    exact ⟨t, ht, u, filled, leaf⟩
  have nonempty : (unsorted.mergeSort fun a b => decide (a.toInt?.getD 0 ≤ b.toInt?.getD 0)) ≠ [] := by
    have length := (forall₂_of_mapM_eq_ok mapped).length_eq
    rw [← List.length_pos_iff, List.length_mergeSort, ← length, List.length_pos_iff]
    exact some
  generalize (unsorted.mergeSort fun a b => decide (a.toInt?.getD 0 ≤ b.toInt?.getD 0)) = leaves
    at leaf nonempty
  refine ⟨⟨?_, ?_⟩, ?_⟩
  · intro x hx
    rcases MerkleTree.mem_nodes_cases hx with inside | ⟨left, right, -, rfl, -⟩
    · exact (leaf x inside).isNode
    · exact isNode_hashPair left right
  · intro x hx
    rcases MerkleTree.mem_nodes_cases hx with inside | ⟨left, right, joined, same, hl, hr⟩
    · exact .inl (leaf x inside)
    · exact .inr ⟨left, hl, right, hr, same,
        List.mem_append_right _ (List.mem_map.2 ⟨(left, right), joined, rfl⟩)⟩
  · obtain ⟨x, hx, root⟩ := MerkleTree.exists_root hashPair nonempty
    unfold SessionTree.root
    rw [root]
    exact hx

/-- A proof leads to a node of a tree only from a leaf of it. -/
theorem isLeaf_or_collides (built : ofSessions sessions = .ok tree) {s : Session} {proof : List Hex}
    {leaf : Hex} (hashes : ∀ h ∈ proof, h.WritesHash) (hleaf : s.leaf = .ok leaf)
    (reached : proof.foldl hashPair leaf ∈ tree.nodes) :
    IsLeaf sessions leaf ∨ Collides (tree.hashed sessions ++ s.hashedToProve proof) := by
  have widen := List.subset_append_left (tree.hashed sessions) (s.hashedToProve proof)
  have nodes := (nodesOf_of_ofSessions built).1.mono widen
  have leaves : ∀ x, IsLeaf sessions x →
      HashesHash (tree.hashed sessions ++ s.hashedToProve proof) x := by
    rintro x ⟨t, ht, u, filled, hu⟩
    exact (Session.hashesHash_of_leaf hu).mono fun b hb => widen (hashed_subset tree ht filled hb)
  have known : hashedOnWay proof leaf ⊆ tree.hashed sessions ++ s.hashedToProve proof := by
    unfold Session.hashedToProve
    rw [hleaf]
    exact fun x hx => List.mem_append_right _ (List.mem_append_right _ hx)
  have inside := nodes.mem_of_climb leaves hashes (Session.isNode_of_leaf hleaf) known reached
  rcases inside with inside | collide
  · rcases nodes.leaf_or_pair leaf inside with h | ⟨left, hl, right, hr, same, taken⟩
    · exact .inl h
    · -- an inner node hashes 64 bytes and a leaf 32
      obtain ⟨b, hb, length, same'⟩ := Session.hashesHash_of_leaf hleaf
      have pair := length_pairContent (nodes.isNode _ hl).writesHash (nodes.isNode _ hr).writesHash
      rw [hashPair_eq, same'] at same
      have hb' : b ∈ tree.hashed sessions ++ s.hashedToProve proof :=
        List.mem_append_right _ (List.mem_append_left _ hb)
      rcases eq_or_collides hb' taken (Hex.ofBytes_injective same) with h | h
      · rw [← h, length] at pair
        omega
      · exact .inr h
  · exact .inr collide

end SessionTree

/-- **Only committed sessions are members.** A session from which a proof of any length leads to the
root of a tree has the field values of a session of the tree, or two different byte strings with one
hash are among those that are hashed to build the tree and to follow the proof. -/
theorem listed_or_collides {sessions : List Session} {tree : SessionTree} {s : Session}
    {proof : List Hex} (built : SessionTree.ofSessions sessions = .ok tree) (encodable : s.IsEncodable)
    (hashes : ∀ h ∈ proof, h.WritesHash) (valid : validateSessionRoot proof tree.root s = .ok true) :
    (∃ t ∈ sessions, (∃ u, t.filled? = some u ∧ s.SameValues u) ∧ (t.IsEncodable → s.SameValues t)) ∨
      Collides (tree.hashed sessions ++ s.hashedToProve proof) := by
  obtain ⟨nodes, rootInside⟩ := SessionTree.nodesOf_of_ofSessions built
  obtain ⟨leaf, node, n, hleaf, hnode, number, rootNumber⟩ := validateSessionRoot_eq_true.1 valid
  have climbed := processProof_eq_ok hnode
  have isNode : node.IsNode := climbed ▸ isNode_foldl_hashPair (Session.isNode_of_leaf hleaf)
  have atRoot := isNode.eq_of_toInt (nodes.isNode _ rootInside) (number.trans rootNumber.symm)
  have reached : proof.foldl hashPair leaf ∈ tree.nodes := by
    rw [← climbed, atRoot]
    exact rootInside
  rcases SessionTree.isLeaf_or_collides built hashes hleaf reached with h | collide
  · obtain ⟨t, ht, u, filled, hu⟩ := h
    have knownS : s.hashed ⊆ tree.hashed sessions ++ s.hashedToProve proof :=
      fun x hx => List.mem_append_right _ (List.mem_append_left _ hx)
    have knownU : u.hashed ⊆ tree.hashed sessions ++ s.hashedToProve proof :=
      fun x hx => List.mem_append_left _ (SessionTree.hashed_subset tree ht filled hx)
    rcases Session.sameValues_or_collides encodable filled hleaf hu knownS knownU with same | collide
    · refine .inl ⟨t, ht, ⟨u, filled, same⟩, ?_⟩
      rintro ⟨-, -, d, hasT⟩
      obtain ⟨v, filledV, -, hasV⟩ := hasT.exists_filled
      rw [filled, Option.some.injEq] at filledV
      obtain ⟨c, hasS, hasU⟩ := same
      have content := hasU.unique (filledV ▸ hasV)
      exact ⟨c, hasS, content ▸ hasT⟩
    · exact .inr collide
  · exact .inr collide

/-- The leaf of one of two sessions proves that the other is committed. -/
theorem SessionTree.exists_of_pair {s t : Session} {c d : SessionContent} (hs : s.IsEncodable)
    (hasS : s.Has c) (hasT : t.Has d) : ∃ tree, SessionTree.ofSessions [s, t] = .ok tree ∧
      validateSessionRoot [d.leaf] tree.root s = .ok true := by
  have nodeC : c.leaf.IsNode := ⟨_, rfl, Keccak.length_digest _⟩
  have nodeD : d.leaf.IsNode := ⟨_, rfl, Keccak.length_digest _⟩
  have mapped : ([s, t].mapM fun s => orFail s.treeLeaf) = .ok [c.leaf, d.leaf] := by
    rw [List.mapM_cons, List.mapM_cons, List.mapM_nil, hasS.treeLeaf, hasT.treeLeaf]
    rfl
  refine ⟨_, SessionTree.ofSessions_eq_ok.2 ⟨by simp, _, mapped, rfl⟩, ?_⟩
  have order := List.mergeSort_perm [c.leaf, d.leaf]
    fun a b => decide (a.toInt?.getD 0 ≤ b.toInt?.getD 0)
  generalize [c.leaf, d.leaf].mergeSort _ = leaves at order ⊢
  have root : SessionTree.root (MerkleTree.ofLeaves hashPair leaves) = hashPair c.leaf d.leaf := by
    rcases List.perm_pair.1 order with rfl | rfl
    · exact hashPair_comm nodeD nodeC
    · rfl
  obtain ⟨x, -, -, number⟩ := (isNode_hashPair c.leaf d.leaf).writesHash.exists_toInt
  refine validateSessionRoot_eq_true.2 ⟨c.leaf, hashPair c.leaf d.leaf, _, hs.leaf_of_has hasS, ?_,
    number, ?_⟩
  · show joinNodes c.leaf d.leaf >>= pure = _
    rw [joinNodes_of_isNode nodeC nodeD]
    rfl
  · rw [root, number]

/-- A session that may be used twice, shown by the leaf of one that may be used without limit. -/
theorem twice_listed :
    let twice : Session := ⟨.zero, Hex.ofBytes [0xa9, 0x05, 0x9c, 0xbb], .empty, .zero, 0, 0, 2⟩
    let always : Session := ⟨.zero, Hex.ofBytes [0xa9, 0x05, 0x9c, 0xbb], .empty, .zero, 0, 0, 0⟩
    ∃ tree leaf, SessionTree.ofSessions [twice, always] = .ok tree ∧ twice.IsEncodable ∧
      (∀ h ∈ [leaf], h.WritesHash) ∧ validateSessionRoot [leaf] tree.root twice = .ok true ∧
      ((∃ t ∈ [twice, always],
          (∃ u, t.filled? = some u ∧ twice.SameValues u) ∧ (t.IsEncodable → twice.SameValues t)) ∨
        Collides (tree.hashed [twice, always] ++ twice.hashedToProve [leaf])) := by
  intro twice always
  let c : SessionContent := ⟨List.replicate 20 0, [0xa9, 0x05, 0x9c, 0xbb], [], List.replicate 20 0,
    0, 0, 2, by decide, by decide, by decide, by decide, by decide, by decide⟩
  let d : SessionContent := { c with timesLimit := 0, timesLimit_lt := by decide }
  have zero : Address.zero.bytes? = some (List.replicate 20 0) := by decide
  have strict : Address.zero.isStrict = true := by decide
  have hasC : twice.Has c := ⟨zero, Hex.bytes?_ofBytes _, Hex.bytes?_empty, zero, rfl, rfl, rfl⟩
  have hasD : always.Has d := ⟨zero, Hex.bytes?_ofBytes _, Hex.bytes?_empty, zero, rfl, rfl, rfl⟩
  have encodable : twice.IsEncodable := ⟨strict, strict, c, hasC⟩
  obtain ⟨tree, built, valid⟩ := SessionTree.exists_of_pair encodable hasC hasD
  have hashes : ∀ h ∈ [d.leaf], h.WritesHash := by
    intro h hh
    obtain rfl := List.mem_singleton.1 hh
    exact ⟨_, Hex.bytes?_ofBytes _, Keccak.length_digest _⟩
  exact ⟨tree, d.leaf, built, encodable, hashes, valid, listed_or_collides built encodable hashes valid⟩

end SessionKeys
