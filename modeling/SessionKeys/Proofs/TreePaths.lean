import SessionKeys.Proofs.Membership

/-!
Every leaf of a tree leads to its root. The children of an inner node stand where its place tells
(`MerkleTree.getElem?_grow`), whatever the number of leaves, so the nodes that are met on the way up from a
place are joined to the root (`MerkleTree.climb_path`). The way up does not tell which of two nodes is on the
left, so this needs a hash of pairs that does not depend on their order. Main statement:
`SessionTree.exists_proof`.
-/

namespace SessionKeys

/-! ### The places of nodes -/

namespace MerkleTree

variable {α : Type} {join : α → α → α}

/-- An inner node joins the two nodes at its children's places. The nodes that are there before an inner
node is put in front of them keep their places counted from the end. -/
theorem getElem?_grow {count : Nat} {nodes : List α} (enough : count < nodes.length) {i : Nat}
    (inner : i < count) : ∃ left right, (grow join count nodes)[2 * i + 1]? = some left ∧
      (grow join count nodes)[2 * i + 2]? = some right ∧
      (grow join count nodes)[i]? = some (join left right) := by
  induction count generalizing nodes with
  | zero => exact absurd inner (Nat.not_lt_zero i)
  | succ n ih =>
    have left : nodes[n]? = some nodes[n] := List.getElem?_eq_getElem (by omega)
    have right : nodes[n + 1]? = some nodes[n + 1] := List.getElem?_eq_getElem enough
    have more : n < (join nodes[n] nodes[n + 1] :: nodes).length := by
      rw [List.length_cons]
      omega
    have step : grow join (n + 1) nodes = grow join n (join nodes[n] nodes[n + 1] :: nodes) := by
      rw [grow, left, right]
    rw [step]
    by_cases last : i = n
    · subst last
      obtain ⟨front, grown, length⟩ := @grow_eq_append _ join _ _ more
      refine ⟨nodes[i], nodes[i + 1], ?_, ?_, ?_⟩
      · rw [grown, List.getElem?_append_right (by omega), length,
          show 2 * i + 1 - i = i + 1 by omega, List.getElem?_cons_succ, left]
      · rw [grown, List.getElem?_append_right (by omega), length,
          show 2 * i + 2 - i = i + 1 + 1 by omega, List.getElem?_cons_succ, right]
      · rw [grown, List.getElem?_append_right (by omega), length, Nat.sub_self, List.getElem?_cons_zero]
    · exact ih more (by omega)

/-- The nodes of a list are joined in pairs, each pair at the place of its parent. -/
def IsHeap (join : α → α → α) (nodes : List α) : Prop :=
  ∀ i, 0 < i → i < nodes.length → ∃ x y, nodes[i]? = some x ∧ nodes[sibling i]? = some y ∧
    (nodes[(i - 1) / 2]? = some (join x y) ∨ nodes[(i - 1) / 2]? = some (join y x))

theorem length_nodes_ofLeaves {leaves : List α} (nonempty : leaves ≠ []) :
    (ofLeaves join leaves).nodes.length = 2 * (leaves.length - 1) + 1 := by
  have positive := List.length_pos_iff.2 nonempty
  have enough : leaves.length - 1 < leaves.reverse.length := by
    rw [List.length_reverse]
    omega
  obtain ⟨inner, grown, length⟩ := @grow_eq_append _ join _ _ enough
  show (grow join (leaves.length - 1) leaves.reverse).length = _
  rw [grown, List.length_append, length, List.length_reverse]
  omega

theorem isHeap_ofLeaves {leaves : List α} (nonempty : leaves ≠ []) :
    IsHeap join (ofLeaves join leaves).nodes := by
  intro i positive inside
  have length := @length_nodes_ofLeaves _ join _ nonempty
  have leaf := List.length_pos_iff.2 nonempty
  have enough : leaves.length - 1 < leaves.reverse.length := by
    rw [List.length_reverse]
    omega
  have parent : (i - 1) / 2 < leaves.length - 1 := by omega
  obtain ⟨left, right, hl, hr, joined⟩ := @getElem?_grow _ join _ _ enough _ parent
  change (ofLeaves join leaves).nodes[_]? = _ at hl hr joined
  unfold sibling
  by_cases odd : i % 2 = 1
  · rw [if_pos odd]
    rw [show 2 * ((i - 1) / 2) + 1 = i by omega] at hl
    rw [show 2 * ((i - 1) / 2) + 2 = i + 1 by omega] at hr
    exact ⟨left, right, hl, hr, .inl joined⟩
  · rw [if_neg odd]
    rw [show 2 * ((i - 1) / 2) + 1 = i - 1 by omega] at hl
    rw [show 2 * ((i - 1) / 2) + 2 = i by omega] at hr
    exact ⟨right, left, hr, hl, .inr joined⟩

/-! ### The way up -/

theorem path_zero (nodes : List α) : path nodes 0 = [] := by
  unfold path
  rfl

theorem path_of_pos {nodes : List α} {i : Nat} (positive : 0 < i) {y : α}
    (beside : nodes[sibling i]? = some y) : path nodes i = y :: path nodes ((i - 1) / 2) := by
  rw [path, if_pos positive, beside]
  rfl

/-- What is met on the way up from a place of a heap are nodes of it. -/
theorem path_subset (nodes : List α) (i : Nat) : path nodes i ⊆ nodes := by
  induction i using Nat.strongRecOn with
  | ind i ih =>
    intro x hx
    rw [path] at hx
    split at hx
    next positive =>
      rcases List.mem_append.1 hx with beside | above
      · exact List.mem_of_getElem? (Option.mem_toList.1 beside)
      · exact ih _ (by omega) above
    next => exact absurd hx List.not_mem_nil

/-- **The way up from any place of a heap ends at the root.** The induction is on the place, since the
parent of a node stands before it. -/
theorem climb_path {nodes : List α} (heap : IsHeap join nodes)
    (comm : ∀ x ∈ nodes, ∀ y ∈ nodes, join x y = join y x) {i : Nat} {x : α}
    (here : nodes[i]? = some x) : nodes.head? = some (climb join (path nodes i) x) := by
  induction i using Nat.strongRecOn generalizing x with
  | ind i ih =>
    rcases Nat.eq_zero_or_pos i with rfl | positive
    · rw [path_zero, List.head?_eq_getElem?, here]
      rfl
    · have inside : i < nodes.length := (List.getElem?_eq_some_iff.1 here).1
      obtain ⟨x', y, here', beside, above⟩ := heap i positive inside
      obtain rfl : x = x' := Option.some.inj (here.symm.trans here')
      have same := comm x (List.mem_of_getElem? here) y (List.mem_of_getElem? beside)
      rw [← same, or_self] at above
      rw [path_of_pos positive beside]
      exact ih _ (by omega) above

/-- A leaf has a proof, which climbs to the root. -/
theorem exists_proof? [DecidableEq α] {leaves : List α}
    (comm : ∀ x ∈ (ofLeaves join leaves).nodes, ∀ y ∈ (ofLeaves join leaves).nodes, join x y = join y x)
    {leaf : α} (listed : leaf ∈ leaves) : ∃ proof, proof? (ofLeaves join leaves) leaf = some proof ∧
      proof ⊆ (ofLeaves join leaves).nodes ∧
      root? (ofLeaves join leaves) = some (climb join proof leaf) := by
  have nonempty := List.ne_nil_of_mem listed
  have last := @drop_nodes_ofLeaves _ join leaves
  have found : (leaves.reverse.findIdx? fun x => decide (x = leaf)) ≠ none := by
    rw [ne_eq, List.findIdx?_eq_none_iff]
    intro none
    simpa using none leaf (List.mem_reverse.2 listed)
  obtain ⟨i, at_i⟩ := Option.ne_none_iff_exists'.1 found
  obtain ⟨inside, same, -⟩ := List.findIdx?_eq_some_iff_getElem.1 at_i
  have here : (ofLeaves join leaves).nodes[leaves.length - 1 + i]? = some leaf := by
    rw [← List.getElem?_drop, last, List.getElem?_eq_getElem inside, of_decide_eq_true same]
  refine ⟨path (ofLeaves join leaves).nodes (leaves.length - 1 + i), ?_, path_subset _ _,
    climb_path (isHeap_ofLeaves nonempty) comm here⟩
  unfold proof?
  rw [show (ofLeaves join leaves).leafCount = leaves.length from rfl, last, at_i]
  rfl

theorem proof?_eq_none [DecidableEq α] {leaves : List α} {leaf : α} (unlisted : leaf ∉ leaves) :
    proof? (ofLeaves join leaves) leaf = none := by
  have none : (leaves.reverse.findIdx? fun x => decide (x = leaf)) = none := by
    rw [List.findIdx?_eq_none_iff]
    intro x hx
    have : x ≠ leaf := fun same => unlisted (same ▸ List.mem_reverse.1 hx)
    simpa using this
  unfold proof?
  rw [show (ofLeaves join leaves).leafCount = leaves.length from rfl, drop_nodes_ofLeaves, none]
  rfl

end MerkleTree

/-! ### Trees of sessions -/

/-- A proof of nodes leads from a node to what it climbs to. -/
theorem processProof_of_isNode {proof : List Hex} {node : Hex} (nodes : ∀ h ∈ proof, h.IsNode)
    (isNode : node.IsNode) : processProof proof node = .ok (MerkleTree.climb hashPair proof node) := by
  unfold processProof MerkleTree.climb
  induction proof generalizing node with
  | nil => rfl
  | cons sibling rest ih =>
    rw [List.foldlM_cons, joinNodes_of_isNode isNode (nodes sibling List.mem_cons_self), ok_bind,
      List.foldl_cons]
    exact ih (fun h hh => nodes h (List.mem_cons_of_mem _ hh)) (isNode_hashPair node sibling)

namespace SessionTree

variable {sessions : List Session} {tree : SessionTree}

theorem isNode_root (built : ofSessions sessions = .ok tree) : tree.root.IsNode := by
  obtain ⟨nodes, root⟩ := nodesOf_of_ofSessions built
  exact nodes.isNode _ root

/-- The leaves of a tree are those of its sessions. -/
theorem exists_leaves (built : ofSessions sessions = .ok tree) : ∃ leaves,
    tree = MerkleTree.ofLeaves hashPair leaves ∧
      ∀ leaf, leaf ∈ leaves ↔ ∃ s ∈ sessions, s.treeLeaf = .ok leaf := by
  obtain ⟨-, leaves, mapped, rfl⟩ := ofSessions_eq_ok.1 built
  refine ⟨_, rfl, fun leaf => ?_⟩
  rw [List.mem_mergeSort]
  constructor
  · intro listed
    obtain ⟨s, hs, found⟩ := exists_of_mem_mapM mapped listed
    exact ⟨s, hs, orFail_eq_ok.1 found⟩
  · rintro ⟨s, hs, found⟩
    obtain ⟨i, hi, rfl⟩ := List.mem_iff_getElem.1 hs
    obtain ⟨length, each⟩ := List.forall₂_iff_get.1 (forall₂_of_mapM_eq_ok mapped)
    have same := (each i hi (length ▸ hi)).symm.trans (orFail_eq_ok.2 found)
    exact Except.ok.inj same ▸ List.getElem_mem _

/-- **A tree has a proof for every leaf of its sessions**, and it leads to the root. -/
theorem exists_proof (built : ofSessions sessions = .ok tree) {s t : Session} {leaf : Hex}
    (listed : t ∈ sessions) (leafT : t.treeLeaf = .ok leaf) (leafS : s.treeLeaf = .ok leaf) :
    ∃ proof, tree.proof s = .ok proof ∧ (∀ h ∈ proof, h.IsNode) ∧
      processProof proof leaf = .ok tree.root := by
  have nodes := (nodesOf_of_ofSessions built).1.isNode
  obtain ⟨leaves, rfl, holds⟩ := exists_leaves built
  have inside := (holds leaf).2 ⟨t, listed, leafT⟩
  obtain ⟨proof, found, subset, root⟩ := MerkleTree.exists_proof?
    (fun x hx y hy => hashPair_comm (nodes x hx) (nodes y hy)) inside
  obtain ⟨u, -, leafU⟩ := Session.treeLeaf_eq_ok.1 leafT
  have isNode := fun h hh => nodes h (subset hh)
  refine ⟨proof, ?_, isNode, ?_⟩
  · unfold SessionTree.proof
    rw [leafS]
    simp only [found]
  · rw [processProof_of_isNode isNode (Session.isNode_of_leaf leafU), SessionTree.root, root]
    rfl

/-- A session is refused a proof if no session of the tree has its leaf. -/
theorem proof_eq_error (built : ofSessions sessions = .ok tree) {s : Session}
    (unlisted : ∀ leaf, s.treeLeaf = .ok leaf → ∀ t ∈ sessions, t.treeLeaf ≠ .ok leaf) :
    tree.proof s = .error .notALeaf := by
  obtain ⟨leaves, rfl, holds⟩ := exists_leaves built
  unfold SessionTree.proof
  cases hs : s.treeLeaf with
  | error e => rfl
  | ok leaf =>
    have outside : leaf ∉ leaves := by
      rw [holds]
      rintro ⟨t, ht, same⟩
      exact unlisted leaf hs t ht same
    simp only [MerkleTree.proof?_eq_none outside]

end SessionTree

end SessionKeys
