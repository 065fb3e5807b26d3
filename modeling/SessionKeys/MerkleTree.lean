/-!
Complete binary trees of hashes, kept as the list of their nodes from the root down: the children of
the node at `i` are at `2 * i + 1` and `2 * i + 2`, and the leaves come last, in reverse order. The
hash of a pair of nodes is a parameter.
-/

namespace SessionKeys

/-- A tree of `leafCount` leaves, as the list of its nodes. -/
structure MerkleTree (α : Type) where
  leafCount : Nat
  nodes : List α

namespace MerkleTree

variable {α : Type}

/-- Puts `count` inner nodes in front of some nodes. The node put at `i` joins two of the nodes that
are already there; counted from the node after it, they are at `i` and `i + 1`. -/
def grow (join : α → α → α) : (count : Nat) → List α → List α
  | 0, nodes => nodes
  | i + 1, nodes =>
    match nodes[i]?, nodes[i + 1]? with
    | some left, some right => grow join i (join left right :: nodes)
    | _, _ => nodes

/-- The tree over some leaves, of which the first is placed last. -/
def ofLeaves (join : α → α → α) (leaves : List α) : MerkleTree α where
  leafCount := leaves.length
  nodes := grow join (leaves.length - 1) leaves.reverse

def root? (tree : MerkleTree α) : Option α :=
  tree.nodes.head?

/-- The place of the node that is joined with the node at `i`. -/
def sibling (i : Nat) : Nat :=
  if i % 2 = 1 then i + 1 else i - 1

/-- The nodes that are joined on the way from the node at `i` to the root. -/
def path (nodes : List α) (i : Nat) : List α :=
  if 0 < i then nodes[sibling i]?.toList ++ path nodes ((i - 1) / 2) else []
termination_by i

/-- The proof of a leaf: of equal leaves the one that comes first among the nodes. -/
def proof? [DecidableEq α] (tree : MerkleTree α) (leaf : α) : Option (List α) := do
  let i ← (tree.nodes.drop (tree.leafCount - 1)).findIdx? (· = leaf)
  some (path tree.nodes (tree.leafCount - 1 + i))

/-- The node that a proof leads to from a leaf. -/
def climb (join : α → α → α) (proof : List α) (leaf : α) : α :=
  proof.foldl join leaf

end MerkleTree

end SessionKeys
