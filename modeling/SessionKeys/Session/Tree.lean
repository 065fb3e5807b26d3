import SessionKeys.MerkleTree
import SessionKeys.Session

/-!
Committing sessions under one root, and showing that a session is committed. Leaves are placed in
ascending order, and the hash of a pair of nodes does not depend on their order. A tree is less strict
than a leaf about how a session is written: it fills up what is too short, and takes addresses with
any checksum.
-/

namespace SessionKeys

/-- The hash of two nodes, of which the smaller number comes first. -/
def hashPair (a b : Hex) : Hex :=
  if a.toInt?.getD 0 < b.toInt?.getD 0 then Hex.keccak (a ++ b) else Hex.keccak (b ++ a)

/-- The hash of two nodes, both of which have to write a number. -/
def joinNodes (a b : Hex) : Except Failure Hex := do
  discard a.toInt
  discard b.toInt
  return hashPair a b

/-- The node that a proof leads to from a leaf. -/
def processProof (proof : List Hex) (leaf : Hex) : Except Failure Hex :=
  proof.foldlM joinNodes leaf

/-! ### Leaves of a tree -/

/-- The bytes that a tree reads from a text: digits behind the mark, which may be a capital, of which the
first stands alone if their number is odd. -/
def Hex.treeBytes? (h : Hex) : Option Bytes :=
  match h.chars with
  | '0' :: mark :: digits => if mark = 'x' ∨ mark = 'X' then Hex.filledBytes? digits else none
  | _ => none

theorem Hex.treeBytes?_of_bytes? {h : Hex} {b : Bytes} (hb : h.bytes? = some b) :
    h.treeBytes? = some b := by
  obtain ⟨d, rfl, hd⟩ := Hex.bytes?_eq_some_iff.1 hb
  simpa [Hex.treeBytes?, Hex.ofDigits] using Hex.filledBytes?_of_bytesOfDigits? hd

/-- An address of at most twenty bytes, filled up with zero bytes in front and in small letters. -/
def Address.filled? (a : Address) : Option Address := do
  let bytes ← a.hex.treeBytes?
  guard (bytes.length ≤ 20)
  return ⟨Hex.ofBytes (List.replicate (20 - bytes.length) 0 ++ bytes)⟩

/-- A session with its addresses filled up, and its selector of at most four bytes with zero bytes
behind. -/
def Session.filled? (s : Session) : Option Session := do
  let target ← s.target.filled?
  let selector ← s.selector.treeBytes?
  let allowedArguments ← s.allowedArguments.treeBytes?
  let paymaster ← s.paymaster.filled?
  guard (selector.length ≤ 4)
  return { s with
    target, paymaster
    selector := Hex.ofBytes (selector ++ List.replicate (4 - selector.length) 0)
    allowedArguments := Hex.ofBytes allowedArguments }

/-- The leaf that a tree holds for a session: that of the session filled up. -/
def Session.treeLeaf (s : Session) : Except EncodingError Hex :=
  match s.filled?.bind fun t => t.leaf.toOption with
  | some leaf => .ok leaf
  | none => .error .invalidLeaf

/-- The tree that commits some sessions. -/
abbrev SessionTree := MerkleTree Hex

namespace SessionTree

/-- Commits some sessions, at least one. -/
def ofSessions (sessions : List Session) : Except Failure SessionTree := do
  if sessions.isEmpty then throw .noLeaves
  let leaves ← sessions.mapM fun s => orFail s.treeLeaf
  return MerkleTree.ofLeaves hashPair (leaves.mergeSort fun a b => decide (a.toInt?.getD 0 ≤ b.toInt?.getD 0))

def root (tree : SessionTree) : Hex :=
  (MerkleTree.root? tree).getD .empty

/-- The proof that a session is committed. -/
def proof (tree : SessionTree) (s : Session) : Except Refusal (List Hex) :=
  match s.treeLeaf with
  | .error _ => .error .notALeaf
  | .ok leaf =>
    match MerkleTree.proof? tree leaf with
    | none => .error .notALeaf
    | some path => .ok path

end SessionTree

/-- Whether a proof leads from a session to a root, compared as numbers. -/
def validateSessionRoot (proof : List Hex) (root : Hex) (s : Session) : Except Failure Bool := do
  let node ← processProof proof (← orFail s.leaf)
  return (← node.toInt) == (← root.toInt)

/-- Checks that a session is committed under a root. -/
def verifySessionMembership (proof : List Hex) (root : Hex) (s : Session) : Except Failure Unit := do
  unless ← validateSessionRoot proof root s do
    throw (.refused .notCommitted)

/-- The hash of 32 bytes that a text writes. -/
def parseHash (text : String) : Except Refusal Hex :=
  let h := Hex.ofText text
  match h.bytes? with
  | some b => if b.length = 32 then .ok h else .error (.notAHash text)
  | none => .error (.notAHash text)

end SessionKeys
