import SessionKeys.Proofs.Batches
import SessionKeys.Proofs.EncodableRequests
import SessionKeys.Proofs.ServerSteps
import SessionKeys.Proofs.TreePaths

/-!
What is committed can be shown. Sessions that are read can be encoded, so a tree of them is built and every
one of them has a proof in it, a session that is listed twice included. The root of the tree can be handed in
as it is shown, and a session and its proof that are put into the signature of an operation are read from it
as members under that root. A session that is not listed has no proof, unless it was hashed to the leaf of a
listed one. Main statement: `committed_sessions_shown`.
-/

namespace SessionKeys

/-! ### Sessions as they are read again -/

/-- A session that is read from a signature stands for what it was written from. -/
theorem Session.Has.normal {s : Session} {c : SessionContent} (has : s.Has c) :
    s.normal.IsEncodable ∧ s.normal.Has c := by
  have address {a : Address} {b : Bytes} (hb : a.bytes? = some b) :
      a.normal.isStrict = true ∧ a.normal.bytes? = some b := by
    have length := (Address.bytes?_eq_some_iff.1 hb).2
    rw [Address.normal_of_bytes? hb]
    exact ⟨Abi.isStrict_ofBytes length, Address.bytes?_ofBytes length⟩
  obtain ⟨strictTarget, target⟩ := address has.target
  obtain ⟨strictPaymaster, paymaster⟩ := address has.paymaster
  have again : s.normal.Has c := ⟨target, Hex.bytes?_lower has.selector,
    Hex.bytes?_lower has.allowedArguments, paymaster, has.validUntil, has.validAfter, has.timesLimit⟩
  exact ⟨⟨strictTarget, strictPaymaster, c, again⟩, again⟩

theorem Session.IsEncodable.leaf_normal {s : Session} (h : s.IsEncodable) : s.normal.leaf = s.leaf := by
  obtain ⟨c, has⟩ := h.content
  rw [h.leaf_of_has has, has.normal.1.leaf_of_has has.normal.2]

/-- A session that can be encoded has the same leaf in a tree as elsewhere. -/
theorem Session.IsEncodable.exists_leaf {s : Session} (h : s.IsEncodable) :
    ∃ leaf, s.leaf = .ok leaf ∧ s.treeLeaf = .ok leaf := by
  obtain ⟨c, has⟩ := h.content
  exact ⟨c.leaf, h.leaf_of_has has, has.treeLeaf⟩

theorem Hex.IsNode.lower {h : Hex} (node : h.IsNode) : h.lower = h := by
  obtain ⟨b, rfl, -⟩ := node
  exact Hex.lower_ofBytes b

/-! ### Signatures that can be written -/

namespace SignatureParts

variable {mode : ExecutionMode} {parts : SignatureParts} {entries : List SessionEntry}

theorem entries_single_eq_ok : parts.entries .single = .ok entries ↔
    ∃ proof proofs session sessions given rest, parts.proofs = proof :: proofs ∧
      parts.sessions = session :: sessions ∧ parts.arguments = given :: rest ∧
      entries = [⟨proof, session, given⟩] := by
  unfold SignatureParts.entries
  cases parts.proofs <;> cases parts.sessions <;> cases parts.arguments <;> simp [eq_comm]

theorem entries_batch_eq_ok : parts.entries .batch = .ok entries ↔
    ¬(parts.sessions.length ≠ parts.proofs.length ∨ parts.arguments.length ≠ parts.proofs.length) ∧
      entries = zipEntries parts.proofs parts.sessions parts.arguments := by
  unfold SignatureParts.entries
  rw [error_ite_eq_ok, Except.ok.injEq, eq_comm (b := entries)]

/-- A signature can be written if its parts show something for the calls. -/
theorem AreEncodable.exists_signature (encodable : parts.AreEncodable)
    (shows : parts.entries mode = .ok entries) : ∃ signature, encodeSignature mode parts = .ok signature := by
  cases mode with
  | single =>
    obtain ⟨proof, _, session, _, given, _, hproofs, hsessions, harguments, -⟩ := entries_single_eq_ok.1 shows
    have fits : singleFields.Fits (proof, parts.operator, session.values, given,
        parts.operatorSignature, ()) :=
      ⟨encodable.proofs proof (hproofs ▸ .head _), encodable.operator,
        (encodable.sessions session (hsessions ▸ .head _)).fits,
        encodable.arguments given (harguments ▸ .head _), encodable.operatorSignature, trivial⟩
    obtain ⟨signature, written⟩ := encodable.exists_encodePayload (by decide) fits
    show ∃ signature, encodeSingleSignature parts = .ok signature
    unfold encodeSingleSignature
    rw [hproofs, hsessions, harguments]
    exact ⟨signature, orFail_eq_ok.2 written⟩
  | batch =>
    obtain ⟨signature, written⟩ := encodable.exists_encodePayload (by decide) encodable.fits_batch
    exact ⟨signature, orFail_eq_ok.2 written⟩

theorem map_zipEntries_normal (proofs : List (List Hex)) (sessions : List Session) (given : List Hex) :
    zipEntries (proofs.map fun proof => proof.map Hex.lower) (sessions.map Session.normal)
      (given.map Hex.lower) = (zipEntries proofs sessions given).map SessionEntry.normal := by
  induction proofs generalizing sessions given with
  | nil => rfl
  | cons proof proofs ih =>
    cases sessions with
    | nil => rfl
    | cons session sessions =>
      cases given with
      | nil => rfl
      | cons first given => exact congrArg _ (ih sessions given)

/-- The parts as they are read show what they were written to show. -/
theorem entries_normal (shows : parts.entries mode = .ok entries) :
    parts.normal.entries mode = .ok (entries.map SessionEntry.normal) := by
  cases mode with
  | single =>
    obtain ⟨proof, proofs, session, sessions, given, rest, hproofs, hsessions, harguments, rfl⟩ :=
      entries_single_eq_ok.1 shows
    refine entries_single_eq_ok.2 ⟨_, _, _, _, _, _, congrArg (List.map _) hproofs,
      congrArg (List.map _) hsessions, congrArg (List.map _) harguments, rfl⟩
  | batch =>
    obtain ⟨lengths, rfl⟩ := entries_batch_eq_ok.1 shows
    refine entries_batch_eq_ok.2 ⟨?_, (map_zipEntries_normal _ _ _).symm⟩
    simpa only [normal, List.length_map] using lengths

end SignatureParts

/-! ### What a tree answers -/

namespace SessionTree

variable {sessions : List Session} {tree : SessionTree}

/-- A tree shows a session by its leaf, and by a proof that leads from there to the root. -/
structure Shows (tree : SessionTree) (s : Session) (leaf : Hex) (proof : List Hex) : Prop where
  leaf_eq : s.leaf = .ok leaf
  proof_eq : tree.proof s = .ok proof
  leads : processProof proof leaf = .ok tree.root

/-- What is answered for a session. -/
def entryJson (index : Nat) (s : Session) (leaf : Hex) (proof : List Hex) : Json :=
  .object [("index", .ofInt index), ("to", .string s.target.text), ("selector", .string s.selector.text),
    ("allowedArguments", .string s.allowedArguments.text), ("leaf", .string leaf.text),
    ("proof", .array (proof.map fun h => .string h.text))]

theorem exists_of_encodable (nonempty : sessions ≠ []) (encodable : ∀ s ∈ sessions, s.IsEncodable) :
    ∃ tree, ofSessions sessions = .ok tree := by
  have each : ∀ s ∈ sessions, ∃ leaf, orFail s.treeLeaf = .ok leaf ∧ s.leaf = .ok leaf := by
    intro s hs
    obtain ⟨leaf, committed, inTree⟩ := (encodable s hs).exists_leaf
    exact ⟨leaf, orFail_eq_ok.2 inTree, committed⟩
  obtain ⟨leaves, mapped, -⟩ := @exists_mapM_eq_ok _ _ _ _ (fun s : Session => orFail s.treeLeaf) id
    (fun leaf s => s.leaf = .ok leaf) _ each
  exact ⟨_, ofSessions_eq_ok.2 ⟨nonempty, leaves, mapped, rfl⟩⟩

/-- Every session of a tree is shown by it. -/
theorem exists_shows (built : ofSessions sessions = .ok tree) {s : Session} (listed : s ∈ sessions)
    (encodable : s.IsEncodable) : ∃ leaf proof, tree.Shows s leaf proof ∧ ∀ h ∈ proof, h.IsNode := by
  obtain ⟨leaf, committed, inTree⟩ := encodable.exists_leaf
  obtain ⟨proof, found, nodes, leads⟩ := exists_proof built listed inTree inTree
  exact ⟨leaf, proof, ⟨committed, found, leads⟩, nodes⟩

theorem Shows.leafJson {s : Session} {leaf : Hex} {proof : List Hex} (shows : tree.Shows s leaf proof)
    (index : Nat) : Engine.leafJson tree index s = .ok (entryJson index s leaf proof) := by
  unfold Engine.leafJson
  rw [shows.leaf_eq, shows.proof_eq]
  rfl

/-- The answer about a tree shows each of its sessions in its place. -/
theorem exists_text (built : ofSessions sessions = .ok tree) (encodable : ∀ s ∈ sessions, s.IsEncodable) :
    ∃ entries, Engine.treeText sessions = .ok (successText
        s!"Built session tree with {sessions.length} session(s)" [("Root", tree.root.text)] ++ "\n\n" ++
          (Json.array entries).pretty 0) ∧
      List.Forall₂ (fun entry (placed : Session × Nat) => ∃ leaf proof, tree.Shows placed.1 leaf proof ∧
        entry = entryJson placed.2 placed.1 leaf proof) entries sessions.zipIdx := by
  have shown : ∀ placed ∈ sessions.zipIdx, ∃ entry, Engine.leafJson tree placed.2 placed.1 = .ok entry ∧
      ∃ leaf proof, tree.Shows placed.1 leaf proof ∧ entry = entryJson placed.2 placed.1 leaf proof := by
    rintro ⟨s, i⟩ hp
    have listed : s ∈ sessions := (List.mem_zipIdx' hp).2 ▸ List.getElem_mem _
    obtain ⟨leaf, proof, shows, -⟩ := exists_shows built listed (encodable _ listed)
    exact ⟨_, shows.leafJson i, leaf, proof, shows, rfl⟩
  obtain ⟨entries, mapped, each⟩ := @exists_mapM_eq_ok _ _ _ _
    (fun placed : Session × Nat => Engine.leafJson tree placed.2 placed.1) id (fun entry placed =>
      ∃ leaf proof, tree.Shows placed.1 leaf proof ∧ entry = entryJson placed.2 placed.1 leaf proof) _ shown
  rw [List.map_id] at each
  refine ⟨entries, ?_, each⟩
  unfold Engine.treeText
  rw [built, ok_bind]
  exact congrArg (· >>= _) mapped

/-- What is shown of a session is accepted under the root when it is read from a signature. -/
theorem Shows.verify_normal {s : Session} {leaf : Hex} {proof : List Hex} (shows : tree.Shows s leaf proof)
    (encodable : s.IsEncodable) (root : tree.root.IsNode) :
    verifySessionMembership proof tree.root s.normal = .ok () := by
  obtain ⟨b, -, -, number⟩ := root.writesHash.exists_toInt
  exact verifySessionMembership_eq_ok.2
    ⟨leaf, tree.root, _, encodable.leaf_normal.trans shows.leaf_eq, shows.leads, number, number⟩

/-- A session without a proof in a tree is refused one, or has the leaf of a listed session. -/
theorem refused_or_same_leaf (built : ofSessions sessions = .ok tree)
    (encodable : ∀ t ∈ sessions, t.IsEncodable) (s : Session) : tree.proof s = .error .notALeaf ∨
      ∃ t ∈ sessions, ∃ u leaf, s.filled? = some u ∧ u.leaf = .ok leaf ∧ t.leaf = .ok leaf := by
  by_cases shared : ∃ leaf, s.treeLeaf = .ok leaf ∧ ∃ t ∈ sessions, t.treeLeaf = .ok leaf
  · obtain ⟨leaf, leafS, t, ht, leafT⟩ := shared
    obtain ⟨u, filled, leafU⟩ := Session.treeLeaf_eq_ok.1 leafS
    obtain ⟨leaf', committed, inTree⟩ := (encodable t ht).exists_leaf
    obtain rfl := Except.ok.inj (leafT.symm.trans inTree)
    exact .inr ⟨t, ht, u, leaf, filled, leafU, committed⟩
  · refine .inl (proof_eq_error built fun leaf leafS t ht leafT => shared ⟨leaf, leafS, t, ht, leafT⟩)

end SessionTree

/-! ### Installing a root -/

/-- The root that is handed in as it was shown becomes the root of the operator. -/
theorem Engine.root_of_setSessionRoot (e : Engine) {root : Hex} (writes : root.WritesHash) {path : Path}
    {fields : List (String × Json)} {request : ToolRequest}
    (given : Json.field? fields "session_root" = some (.string root.text))
    (read : ToolRequest.reader .setSessionRoot path (some (.object fields)) = .ok request) :
    ∃ operator, request = .setSessionRoot operator root ∧
      ((e.run request).engine.store.permission e.config.walletAddress operator).sessionRoot = root := by
  obtain ⟨parts, same, read⟩ := Reader.fields_eq_ok.1 read
  cases same
  simp only [ToolRequest.ofFields, Reading.seq_eq_ok, Reading.fmap_eq_ok] at read
  obtain ⟨_, found, ⟨operator, -, rfl⟩, hfound, rfl⟩ := read
  unfold Reader.field at hfound
  rw [given, Reader.hash_text writes] at hfound
  cases hfound
  refine ⟨operator, rfl, ?_⟩
  show ((e.store.updatePermission e.config.walletAddress operator _).permission _ _).sessionRoot = root
  simp [Store.updatePermission, Store.permission, Store.setPermission]

/-! ### All together -/

/-- **Every committed session can be shown.** Of sessions that are read, at least one and none less for being
listed twice, a tree is built. The answer shows each of them by its leaf and by a proof that leads from there
to the root that it shows. The root can be handed in as it is shown, and is installed. A listed session that is
put into the signature of an operation together with its proof is read from it as a member under that root.
And a session that is not listed is refused a proof, unless two different byte strings were hashed alike for
its leaf and for that of a listed session. -/
theorem committed_sessions_shown {sessions : List Session} (nonempty : sessions ≠ [])
    (read : ∀ s ∈ sessions, ∃ path value, Reader.session path value = .ok s) :
    ∃ tree entries, SessionTree.ofSessions sessions = .ok tree ∧
      (∀ e : Engine, (e.run (.buildSessionTree sessions)).answer = .plain (successText
        s!"Built session tree with {sessions.length} session(s)" [("Root", tree.root.text)] ++ "\n\n" ++
          (Json.array entries).pretty 0)) ∧
      List.Forall₂ (fun entry (placed : Session × Nat) => ∃ leaf proof, tree.Shows placed.1 leaf proof ∧
        entry = SessionTree.entryJson placed.2 placed.1 leaf proof) entries sessions.zipIdx ∧
      (∀ (e : Engine) path fields request,
        Json.field? fields "session_root" = some (.string tree.root.text) →
        ToolRequest.reader .setSessionRoot path (some (.object fields)) = .ok request →
        ∃ operator, request = .setSessionRoot operator tree.root ∧
          ((e.run request).engine.store.permission e.config.walletAddress operator).sessionRoot =
            tree.root) ∧
      (∀ (mode : ExecutionMode) (parts : SignatureParts) given, parts.AreEncodable →
        parts.entries mode = .ok given → ∃ signature, encodeSignature mode parts = .ok signature ∧
          (signature.chars.length < textBound → ∃ payload shown,
            splitValidatorSignature signature = .ok ⟨parts.validator.normal, payload⟩ ∧
            SessionSignature.decode mode payload = .ok shown ∧
            shown.entries = given.map SessionEntry.normal ∧
            ∀ entry ∈ given, entry.session ∈ sessions → tree.proof entry.session = .ok entry.proof →
              verifySessionMembership entry.normal.proof tree.root entry.normal.session = .ok ())) ∧
      ∀ s, tree.proof s = .error .notALeaf ∨ ∃ t ∈ sessions, ∃ u, s.filled? = some u ∧
        (t.SameValues u ∨ Collides (t.hashed ++ u.hashed)) ∧ (s.IsEncodable → s.SameValues u) := by
  have encodable : ∀ s ∈ sessions, s.IsEncodable := by
    intro s hs
    obtain ⟨path, value, h⟩ := read s hs
    exact Reader.isEncodable_of_session h
  obtain ⟨tree, built⟩ := SessionTree.exists_of_encodable nonempty encodable
  obtain ⟨entries, text, each⟩ := SessionTree.exists_text built encodable
  have root := SessionTree.isNode_root built
  refine ⟨tree, entries, built, fun e => ?_, each,
    fun e path fields request given read => e.root_of_setSessionRoot root.writesHash given read,
    fun mode parts given writable shows => ?_, fun s => ?_⟩
  · show ToolAnswer.ofExcept .buildSessionTree (Engine.treeText sessions) = _
    rw [text]
    rfl
  · obtain ⟨signature, encoded⟩ := writable.exists_signature shows
    refine ⟨signature, encoded, fun short => ?_⟩
    obtain ⟨payload, split, decoded⟩ := SignatureParts.decode_of_encodeSignature writable encoded short
    rw [SignatureParts.entries_normal shows] at decoded
    refine ⟨payload, _, split, decoded, rfl, fun entry _ listed proved => ?_⟩
    obtain ⟨leaf, proof, shown, nodes⟩ := SessionTree.exists_shows built listed (encodable _ listed)
    obtain rfl := Except.ok.inj (proved.symm.trans shown.proof_eq)
    have same : entry.normal.proof = entry.proof :=
      (List.map_congr_left fun h hh => (nodes h hh).lower).trans (List.map_id _)
    rw [same]
    exact shown.verify_normal (encodable _ listed) root
  · refine (SessionTree.refused_or_same_leaf built encodable s).imp_right ?_
    rintro ⟨t, ht, u, leaf, filled, leafU, leafT⟩
    refine ⟨t, ht, u, filled, ?_, fun writable => ?_⟩
    · exact Session.sameValues_or_collides (encodable t ht) filled leafT leafU
        (List.subset_append_left _ _) (List.subset_append_right _ _)
    · obtain ⟨c, hasS⟩ := writable.content
      obtain ⟨v, filledS, -, hasV⟩ := hasS.exists_filled
      obtain rfl := Option.some.inj (filled.symm.trans filledS)
      exact ⟨c, hasS, hasV⟩

/-- A transfer that may be made once is listed beside one that may be made twice, and again. All three are
shown, and a transfer that may be made thrice is refused a proof if no hash collides. -/
theorem listed_again_shown :
    let transfer (times : String) : Json := .object [
      ("to", .string "0x4000000000000000000000000000000000000004"), ("selector", .string "0xA9059CBB"), ("times_limit", .string times)]
    ∃ once twice thrice tree, Reader.session [] (some (transfer "1")) = .ok once ∧
      Reader.session [] (some (transfer "2")) = .ok twice ∧
      Reader.session [] (some (transfer "3")) = .ok thrice ∧
      SessionTree.ofSessions [once, twice, once] = .ok tree ∧
      (∃ leaf proof, tree.Shows once leaf proof) ∧ (∃ leaf proof, tree.Shows twice leaf proof) ∧
      (tree.proof thrice = .error .notALeaf ∨ ∃ t ∈ [once, twice, once], ∃ u, thrice.filled? = some u ∧
        (t.SameValues u ∨ Collides (t.hashed ++ u.hashed)) ∧ (thrice.IsEncodable → thrice.SameValues u)) := by
  intro transfer
  have found : ∀ times ∈ ["1", "2", "3"],
      (Reader.session [] (some (transfer times))).value?.isSome = true := by
    decide +kernel
  have reads : ∀ times ∈ ["1", "2", "3"], ∃ s, Reader.session [] (some (transfer times)) = .ok s := by
    intro times ht
    obtain ⟨s, hs⟩ := Option.isSome_iff_exists.1 (found times ht)
    exact ⟨s, Reading.value?_eq_some.1 hs⟩
  obtain ⟨once, h1⟩ := reads "1" (by decide)
  obtain ⟨twice, h2⟩ := reads "2" (by decide)
  obtain ⟨thrice, h3⟩ := reads "3" (by decide)
  have read : ∀ s ∈ [once, twice, once], ∃ path value, Reader.session path value = .ok s := by
    exact List.forall_mem_cons.2 ⟨⟨_, _, h1⟩, List.forall_mem_cons.2 ⟨⟨_, _, h2⟩,
      List.forall_mem_singleton.2 ⟨_, _, h1⟩⟩⟩
  obtain ⟨tree, entries, built, -, each, -, -, unlisted⟩ := committed_sessions_shown (by simp) read
  cases each with
  | cons first rest =>
    cases rest with
    | cons second rest =>
      obtain ⟨leaf, proof, shown, -⟩ := first
      obtain ⟨leaf', proof', shown', -⟩ := second
      exact ⟨once, twice, thrice, tree, h1, h2, h3, built, ⟨leaf, proof, shown⟩, ⟨leaf', proof', shown'⟩,
        unlisted thrice⟩

end SessionKeys
