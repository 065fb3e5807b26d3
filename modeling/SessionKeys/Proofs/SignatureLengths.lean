import SessionKeys.Proofs.WrittenSignatures

/-!
The lengths of the lists that go into a signature. A signature for a single call is made of the first entry of
each list, so that further entries are left out; one for several calls is made of lists of any lengths, but it
is read only if they are of one length. Main statement: `signature_keeps_lengths_iff`.
-/

namespace SessionKeys

/-! ### Lengths -/

namespace SignatureParts

/-- Some list has no entry. -/
def LacksEntry (parts : SignatureParts) : Prop :=
  parts.proofs = [] ∨ parts.sessions = [] ∨ parts.arguments = []

/-- Parts with the first entry of each list only. -/
def firsts (parts : SignatureParts) : SignatureParts where
  validator := parts.validator
  proofs := parts.proofs.take 1
  operator := parts.operator
  sessions := parts.sessions.take 1
  arguments := parts.arguments.take 1
  operatorSignature := parts.operatorSignature
  permit := parts.permit

/-- A signature that some parts make up for a mode is as short as every text. -/
def IsShort (parts : SignatureParts) (mode : ExecutionMode) : Prop :=
  ∀ signature, encodeSignature mode parts = .ok signature → signature.chars.length < textBound

/-- The signature that some parts make up for a mode is taken apart, and its payload is read with some
outcome. -/
def IsReadAs (parts : SignatureParts) (mode : ExecutionMode)
    (read : Except Failure SessionSignature) : Prop :=
  ∃ signature payload, encodeSignature mode parts = .ok signature ∧
    splitValidatorSignature signature = .ok ⟨parts.validator.normal, payload⟩ ∧
    SessionSignature.decode mode payload = read

/-- Some parts are refused for the lengths of their lists, or their signature shows as many entries as each
of the lists has. -/
def KeepsLengths (parts : SignatureParts) (mode : ExecutionMode) : Prop :=
  (∃ r, encodeSignature mode parts = .error (.refused r) ∧ r.code = .invalidBatchLength) ∨
    ∃ shown, parts.IsReadAs mode (.ok shown) ∧ shown.mode = mode ∧
      parts.proofs.length = shown.entries.length ∧ parts.sessions.length = shown.entries.length ∧
      parts.arguments.length = shown.entries.length

variable {mode : ExecutionMode} {parts : SignatureParts}

theorem IsReadAs.unique {x y : Except Failure SessionSignature} (hx : parts.IsReadAs mode x)
    (hy : parts.IsReadAs mode y) : x = y := by
  obtain ⟨_, _, encoded, split, rfl⟩ := hx
  obtain ⟨_, _, encodedAgain, splitAgain, rfl⟩ := hy
  cases encoded.symm.trans encodedAgain
  cases split.symm.trans splitAgain
  rfl

/-- If a signature is read, its entries alone decide whether all lengths were kept. -/
theorem IsReadAs.keepsLengths_iff {shown : SessionSignature} (read : parts.IsReadAs mode (.ok shown))
    (inMode : shown.mode = mode) :
    parts.KeepsLengths mode ↔ parts.proofs.length = shown.entries.length ∧
      parts.sessions.length = shown.entries.length ∧ parts.arguments.length = shown.entries.length := by
  constructor
  · rintro (⟨r, refused, -⟩ | ⟨again, readAgain, -, lengths⟩)
    · obtain ⟨_, _, encoded, -⟩ := read
      cases encoded.symm.trans refused
    · cases read.unique readAgain
      exact lengths
  · exact fun lengths => .inr ⟨shown, read, inMode, lengths⟩

/-- A signature that is refused when it is read keeps no lengths. -/
theorem IsReadAs.not_keepsLengths {f : Failure} (read : parts.IsReadAs mode (.error f)) :
    ¬parts.KeepsLengths mode := by
  rintro (⟨r, refused, -⟩ | ⟨shown, readAgain, -⟩)
  · obtain ⟨_, _, encoded, -⟩ := read
    cases encoded.symm.trans refused
  · cases read.unique readAgain

end SignatureParts

/-- What shows some parts has as many entries as each of their lists. -/
theorem SessionSignature.lengths_of_parts (shown : SessionSignature) {parts : SignatureParts}
    {validator : Address} (same : shown.parts validator = parts.normal) :
    parts.proofs.length = shown.entries.length ∧ parts.sessions.length = shown.entries.length ∧
      parts.arguments.length = shown.entries.length := by
  have proofs := congrArg (fun p => p.proofs.length) same
  have sessions := congrArg (fun p => p.sessions.length) same
  have arguments := congrArg (fun p => p.arguments.length) same
  simp only [SessionSignature.parts, SignatureParts.normal, List.length_map] at proofs sessions arguments
  exact ⟨proofs.symm, sessions.symm, arguments.symm⟩

/-! ### What is shown -/

namespace SignatureParts

variable {mode : ExecutionMode} {parts : SignatureParts}

/-- Parts that suit a mode are shown by their signature. -/
theorem AreEncodable.exists_shown (encodable : parts.AreEncodable) (short : parts.IsShort mode)
    (suit : parts.Suit mode) :
    ∃ shown, parts.IsReadAs mode (.ok shown) ∧ shown.mode = mode ∧
      shown.parts parts.validator.normal = parts.normal := by
  obtain ⟨f⟩ := encodable.exists_form suit
  obtain ⟨signature, written⟩ := encodable.exists_encodePayload f.readable f.fits
  have encoded : encodeSignature mode parts = .ok signature := by
    rw [f.encodes]
    exact orFail_eq_ok.2 written
  obtain ⟨payload, split, read⟩ := decodePayload_of_encodePayload mode f.base f.readable f.enough f.fits
    encodable.permit encodable.validator written (short signature encoded)
  rw [f.checked] at read
  refine ⟨_, ⟨signature, payload, encoded, split, ?_⟩, rfl, f.shows⟩
  rw [f.decodes, read]
  rfl

/-! ### Single calls -/

theorem lacksEntry_or_suit_firsts (parts : SignatureParts) :
    parts.LacksEntry ∨ parts.firsts.Suit .single := by
  obtain ⟨validator, proofs, operator, sessions, arguments, operatorSignature, permit⟩ := parts
  match proofs, sessions, arguments with
  | [], _, _ => exact .inl (.inl rfl)
  | _ :: _, [], _ => exact .inl (.inr (.inl rfl))
  | _ :: _, _ :: _, [] => exact .inl (.inr (.inr rfl))
  | _ :: _, _ :: _, _ :: _ => exact .inr ⟨rfl, rfl, rfl⟩

/-- Nothing behind the first entry of a list goes into the signature for a single call. -/
theorem encodeSignature_single_firsts (parts : SignatureParts) :
    encodeSignature .single parts.firsts = encodeSignature .single parts := by
  obtain ⟨validator, proofs, operator, sessions, arguments, operatorSignature, permit⟩ := parts
  match proofs, sessions, arguments with
  | [], _, _ => rfl
  | _ :: _, [], _ => rfl
  | _ :: _, _ :: _, [] => rfl
  | _ :: _, _ :: _, _ :: _ => rfl

theorem LacksEntry.encodeSignature_eq (h : parts.LacksEntry) :
    encodeSignature .single parts = .error (.refused .noSession) := by
  obtain ⟨validator, proofs, operator, sessions, arguments, operatorSignature, permit⟩ := parts
  match proofs, sessions, arguments, h with
  | [], _, _, _ => rfl
  | _ :: _, [], _, _ => rfl
  | _ :: _, _ :: _, [], _ => rfl

theorem AreEncodable.firsts (encodable : parts.AreEncodable) : parts.firsts.AreEncodable where
  validator := encodable.validator
  proofs := fun proof listed => encodable.proofs proof (List.mem_of_mem_take listed)
  operator := encodable.operator
  sessions := fun session listed => encodable.sessions session (List.mem_of_mem_take listed)
  arguments := fun arguments listed => encodable.arguments arguments (List.mem_of_mem_take listed)
  operatorSignature := encodable.operatorSignature
  permit := encodable.permit

/-- The signature for a single call shows the first entry of each list. -/
theorem AreEncodable.exists_shown_firsts (encodable : parts.AreEncodable)
    (short : parts.IsShort .single) (complete : ¬parts.LacksEntry) :
    ∃ shown, parts.IsReadAs .single (.ok shown) ∧ shown.mode = .single ∧
      shown.parts parts.validator.normal = parts.firsts.normal := by
  -- the signature does not tell whether there were further entries
  have same := parts.encodeSignature_single_firsts
  unfold IsShort at short
  rw [← same] at short
  obtain ⟨shown, ⟨signature, payload, encoded, split, read⟩, rest⟩ :=
    encodable.firsts.exists_shown short (parts.lacksEntry_or_suit_firsts.resolve_left complete)
  exact ⟨shown, ⟨signature, payload, same ▸ encoded, split, read⟩, rest⟩

/-! ### Batches -/

/-- Lists that differ in length make up a signature, which is refused when it is read. -/
theorem AreEncodable.isReadAs_uneven (encodable : parts.AreEncodable)
    (short : parts.IsShort .batch) (uneven : ¬parts.Suit .batch) :
    parts.IsReadAs .batch (.error (.refused .unevenSignature)) := by
  obtain ⟨signature, written⟩ := encodable.exists_encodePayload (by decide) encodable.fits_batch
  have encoded : encodeSignature .batch parts = .ok signature := orFail_eq_ok.2 written
  obtain ⟨payload, split, read⟩ := decode_of_encodeSignature encodable encoded (short signature encoded)
  have refused : parts.normal.entries .batch = .error .unevenSignature := by
    refine if_pos ?_
    rw [← not_and_or]
    simpa only [normal, List.length_map, Suit] using uneven
  refine ⟨signature, payload, encoded, split, ?_⟩
  rw [read, refused]
  rfl

end SignatureParts

/-- The signature for a single call keeps the lengths of the lists if these have one entry each, or one of
them has none, and the signature for several calls if they are of one length. Otherwise the former shows the
first entry of each list, and the latter is refused when it is read. -/
theorem signature_keeps_lengths_iff {parts : SignatureParts} (encodable : parts.AreEncodable)
    (short : ∀ mode, parts.IsShort mode) :
    (parts.KeepsLengths .single ↔ parts.LacksEntry ∨ parts.Suit .single) ∧
      (parts.KeepsLengths .batch ↔ parts.Suit .batch) ∧
      (¬parts.LacksEntry → ∃ shown, parts.IsReadAs .single (.ok shown) ∧ shown.mode = .single ∧
        shown.parts parts.validator.normal = parts.firsts.normal) ∧
      (parts.Suit .batch → ∃ shown, parts.IsReadAs .batch (.ok shown) ∧ shown.mode = .batch ∧
        shown.parts parts.validator.normal = parts.normal) ∧
      (¬parts.Suit .batch → parts.IsReadAs .batch (.error (.refused .unevenSignature))) := by
  have single := encodable.exists_shown_firsts (short .single)
  have batch := encodable.exists_shown (short .batch)
  have uneven := encodable.isReadAs_uneven (short .batch)
  refine ⟨?_, ?_, single, batch, uneven⟩
  · by_cases lacks : parts.LacksEntry
    · exact iff_of_true (.inl ⟨_, lacks.encodeSignature_eq, rfl⟩) (.inl lacks)
    · obtain ⟨shown, read, inMode, same⟩ := single lacks
      obtain ⟨one, -⟩ := parts.lacksEntry_or_suit_firsts.resolve_left lacks
      rw [read.keepsLengths_iff inMode, or_iff_right lacks, ← (shown.lengths_of_parts same).1, one]
      exact Iff.rfl
  · by_cases suit : parts.Suit .batch
    · obtain ⟨shown, read, inMode, same⟩ := batch suit
      exact iff_of_true ((read.keepsLengths_iff inMode).2 (shown.lengths_of_parts same)) suit
    · exact iff_of_false (uneven suit).not_keepsLengths suit

/-- Two sessions with their proofs, and some arguments. -/
def twoTransfers (arguments : List Bytes) : SignatureParts :=
  { grantedTransfer with
    proofs := grantedTransfer.proofs ++ grantedTransfer.proofs
    sessions := grantedTransfer.sessions ++ grantedTransfer.sessions
    arguments := arguments.map Hex.ofBytes }

theorem areEncodable_twoTransfers (arguments : List Bytes) : (twoTransfers arguments).AreEncodable where
  validator := areEncodable_grantedTransfer.validator
  proofs := fun proof listed =>
    areEncodable_grantedTransfer.proofs proof ((List.mem_append.1 listed).elim id id)
  operator := areEncodable_grantedTransfer.operator
  sessions := fun session listed =>
    areEncodable_grantedTransfer.sessions session ((List.mem_append.1 listed).elim id id)
  arguments := List.forall_mem_map.2 fun b _ => ⟨b, Hex.bytes?_ofBytes b⟩
  operatorSignature := areEncodable_grantedTransfer.operatorSignature
  permit := areEncodable_grantedTransfer.permit

/-- Of two transfers only one is left in the signature for a single call, and one for several calls with the
arguments of only one of them is refused when it is read. -/
theorem twoTransfers_not_kept :
    ¬(twoTransfers [[0xc0], [0xc1, 0x80]]).KeepsLengths .single ∧
      (twoTransfers [[0xc0], [0xc1, 0x80]]).KeepsLengths .batch ∧
      ¬(twoTransfers [[0xc0]]).KeepsLengths .batch := by
  have short {arguments : List Bytes} {mode : ExecutionMode}
      (length : ((encodeSignature mode (twoTransfers arguments)).toOption.map
        fun s => decide (s.chars.length < textBound)) = some true) :
      (twoTransfers arguments).IsShort mode := by
    intro signature encoded
    rw [encoded] at length
    exact of_decide_eq_true (Option.some.inj length)
  obtain ⟨single, batch, -⟩ := signature_keeps_lengths_iff
    (areEncodable_twoTransfers [[0xc0], [0xc1, 0x80]]) fun mode =>
      short (by cases mode <;> decide +kernel)
  obtain ⟨-, uneven, -⟩ := signature_keeps_lengths_iff (areEncodable_twoTransfers [[0xc0]]) fun mode =>
    short (by cases mode <;> decide +kernel)
  refine ⟨fun kept => ?_, batch.2 ⟨rfl, rfl⟩, fun kept => ?_⟩
  · rcases single.1 kept with (none | none | none) | ⟨one, -⟩
    · cases none
    · cases none
    · cases none
    · cases one
  · obtain ⟨-, same⟩ := uneven.1 kept
    cases same

end SessionKeys
