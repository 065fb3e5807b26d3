import SessionKeys.Proofs.SignatureForms
import SessionKeys.WalletCall

/-!
Call data for a wallet. The arguments of a function are read again behind its selector
(`Abi.Function.decodeCall_encodeCall`), and so are the calls of a wallet that were written: one call as a
single one, and several as a batch. Any other call data is refused, or its calls are made of the decoded
arguments and of nothing else (`WalletOperation.decode_cases`). Main statement: `wallet_calldata_roundtrip`.
-/

namespace SessionKeys

/-! ### Calls of functions -/

namespace Abi.Function

variable {f : Abi.Function} {arguments : f.inputs.Val} {data : Hex}

theorem exists_encodeCall (readable : f.inputs.isReadable = true) (fits : f.inputs.Fits arguments) :
    ∃ data, f.encodeCall arguments = .ok data := by
  obtain ⟨row, written, -⟩ := encodeFields_of_fits readable fits
  exact ⟨_, bind_eq_ok.2 ⟨row, written, rfl⟩⟩

/-- The call data of a function starts with its selector, and its arguments are read again. -/
theorem decodeCall_encodeCall (length : f.selector.length = 4) (readable : f.inputs.isReadable = true)
    (enough : 32 ≤ f.inputs.headSize) (fits : f.inputs.Fits arguments)
    (encoded : f.encodeCall arguments = .ok data) (short : data.chars.length < textBound) :
    selectorOf data = f.writtenSelector ∧ f.decodeCall data = .ok (f.inputs.normal arguments) := by
  obtain ⟨row, written, done⟩ := bind_eq_ok.1 encoded
  obtain rfl := (Except.ok.inj done).symm
  obtain ⟨row', written', bytes⟩ := encodeFields_of_fits readable fits
  obtain rfl := Except.ok.inj (written.symm.trans written')
  have whole : (f.writtenSelector ++ row).bytes? = some (f.selector ++ Part.layout (f.inputs.parts arguments)) :=
    Hex.bytes?_append (Hex.bytes?_ofBytes f.selector) bytes
  have digits : (f.selector.flatMap Hex.byteDigits).length = 2 * 4 := by
    rw [← length]
    exact Hex.length_of_bytesOfDigits? (Hex.bytesOfDigits?_flatMap f.selector)
  have start : (f.writtenSelector ++ row).take 4 = f.writtenSelector := by
    change Hex.ofDigits ((f.selector.flatMap Hex.byteDigits ++ row.digits).take (2 * 4)) = _
    rw [← digits, List.take_left]
    rfl
  have rest : ((f.writtenSelector ++ row).drop 4).bytes? =
      some (Part.layout (f.inputs.parts arguments)) := by
    rw [Hex.bytes?_drop whole 4, ← length, List.drop_left]
  have total : 32 ≤ (Part.layout (f.inputs.parts arguments)).length := by
    rw [Part.length_layout, headSizes_parts f.inputs readable fits]
    exact Nat.le_add_right_of_le enough
  have size : (f.writtenSelector ++ row).size = 4 + (Part.layout (f.inputs.parts arguments)).length := by
    rw [Hex.size_of_bytes? whole, List.length_append, length]
  constructor
  · unfold selectorOf
    rw [if_pos (by omega), start]
    exact Hex.lower_ofBytes f.selector
  · unfold decodeCall
    rw [if_neg (not_not.2 start), if_neg (by omega)]
    refine decodeFields_of_bytes? readable enough fits rest ?_
    rw [Hex.length_chars_of_bytes? whole, List.length_append] at short
    unfold textBound at short
    unfold Scan.smallBound
    omega

end Abi.Function

/-! ### Calls of wallets -/

/-- The call as it is read: the target with its checksum, and the data in small letters. -/
def WalletCall.normal (call : WalletCall) : WalletCall :=
  { call with target := call.target.normal, data := call.data.lower }

/-- A call of which the target, the value, the data and the kind can be encoded. -/
structure WalletCall.IsEncodable (call : WalletCall) : Prop where
  target : call.target.isStrict = true
  value : 0 ≤ call.value ∧ call.value < Abi.valueCount 256
  data : ∃ b, call.data.bytes? = some b
  operation : ∃ m : Int, call.operation = .ofInt m ∧ 0 ≤ m ∧ m < Abi.valueCount 8

namespace WalletOperation

variable {callData : Hex} {operation : WalletOperation}

/-- The lists of a batch are read if they are of one length and not empty. -/
theorem ofBatchArguments_eq_ok {targets : List Address} {values : List Int} {datas : List Hex}
    {operations : List Number} :
    ofBatchArguments (targets, values, datas, operations, ()) = .ok operation ↔
      targets ≠ [] ∧ (values.length = targets.length ∧ datas.length = targets.length ∧
        operations.length = targets.length) ∧
        operation = ⟨.batch, zipCalls targets values datas operations⟩ := by
  unfold ofBatchArguments
  rw [error_ite_eq_ok, error_ite_eq_ok, List.isEmpty_iff, not_or, not_or, not_not, not_not, not_not,
    Except.ok.injEq, eq_comm (b := operation)]

theorem fits_normalExecute {call : WalletCall} (encodable : call.IsEncodable) :
    normalExecute.inputs.Fits (call.target, call.value, call.data, call.operation, ()) :=
  ⟨encodable.target, encodable.value, encodable.data, encodable.operation, trivial⟩

theorem fits_batchNormalExecute {calls : List WalletCall} (encodable : ∀ call ∈ calls, call.IsEncodable) :
    batchNormalExecute.inputs.Fits (calls.map (·.target), calls.map (·.value), calls.map (·.data),
      calls.map (·.operation), ()) := by
  refine ⟨?_, ?_, ?_, ?_, trivial⟩
  · exact List.forall_mem_map.2 fun call listed => (encodable call listed).target
  · exact List.forall_mem_map.2 fun call listed => (encodable call listed).value
  · exact List.forall_mem_map.2 fun call listed => (encodable call listed).data
  · exact List.forall_mem_map.2 fun call listed => (encodable call listed).operation

theorem writtenSelector_ne : batchNormalExecute.writtenSelector ≠ normalExecute.writtenSelector := by
  decide

/-- One call is read as it was written. -/
theorem decode_encodeNormalExecute {call : WalletCall} (encodable : call.IsEncodable)
    (encoded : encodeNormalExecute call = .ok callData) (short : callData.chars.length < textBound) :
    decode callData = .ok ⟨.single, [call.normal]⟩ := by
  obtain ⟨selector, read⟩ := Abi.Function.decodeCall_encodeCall (f := normalExecute) rfl (by decide)
    (by decide) (fits_normalExecute encodable) encoded short
  unfold decode
  simp only [selector, if_true, read]
  rfl

theorem zipCalls_normal (calls : List WalletCall) :
    zipCalls ((calls.map (·.target)).map Address.normal)
      ((calls.map (·.value)).map (Abi.Ty.uint 256).normal) ((calls.map (·.data)).map Hex.lower)
      ((calls.map (·.operation)).map (Abi.Ty.number 8).normal) = calls.map WalletCall.normal := by
  induction calls with
  | nil => rfl
  | cons call rest ih => exact congrArg (call.normal :: ·) ih

/-- The calls of a batch are read as they were written. -/
theorem decode_encodeBatchNormalExecute {calls : List WalletCall} (some : calls ≠ [])
    (encodable : ∀ call ∈ calls, call.IsEncodable) (encoded : encodeBatchNormalExecute calls = .ok callData)
    (short : callData.chars.length < textBound) :
    decode callData = .ok ⟨.batch, calls.map WalletCall.normal⟩ := by
  obtain ⟨selector, read⟩ := Abi.Function.decodeCall_encodeCall (f := batchNormalExecute) rfl (by decide)
    (by decide) (fits_batchNormalExecute encodable) encoded short
  have again : ofBatchArguments ((calls.map (·.target)).map Address.normal,
      (calls.map (·.value)).map (Abi.Ty.uint 256).normal, (calls.map (·.data)).map Hex.lower,
      (calls.map (·.operation)).map (Abi.Ty.number 8).normal, ()) =
      .ok ⟨.batch, calls.map WalletCall.normal⟩ := by
    rw [ofBatchArguments_eq_ok, zipCalls_normal]
    exact ⟨by simpa using some, by simp only [List.length_map, and_self], rfl⟩
  unfold decode
  simp only [selector, if_neg writtenSelector_ne, if_true, read]
  exact congrArg orFail again

/-! ### Any call data -/

/-- The calls of an operation are the arguments that call data is decoded to: for one call its four
arguments, and for several the four arrays, with nothing left of any of them and nothing filled in. -/
inductive IsReadFrom (callData : Hex) : WalletOperation → Prop
  | single {call : WalletCall} (read : normalExecute.decodeCall callData =
      .ok (call.target, call.value, call.data, call.operation, ())) : IsReadFrom callData ⟨.single, [call]⟩
  | batch {calls : List WalletCall} (read : batchNormalExecute.decodeCall callData =
      .ok (calls.map (·.target), calls.map (·.value), calls.map (·.data), calls.map (·.operation), ()))
      (some : calls ≠ []) : IsReadFrom callData ⟨.batch, calls⟩

/-- Lists of one length are the columns of the calls that are put together from them. -/
theorem map_zipCalls {targets : List Address} {values : List Int} {datas : List Hex}
    {operations : List Number} (hvalues : values.length = targets.length)
    (hdatas : datas.length = targets.length) (hoperations : operations.length = targets.length) :
    let calls := zipCalls targets values datas operations
    calls.map (·.target) = targets ∧ calls.map (·.value) = values ∧ calls.map (·.data) = datas ∧
      calls.map (·.operation) = operations := by
  induction targets generalizing values datas operations with
  | nil =>
    obtain rfl := List.eq_nil_of_length_eq_zero hvalues
    obtain rfl := List.eq_nil_of_length_eq_zero hdatas
    obtain rfl := List.eq_nil_of_length_eq_zero hoperations
    exact ⟨rfl, rfl, rfl, rfl⟩
  | cons target targets ih =>
    obtain ⟨value, values, rfl⟩ := List.exists_cons_of_length_eq_add_one hvalues
    obtain ⟨data, datas, rfl⟩ := List.exists_cons_of_length_eq_add_one hdatas
    obtain ⟨operation, operations, rfl⟩ := List.exists_cons_of_length_eq_add_one hoperations
    obtain ⟨ofTargets, ofValues, ofDatas, ofOperations⟩ :=
      ih (Nat.succ.inj hvalues) (Nat.succ.inj hdatas) (Nat.succ.inj hoperations)
    exact ⟨congrArg _ ofTargets, congrArg _ ofValues, congrArg _ ofDatas, congrArg _ ofOperations⟩

theorem ofBatchArguments_cases {arguments : batchNormalExecute.inputs.Val}
    (read : batchNormalExecute.decodeCall callData = .ok arguments) :
    (∃ r, ofBatchArguments arguments = .error r ∧ r.code = .invalidBatchLength) ∨
      ∃ operation, ofBatchArguments arguments = .ok operation ∧ operation.IsReadFrom callData := by
  obtain ⟨targets, values, datas, operations, ⟨⟩⟩ := arguments
  cases ends : ofBatchArguments (targets, values, datas, operations, ()) with
  | error r =>
    unfold ofBatchArguments at ends
    dsimp only at ends
    split_ifs at ends
    · exact .inl ⟨r, rfl, congrArg Refusal.code (Except.error.inj ends).symm⟩
    · exact .inl ⟨r, rfl, congrArg Refusal.code (Except.error.inj ends).symm⟩
  | ok operation =>
    obtain ⟨some, ⟨hvalues, hdatas, hoperations⟩, rfl⟩ := ofBatchArguments_eq_ok.1 ends
    obtain ⟨ofTargets, ofValues, ofDatas, ofOperations⟩ := map_zipCalls hvalues hdatas hoperations
    refine .inr ⟨_, rfl, .batch ?_ fun none => some ?_⟩
    · rw [ofTargets, ofValues, ofDatas, ofOperations, read]
    · rw [← ofTargets, none]
      rfl

/-- Whatever call data is, it is refused with one of three codes, or read. -/
theorem decode_cases (callData : Hex) :
    (∃ r, decode callData = .error (.refused r) ∧
        (r.code = .invalidWalletOperation ∨ r.code = .malformedInput ∨ r.code = .invalidBatchLength)) ∨
      ∃ operation, decode callData = .ok operation ∧ operation.IsReadFrom callData := by
  unfold decode
  dsimp only
  split_ifs
  · cases read : normalExecute.decodeCall callData with
    | error e => exact .inl ⟨_, rfl, .inr (.inl rfl)⟩
    | ok arguments =>
      obtain ⟨target, value, data, operation, ⟨⟩⟩ := arguments
      exact .inr ⟨_, rfl, .single read⟩
  · cases read : batchNormalExecute.decodeCall callData with
    | error e => exact .inl ⟨_, rfl, .inr (.inl rfl)⟩
    | ok arguments =>
      rcases ofBatchArguments_cases read with ⟨r, refused, code⟩ | ⟨operation, made, whole⟩
      · exact .inl ⟨r, congrArg orFail refused, .inr (.inr code)⟩
      · exact .inr ⟨operation, congrArg orFail made, whole⟩
  · exact .inl ⟨_, rfl, .inl rfl⟩

theorem IsReadFrom.calls_ne_nil (read : operation.IsReadFrom callData) : operation.calls ≠ [] := by
  cases read with
  | single => exact List.cons_ne_nil _ _
  | batch _ some => exact some

theorem IsReadFrom.length_of_single (read : operation.IsReadFrom callData)
    (single : operation.mode = .single) : operation.calls.length = 1 := by
  cases read with
  | single => rfl
  | batch => cases single

end WalletOperation

/-- **What a wallet is told is what was written.** A call whose fields can be encoded is written and read as
a single one, and calls, at least one, are written and read as a batch of the same calls in their order,
every address with its checksum and all data in small letters. Any text that stands for call data is refused
as another function, as malformed or for the lengths of its arrays, or it is read: to at least one call, to
exactly one where it is a single one, and each field of each call stands in its place of the decoded
arguments. -/
theorem wallet_calldata_roundtrip :
    (∀ call : WalletCall, call.IsEncodable → ∃ callData,
      WalletOperation.encodeNormalExecute call = .ok callData ∧
        (callData.chars.length < textBound →
          WalletOperation.decode callData = .ok ⟨.single, [call.normal]⟩)) ∧
    (∀ calls : List WalletCall, calls ≠ [] → (∀ call ∈ calls, call.IsEncodable) → ∃ callData,
      WalletOperation.encodeBatchNormalExecute calls = .ok callData ∧
        (callData.chars.length < textBound →
          WalletOperation.decode callData = .ok ⟨.batch, calls.map WalletCall.normal⟩)) ∧
    ∀ callData : Hex,
      (∃ r, WalletOperation.decode callData = .error (.refused r) ∧
        (r.code = .invalidWalletOperation ∨ r.code = .malformedInput ∨ r.code = .invalidBatchLength)) ∨
      ∃ operation, WalletOperation.decode callData = .ok operation ∧ operation.calls ≠ [] ∧
        (operation.mode = .single → operation.calls.length = 1) ∧ operation.IsReadFrom callData := by
  refine ⟨fun call encodable => ?_, fun calls some encodable => ?_, fun callData => ?_⟩
  · obtain ⟨callData, encoded⟩ := Abi.Function.exists_encodeCall (f := WalletOperation.normalExecute) rfl
      (WalletOperation.fits_normalExecute encodable)
    exact ⟨callData, encoded, WalletOperation.decode_encodeNormalExecute encodable encoded⟩
  · obtain ⟨callData, encoded⟩ := Abi.Function.exists_encodeCall (f := WalletOperation.batchNormalExecute) rfl
      (WalletOperation.fits_batchNormalExecute encodable)
    exact ⟨callData, encoded, WalletOperation.decode_encodeBatchNormalExecute some encodable encoded⟩
  · refine (WalletOperation.decode_cases callData).imp_right ?_
    rintro ⟨operation, done, read⟩
    exact ⟨operation, done, read.calls_ne_nil, read.length_of_single, read⟩

/-- Five units and the start of a transfer are sent, and then nothing, by a call of the highest kind. -/
def unlikeCalls : List WalletCall :=
  [⟨.zero, 5, Hex.ofText "0xA9059CBB", .ofInt 0⟩, ⟨.zero, 0, .empty, .ofInt 255⟩]

/-- Both calls are read from the call data of the batch, with their data in small letters. -/
theorem unlikeCalls_read :
    unlikeCalls ≠ [] ∧ (∀ call ∈ unlikeCalls, call.IsEncodable) ∧ ∃ callData,
      WalletOperation.encodeBatchNormalExecute unlikeCalls = .ok callData ∧
        callData.chars.length < textBound ∧ WalletOperation.decode callData =
          .ok ⟨.batch, [⟨.zero, 5, Hex.ofBytes [0xa9, 0x05, 0x9c, 0xbb], .ofInt 0⟩,
            ⟨.zero, 0, .empty, .ofInt 255⟩]⟩ := by
  have some : unlikeCalls ≠ [] := List.cons_ne_nil _ _
  have encodable : ∀ call ∈ unlikeCalls, call.IsEncodable :=
    List.forall_mem_cons.2 ⟨⟨by decide, by decide, ⟨[0xa9, 0x05, 0x9c, 0xbb], by decide⟩,
      ⟨0, rfl, by decide, by decide⟩⟩, List.forall_mem_singleton.2 ⟨by decide, by decide,
      ⟨[], by decide⟩, ⟨255, rfl, by decide, by decide⟩⟩⟩
  obtain ⟨callData, encoded, reads⟩ := wallet_calldata_roundtrip.2.1 unlikeCalls some encodable
  have evaluated : (WalletOperation.encodeBatchNormalExecute unlikeCalls).toOption.map
      (·.chars.length) = .some 1226 := by
    decide +kernel
  rw [encoded] at evaluated
  have length : callData.chars.length = 1226 := Option.some.inj evaluated
  have short : callData.chars.length < textBound := by
    rw [length]
    decide
  have same : unlikeCalls.map WalletCall.normal =
      [⟨.zero, 5, Hex.ofBytes [0xa9, 0x05, 0x9c, 0xbb], .ofInt 0⟩, ⟨.zero, 0, .empty, .ofInt 255⟩] := by
    decide +kernel
  refine ⟨some, encodable, callData, encoded, short, ?_⟩
  rw [reads short, same]

end SessionKeys
