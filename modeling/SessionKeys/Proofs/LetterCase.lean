import SessionKeys.Proofs.ReadOperations
import SessionKeys.Proofs.Recasing

/-!
Validations in which letters change their case. Two runs are compared, on operations whose byte strings are
recased and on stores in which the session roots are. What is read of both operations is the same, since it is
made of bytes, so the runs differ only in the paymaster and the root that calls are checked against, and these
are compared by their bytes. Main statement: `case_decides_selectors_only`.
-/

namespace SessionKeys

/-! ### Operations -/

/-- The same operation but for the case of the letters in its byte strings. -/
structure UserOperation.Recased (op op' : UserOperation) : Prop where
  initCode : op.initCode.Recased op'.initCode
  callData : op.callData.Recased op'.callData
  paymasterAndData : op.paymasterAndData.Recased op'.paymasterAndData
  signature : op.signature.Recased op'.signature
  others : { op with
    initCode := op'.initCode, callData := op'.callData, paymasterAndData := op'.paymasterAndData
    signature := op'.signature } = op'

namespace UserOperation.Recased

variable {op op' : UserOperation}

theorem sender_eq (h : op.Recased op') : op.sender = op'.sender := by
  rw [← h.others]

theorem paymaster (h : op.Recased op') : op.paymaster.hex.Recased op'.paymaster.hex := by
  unfold UserOperation.paymaster
  rw [h.paymasterAndData.size_eq]
  split
  · exact h.paymasterAndData.take 20
  · exact .refl _

theorem maxFee_eq (h : op.Recased op') : op.maxFee = op'.maxFee := by
  unfold maxFee verificationFactor
  rw [h.paymasterAndData.size_eq, ← h.others]

/-- The hash of an operation does not depend on the case of its letters. -/
theorem hash_eq (h : op.Recased op') (entryPoint : Address) (chainId : Number) :
    op.hash entryPoint chainId = op'.hash entryPoint chainId := by
  have packed : op.packedValues = op'.packedValues := by
    unfold packedValues Hex.keccak
    rw [h.initCode.content_eq, h.callData.content_eq, h.paymasterAndData.content_eq, ← h.others]
  unfold hash
  rw [packed]

end UserOperation.Recased

/-! ### Stores -/

/-- The same permission but for its session root, in whose place stands one that is related to it. -/
def OperatorPermission.SameButRoot (R : Hex → Hex → Prop) (p q : OperatorPermission) : Prop :=
  ∃ sessionRoot, R p.sessionRoot sessionRoot ∧ q = { p with sessionRoot }

/-- What is left of a permission after an operation does not depend on its session root. -/
theorem OperatorPermission.SameButRoot.afterOperation {R : Hex → Hex → Prop} {p q : OperatorPermission}
    (same : p.SameButRoot R q) {op op' : UserOperation} (recased : op.Recased op') :
    EndsAlike (SameButRoot R) (p.afterOperation op) (q.afterOperation op') := by
  obtain ⟨root, related, rfl⟩ := same
  unfold OperatorPermission.afterOperation
  rw [recased.maxFee_eq]
  split
  · exact .fails _
  · split
    · exact .fails _
    · exact .ends ⟨root, related, rfl⟩

/-- The same store but for the session roots, in whose places stand ones that are related to them. -/
def Store.SameButRoots (R : Hex → Hex → Prop) (s t : Store) : Prop :=
  ∃ permissions : Table OperatorPermission,
    (∀ row, Option.Rel (OperatorPermission.SameButRoot R) (s.permissions.find? row)
      (permissions.find? row)) ∧ t = { s with permissions }

namespace Store.SameButRoots

variable {R : Hex → Hex → Prop} {s t : Store} {wallet operator : Address}

theorem refl (reflexive : ∀ root, R root root) (s : Store) : s.SameButRoots R s := by
  refine ⟨s.permissions, fun row => ?_, rfl⟩
  cases s.permissions.find? row with
  | none => exact .none
  | some p => exact .some ⟨p.sessionRoot, reflexive _, rfl⟩

/-- Stores with equal session roots are the same. -/
theorem eq_of_eq (same : s.SameButRoots Eq t) : s = t := by
  obtain ⟨permissions, related, rfl⟩ := same
  have unchanged : s.permissions = permissions := by
    refine Table.ext fun row => ?_
    have found := related row
    generalize s.permissions.find? row = p, Table.find? permissions row = q at found
    cases found with
    | none => rfl
    | some related =>
      obtain ⟨root, rfl, rfl⟩ := related
      rfl
  rw [← unchanged]

theorem permission (same : s.SameButRoots R t) (reflexive : ∀ root, R root root)
    (wallet operator : Address) :
    (s.permission wallet operator).SameButRoot R (t.permission wallet operator) := by
  obtain ⟨permissions, related, rfl⟩ := same
  have found := related (wallet.key ++ operator.key)
  unfold Store.permission
  generalize s.permissions.find? _ = p, Table.find? permissions _ = q at found ⊢
  cases found with
  | none => exact ⟨_, reflexive _, rfl⟩
  | some related => exact related

theorem setPermission (same : s.SameButRoots R t) {p q : OperatorPermission} (related : p.SameButRoot R q)
    (wallet operator : Address) :
    (s.setPermission wallet operator p).SameButRoots R (t.setPermission wallet operator q) := by
  obtain ⟨permissions, others, rfl⟩ := same
  refine ⟨permissions.put (wallet.key ++ operator.key) q, fun row => ?_, rfl⟩
  simp only [Store.setPermission, Table.find?_put]
  split
  · exact .some related
  · exact others row

/-- What is asked beside the permissions has the same answer in both stores. -/
theorem ask {α : Type} (same : s.SameButRoots R t) (question : Store → α)
    (beside : ∀ u permissions, question { u with permissions } = question u) : question s = question t := by
  obtain ⟨permissions, -, rfl⟩ := same
  exact (beside s permissions).symm

/-- What is written beside the permissions is written alike to both stores. -/
theorem write (same : s.SameButRoots R t) (change : Store → Store)
    (beside : ∀ u permissions, change { u with permissions } = { change u with permissions }) :
    (change s).SameButRoots R (change t) := by
  obtain ⟨permissions, related, rfl⟩ := same
  have unchanged : (change s).permissions = s.permissions := by
    have apart : change s = { change s with permissions := s.permissions } := beside s s.permissions
    rw [apart]
  exact ⟨permissions, unchanged ▸ related, beside s permissions⟩

/-- Stores that are the same but for session roots stay so if the same is written for an operator to both. -/
theorem mirrors (reflexive : ∀ root, R root root) (wallet operator : Address) :
    Mirrors (SameButRoots R) (OperatorPermission.SameButRoot R) wallet operator where
  permission same := same.permission reflexive wallet operator
  spendingLimit? same token := same.ask (fun u => u.spendingLimit? wallet operator token) fun _ _ => rfl
  permitNonce same := same.ask (fun u => u.permitNonce wallet operator) fun _ _ => rfl
  isHashUsed same hash := same.ask (fun u => u.isHashUsed wallet hash) fun _ _ => rfl
  usesOfSession same leaf := same.ask (fun u => u.usesOfSession wallet operator leaf) fun _ _ => rfl
  setPermission same related := same.setPermission related wallet operator
  setSpendingLimit same token info :=
    same.write (fun u => u.setSpendingLimit wallet operator token info) fun _ _ => rfl
  incrementPermitNonce same := same.write (fun u => u.incrementPermitNonce wallet operator) fun _ _ => rfl
  markHashUsed same hash := same.write (fun u => u.markHashUsed wallet hash) fun _ _ => rfl
  setUsesOfSession same leaf used :=
    same.write (fun u => u.setUsesOfSession wallet operator leaf used) fun _ _ => rfl

end Store.SameButRoots

/-! ### Settlements -/

section

variable {R : Hex → Hex → Prop} {s t : Store} {wallet operator : Address} {root root' : Hex}
  {paymaster paymaster' : Address}

theorem CallContext.checkCall_recased (roots : root.Recased root')
    (paymasters : paymaster.hex.Recased paymaster'.hex) (index : Nat) (call : WalletCall)
    (shown : SessionEntry) :
    EndsWithCode Eq (CallContext.checkCall ⟨wallet, operator, root, paymaster⟩ index call shown)
      (CallContext.checkCall ⟨wallet, operator, root', paymaster'⟩ index call shown) := by
  unfold CallContext.checkCall
  rw [verifySessionMembership_recased roots]
  split
  · exact .refl _
  · exact .after _ fun _ => (validatePaymaster_recased paymasters _).bind fun _ _ _ => .refl _

namespace Store.SameButRoots

theorem settleCall (same : s.SameButRoots R t) (reflexive : ∀ root, R root root)
    (roots : root.Recased root') (paymasters : paymaster.hex.Recased paymaster'.hex) (index : Nat)
    (call : WalletCall) (shown : SessionEntry) :
    EndsWithCode (SameButRoots R)
      (CallContext.settleCall ⟨wallet, operator, root, paymaster⟩ s index call shown)
      (CallContext.settleCall ⟨wallet, operator, root', paymaster'⟩ t index call shown) :=
  (CallContext.checkCall_recased roots paymasters index call shown).bind fun _ _ _ =>
    ((mirrors reflexive _ _).consumeSessionUse same shown.session).withCode.bind fun _ _ same =>
      ((mirrors reflexive _ _).consumeCallAllowances same call).withCode

theorem settleCalls (same : s.SameButRoots R t) (reflexive : ∀ root, R root root)
    (roots : root.Recased root') (paymasters : paymaster.hex.Recased paymaster'.hex) (index : Nat)
    (steps : List (WalletCall × SessionEntry)) (w : ValidityWindow) :
    EndsWithCode (fun x y => x.1.SameButRoots R y.1 ∧ x.2 = y.2)
      (CallContext.settleCalls ⟨wallet, operator, root, paymaster⟩ index steps s w)
      (CallContext.settleCalls ⟨wallet, operator, root', paymaster'⟩ index steps t w) := by
  induction steps generalizing index s t w with
  | nil => exact .ends ⟨same, rfl⟩
  | cons step rest ih =>
    obtain ⟨call, shown⟩ := step
    exact (same.settleCall reflexive roots paymasters index call shown).bind fun _ _ same =>
      .after _ fun w => ih same _ w

variable {p : PreparedOperation} {op' : UserOperation}

theorem installPermit (same : s.SameButRoots R t) (reflexive : ∀ root, R root root)
    (recased : p.op.Recased op') (permit : Option VerifiedPermit) :
    EndsAlike (SameButRoots R) (p.installPermit permit s) ({ p with op := op' }.installPermit permit t) := by
  cases permit with
  | none => exact .ends same
  | some v =>
    simp only [PreparedOperation.installPermit, ← recased.sender_eq]
    exact (mirrors reflexive _ _).install (fun p => ⟨p.sessionRoot, reflexive _, rfl⟩) same v

/-- A prepared operation is settled with one code on both stores, whatever the case of its letters. -/
theorem settle (same : s.SameButRoots R t) (reflexive : ∀ root, R root root)
    (recases : ∀ root root', R root root' → root.Recased root') (recased : p.op.Recased op')
    (permit : Option VerifiedPermit) :
    EndsWithCode (fun x y => x.1.SameButRoots R y.1 ∧ x.2 = y.2) (p.settle permit s)
      ({ p with op := op' }.settle permit t) := by
  unfold PreparedOperation.settle
  refine (same.installPermit reflexive recased permit).orFail.withCode.bind fun s₁ t₁ same => ?_
  obtain ⟨root, related, permission⟩ := same.permission reflexive p.op.sender p.operator
  simp only [← recased.sender_eq, permission]
  refine (validatePaymaster_recased recased.paymaster _).bind fun _ _ _ => ?_
  have charged := (mirrors reflexive p.op.sender p.operator).consumeBudget same
    fun _ _ permissions => permissions.afterOperation recased
  refine charged.orFail.withCode.bind fun s₂ t₂ paid => ?_
  exact paid.settleCalls reflexive (recases _ _ related) recased.paymaster 0 p.steps _

end Store.SameButRoots

end

/-! ### Validations -/

/-- The same outcome but for the case of letters: both validations end with the same result or fail with one
code, they report the same events, and their stores are the same but for the session roots, in whose places
stand ones that are related. -/
structure Outcome.SameButRoots (R : Hex → Hex → Prop) (o o' : Outcome) : Prop where
  result : EndsWithCode Eq o.result o'.result
  store : o.store.SameButRoots R o'.store
  events : o.events = o'.events

section

variable {R : Hex → Hex → Prop} {s t : Store}

theorem PreparedOperation.finish_recased {p : PreparedOperation} {op' : UserOperation}
    (same : s.SameButRoots R t) (reflexive : ∀ root, R root root)
    (recases : ∀ root root', R root root' → root.Recased root') (recased : p.op.Recased op')
    (permit : Option VerifiedPermit) (simulate : Bool) :
    (p.finish permit simulate s).SameButRoots R ({ p with op := op' }.finish permit simulate t) := by
  have events : { p with op := op' }.permitEvents permit = p.permitEvents permit := by
    unfold permitEvents
    rw [← recased.sender_eq]
  have settled := same.settle reflexive recases recased permit
  rw [finish_eq, finish_eq, events]
  generalize p.settle permit s = x, { p with op := op' }.settle permit t = y at settled ⊢
  cases settled with
  | fails code => exact ⟨.fails code, same, rfl⟩
  | @ends x y related =>
    obtain ⟨settled, windows⟩ := related
    simp only [windows]
    split
    · exact ⟨.refl _, same, rfl⟩
    · split
      · exact ⟨.refl _, same, rfl⟩
      · exact ⟨.refl _, settled, rfl⟩

/-! ### Reading -/

theorem splitValidatorSignature_recased {a b : Hex} (h : a.Recased b) :
    EndsAlike (fun x y => x.validator = y.validator ∧ x.payload.Recased y.payload)
      (splitValidatorSignature a) (splitValidatorSignature b) := by
  have named : Address.ofHex (a.take 20) = Address.ofHex (b.take 20) := by
    unfold Address.ofHex Address.checksummed? Address.bytes?
    rw [(h.take 20).bytes?_eq]
  unfold splitValidatorSignature
  rw [h.size_eq, named]
  split
  · exact .fails _
  · exact .after _ fun validator => .ends ⟨rfl, h.drop 20⟩

/-- The message that an operator signs does not depend on the case of letters. -/
theorem operatorMessageHash_recased {a b : Hex} (h : a.Recased b) (validator : Address) :
    operatorMessageHash a validator = operatorMessageHash b validator := by
  obtain rfl | ⟨bytes, ha, hb⟩ := h
  · rfl
  simp only [operatorMessageHash, Abi.encodeFields, Abi.encodeItems, Abi.encode]
  by_cases length : bytes.length = 32
  · have padded {text : Hex} (read : text.bytes? = some bytes) :
        ∃ word, Abi.encodeFixedBytes 32 text = .ok word ∧
          word.bytes? = some (bytes ++ List.replicate (32 - bytes.length) 0) :=
      length ▸ Abi.encodeFixedBytes_of_bytes? read (Nat.le_of_eq length)
    obtain ⟨x, encodedA, hx⟩ := padded ha
    obtain ⟨y, encodedB, hy⟩ := padded hb
    rw [encodedA, encodedB]
    cases encoded : Abi.encodeAddress validator with
    | error e => rfl
    | ok z =>
      have strict := Abi.isStrict_of_encodeAddress encoded
      obtain ⟨v, hv⟩ := Address.exists_bytes_of_isStrict strict
      obtain ⟨z', encoded', hz⟩ := Abi.encodeAddress_of_bytes? strict hv
      cases encoded.symm.trans encoded'
      have written {word : Hex} (hw : word.bytes? = some (bytes ++ List.replicate (32 - bytes.length) 0)) :=
        Abi.Item.bytes?_layout (.cons (a := ⟨false, word⟩) (b := ⟨false, _⟩) ⟨rfl, hw⟩
          (.cons (a := ⟨false, z⟩) (b := ⟨false, _⟩) ⟨rfl, hz⟩ .nil))
      have hashed : (Abi.Item.layout [⟨false, x⟩, ⟨false, z⟩]).keccak =
          (Abi.Item.layout [⟨false, y⟩, ⟨false, z⟩]).keccak := by
        unfold Hex.keccak
        rw [Hex.content_of_bytes? (written hx), Hex.content_of_bytes? (written hy)]
      exact congrArg Except.ok hashed
  · have refused {text : Hex} (read : text.bytes? = some bytes) :
        Abi.encodeFixedBytes 32 text = .error .bytesSizeMismatch := by
      unfold Abi.encodeFixedBytes
      rw [Hex.size_of_bytes? read, if_pos length]
    rw [refused ha, refused hb]

theorem PreparedOperation.ofOperation_recased {op op' : UserOperation} (recased : op.Recased op')
    {userOpHash userOpHash' : Hex} (hashes : userOpHash.Recased userOpHash')
    (alike : Abi.HasCapitalSelector WalletOperation.selectors op.callData ↔
      Abi.HasCapitalSelector WalletOperation.selectors op'.callData) (self : Address) :
    EndsAlike (fun p p' => p.op = op ∧ p' = { p with op := op' }) (ofOperation self op userOpHash)
      (ofOperation self op' userOpHash') := by
  unfold ofOperation
  refine (splitValidatorSignature_recased recased.signature).bind fun addressed addressed' split => ?_
  obtain ⟨named, payloads⟩ := split
  simp only [← named, SessionSignature.decode_recased payloads, operatorMessageHash_recased hashes,
    WalletOperation.decode_knowsSmallSelectors.read_eq recased.callData alike]
  refine .after _ fun same => ?_
  cases same with
  | false => exact .fails _
  | true =>
    refine .after _ fun operation => .after _ fun shown => ?_
    split
    · exact .fails _
    · exact .after _ fun message => .ends ⟨rfl, rfl⟩

namespace Engine

variable {e : Engine}

/-- A permit is read and verified alike from both stores, whatever the case of the letters in the operation
that carries it. -/
theorem verifiedPermit_recased {p : PreparedOperation} {op' : UserOperation} (same : s.SameButRoots R t)
    (reflexive : ∀ root, R root root) (recased : p.op.Recased op') (outside : Outside) :
    { e with store := s }.verifiedPermit outside p =
      { e with store := t }.verifiedPermit outside { p with op := op' } := by
  unfold verifiedPermit request answer
  simp only [← recased.sender_eq, (Store.SameButRoots.mirrors reflexive _ _).ofPermit_eq same]

theorem validateSignature_recased {op op' : UserOperation} {userOpHash userOpHash' : Hex}
    (same : s.SameButRoots R t) (reflexive : ∀ root, R root root)
    (recases : ∀ root root', R root root' → root.Recased root') (recased : op.Recased op')
    (hashes : userOpHash.Recased userOpHash')
    (alike : Abi.HasCapitalSelector WalletOperation.selectors op.callData ↔
      Abi.HasCapitalSelector WalletOperation.selectors op'.callData) (outside : Outside) (simulate : Bool) :
    ({ e with store := s }.validateSignature outside op userOpHash simulate).SameButRoots R
      ({ e with store := t }.validateSignature outside op' userOpHash' simulate) := by
  have reads := PreparedOperation.ofOperation_recased recased hashes alike e.config.validatorAddress
  unfold validateSignature ready prepare
  generalize PreparedOperation.ofOperation _ op userOpHash = x,
    PreparedOperation.ofOperation _ op' userOpHash' = y at reads ⊢
  cases reads with
  | fails f => exact ⟨.refl _, same, rfl⟩
  | @ends p p' related =>
    obtain ⟨rfl, rfl⟩ := related
    simp only [ok_bind, ← verifiedPermit_recased same reflexive recased]
    cases { e with store := s }.verifiedPermit outside p with
    | error f => exact ⟨.refl _, same, rfl⟩
    | ok permit => exact p.finish_recased same reflexive recases recased permit simulate

/-- An operation is malformed if there is a capital in the selector of its call data. -/
theorem validateSignature_of_capital {op : UserOperation} (self : e.config.validatorAddress.IsWellFormed)
    (signature : op.signature.WritesBytes)
    (capital : Abi.HasCapitalSelector WalletOperation.selectors op.callData) (outside : Outside)
    (userOpHash : Hex) (simulate : Bool) :
    ∃ r : Refusal, r.code = .malformedInput ∧
      e.validateSignature outside op userOpHash simulate = .unchanged e.store (.error (.refused r)) := by
  have reads : ∃ r : Refusal, r.code = .malformedInput ∧
      e.prepare op userOpHash = .error (.refused r) := by
    unfold prepare PreparedOperation.ofOperation splitValidatorSignature
    split
    · exact ⟨.shortSignature, rfl, rfl⟩
    next long =>
      obtain ⟨a, named, written⟩ := exists_ofHex_take signature (by omega)
      rw [named, orFail_ok, ok_bind, pure_eq_ok, ok_bind, Address.same_eq_ok written.isWellFormed self]
      cases a.hex.same e.config.validatorAddress.hex with
      | false => exact ⟨.wrongAddressee a e.config.validatorAddress, rfl, rfl⟩
      | true =>
        rw [WalletOperation.decode_knowsSmallSelectors.capital capital]
        exact ⟨_, rfl, rfl⟩
  obtain ⟨r, code, refused⟩ := reads
  refine ⟨r, code, ?_⟩
  unfold validateSignature ready
  rw [refused]
  rfl

end Engine

end

/-- **The case of letters decides nothing but whether a selector is known.** Readers of signatures and
predicates take recased texts alike, and checks of a call end with one code. Readers of calls take recased
call data alike as well, unless only one of the writings has a known selector with a capital in it: that one
is malformed, however the other is read. In the same way validations of recased operations, on stores in which
the session roots are recased, end with the same result or with one code, report the same events and leave
stores that are the same but for the case of letters in these roots, and the same if they were so before. But
an operation with a capital in the selector of its call data is refused as malformed, and nothing is
written. -/
theorem case_decides_selectors_only (e : Engine) (outside : Outside) (simulate : Bool)
    (wallet target : Address) (call : WalletCall) (value : Int) (mode : ExecutionMode)
    {data data' actual actual' : Hex} (recased : data.Recased data') (presented : actual.Recased actual')
    {session session' : Session} (sessions : session.Recased session') {op op' : UserOperation}
    (ops : op.Recased op') {userOpHash userOpHash' : Hex} (hashes : userOpHash.Recased userOpHash')
    {s t : Store} (stores : s.SameButRoots Hex.Recased t) :
    let isMisread := Abi.HasCapitalSelector WalletOperation.selectors
    let isMisspent := Abi.HasCapitalSelector TokenFunction.selectors
    let o := { e with store := s }.validateSignature outside op userOpHash simulate
    let o' := { e with store := t }.validateSignature outside op' userOpHash' simulate
    ((isMisread data ↔ isMisread data') → WalletOperation.decode data = WalletOperation.decode data') ∧
    (isMisread data → WalletOperation.decode data =
      .error (.refused (.malformed "wallet calldata" "unknown function selector"))) ∧
    ((isMisspent data ↔ isMisspent data') →
      { call with data := data }.spends wallet = { call with data := data' }.spends wallet) ∧
    (isMisspent data → { call with data := data }.spends wallet =
      .error (.refused (.malformed "token call" "unknown function selector"))) ∧
    SessionSignature.decode mode data = SessionSignature.decode mode data' ∧
    isAllowedCalldata data actual value = isAllowedCalldata data' actual' value ∧
    EndsWithCode Eq (checkArguments session target data value actual)
      (checkArguments session' target data' value actual') ∧
    (∀ entryPoint chainId, op.hash entryPoint chainId = op'.hash entryPoint chainId) ∧
    ((isMisread op.callData ↔ isMisread op'.callData) →
      o.SameButRoots Hex.Recased o' ∧ (s = t → o.store = o'.store)) ∧
    (isMisread op.callData → e.config.validatorAddress.IsWellFormed → op.signature.WritesBytes →
      ∃ r : Refusal, r.code = .malformedInput ∧ o = .unchanged s (.error (.refused r))) := by
  intro isMisread isMisspent o o'
  have spends := WalletCall.spends_knowsSmallSelectors wallet call
  refine ⟨WalletOperation.decode_knowsSmallSelectors.read_eq recased,
    WalletOperation.decode_knowsSmallSelectors.capital, spends.read_eq recased, spends.capital,
    SessionSignature.decode_recased recased mode, isAllowedCalldata_recased recased presented value,
    checkArguments_recased sessions recased presented target value, ops.hash_eq,
    fun alike => ⟨?_, ?_⟩, fun capital self signature => ?_⟩
  · exact Engine.validateSignature_recased stores .refl (fun _ _ => id) ops hashes alike outside simulate
  · rintro rfl
    have same : s.SameButRoots Eq s := .refl (fun _ => rfl) s
    have ends := Engine.validateSignature_recased (e := e) same (fun _ => rfl) (fun _ _ equal => .inl equal)
      ops hashes alike outside simulate
    exact ends.store.eq_of_eq
  · exact Engine.validateSignature_of_capital (e := { e with store := s }) self signature capital outside
      userOpHash simulate

/-- Capitals behind the selector of a call or in a session root change nothing, and a capital in the selector
makes the call malformed. -/
theorem capitals_in_call :
    let capitals (n : Nat) (h : Hex) : Hex :=
      .ofDigits (h.digits.take n ++ (h.digits.drop n).map Char.toUpper)
    let call : Hex := .ofBytes (WalletOperation.normalExecute.selector ++ List.replicate 128 0 ++ [0xab])
    let root : Hex := .ofBytes (List.replicate 32 0xab)
    let session (selector : Hex) : Session := ⟨.zero, selector, .ofBytes [0xc0], .zero, 0, 0, 0⟩
    let granted (root : Hex) : Store :=
      Store.empty.setPermission .zero .zero { OperatorPermission.empty with sessionRoot := root }
    let e : Engine := .ofConfig ⟨.zero, .zero, 1, .zero, none, none⟩
    let validated (root callData : Hex) := { e with store := granted root }.validateSignature .silent
      ⟨.zero, 0, .empty, callData, 0, 0, 0, 0, 0, .empty, Address.zero.hex⟩ .empty false
    (WalletOperation.decode call).toOption.isSome = true ∧
      WalletOperation.decode (capitals 8 call) = WalletOperation.decode call ∧
      EndsWithCode Eq
        (checkArguments (session (capitals 0 (call.take 4))) .zero (capitals 8 call) 0 (capitals 0 root))
        (checkArguments (session (call.take 4)) .zero call 0 root) ∧
      (validated (capitals 0 root) (capitals 8 call)).SameButRoots Hex.Recased (validated root call) ∧
      WalletOperation.decode (capitals 0 call) =
        .error (.refused (.malformed "wallet calldata" "unknown function selector")) ∧
      ∃ r : Refusal, r.code = .malformedInput ∧
        validated root (capitals 0 call) = .unchanged (granted root) (.error (.refused r)) := by
  intro capitals call root session granted e validated
  have behind : (capitals 8 call).Recased call := .of_bytes? (by decide +kernel) (Hex.bytes?_ofBytes _)
  have roots : (capitals 0 root).Recased root := .of_bytes? (by decide +kernel) (Hex.bytes?_ofBytes _)
  have selectors : (capitals 0 (call.take 4)).Recased (call.take 4) :=
    .of_bytes? (by decide +kernel : _ = some WalletOperation.normalExecute.selector) (by decide +kernel)
  have sessions : (session (capitals 0 (call.take 4))).Recased (session (call.take 4)) :=
    ⟨selectors, .refl _, rfl⟩
  have capital : Abi.HasCapitalSelector WalletOperation.selectors (capitals 0 call) := by decide +kernel
  have small : Abi.HasCapitalSelector WalletOperation.selectors (capitals 8 call) ↔
      Abi.HasCapitalSelector WalletOperation.selectors call := by decide +kernel
  let op (callData : Hex) : UserOperation :=
    ⟨.zero, 0, .empty, callData, 0, 0, 0, 0, 0, .empty, Address.zero.hex⟩
  have ops : (op (capitals 8 call)).Recased (op call) := ⟨.refl _, behind, .refl _, .refl _, rfl⟩
  have unchanged : (op (capitals 0 call)).Recased (op (capitals 0 call)) :=
    ⟨.refl _, .refl _, .refl _, .refl _, rfl⟩
  have empty : Store.empty.SameButRoots Hex.Recased .empty := .refl .refl _
  have stores : (granted (capitals 0 root)).SameButRoots Hex.Recased (granted root) :=
    empty.setPermission ⟨root, roots, rfl⟩ .zero .zero
  obtain ⟨decodes, -, -, -, -, -, checks, -, validates, -⟩ :=
    case_decides_selectors_only e .silent false .zero .zero ⟨.zero, 0, .empty, 0⟩ 0 .single behind roots
      sessions ops (.refl .empty) stores
  obtain ⟨-, malformed, -, -, -, -, -, -, -, refused⟩ :=
    case_decides_selectors_only e .silent false .zero .zero ⟨.zero, 0, .empty, 0⟩ 0 .single
      (.refl (capitals 0 call)) roots sessions unchanged (.refl .empty) (.refl .refl (granted root))
  exact ⟨by decide +kernel, decodes small, checks, (validates small).1, malformed capital,
    refused capital (by decide +kernel) ⟨_, Hex.bytes?_ofBytes _⟩⟩

end SessionKeys
