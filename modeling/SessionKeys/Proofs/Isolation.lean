import SessionKeys.Proofs.OwnerControl

/-!
Wallets and operators do not disturb one another. What is done for one operator of a wallet writes only
in rows that no other operator has (`Store.Apart`), so nobody else can tell that it was done; and it
reads only in rows of its own, so it does not depend on anybody else. The second part compares two
stores that hold the same records of the operator (`Store.SameRecords`), step by step, and says that
a validation ends alike on both; what it needs of such a relation is stated once (`Store.Mirrors`). Main
statement: `operators_isolated`.
-/

namespace SessionKeys

/-! ### Computations side by side -/

section

variable {ε α β γ δ : Type} {R : α → β → Prop}

/-- Two computations end alike: they fail for the same cause, or end well with related values. -/
inductive EndsAlike (R : α → β → Prop) : Except ε α → Except ε β → Prop
  | fails (e : ε) : EndsAlike R (.error e) (.error e)
  | ends {a : α} {b : β} (related : R a b) : EndsAlike R (.ok a) (.ok b)

namespace EndsAlike

theorem bind {Q : γ → δ → Prop} {x : Except ε α} {y : Except ε β} {f : α → Except ε γ}
    {g : β → Except ε δ} (h : EndsAlike R x y) (next : ∀ a b, R a b → EndsAlike Q (f a) (g b)) :
    EndsAlike Q (x >>= f) (y >>= g) := by
  cases h with
  | fails e => exact .fails e
  | ends related => exact next _ _ related

/-- What comes after one computation ends alike if it does for each of its values. -/
theorem after (x : Except ε γ) {f : γ → Except ε α} {g : γ → Except ε β}
    (next : ∀ c, EndsAlike R (f c) (g c)) : EndsAlike R (x >>= f) (x >>= g) := by
  cases x with
  | error e => exact .fails e
  | ok c => exact next c

theorem refl (x : Except ε α) : EndsAlike Eq x x := by
  cases x with
  | error e => exact .fails e
  | ok a => exact .ends rfl

theorem orFail [Coe ε Failure] {x : Except ε α} {y : Except ε β} (h : EndsAlike R x y) :
    EndsAlike R (SessionKeys.orFail x) (SessionKeys.orFail y) := by
  cases h with
  | fails e => exact .fails _
  | ends related => exact .ends related

end EndsAlike

end

namespace Store

/-! ### Other operators -/

/-- What is filed for an operator of a wallet is filed apart from what is filed for another one. -/
def Apart (wallet operator w o : Address) : Prop :=
  ∀ rest rest', wallet.key ++ operator.key ++ rest ≠ w.key ++ o.key ++ rest'

end Store

namespace Address

/-- A well-formed address is filed under one word, which tells its bytes. -/
theorem IsWellFormed.exists_word {a : Address} (h : a.IsWellFormed) :
    ∃ bytes, a.bytes? = some bytes ∧ a.key = [(Hex.ofBytes bytes).chars] := by
  obtain ⟨bytes, read⟩ := h.exists_bytes
  exact ⟨bytes, read, Hex.key_of_bytes? (bytes?_eq_some_iff.1 read).1⟩

/-- Well-formed addresses that are filed under one key agree. -/
theorem agrees_of_key {a b : Address} (ha : a.IsWellFormed) (hb : b.IsWellFormed)
    (same : a.key = b.key) : a.Agrees b := by
  obtain ⟨x, hx⟩ := ha.exists_bytes
  obtain ⟨y, hy⟩ := hb.exists_bytes
  have bytes := (Hex.key_inj (bytes?_eq_some_iff.1 hx).1 (bytes?_eq_some_iff.1 hy).1).1 same
  exact ⟨x, hx, bytes ▸ hy⟩

end Address

namespace Store

variable {wallet operator w o : Address}

/-- Operators that differ in their wallet or in themselves are filed apart. -/
theorem apart_of_not_agrees (hwallet : wallet.IsWellFormed) (hoperator : operator.IsWellFormed)
    (hw : w.IsWellFormed) (ho : o.IsWellFormed) (other : ¬(wallet.Agrees w ∧ operator.Agrees o)) :
    Apart wallet operator w o := by
  intro rest rest' same
  obtain ⟨_, -, walletKey⟩ := hwallet.exists_word
  obtain ⟨_, -, operatorKey⟩ := hoperator.exists_word
  obtain ⟨_, -, wKey⟩ := hw.exists_word
  obtain ⟨_, -, oKey⟩ := ho.exists_word
  have words := same
  rw [walletKey, operatorKey, wKey, oKey] at words
  simp only [List.cons_append, List.nil_append, List.cons.injEq] at words
  refine other ⟨Address.agrees_of_key hwallet hw ?_, Address.agrees_of_key hoperator ho ?_⟩
  · rw [walletKey, wKey, words.1]
  · rw [operatorKey, oKey, words.2.1]

/-- A store answers all questions about an operator as another one does. -/
structure SameAnswers (s t : Store) (wallet operator : Address) : Prop where
  permission : t.permission wallet operator = s.permission wallet operator
  spendingLimit? : ∀ token, t.spendingLimit? wallet operator token = s.spendingLimit? wallet operator token
  permitNonce : t.permitNonce wallet operator = s.permitNonce wallet operator
  usesOfSession : ∀ leaf, t.usesOfSession wallet operator leaf = s.usesOfSession wallet operator leaf

theorem SameAnswers.refl (s : Store) (wallet operator : Address) : s.SameAnswers s wallet operator :=
  ⟨rfl, fun _ => rfl, rfl, fun _ => rfl⟩

namespace ConfinedTo

variable {s t : Store}

theorem refl (s : Store) (wallet operator : Address) : s.ConfinedTo s wallet operator :=
  ⟨fun _ _ => rfl, fun _ _ => rfl, fun _ _ _ => rfl, fun _ _ => Iff.rfl, fun _ _ => rfl⟩

/-- Nobody who is filed apart can tell what was written for an operator. -/
theorem sameAnswers (h : s.ConfinedTo t wallet operator) (apart : Apart wallet operator w o) :
    s.SameAnswers t w o where
  permission := h.permissions (permissionRow w o) fun same =>
    apart [] [] (by simpa [permissionRow] using same)
  spendingLimit? token := h.limits (limitRow w o token) fun other => apart other.key token.key
  permitNonce := h.nonces w o fun same =>
    apart [] [] (by simpa [permissionRow] using same)
  usesOfSession leaf := h.uses (useRow w o leaf) fun other => apart other.key leaf.key

/-- The hashes that are used on another wallet stay the same. -/
theorem isHashUsed (h : s.ConfinedTo t wallet operator) (hwallet : wallet.IsWellFormed)
    (hw : w.IsWellFormed) (other : ¬wallet.Agrees w) (hash : Hex) :
    t.isHashUsed w hash = s.isHashUsed w hash := by
  have elsewhere : ∀ written : Hex, wallet.key ++ written.key ≠ w.key ++ hash.key := by
    intro written same
    obtain ⟨_, -, walletKey⟩ := hwallet.exists_word
    obtain ⟨_, -, wKey⟩ := hw.exists_word
    have words := same
    rw [walletKey, wKey, List.singleton_append, List.singleton_append, List.cons.injEq] at words
    refine other (Address.agrees_of_key hwallet hw ?_)
    rw [walletKey, wKey, words.1]
  rw [Bool.eq_iff_iff, isHashUsed_eq_true, isHashUsed_eq_true]
  exact h.hashes _ elsewhere

end ConfinedTo

end Store

namespace ManagementCall

/-- The wallet and the operator that a call is for. A hash is revoked for all operators of a wallet. -/
def IsFor (wallet operator : Address) : ManagementCall → Prop
  | setSessionRoot w o _ | setOperatorRemainingGas w o _ | setOperatorRemainingTimes w o _
  | setOperatorPermission w o _ | setSpendingLimit w o _ _ | batchSetSpendingLimit w o _
  | resetSpendingLimit w o _ | deleteSpendingLimit w o _ => w = wallet ∧ o = operator
  | revokeSignature w _ => w = wallet

variable {s s' : Store} {call : ManagementCall} {events : List Event} {wallet operator : Address}

/-- A call that changes only a permission is confined to its operator. -/
theorem confinedTo_setPermission (s : Store) (wallet operator : Address) (p : OperatorPermission) :
    s.ConfinedTo (s.setPermission wallet operator p) wallet operator where
  permissions row other := (s.permissionIn_setPermission wallet operator p row).trans (if_neg other)
  limits _ _ := rfl
  nonces _ _ _ := rfl
  hashes _ _ := Iff.rfl
  uses _ _ := rfl

/-- So is one that changes only limits of the operator. -/
theorem confinedTo_limits {spendingLimits : Table SpendingLimitInfo}
    (elsewhere : ∀ row, (∀ token, limitRow wallet operator token ≠ row) →
      spendingLimits.find? row = s.limitIn? row) :
    s.ConfinedTo { s with spendingLimits } wallet operator where
  permissions _ _ := rfl
  limits := elsewhere
  nonces _ _ _ := rfl
  hashes _ _ := Iff.rfl
  uses _ _ := rfl

/-- A call writes nothing but what is filed for its operator. -/
theorem confinedTo_apply (isFor : call.IsFor wallet operator) (h : call.apply s = .ok (s', events)) :
    s.ConfinedTo s' wallet operator := by
  cases call with
  | setSessionRoot | setOperatorRemainingGas | setOperatorRemainingTimes =>
    obtain ⟨rfl, rfl⟩ := isFor
    cases h
    exact confinedTo_setPermission _ _ _ _
  | setOperatorPermission =>
    obtain ⟨rfl, rfl⟩ := isFor
    obtain ⟨-, -, done⟩ := bind_eq_ok.1 h
    cases done
    exact confinedTo_setPermission _ _ _ _
  | setSpendingLimit _ _ token allowance =>
    obtain ⟨rfl, rfl⟩ := isFor
    cases h
    exact confinedTo_limits fun row other => Table.find?_put_of_ne (other token)
  | batchSetSpendingLimit _ _ limits =>
    obtain ⟨rfl, rfl⟩ := isFor
    cases h
    rw [Store.startSpendingLimits_eq]
    exact confinedTo_limits fun row other =>
      Store.limitIn?_startSpendingLimits fun l _ => other l.token
  | resetSpendingLimit _ _ token =>
    obtain ⟨rfl, rfl⟩ := isFor
    simp only [apply] at h
    split at h
    · cases h
      exact .refl _ _ _
    · cases h
      exact confinedTo_limits fun row other => Table.find?_put_of_ne (other token)
  | deleteSpendingLimit _ _ token =>
    obtain ⟨rfl, rfl⟩ := isFor
    simp only [apply] at h
    split at h
    · cases h
      exact .refl _ _ _
    · cases h
      exact confinedTo_limits fun row other => Table.find?_remove_of_ne (other token)
  | revokeSignature _ hash =>
    obtain rfl : _ = wallet := isFor
    cases h
    refine ⟨fun _ _ => rfl, fun _ _ => rfl, fun _ _ _ => rfl, fun key other => ?_, fun _ _ => rfl⟩
    rw [Store.isUsed_markHashUsed]
    exact or_iff_right (other hash).symm

end ManagementCall

/-! ### Stores side by side -/

/-- Stores that are related hold the same records of an operator of a wallet but for its permission, in
whose place stand related ones, and they stay related if the same is written for the operator to both. -/
structure Store.Mirrors (Q : Store → Store → Prop)
    (P : OperatorPermission → OperatorPermission → Prop) (wallet operator : Address) : Prop where
  permission : ∀ {s t : Store}, Q s t → P (s.permission wallet operator) (t.permission wallet operator)
  spendingLimit? : ∀ {s t : Store}, Q s t → ∀ token,
    s.spendingLimit? wallet operator token = t.spendingLimit? wallet operator token
  permitNonce : ∀ {s t : Store}, Q s t → s.permitNonce wallet operator = t.permitNonce wallet operator
  isHashUsed : ∀ {s t : Store}, Q s t → ∀ hash, s.isHashUsed wallet hash = t.isHashUsed wallet hash
  usesOfSession : ∀ {s t : Store}, Q s t → ∀ leaf,
    s.usesOfSession wallet operator leaf = t.usesOfSession wallet operator leaf
  setPermission : ∀ {s t : Store} {p q : OperatorPermission}, Q s t → P p q →
    Q (s.setPermission wallet operator p) (t.setPermission wallet operator q)
  setSpendingLimit : ∀ {s t : Store}, Q s t → ∀ token info,
    Q (s.setSpendingLimit wallet operator token info) (t.setSpendingLimit wallet operator token info)
  incrementPermitNonce : ∀ {s t : Store}, Q s t →
    Q (s.incrementPermitNonce wallet operator) (t.incrementPermitNonce wallet operator)
  markHashUsed : ∀ {s t : Store}, Q s t → ∀ hash,
    Q (s.markHashUsed wallet hash) (t.markHashUsed wallet hash)
  setUsesOfSession : ∀ {s t : Store}, Q s t → ∀ leaf used,
    Q (s.setUsesOfSession wallet operator leaf used) (t.setUsesOfSession wallet operator leaf used)

namespace Store.Mirrors

variable {Q : Store → Store → Prop} {P : OperatorPermission → OperatorPermission → Prop}
  {wallet operator : Address} {s t : Store}

theorem startSpendingLimits (mirrors : Mirrors Q P wallet operator) (related : Q s t)
    (limits : List SpendingLimit) :
    Q (s.startSpendingLimits wallet operator limits) (t.startSpendingLimits wallet operator limits) := by
  unfold Store.startSpendingLimits
  induction limits generalizing s t with
  | nil => exact related
  | cons l rest ih => exact ih (mirrors.setSpendingLimit related l.token ⟨l.allowance, 0⟩)

/-! Both stores are charged alike. -/

theorem consumeBudget (mirrors : Mirrors Q P wallet operator) (related : Q s t) {op op' : UserOperation}
    (left : ∀ p q, P p q → EndsAlike P (p.afterOperation op) (q.afterOperation op')) :
    EndsAlike Q (s.consumeBudget wallet operator op) (t.consumeBudget wallet operator op') :=
  (left _ _ (mirrors.permission related)).bind fun _ _ permissions =>
    .ends (mirrors.setPermission related permissions)

theorem consumeSessionUse (mirrors : Mirrors Q P wallet operator) (related : Q s t) (session : Session) :
    EndsAlike Q (s.consumeSessionUse wallet operator session)
      (t.consumeSessionUse wallet operator session) := by
  unfold Store.consumeSessionUse
  split
  · exact .ends related
  · refine .after _ fun leaf => ?_
    simp only [mirrors.usesOfSession related]
    split
    · exact .fails _
    · exact .ends (mirrors.setUsesOfSession related leaf _)

theorem consumeAllowance (mirrors : Mirrors Q P wallet operator) (related : Q s t) (spend : TokenSpend) :
    EndsAlike Q (s.consumeAllowance wallet operator spend) (t.consumeAllowance wallet operator spend) := by
  unfold Store.consumeAllowance
  rw [mirrors.spendingLimit? related]
  cases t.spendingLimit? wallet operator spend.token with
  | none => exact .ends related
  | some info => exact .after _ fun left => .ends (mirrors.setSpendingLimit related spend.token left)

theorem consumeAllowances (mirrors : Mirrors Q P wallet operator) (related : Q s t)
    (spends : List TokenSpend) :
    EndsAlike Q (spends.foldlM (fun s spend => s.consumeAllowance wallet operator spend) s)
      (spends.foldlM (fun t spend => t.consumeAllowance wallet operator spend) t) := by
  induction spends generalizing s t with
  | nil => exact .ends related
  | cons spend rest ih =>
    rw [List.foldlM_cons, List.foldlM_cons]
    exact (mirrors.consumeAllowance related spend).bind fun _ _ related => ih related

theorem consumeCallAllowances (mirrors : Mirrors Q P wallet operator) (related : Q s t)
    (call : WalletCall) :
    EndsAlike Q (s.consumeCallAllowances wallet operator call)
      (t.consumeCallAllowances wallet operator call) :=
  .after _ fun spends => (mirrors.consumeAllowances related spends).orFail

/-- A permit is installed alike in both stores. -/
theorem install (mirrors : Mirrors Q P wallet operator) (reflexive : ∀ p, P p p) (related : Q s t)
    (v : VerifiedPermit) :
    EndsAlike Q (v.install s wallet operator) (v.install t wallet operator) := by
  unfold VerifiedPermit.install VerifiedPermit.check
  rw [mirrors.permitNonce related, mirrors.isHashUsed related]
  have marked := mirrors.markHashUsed related v.hash
  have granted := mirrors.setPermission (mirrors.incrementPermitNonce marked) (reflexive v.permit.permission)
  exact .after _ fun _ => .ends (mirrors.startSpendingLimits granted v.permit.spendingLimits)

/-- A permit is read alike from both stores. -/
theorem ofPermit_eq (mirrors : Mirrors Q P wallet operator) (related : Q s t) (chainId : Number)
    (r : Registry) (permit : Permit) :
    PermitRequest.ofPermit chainId s r wallet operator permit =
      PermitRequest.ofPermit chainId t r wallet operator permit := by
  unfold PermitRequest.ofPermit Store.permitMessageHash
  simp only [mirrors.permitNonce related, mirrors.isHashUsed related]

end Store.Mirrors

/-! ### The same records -/

/-- Tables that agree in a place agree there after the same was filed in both. -/
theorem Table.find?_put_congr {α : Type} {t u : Table α} {place : List (List Char)}
    (same : t.find? place = u.find? place) (row : List (List Char)) (value : α) :
    (t.put row value).find? place = (u.put row value).find? place := by
  rw [find?_put, find?_put, same]

/-- Two stores hold the same records of an operator of a wallet, and the same used hashes of the
wallet. -/
structure Store.SameRecords (s t : Store) (wallet operator : Address) : Prop where
  permission : s.permissions.find? (permissionRow wallet operator) =
    t.permissions.find? (permissionRow wallet operator)
  limit : ∀ token, s.spendingLimits.find? (limitRow wallet operator token) =
    t.spendingLimits.find? (limitRow wallet operator token)
  nonce : s.permitNonces.find? (permissionRow wallet operator) =
    t.permitNonces.find? (permissionRow wallet operator)
  used : ∀ hash : Hex, s.usedHashes.find? (wallet.key ++ hash.key) =
    t.usedHashes.find? (wallet.key ++ hash.key)
  uses : ∀ leaf, s.sessionUses.find? (useRow wallet operator leaf) =
    t.sessionUses.find? (useRow wallet operator leaf)

namespace Store.SameRecords

variable {s t : Store} {wallet operator : Address}

/-- Stores with the same records of an operator stay so if the same is written for it to both. -/
theorem mirrors (wallet operator : Address) :
    Mirrors (fun s t => s.SameRecords t wallet operator) Eq wallet operator where
  permission same := congrArg (·.getD OperatorPermission.empty) same.permission
  spendingLimit? same := same.limit
  permitNonce same := congrArg (·.getD 0) same.nonce
  isHashUsed same hash := congrArg Option.isSome (same.used hash)
  usesOfSession same leaf := congrArg (·.getD 0) (same.uses leaf)
  setPermission same equal := equal ▸ { same with permission := Table.find?_put_congr same.permission _ _ }
  setSpendingLimit same _ info :=
    { same with limit := fun other => Table.find?_put_congr (same.limit other) _ info }
  incrementPermitNonce {s t} same := by
    have nonces : s.permitNonce wallet operator = t.permitNonce wallet operator :=
      congrArg (·.getD 0) same.nonce
    unfold Store.incrementPermitNonce
    rw [nonces]
    exact { same with nonce := Table.find?_put_congr same.nonce _ _ }
  markHashUsed same _ := { same with used := fun other => Table.find?_put_congr (same.used other) _ () }
  setUsesOfSession same _ used :=
    { same with uses := fun other => Table.find?_put_congr (same.uses other) _ used }

/-! ### Settling on both stores -/

theorem settleCall {c : CallContext} (same : s.SameRecords t c.wallet c.operator) (index : Nat)
    (call : WalletCall) (shown : SessionEntry) :
    EndsAlike (fun s t => s.SameRecords t c.wallet c.operator) (c.settleCall s index call shown)
      (c.settleCall t index call shown) :=
  .after _ fun _ => ((mirrors _ _).consumeSessionUse same shown.session).bind fun _ _ same =>
    (mirrors _ _).consumeCallAllowances same call

theorem settleCalls {c : CallContext} (same : s.SameRecords t c.wallet c.operator) (index : Nat)
    (steps : List (WalletCall × SessionEntry)) (w : ValidityWindow) :
    EndsAlike (fun x y => x.1.SameRecords y.1 c.wallet c.operator ∧ x.2 = y.2)
      (c.settleCalls index steps s w) (c.settleCalls index steps t w) := by
  induction steps generalizing index s t w with
  | nil => exact .ends ⟨same, rfl⟩
  | cons step rest ih =>
    obtain ⟨call, shown⟩ := step
    exact (same.settleCall index call shown).bind fun _ _ same => .after _ fun w => ih same _ w

variable {p : PreparedOperation}

theorem installPermit (same : s.SameRecords t p.op.sender p.operator)
    (permit : Option VerifiedPermit) :
    EndsAlike (fun s t => s.SameRecords t p.op.sender p.operator) (p.installPermit permit s)
      (p.installPermit permit t) := by
  cases permit with
  | none => exact .ends same
  | some v => exact (mirrors _ _).install (fun _ => rfl) same v

theorem settle (same : s.SameRecords t p.op.sender p.operator) (permit : Option VerifiedPermit) :
    EndsAlike (fun x y => x.1.SameRecords y.1 p.op.sender p.operator ∧ x.2 = y.2)
      (p.settle permit s) (p.settle permit t) := by
  unfold PreparedOperation.settle
  refine (same.installPermit permit).orFail.bind fun s₁ t₁ same => ?_
  have left : ∀ q r : OperatorPermission, q = r →
      EndsAlike Eq (q.afterOperation p.op) (r.afterOperation p.op) := by
    rintro q _ rfl
    exact .refl _
  simp only [(mirrors _ _).permission same]
  exact .after _ fun _ => ((mirrors _ _).consumeBudget same left).orFail.bind fun s₂ t₂ paid =>
    settleCalls (c := ⟨p.op.sender, p.operator, _, p.op.paymaster⟩) paid 0 p.steps _

/-- A validation ends alike on both stores. -/
theorem finish (same : s.SameRecords t p.op.sender p.operator) (permit : Option VerifiedPermit)
    (simulate : Bool) :
    (p.finish permit simulate s).result = (p.finish permit simulate t).result ∧
      (p.finish permit simulate s).events = (p.finish permit simulate t).events ∧
      (p.finish permit simulate s).store.SameRecords (p.finish permit simulate t).store p.op.sender
        p.operator := by
  rw [PreparedOperation.finish_eq, PreparedOperation.finish_eq]
  have settled := same.settle permit
  generalize p.settle permit s = x, p.settle permit t = y at settled ⊢
  cases settled with
  | fails f => exact ⟨rfl, rfl, same⟩
  | @ends x y related =>
    obtain ⟨settled, windows⟩ := related
    simp only [windows]
    split
    · exact ⟨rfl, rfl, same⟩
    · split
      · exact ⟨rfl, rfl, same⟩
      · exact ⟨rfl, rfl, settled⟩

theorem verifiedPermit_eq (same : s.SameRecords t p.op.sender p.operator) (e : Engine)
    (outside : Outside) :
    { e with store := s }.verifiedPermit outside p = { e with store := t }.verifiedPermit outside p := by
  unfold Engine.verifiedPermit Engine.request
  simp only [(mirrors _ _).ofPermit_eq same]

end Store.SameRecords

/-! ### Validations -/

/-- What is done for an operator of a wallet leaves alone what can be asked about every other one, and
the hashes that are used on every other wallet. -/
structure Store.LeavesOthers (s s' : Store) (wallet operator : Address) : Prop where
  answers : ∀ {w o : Address}, w.IsWellFormed → o.IsWellFormed →
    ¬(wallet.Agrees w ∧ operator.Agrees o) → s.SameAnswers s' w o
  hashes : ∀ {w : Address}, w.IsWellFormed → ¬wallet.Agrees w →
    ∀ hash, s'.isHashUsed w hash = s.isHashUsed w hash

theorem Store.ConfinedTo.leavesOthers {s s' : Store} {wallet operator : Address}
    (h : s.ConfinedTo s' wallet operator) (hwallet : wallet.IsWellFormed)
    (hoperator : operator.IsWellFormed) : s.LeavesOthers s' wallet operator where
  answers hw ho other := h.sameAnswers (apart_of_not_agrees hwallet hoperator hw ho other)
  hashes hw other hash := h.isHashUsed hwallet hw other hash

theorem PreparedOperation.confinedTo_finish (p : PreparedOperation) (permit : Option VerifiedPermit)
    (simulate : Bool) (s : Store) :
    s.ConfinedTo (p.finish permit simulate s).store p.op.sender p.operator := by
  rw [finish_eq]
  cases settled : p.settle permit s with
  | error f => exact .refl _ _ _
  | ok x =>
    simp only
    split
    · exact .refl _ _ _
    · split
      · exact .refl _ _ _
      · exact confinedTo_settle settled

namespace Engine

variable {e : Engine} {op : UserOperation} {userOpHash : Hex} {wallet operator : Address}

/-- An operation is by an operator of a wallet: its sender is the wallet, and the operator is the one
that its signature names, if it can be read. -/
def IsBy (e : Engine) (op : UserOperation) (userOpHash : Hex) (wallet operator : Address) : Prop :=
  op.sender = wallet ∧ ∀ p, e.prepare op userOpHash = .ok p → p.operator = operator

theorem IsBy.of_prepare (isBy : e.IsBy op userOpHash wallet operator) {p : PreparedOperation}
    (prepared : e.prepare op userOpHash = .ok p) : p.op.sender = wallet ∧ p.operator = operator := by
  refine ⟨?_, isBy.2 p prepared⟩
  obtain ⟨_, _, _, -, -, -, -, -, rfl⟩ := PreparedOperation.ofOperation_eq_ok.1 prepared
  exact isBy.1

/-- A validation writes nothing but what is filed for the operator. -/
theorem confinedTo_validateSignature (isBy : e.IsBy op userOpHash wallet operator) (outside : Outside)
    (simulate : Bool) :
    e.store.ConfinedTo (e.validateSignature outside op userOpHash simulate).store wallet operator := by
  unfold validateSignature
  cases made : e.ready outside op userOpHash with
  | error f => exact .refl _ _ _
  | ok x =>
    obtain ⟨p, permit⟩ := x
    obtain ⟨rfl, rfl⟩ := isBy.of_prepare (ready_eq_ok.1 made).1
    exact p.confinedTo_finish permit simulate e.store

/-- A validation ends alike on two stores that hold the same records of the operator. -/
theorem validateSignature_alike {outside : Outside} {s t : Store} (isBy : e.IsBy op userOpHash wallet operator)
    (same : s.SameRecords t wallet operator) (simulate : Bool) :
    let a := { e with store := s }.validateSignature outside op userOpHash simulate
    let b := { e with store := t }.validateSignature outside op userOpHash simulate
    a.result = b.result ∧ a.events = b.events ∧ a.store.SameRecords b.store wallet operator := by
  intro a b
  have ready (u : Store) : { e with store := u }.ready outside op userOpHash =
      (e.prepare op userOpHash >>= fun p =>
        ({ e with store := u }.verifiedPermit outside p).map fun permit => (p, permit)) := rfl
  simp only [a, b, validateSignature, ready]
  cases prepared : e.prepare op userOpHash with
  | error f => exact ⟨rfl, rfl, same⟩
  | ok p =>
    obtain ⟨rfl, rfl⟩ := isBy.of_prepare prepared
    simp only [ok_bind, same.verifiedPermit_eq]
    cases { e with store := t }.verifiedPermit outside p with
    | error f => exact ⟨rfl, rfl, same⟩
    | ok permit => exact same.finish permit simulate

end Engine

/-- **Wallets and operators are isolated.** Neither a change by the owner that is for an operator of a
wallet nor a validation of an operation by that operator changes anything that can be asked about
another operator or another wallet, nor the hashes that are used on another wallet. And a validation
ends alike on any two stores that hold the same records of the operator and the same used hashes of the
wallet: with the same result and the same events, and these records and hashes are the same again. -/
theorem operators_isolated {wallet operator : Address} (hwallet : wallet.IsWellFormed)
    (hoperator : operator.IsWellFormed) (e : Engine) :
    (∀ call e' events, call.IsFor wallet operator → e.manage call = .ok (e', events) →
      e.store.LeavesOthers e'.store wallet operator) ∧
    ∀ op userOpHash, e.IsBy op userOpHash wallet operator → ∀ outside simulate,
      let validated (s : Store) :=
        { e with store := s }.validateSignature outside op userOpHash simulate
      (∀ s : Store, s.LeavesOthers (validated s).store wallet operator) ∧
      ∀ s t : Store, s.SameRecords t wallet operator →
        (validated s).result = (validated t).result ∧ (validated s).events = (validated t).events ∧
          (validated s).store.SameRecords (validated t).store wallet operator := by
  refine ⟨fun call e' events isFor managed => ?_, fun op userOpHash isBy outside simulate => ?_⟩
  · obtain ⟨⟨s, _⟩, applied, done⟩ := bind_eq_ok.1 managed
    cases done
    exact (call.confinedTo_apply isFor applied).leavesOthers hwallet hoperator
  · intro validated
    refine ⟨fun s => ?_, fun s t same => Engine.validateSignature_alike isBy same simulate⟩
    have confined :=
      Engine.confinedTo_validateSignature (e := { e with store := s }) isBy outside simulate
    exact confined.leavesOthers hwallet hoperator

/-- A grant to one operator is not seen by another one of the same wallet, and what is filed for that one
does not matter to the validation of an operation of the first. -/
theorem grant_unseen_by_others :
    let e : Engine := ⟨⟨.zero, .zero, 1, .zero, none, none⟩, .empty, {}⟩
    let other : Address := ⟨Hex.ofBytes (List.replicate 20 1)⟩
    let grant : ManagementCall := .setOperatorRemainingGas .zero .zero 5
    let t : Store := Store.empty.setPermission .zero other { OperatorPermission.empty with gasRemaining := 7 }
    let validated (s : Store) :=
      { e with store := s }.validateSignature .silent unsigned .empty false
    Address.zero.IsWellFormed ∧ other.IsWellFormed ∧ ¬Address.zero.Agrees other ∧
      (∃ e' events, e.manage grant = .ok (e', events) ∧
        (e'.store.permission .zero .zero).gasRemaining = 5 ∧
        e.store.SameAnswers e'.store .zero other) ∧
      e.IsBy unsigned .empty .zero .zero ∧ Store.empty.SameRecords t .zero .zero ∧
      (validated .empty).result = (validated t).result := by
  intro e other grant t validated
  have zero : Address.zero.IsWellFormed := by decide
  have wellFormed : other.IsWellFormed := by decide
  have apart : ¬Address.zero.Agrees other := by
    rintro ⟨bytes, first, second⟩
    have same : Address.zero.bytes? = other.bytes? := first.trans second.symm
    exact absurd same (by decide)
  have isolated := operators_isolated zero zero e
  have refused : e.prepare unsigned .empty = .error (.refused .shortSignature) := rfl
  have isBy : e.IsBy unsigned .empty .zero .zero := by
    refine ⟨rfl, fun p prepared => ?_⟩
    rw [refused] at prepared
    cases prepared
  have same : Store.empty.SameRecords t .zero .zero := by
    have elsewhere : permissionRow .zero other ≠ permissionRow .zero .zero := by decide
    exact ⟨(Table.find?_put_of_ne elsewhere).symm, fun _ => rfl, rfl, fun _ => rfl, fun _ => rfl⟩
  refine ⟨zero, wellFormed, apart, ⟨_, _, rfl, ?_, ?_⟩, isBy, same, ?_⟩
  · have granted (p : OperatorPermission) : (e.store.setPermission .zero .zero p).permission .zero .zero = p :=
      (Store.permissionIn_setPermission _ _ _ _ _).trans (if_pos rfl)
    exact congrArg OperatorPermission.gasRemaining (granted _)
  · exact (isolated.1 grant _ _ ⟨rfl, rfl⟩ rfl).answers zero wellFormed fun agrees => apart agrees.2
  · exact ((isolated.2 unsigned .empty isBy .silent false).2 .empty t same).1

end SessionKeys
