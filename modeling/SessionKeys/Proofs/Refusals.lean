import SessionKeys.Proofs.Confinement
import SessionKeys.Proofs.Membership
import SessionKeys.Proofs.Permissions
import SessionKeys.Proofs.SignatureForms

/-!
Checking and charging an operation fails for no cause but a refusal. Each step reads texts in which bytes
have to stand, and addresses that have to be well formed; where the steps before it give nothing else, it gives
a value or is refused (`GivesOrRefuses`), and what it gives is again what the steps after it need. Main
statement: `PreparedOperation.onlyRefuses_settle`.
-/

namespace SessionKeys

/-! ### Values and refusals -/

/-- A computation gives a value with a property, or is refused; it fails for no other cause. -/
inductive GivesOrRefuses {α : Type} (P : α → Prop) : Except Failure α → Prop
  | gives {a : α} (holds : P a) : GivesOrRefuses P (.ok a)
  | refuses (refusal : Refusal) : GivesOrRefuses P (.error (.refused refusal))

/-- A computation fails for no cause but a refusal. -/
abbrev OnlyRefuses {α : Type} (x : Except Failure α) : Prop :=
  GivesOrRefuses (fun _ => True) x

namespace GivesOrRefuses

variable {α β : Type} {P : α → Prop} {Q : β → Prop} {x y : Except Failure α} {f : α → Except Failure β}

theorem of_eq_ok {a : α} (ends : x = .ok a) (holds : P a) : GivesOrRefuses P x :=
  ends ▸ .gives holds

theorem bind (h : GivesOrRefuses P x) (next : ∀ a, P a → GivesOrRefuses Q (f a)) :
    GivesOrRefuses Q (x >>= f) := by
  cases h with
  | gives holds => exact next _ holds
  | refuses refusal => exact .refuses refusal

theorem mono {R : α → Prop} (h : GivesOrRefuses P x) (weaker : ∀ a, x = .ok a → P a → R a) :
    GivesOrRefuses R x := by
  cases h with
  | gives holds => exact .gives (weaker _ rfl holds)
  | refuses refusal => exact .refuses refusal

/-- What is given is the value of the computation. -/
theorem ends (h : GivesOrRefuses P x) : GivesOrRefuses (fun a => x = .ok a ∧ P a) x :=
  h.mono fun _ same holds => ⟨same, holds⟩

theorem onlyRefuses (h : GivesOrRefuses P x) : OnlyRefuses x :=
  h.mono fun _ _ _ => trivial

theorem ite {c : Prop} [Decidable c] (yes : c → GivesOrRefuses P x) (no : ¬c → GivesOrRefuses P y) :
    GivesOrRefuses P (if c then x else y) := by
  split
  · exact yes ‹_›
  · exact no ‹_›

theorem orFail (x : Except Refusal α) : GivesOrRefuses (fun a => x = .ok a) (orFail x) := by
  cases x with
  | error refusal => exact .refuses refusal
  | ok a => exact .gives rfl

/-- Whatever is read, what fails there is reported as malformed input. -/
theorem reading (what : String) (x : Except Failure α) :
    GivesOrRefuses (fun a => x = .ok a) (reading what x) := by
  cases x with
  | ok a => exact .gives rfl
  | error f => cases f <;> exact .refuses _

theorem holds (h : GivesOrRefuses P x) {a : α} (ends : x = .ok a) : P a := by
  cases h with
  | gives holds => exact Except.ok.inj ends ▸ holds
  | refuses refusal => cases ends

theorem exists_refusal (h : GivesOrRefuses P x) {f : Failure} (fails : x = .error f) :
    ∃ refusal, f = .refused refusal := by
  cases h with
  | gives holds => cases fails
  | refuses refusal =>
    cases fails
    exact ⟨refusal, rfl⟩

end GivesOrRefuses

/-! ### Items -/

/-- A text writes bytes. -/
def Hex.WritesBytes (h : Hex) : Prop :=
  ∃ b, h.bytes? = some b

theorem Hex.writesBytes_ofBytes (b : Bytes) : (Hex.ofBytes b).WritesBytes :=
  ⟨b, Hex.bytes?_ofBytes b⟩

theorem Hex.WritesBytes.exists_toInt {h : Hex} (writes : h.WritesBytes) (nonempty : h.size ≠ 0) :
    ∃ n, h.toInt = .ok n := by
  obtain ⟨b, hb⟩ := writes
  rw [Hex.size_of_bytes? hb] at nonempty
  exact ⟨_, Hex.toInt_of_bytes? hb (List.ne_nil_of_length_pos (Nat.pos_of_ne_zero nonempty))⟩

theorem Hex.WritesHash.exists_toInt_eq_ok {h : Hex} (hash : h.WritesHash) : ∃ n, h.toInt = .ok n := by
  obtain ⟨b, -, -, number⟩ := hash.exists_toInt
  exact ⟨_, Hex.toInt_eq_ok.2 number⟩

namespace Rlp

mutual

/-- Every byte string in an item, however deep, writes bytes. -/
def IsWritten : Rlp → Prop
  | .bytes h => h.WritesBytes
  | .list items => AreWritten items

def AreWritten : List Rlp → Prop
  | [] => True
  | item :: items => IsWritten item ∧ AreWritten items

end

theorem areWritten_of_readAll {d fuel : Nat} {b : Bytes} {items : List Rlp}
    (one : ∀ {b rest : Bytes} {item : Rlp}, readItem d b = .ok (item, rest) → item.IsWritten)
    (read : readAll (readItem d) fuel b = .ok items) : AreWritten items := by
  induction fuel generalizing b items with
  | zero =>
    cases b with
    | nil =>
      cases read
      trivial
    | cons first b => cases read
  | succ fuel ih =>
    cases b with
    | nil =>
      cases read
      trivial
    | cons first b =>
      rw [readAll] at read
      · obtain ⟨⟨item, rest⟩, here, read⟩ := bind_eq_ok.1 read
        obtain ⟨items, later, done⟩ := bind_eq_ok.1 read
        cases done
        exact ⟨one here, ih later⟩
      · rintro ⟨⟩

theorem isWritten_of_readItem {d : Nat} {b rest : Bytes} {item : Rlp}
    (read : readItem d b = .ok (item, rest)) : item.IsWritten := by
  induction d generalizing b rest item with
  | zero => cases read
  | succ d ih =>
    cases b with
    | nil => cases read
    | cons first b =>
      rw [readItem] at read
      split at read
      · cases read
        exact Hex.writesBytes_ofBytes _
      · split at read
        · obtain ⟨⟨content, after⟩, -, done⟩ := bind_eq_ok.1 read
          cases done
          exact Hex.writesBytes_ofBytes _
        · obtain ⟨⟨content, after⟩, -, read⟩ := bind_eq_ok.1 read
          obtain ⟨items, inside, done⟩ := bind_eq_ok.1 read
          cases done
          exact areWritten_of_readAll ih inside

/-- The item that a text writes is made of byte strings that write bytes. -/
theorem isWritten_of_ofHex {h : Hex} {item : Rlp} (read : ofHex h = .ok item) : item.IsWritten := by
  unfold ofHex at read
  rw [error_ite_eq_ok] at read
  obtain ⟨-, read⟩ := read
  split at read
  next b _ =>
    unfold decode at read
    split at read
    · cases read
      exact ⟨[], Hex.bytes?_empty⟩
    · obtain ⟨⟨item, rest⟩, one, done⟩ := bind_eq_ok.1 read
      simp only [throw_eq_error, ite_error_eq_ok, pure_eq_ok, Except.ok.injEq] at done
      obtain ⟨-, rfl⟩ := done
      exact isWritten_of_readItem one
  next => cases read

end Rlp

/-! ### Predicates -/

namespace Predicate

mutual

/-- Every literal of a predicate, however deep, writes bytes. -/
def IsWritten : Predicate → Prop
  | any => True
  | compare _ literal => literal.WritesBytes
  | combine _ children => AreWritten children

def AreWritten : List Predicate → Prop
  | [] => True
  | child :: children => IsWritten child ∧ AreWritten children

end

theorem onlyRefuses_tagOf {tag : Hex} (writes : tag.WritesBytes) : OnlyRefuses (tagOf tag) := by
  unfold tagOf
  refine .ite (fun _ => .refuses _) fun one => ?_
  obtain ⟨n, number⟩ := writes.exists_toInt (by omega)
  simp only [number, ok_bind]
  split
  · exact .gives trivial
  · exact .refuses _

mutual

/-- An item whose byte strings write bytes is a predicate whose literals do, or none. -/
theorem givesOrRefuses_ofRlp : ∀ item : Rlp, item.IsWritten → GivesOrRefuses IsWritten (ofRlp item)
  | .bytes _, _ | .list [], _ | .list [.bytes _], _ | .list [.list _], _ => .refuses _
  | .list (.bytes _ :: .bytes _ :: _ :: _), _ | .list (.bytes _ :: .list _ :: _ :: _), _ => .refuses _
  | .list [.list _, _], _ | .list (.list _ :: _ :: _ :: _), _ => .refuses _
  | .list [.bytes tag, .bytes literal], ⟨writes, inside, _⟩ => by
    rw [ofRlp]
    refine (onlyRefuses_tagOf writes).bind fun kind _ => (GivesOrRefuses.orFail _).mono ?_
    rintro p - made
    cases kind with
    | any =>
      cases made
      trivial
    | comparison op =>
      cases made
      exact inside
    | connective op => cases made
  | .list [.bytes tag, .list children], ⟨writes, inside, _⟩ => by
    rw [ofRlp]
    exact (onlyRefuses_tagOf writes).bind fun kind _ => (GivesOrRefuses.orFail _).bind fun op _ =>
      (givesOrRefuses_ofRlpAll children inside).bind fun predicates written => .gives written

theorem givesOrRefuses_ofRlpAll : ∀ items : List Rlp, Rlp.AreWritten items →
    GivesOrRefuses AreWritten (ofRlpAll items)
  | [], _ => .gives trivial
  | item :: items, ⟨here, later⟩ => by
    rw [ofRlpAll]
    exact (givesOrRefuses_ofRlp item here).bind fun first written =>
      (givesOrRefuses_ofRlpAll items later).bind fun rest others => .gives ⟨written, others⟩

end

end Predicate

theorem onlyRefuses_leadingWord {h : Hex} (writes : h.WritesBytes) : OnlyRefuses (leadingWord h) := by
  unfold leadingWord
  refine .ite (fun _ => .refuses _) fun long => ?_
  obtain ⟨b, hb⟩ := writes
  have start := Hex.bytes?_take hb 32
  rw [Hex.size_of_bytes? hb] at long
  obtain ⟨n, number⟩ := Hex.WritesBytes.exists_toInt ⟨_, start⟩
    (by rw [Hex.size_of_bytes? start, List.length_take]; omega)
  exact .of_eq_ok number trivial

namespace Predicate

variable {actual : Hex}

theorem onlyRefuses_holds (op : Comparison) {literal : Hex} (known : literal.WritesBytes)
    (writes : actual.WritesBytes) : OnlyRefuses (op.holds literal actual) := by
  cases op with
  | eq | ne => exact .gives trivial
  | gt | lt =>
    exact (onlyRefuses_leadingWord writes).bind fun _ _ =>
      (onlyRefuses_leadingWord known).bind fun _ _ => .gives trivial

mutual

theorem onlyRefuses_evaluate (writes : actual.WritesBytes) :
    ∀ p : Predicate, p.IsWritten → OnlyRefuses (p.evaluate actual)
  | any, _ => .gives trivial
  | compare op _, known => onlyRefuses_holds op known writes
  | combine _ children, known => by
    rw [evaluate]
    exact (onlyRefuses_evaluateAll writes children known).bind fun _ _ => .gives trivial

theorem onlyRefuses_evaluateAll (writes : actual.WritesBytes) :
    ∀ children : List Predicate, AreWritten children → OnlyRefuses (evaluateAll actual children)
  | [], _ => .gives trivial
  | child :: children, ⟨here, later⟩ => by
    rw [evaluateAll]
    exact (onlyRefuses_evaluate writes child here).bind fun _ _ =>
      (onlyRefuses_evaluateAll writes children later).bind fun _ _ => .gives trivial

end

end Predicate

/-! ### Arguments -/

theorem givesOrRefuses_decodeList (what : String) (data : Hex) :
    GivesOrRefuses Rlp.AreWritten (orFail (decodeList what data)) := by
  refine (GivesOrRefuses.orFail _).mono fun items _ read => ?_
  unfold decodeList at read
  split at read
  next => cases read
  next => cases read
  next _ list =>
    cases read
    exact Rlp.isWritten_of_ofHex list

theorem givesOrRefuses_decodeAllowedArguments (data : Hex) :
    GivesOrRefuses Predicate.AreWritten (decodeAllowedArguments data) :=
  (givesOrRefuses_decodeList _ data).bind Predicate.givesOrRefuses_ofRlpAll

theorem givesOrRefuses_decodeActualArguments (data : Hex) :
    GivesOrRefuses (fun slots => ∀ slot ∈ slots, slot.WritesBytes)
      (orFail (decodeActualArguments data)) := by
  refine (GivesOrRefuses.orFail _).mono fun slots _ read => ?_
  obtain ⟨bytes, rfl⟩ := exists_slots_of_decode read
  exact List.forall_mem_map.2 fun b _ => Hex.writesBytes_ofBytes b

theorem onlyRefuses_evaluateSlots {predicates : List Predicate} {slots : List Hex}
    (known : Predicate.AreWritten predicates) (written : ∀ slot ∈ slots, slot.WritesBytes) :
    OnlyRefuses (evaluateSlots predicates slots) := by
  induction predicates generalizing slots with
  | nil =>
    rw [evaluateSlots]
    · exact .gives trivial
    · simp
  | cons p predicates ih =>
    cases slots with
    | nil =>
      rw [evaluateSlots]
      · exact .gives trivial
      · simp
    | cons slot slots =>
      rw [evaluateSlots]
      exact (Predicate.onlyRefuses_evaluate (written slot List.mem_cons_self) p known.1).bind fun _ _ =>
        (ih known.2 fun s hs => written s (List.mem_cons_of_mem slot hs)).bind fun _ _ => .gives trivial

/-- Whatever texts stand for the allowed and the actual arguments, they are matched or refused. -/
theorem onlyRefuses_isAllowedCalldata (allowed actual : Hex) (value : Int) :
    OnlyRefuses (isAllowedCalldata allowed actual value) := by
  unfold isAllowedCalldata
  refine (givesOrRefuses_decodeAllowedArguments allowed).bind fun predicates known =>
    (givesOrRefuses_decodeActualArguments actual).bind fun slots written => ?_
  refine .ite (fun _ => .refuses _) fun _ => ?_
  cases slots with
  | nil => exact .gives trivial
  | cons slot rest =>
    refine .ite (fun _ => .refuses _) fun size => ?_
    obtain ⟨n, number⟩ := (written slot List.mem_cons_self).exists_toInt (by omega)
    rw [number, ok_bind]
    refine .ite (fun _ => .refuses _) fun _ => ?_
    exact (onlyRefuses_evaluateSlots known written).bind fun _ _ => .gives trivial

/-! ### Addresses -/

theorem Address.isWellFormed_of_bytes? {a : Address} {b : Bytes} (hb : a.bytes? = some b) :
    a.IsWellFormed := by
  unfold IsWellFormed
  rw [hb]
  rfl

theorem Address.isWellFormed_of_isStrict {a : Address} (strict : a.isStrict = true) : a.IsWellFormed := by
  obtain ⟨b, hb⟩ := exists_bytes_of_isStrict strict
  exact isWellFormed_of_bytes? hb

theorem Address.IsWellFormed.exists_toInt {a : Address} (h : a.IsWellFormed) : ∃ n, a.hex.toInt = .ok n := by
  obtain ⟨b, hb⟩ := h.exists_bytes
  obtain ⟨n, number⟩ := Agrees.exists_toInt ⟨b, hb, hb⟩
  exact ⟨n, Hex.toInt_eq_ok.2 number⟩

/-- Well-formed addresses can be compared. -/
theorem Address.givesOrRefuses_same {a b : Address} (ha : a.IsWellFormed) (hb : b.IsWellFormed) :
    OnlyRefuses (orFail (a.same b)) := by
  rw [same_eq_ok ha hb]
  exact .gives trivial

theorem onlyRefuses_validatePaymaster {pinned actual : Address} (hpinned : pinned.IsWellFormed)
    (hactual : actual.IsWellFormed) : OnlyRefuses (validatePaymaster pinned actual) := by
  unfold validatePaymaster
  obtain ⟨n, number⟩ := hpinned.exists_toInt
  rw [number, ok_bind]
  refine .ite (fun _ => .gives trivial) fun _ => ?_
  refine (Address.givesOrRefuses_same hpinned hactual).bind fun same _ => ?_
  cases same with
  | true => exact .gives trivial
  | false => exact .refuses _

theorem onlyRefuses_checkArguments {s : Session} {target : Address} (hsession : s.target.IsWellFormed)
    (htarget : target.IsWellFormed) (data : Hex) (value : Int) (arguments : Hex) :
    OnlyRefuses (checkArguments s target data value arguments) := by
  unfold checkArguments
  refine (Address.givesOrRefuses_same hsession htarget).bind fun same _ => ?_
  refine .ite (fun _ => ?_) fun _ => .refuses _
  refine (GivesOrRefuses.orFail _).bind fun selector _ => ?_
  refine .ite (fun _ => ?_) fun _ => .refuses _
  refine (GivesOrRefuses.orFail _).bind fun actual _ => ?_
  refine .ite (fun _ => ?_) fun _ => .refuses _
  refine (onlyRefuses_isAllowedCalldata _ _ _).bind fun allowed _ => ?_
  exact .ite (fun _ => .gives trivial) fun _ => .refuses _

/-! ### Sessions -/

theorem Session.exists_leaf {s : Session} (fits : fields.Fits s.values) : ∃ leaf, s.leaf = .ok leaf := by
  obtain ⟨encoding, encoded, -⟩ := Abi.encodeFields_of_fits (by decide) fits
  exact ⟨_, leaf_eq_ok.2 ⟨encoding, encoded, rfl⟩⟩

/-- A proof that is made of hashes leads from a leaf to a node. -/
theorem exists_processProof {proof : List Hex} {leaf : Hex} (hashes : ∀ h ∈ proof, h.WritesHash)
    (node : leaf.WritesHash) : ∃ top, processProof proof leaf = .ok top ∧ top.WritesHash := by
  unfold processProof
  induction proof generalizing leaf with
  | nil => exact ⟨leaf, rfl, node⟩
  | cons sibling rest ih =>
    obtain ⟨n, numberN⟩ := node.exists_toInt_eq_ok
    obtain ⟨m, numberM⟩ := (hashes sibling List.mem_cons_self).exists_toInt_eq_ok
    have joined : joinNodes leaf sibling = .ok (hashPair leaf sibling) := by
      unfold joinNodes
      rw [numberN, numberM]
      rfl
    rw [List.foldlM_cons, joined, ok_bind]
    exact ih (fun h hh => hashes h (List.mem_cons_of_mem sibling hh)) (isNode_hashPair _ _).writesHash

/-- What is shown for a call is a session that can be encoded, and a proof that is made of hashes. -/
structure SessionEntry.IsWellFormed (shown : SessionEntry) : Prop where
  proof : ∀ h ∈ shown.proof, h.WritesHash
  session : Session.fields.Fits shown.session.values

namespace SessionEntry.IsWellFormed

variable {shown : SessionEntry}

theorem target (h : shown.IsWellFormed) : shown.session.target.IsWellFormed :=
  Address.isWellFormed_of_isStrict h.session.1

theorem paymaster (h : shown.IsWellFormed) : shown.session.paymaster.IsWellFormed :=
  Address.isWellFormed_of_isStrict h.session.2.2.2.1

theorem onlyRefuses_membership (h : shown.IsWellFormed) {root : Hex} (hroot : root.WritesHash) :
    OnlyRefuses (verifySessionMembership shown.proof root shown.session) := by
  obtain ⟨leaf, made⟩ := Session.exists_leaf h.session
  obtain ⟨top, climbed, node⟩ := exists_processProof h.proof (Session.isNode_of_leaf made).writesHash
  obtain ⟨n, numberN⟩ := node.exists_toInt_eq_ok
  obtain ⟨m, numberM⟩ := hroot.exists_toInt_eq_ok
  have compared : validateSessionRoot shown.proof root shown.session = .ok (n == m) := by
    unfold validateSessionRoot
    rw [made, orFail_ok, ok_bind, climbed, ok_bind, numberN, numberM]
    rfl
  unfold verifySessionMembership
  rw [compared, ok_bind]
  exact .ite (fun _ => .gives trivial) fun _ => .refuses _

end SessionEntry.IsWellFormed

/-! ### Spendings -/

/-- Every address that is read from encoded arguments is well formed. -/
theorem Abi.isWellFormed_of_decode {data : Bytes} {base : Nat} {c c' : Cursor} {a : Address}
    (read : decode data .address base c = .ok (a, c')) : a.IsWellFormed := by
  unfold decode at read
  obtain ⟨word, c₁, found, read⟩ := Scan.bind_eq_ok.1 read
  cases read
  unfold Scan.bytes at found
  simp only [error_ite_eq_ok, not_lt, Except.ok.injEq, Prod.mk.injEq] at found
  obtain ⟨-, inside, rfl, -⟩ := found
  refine Address.isWellFormed_of_bytes? (Address.bytes?_ofBytes ?_)
  rw [List.length_drop, List.length_take, List.length_drop]
  omega

theorem TokenFunction.onlyRefuses_amountTaken (f : TokenFunction) {wallet : Address}
    (hwallet : wallet.IsWellFormed) (data : Hex) : OnlyRefuses (f.amountTaken wallet data) := by
  have compared : ∀ {a : Address} {x y : Except Failure (Option Int)}, a.IsWellFormed → OnlyRefuses x →
      OnlyRefuses y → OnlyRefuses (do if ← orFail (a.same wallet) then x else y) := by
    intro a x y ha hx hy
    exact (Address.givesOrRefuses_same ha hwallet).bind fun _ _ => .ite (fun _ => hx) fun _ => hy
  cases f with
  | transfer | approve | increaseAllowance =>
    refine (GivesOrRefuses.reading _ _).bind fun (recipient, amount, ()) decoded => ?_
    obtain ⟨_, _, _, _, row⟩ := Abi.decodeRow_of_decodeCall (orFail_eq_ok.1 decoded)
    obtain ⟨_, _, read, -⟩ := Abi.decodeRow_cons row
    exact compared (Abi.isWellFormed_of_decode read) (.gives trivial) (.gives trivial)
  | transferFrom =>
    refine (GivesOrRefuses.reading _ _).bind fun (holder, recipient, amount, ()) decoded => ?_
    obtain ⟨_, _, _, _, row⟩ := Abi.decodeRow_of_decodeCall (orFail_eq_ok.1 decoded)
    obtain ⟨_, _, readHolder, row⟩ := Abi.decodeRow_cons row
    obtain ⟨_, _, readRecipient, -⟩ := Abi.decodeRow_cons row
    exact compared (Abi.isWellFormed_of_decode readHolder)
      (compared (Abi.isWellFormed_of_decode readRecipient) (.gives trivial) (.gives trivial))
      (.gives trivial)

theorem WalletCall.onlyRefuses_spends {wallet : Address} (hwallet : wallet.IsWellFormed)
    (call : WalletCall) : OnlyRefuses (call.spends wallet) := by
  have tokens : OnlyRefuses (tokenSpends wallet call) := by
    unfold tokenSpends
    split
    · exact .gives trivial
    next f _ =>
      refine (f.onlyRefuses_amountTaken hwallet call.data).bind fun amount _ => ?_
      cases amount with
      | none => exact .gives trivial
      | some amount => exact .gives trivial
  exact tokens.bind fun _ _ => .gives trivial

/-! ### Settlements -/

namespace CallContext

/-- What calls are checked against is well formed. -/
structure IsWellFormed (c : CallContext) : Prop where
  wallet : c.wallet.IsWellFormed
  sessionRoot : c.sessionRoot.WritesHash
  paymaster : c.paymaster.IsWellFormed

variable {c : CallContext} {call : WalletCall} {shown : SessionEntry}

theorem onlyRefuses_checkCall (hc : c.IsWellFormed) (index : Nat) (htarget : call.target.IsWellFormed)
    (hshown : shown.IsWellFormed) : OnlyRefuses (c.checkCall index call shown) := by
  unfold checkCall
  refine .ite (fun _ => .refuses _) fun _ => ?_
  refine (hshown.onlyRefuses_membership hc.sessionRoot).bind fun _ _ => ?_
  refine (onlyRefuses_validatePaymaster hshown.paymaster hc.paymaster).bind fun _ _ => ?_
  exact onlyRefuses_checkArguments hshown.target htarget _ _ _

theorem onlyRefuses_settleCall (hc : c.IsWellFormed) (s : Store) (index : Nat)
    (htarget : call.target.IsWellFormed) (hshown : shown.IsWellFormed) :
    OnlyRefuses (c.settleCall s index call shown) := by
  obtain ⟨leaf, made⟩ := Session.exists_leaf hshown.session
  have counted : OnlyRefuses (s.consumeSessionUse c.wallet c.operator shown.session) := by
    unfold Store.consumeSessionUse
    refine .ite (fun _ => .gives trivial) fun _ => ?_
    rw [made, orFail_ok, ok_bind]
    exact .ite (fun _ => .refuses _) fun _ => .gives trivial
  refine (onlyRefuses_checkCall hc index htarget hshown).bind fun _ _ => counted.bind fun s₁ _ => ?_
  exact (call.onlyRefuses_spends hc.wallet).bind fun _ _ => (GivesOrRefuses.orFail _).onlyRefuses

theorem onlyRefuses_settleCalls (hc : c.IsWellFormed) (index : Nat) {steps : List (WalletCall × SessionEntry)}
    (hsteps : ∀ step ∈ steps, step.1.target.IsWellFormed ∧ step.2.IsWellFormed) (s : Store)
    (w : ValidityWindow) : OnlyRefuses (c.settleCalls index steps s w) := by
  induction steps generalizing index s w with
  | nil => exact .gives trivial
  | cons step rest ih =>
    obtain ⟨call, shown⟩ := step
    obtain ⟨htarget, hshown⟩ := hsteps _ List.mem_cons_self
    refine (onlyRefuses_settleCall hc s index htarget hshown).bind fun s₁ _ => ?_
    refine (GivesOrRefuses.orFail _).bind fun w₁ _ => ?_
    exact ih (index + 1) (fun step hs => hsteps step (List.mem_cons_of_mem _ hs)) s₁ w₁

end CallContext

/-- A permission names a root that is a hash, and a paymaster that is well formed. -/
structure OperatorPermission.IsWellFormed (p : OperatorPermission) : Prop where
  sessionRoot : p.sessionRoot.WritesHash
  paymaster : p.paymaster.IsWellFormed

/-- An operation as it is read: its addresses are well formed, what is shown for its calls is too, and its
permit can be encoded. -/
structure PreparedOperation.IsWellFormed (p : PreparedOperation) : Prop where
  sender : p.op.sender.isStrict = true
  operator : p.operator.isStrict = true
  paymaster : p.op.paymaster.IsWellFormed
  steps : ∀ step ∈ p.steps, step.1.target.IsWellFormed ∧ step.2.IsWellFormed
  permit : ∀ permit, p.permit = some permit → Permit.fields.Fits permit.values

namespace PreparedOperation

variable {p : PreparedOperation} {permit : Option VerifiedPermit} {s : Store}

/-- An operation as it is read is settled or refused, if the permission in force is well formed. -/
theorem onlyRefuses_settle (hp : p.IsWellFormed) (granted : (p.permissionInForce permit s).IsWellFormed) :
    OnlyRefuses (p.settle permit s) := by
  unfold settle
  refine (GivesOrRefuses.orFail _).bind fun s₁ installed => ?_
  rw [← permission_installPermit installed] at granted
  refine (onlyRefuses_validatePaymaster granted.paymaster hp.paymaster).bind fun _ _ => ?_
  refine (GivesOrRefuses.orFail _).bind fun s₂ _ => ?_
  exact CallContext.onlyRefuses_settleCalls
    ⟨Address.isWellFormed_of_isStrict hp.sender, granted.sessionRoot, hp.paymaster⟩ 0 hp.steps _ _

theorem onlyRefuses_finish (hp : p.IsWellFormed) (granted : (p.permissionInForce permit s).IsWellFormed)
    (simulate : Bool) : OnlyRefuses (p.finish permit simulate s).result := by
  have settled := onlyRefuses_settle hp granted
  rw [finish_eq]
  cases ends : p.settle permit s with
  | error f =>
    obtain ⟨refusal, rfl⟩ := settled.exists_refusal ends
    exact .refuses refusal
  | ok x =>
    simp only
    split
    · exact .gives trivial
    · split
      · exact .gives trivial
      · exact .gives trivial

end PreparedOperation

end SessionKeys
