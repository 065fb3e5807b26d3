import Mathlib
import SessionKeys.Accounting
import SessionKeys.Proofs.Decoding

/-!
What a batch of calls may spend. The limits are charged one spending at a time, and each charge is
checked against what the ones before it have left. As no spending is negative, all charges go well
if the total of each token that is spent is within its limit. Main statement: `fits_iff`.
-/

namespace SessionKeys

/-! ### Amounts -/

/-- The amount that stands in call data is not negative. -/
theorem TokenFunction.nonneg_amountTaken {f : TokenFunction} {wallet : Address} {data : Hex}
    {amount : Int} (h : f.amountTaken wallet data = .ok (some amount)) : 0 ≤ amount := by
  have byRecipient : ∀ {g : TokenFunction} {target : Address} {n : Int},
      g.toRecipient.decodeCall data = .ok (target, n, ()) → 0 ≤ n := by
    intro g target n decoded
    obtain ⟨bytes, place, c, c', row⟩ := Abi.decodeRow_of_decodeCall decoded
    obtain ⟨-, c₁, -, row⟩ := Abi.decodeRow_cons row
    obtain ⟨c₂, c₃, word, -⟩ := Abi.decodeRow_cons row
    exact Abi.nonneg_decode_uint word
  cases f with
  | transfer | approve | increaseAllowance =>
    obtain ⟨⟨target, n, ⟨⟩⟩, decoded, rest⟩ := bind_eq_ok.1 h
    obtain ⟨own, -, rest⟩ := bind_eq_ok.1 rest
    cases own with
    | true => cases rest
    | false =>
      cases rest
      exact byRecipient (orFail_eq_ok.1 (reading_eq_ok.1 decoded))
  | transferFrom =>
    obtain ⟨⟨holder, target, n, ⟨⟩⟩, decoded, rest⟩ := bind_eq_ok.1 h
    obtain ⟨held, -, rest⟩ := bind_eq_ok.1 rest
    cases held with
    | false => cases rest
    | true =>
      obtain ⟨own, -, rest⟩ := bind_eq_ok.1 rest
      cases own with
      | true => cases rest
      | false =>
        cases rest
        obtain ⟨bytes, place, c, c', row⟩ :=
          Abi.decodeRow_of_decodeCall (orFail_eq_ok.1 (reading_eq_ok.1 decoded))
        obtain ⟨-, c₁, -, row⟩ := Abi.decodeRow_cons row
        obtain ⟨-, c₂, -, row⟩ := Abi.decodeRow_cons row
        obtain ⟨c₃, c₄, word, -⟩ := Abi.decodeRow_cons row
        exact Abi.nonneg_decode_uint word

theorem nonneg_nativeSpends {call : WalletCall} {spend : TokenSpend}
    (h : spend ∈ nativeSpends call) : 0 ≤ spend.amount := by
  unfold nativeSpends at h
  split at h
  next positive =>
    rw [List.mem_singleton] at h
    subst h
    exact Int.le_of_lt positive
  next => cases h

theorem nonneg_tokenSpends {wallet : Address} {call : WalletCall} {spends : List TokenSpend}
    (h : tokenSpends wallet call = .ok spends) {spend : TokenSpend} (hs : spend ∈ spends) :
    0 ≤ spend.amount := by
  unfold tokenSpends at h
  split at h
  · cases h
    cases hs
  next f _ =>
    obtain ⟨amount, taken, rest⟩ := bind_eq_ok.1 h
    cases amount with
    | none =>
      cases rest
      cases hs
    | some amount =>
      cases rest
      rw [List.mem_singleton] at hs
      subst hs
      exact f.nonneg_amountTaken taken

/-- A call spends nothing or something, but not less than nothing. -/
theorem WalletCall.nonneg_spends {wallet : Address} {call : WalletCall} {spends : List TokenSpend}
    (h : call.spends wallet = .ok spends) {spend : TokenSpend} (hs : spend ∈ spends) :
    0 ≤ spend.amount := by
  obtain ⟨tokens, read, done⟩ := bind_eq_ok.1 h
  cases done
  rcases List.mem_append.1 hs with native | token
  · exact nonneg_nativeSpends native
  · exact nonneg_tokenSpends read token

/-- All that some calls spend, in order. -/
def spendsOfAll (wallet : Address) : List WalletCall → Except Failure (List TokenSpend)
  | [] => .ok []
  | call :: calls => do return (← call.spends wallet) ++ (← spendsOfAll wallet calls)

theorem spendsOfAll_cons_eq_ok {wallet : Address} {call : WalletCall} {calls : List WalletCall}
    {spends : List TokenSpend} :
    spendsOfAll wallet (call :: calls) = .ok spends ↔
      ∃ first rest, call.spends wallet = .ok first ∧ spendsOfAll wallet calls = .ok rest ∧
        spends = first ++ rest := by
  rw [spendsOfAll]
  simp only [bind_eq_ok, pure_eq_ok, Except.ok.injEq]
  constructor
  · rintro ⟨first, hf, rest, hr, rfl⟩
    exact ⟨first, rest, hf, hr, rfl⟩
  · rintro ⟨first, rest, hf, hr, rfl⟩
    exact ⟨first, hf, rest, hr, rfl⟩

theorem nonneg_spendsOfAll {wallet : Address} {calls : List WalletCall} {spends : List TokenSpend}
    (h : spendsOfAll wallet calls = .ok spends) {spend : TokenSpend} (hs : spend ∈ spends) :
    0 ≤ spend.amount := by
  induction calls generalizing spends with
  | nil =>
    cases h
    cases hs
  | cons call calls ih =>
    obtain ⟨first, rest, hf, hr, rfl⟩ := spendsOfAll_cons_eq_ok.1 h
    rcases List.mem_append.1 hs with now | later
    · exact call.nonneg_spends hf now
    · exact ih hr later

/-! ### Limits -/

/-- Limits on tokens: none for a token that is unrestricted. -/
abbrev Limits := Address → Option SpendingLimitInfo

namespace Limits

/-- What is left of limits after a spending. -/
def after (limits : Limits) (spend : TokenSpend) : Limits := fun token =>
  if token.key = spend.token.key then
    (limits token).map fun info => { info with spent := info.spent + spend.amount }
  else limits token

/-- Some spendings fit into limits one after the other. -/
def Fits : Limits → List TokenSpend → Prop
  | _, [] => True
  | limits, spend :: rest =>
    (∀ info, limits spend.token = some info → info.spent + spend.amount ≤ info.allowance) ∧
      (limits.after spend).Fits rest

/-- The total that is spent of the token filed under a key. -/
def total (key : List (List Char)) (spends : List TokenSpend) : Int :=
  ((spends.filter fun spend => spend.token.key = key).map (·.amount)).sum

theorem total_cons (key : List (List Char)) (spend : TokenSpend) (rest : List TokenSpend) :
    total key (spend :: rest) =
      (if spend.token.key = key then spend.amount else 0) + total key rest := by
  unfold total
  by_cases here : spend.token.key = key
  · simp [here]
  · simp [here]

theorem total_nonneg {key : List (List Char)} {spends : List TokenSpend}
    (nonneg : ∀ spend ∈ spends, 0 ≤ spend.amount) : 0 ≤ total key spends := by
  unfold total
  refine List.sum_nonneg fun n hn => ?_
  obtain ⟨spend, hs, rfl⟩ := List.mem_map.1 hn
  exact nonneg spend (List.mem_filter.1 hs).1

theorem total_eq_zero {key : List (List Char)} {spends : List TokenSpend}
    (none : ∀ spend ∈ spends, spend.token.key ≠ key) : total key spends = 0 := by
  unfold total
  rw [List.filter_eq_nil_iff.2 fun spend hs => by simpa using none spend hs]
  rfl

/-- The limits do not look at how a token is written. -/
def ByKey (limits : Limits) : Prop :=
  ∀ a b : Address, a.key = b.key → limits a = limits b

theorem ByKey.after {limits : Limits} (h : limits.ByKey) (spend : TokenSpend) :
    (limits.after spend).ByKey := by
  intro a b same
  unfold Limits.after
  rw [h a b same, same]

/-- Under the key of its token a spending is added to what was spent. -/
theorem ByKey.after_same {limits : Limits} (h : limits.ByKey) {spend : TokenSpend} {token : Address}
    (same : token.key = spend.token.key) :
    limits.after spend token =
      (limits spend.token).map fun info => { info with spent := info.spent + spend.amount } := by
  unfold Limits.after
  rw [if_pos same, h token spend.token same]

theorem after_other {limits : Limits} {spend : TokenSpend} {token : Address}
    (other : token.key ≠ spend.token.key) : limits.after spend token = limits token :=
  if_neg other

/-- The total of each token that is spent is within the limit on it. -/
def Within (limits : Limits) (spends : List TokenSpend) : Prop :=
  ∀ spend ∈ spends, ∀ info, limits spend.token = some info →
    info.spent + total spend.token.key spends ≤ info.allowance

namespace Within

variable {limits : Limits} {spend : TokenSpend} {rest : List TokenSpend}

theorem cons (byKey : limits.ByKey)
    (now : ∀ info, limits spend.token = some info → info.spent + spend.amount ≤ info.allowance)
    (later : (limits.after spend).Within rest) : limits.Within (spend :: rest) := by
  intro other ho info hinfo
  rw [total_cons]
  by_cases same : spend.token.key = other.token.key
  · rw [if_pos same]
    have hspend : limits spend.token = some info := (byKey _ _ same).trans hinfo
    by_cases again : ∃ next ∈ rest, next.token.key = spend.token.key
    · -- the last check on this token is one on the rest
      obtain ⟨next, hn, hk⟩ := again
      have left : limits.after spend next.token =
          some { info with spent := info.spent + spend.amount } := by
        rw [byKey.after_same hk, hspend]
        rfl
      have total := later next hn _ left
      rw [hk, same] at total
      simp only at total
      omega
    · have none : total other.token.key rest = 0 :=
        total_eq_zero fun next hn hk => again ⟨next, hn, hk.trans same.symm⟩
      have check := now info hspend
      omega
  · rw [if_neg same, Int.zero_add]
    have there : other ∈ rest := by
      rcases List.mem_cons.1 ho with rfl | there
      · exact absurd rfl same
      · exact there
    exact later other there info ((after_other (Ne.symm same)).trans hinfo)

theorem head (h : limits.Within (spend :: rest)) (nonneg : ∀ other ∈ rest, 0 ≤ other.amount)
    (info : SpendingLimitInfo) (hinfo : limits spend.token = some info) :
    info.spent + spend.amount ≤ info.allowance := by
  have check := h spend List.mem_cons_self info hinfo
  have others : 0 ≤ total spend.token.key rest := total_nonneg nonneg
  rw [total_cons, if_pos rfl] at check
  omega

theorem tail (h : limits.Within (spend :: rest)) (byKey : limits.ByKey) :
    (limits.after spend).Within rest := by
  intro other ho info left
  have within := h other (List.mem_cons_of_mem spend ho)
  by_cases same : other.token.key = spend.token.key
  · rw [byKey.after_same same] at left
    obtain ⟨before, hb, rfl⟩ := Option.map_eq_some_iff.1 left
    have check := within before ((byKey _ _ same).trans hb)
    rw [total_cons, if_pos same.symm] at check
    simp only
    omega
  · rw [after_other same] at left
    have check := within info left
    rw [total_cons, if_neg (Ne.symm same), Int.zero_add] at check
    exact check

end Within

/-- Spendings fit one after the other if the total of each token is within its limit. -/
theorem fits_iff {limits : Limits} (byKey : limits.ByKey) {spends : List TokenSpend}
    (nonneg : ∀ spend ∈ spends, 0 ≤ spend.amount) : limits.Fits spends ↔ limits.Within spends := by
  induction spends generalizing limits with
  | nil => simp [Fits, Within]
  | cons spend rest ih =>
    have nonnegRest : ∀ other ∈ rest, 0 ≤ other.amount := fun other ho =>
      nonneg other (List.mem_cons_of_mem spend ho)
    rw [Fits, ih (byKey.after spend) nonnegRest]
    constructor
    · rintro ⟨now, later⟩
      exact .cons byKey now later
    · intro within
      exact ⟨within.head nonnegRest, within.tail byKey⟩

theorem fits_append {limits : Limits} {first rest : List TokenSpend} :
    limits.Fits (first ++ rest) ↔ limits.Fits first ∧ (first.foldl after limits).Fits rest := by
  induction first generalizing limits with
  | nil => simp [Fits]
  | cons spend more ih =>
    simp only [List.cons_append, Fits, List.foldl_cons, ih, and_assoc]

end Limits

/-! ### Charging a store -/

namespace Store

variable {s s' : Store} {wallet operator : Address}

/-- The limits that are filed in a store do not look at how a token is written. -/
theorem byKey_spendingLimit? (s : Store) (wallet operator : Address) :
    Limits.ByKey (s.spendingLimit? wallet operator) := by
  intro a b same
  unfold spendingLimit?
  rw [same]

theorem spendingLimit?_setSpendingLimit (s : Store) (wallet operator token other : Address)
    (info : SpendingLimitInfo) :
    (s.setSpendingLimit wallet operator token info).spendingLimit? wallet operator other =
      if other.key = token.key then some info else s.spendingLimit? wallet operator other := by
  unfold spendingLimit? setSpendingLimit
  rw [Table.find?_put]
  by_cases same : token.key = other.key
  · simp [same]
  · simp [same, Ne.symm same]

/-- A spending can be charged if it fits. -/
theorem exists_consumeAllowance {spend : TokenSpend} :
    (∃ s', s.consumeAllowance wallet operator spend = .ok s') ↔
      ∀ info, s.spendingLimit? wallet operator spend.token = some info →
        info.spent + spend.amount ≤ info.allowance := by
  unfold consumeAllowance
  cases s.spendingLimit? wallet operator spend.token with
  | none => simp
  | some info =>
    simp only [bind_eq_ok, SpendingLimitInfo.afterSpend, error_ite_eq_ok, pure_eq_ok]
    constructor
    · rintro ⟨-, -, ⟨fits, -⟩, -⟩ _ ⟨⟩
      omega
    · intro fits
      exact ⟨_, _, ⟨by have := fits info rfl; omega, rfl⟩, rfl⟩

/-- A spending that is charged is taken off the limit on its token. -/
theorem left_of_consumeAllowance {spend : TokenSpend}
    (h : s.consumeAllowance wallet operator spend = .ok s') :
    s'.spendingLimit? wallet operator = Limits.after (s.spendingLimit? wallet operator) spend ∧
      s'.usesOfSession wallet operator = s.usesOfSession wallet operator := by
  have byKey := s.byKey_spendingLimit? wallet operator
  unfold consumeAllowance at h
  cases hl : s.spendingLimit? wallet operator spend.token with
  | none =>
    rw [hl] at h
    cases h
    refine ⟨funext fun token => ?_, rfl⟩
    by_cases same : token.key = spend.token.key
    · rw [byKey.after_same same, byKey _ _ same, hl]
      rfl
    · rw [Limits.after_other same]
  | some info =>
    rw [hl] at h
    simp only [bind_eq_ok, SpendingLimitInfo.afterSpend, error_ite_eq_ok, pure_eq_ok,
      Except.ok.injEq] at h
    obtain ⟨_, ⟨-, rfl⟩, rfl⟩ := h
    refine ⟨funext fun token => ?_, rfl⟩
    rw [spendingLimit?_setSpendingLimit]
    by_cases same : token.key = spend.token.key
    · rw [if_pos same, byKey.after_same same, hl]
      rfl
    · rw [if_neg same, Limits.after_other same]

/-- Several spendings can be charged one after the other if they fit. -/
theorem exists_foldlM_consumeAllowance {spends : List TokenSpend} :
    (∃ s', spends.foldlM (fun s spend => s.consumeAllowance wallet operator spend) s = .ok s') ↔
      Limits.Fits (s.spendingLimit? wallet operator) spends := by
  induction spends generalizing s with
  | nil => simp [Limits.Fits, pure_eq_ok]
  | cons spend rest ih =>
    rw [Limits.Fits, ← exists_consumeAllowance]
    simp only [List.foldlM_cons, bind_eq_ok]
    constructor
    · rintro ⟨s', s₁, first, others⟩
      rw [← (left_of_consumeAllowance first).1]
      exact ⟨⟨s₁, first⟩, ih.1 ⟨s', others⟩⟩
    · rintro ⟨⟨s₁, first⟩, others⟩
      rw [← (left_of_consumeAllowance first).1] at others
      obtain ⟨s', rest⟩ := ih.2 others
      exact ⟨s', s₁, first, rest⟩

theorem left_of_foldlM_consumeAllowance {spends : List TokenSpend}
    (h : spends.foldlM (fun s spend => s.consumeAllowance wallet operator spend) s = .ok s') :
    s'.spendingLimit? wallet operator =
        spends.foldl Limits.after (s.spendingLimit? wallet operator) ∧
      s'.usesOfSession wallet operator = s.usesOfSession wallet operator := by
  induction spends generalizing s with
  | nil =>
    cases h
    exact ⟨rfl, rfl⟩
  | cons spend rest ih =>
    rw [List.foldlM_cons] at h
    obtain ⟨s₁, first, others⟩ := bind_eq_ok.1 h
    obtain ⟨limits, uses⟩ := left_of_consumeAllowance first
    obtain ⟨further, same⟩ := ih others
    rw [limits] at further
    exact ⟨further, same.trans uses⟩

end Store

end SessionKeys
