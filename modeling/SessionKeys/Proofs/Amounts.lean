import SessionKeys.Proofs.Isolation
import SessionKeys.Proofs.Requests
import SessionKeys.Tool.Run

/-!
Amounts in requests. An amount that is read is not negative, and a budget fits into 128 bits, because
every way to read one ends in digits without a sign or in a number that is checked. So whatever changes a
request asks for are sound (`ManagementCall.IsSound`): they are for the configured wallet and stay within
the bounds of what may be filed (`ToolRequest.isSound_of_reader`).
-/

namespace SessionKeys

/-! ### Readings -/

namespace Reading

variable {α β : Type} {path : Path}

theorem mem_of_best? {readings : List (Reading α)} {a : α} (h : best? readings = some (.ok a)) :
    .ok a ∈ readings := by
  induction readings with
  | nil => cases h
  | cons first rest ih =>
    cases first with
    | ok b =>
      cases h
      exact List.mem_cons_self
    | soft issues =>
      rw [best?] at h
      split at h
      next later =>
        cases h
        exact List.mem_cons_of_mem _ (ih later)
      next => cases h
    | hard issues => exact List.mem_cons_of_mem _ (ih h)

/-- What is read in one of several ways is read in one of them. -/
theorem mem_of_firstOf {readings : List (Reading α)} {a : α} (h : firstOf path readings = .ok a) :
    .ok a ∈ readings := by
  unfold firstOf at h
  cases found : best? readings with
  | none =>
    rw [found] at h
    cases h
  | some r =>
    rw [found, Option.getD_some] at h
    subst h
    exact mem_of_best? found

theorem andThen_eq_ok {r : Reading α} {step : α → Reading β} {b : β} :
    r.andThen step = .ok b ↔ ∃ a, r = .ok a ∧ step a = .ok b := by
  cases r with
  | ok a => simp [andThen]
  | soft issues => simp [andThen]
  | hard issues => simp [andThen]

end Reading

namespace Reader

variable {α : Type} {path : Path} {value : Option Json} {read : Reader α} {P : α → Prop}

/-! ### Optional values and lists -/

theorem optional_ensures (ensures : ∀ path value a, read path value = .ok a → P a) {found : Option α}
    (h : optional read path value = .ok found) : ∀ a, found = some a → P a := by
  rintro a rfl
  cases value with
  | none => cases h
  | some v =>
    obtain ⟨b, hb, same⟩ := Reading.map_eq_ok.1 h
    cases same
    exact ensures path (some v) a hb

theorem items_ensures (ensures : ∀ path value a, read path value = .ok a → P a) {index : Nat}
    {values : List Json} {found : List α} (h : items read path index values = .ok found) :
    ∀ a ∈ found, P a := by
  induction values generalizing index found with
  | nil =>
    cases h
    exact fun _ => nofun
  | cons v rest ih =>
    simp only [items, Reading.seq_eq_ok, Reading.fmap_eq_ok] at h
    obtain ⟨_, others, ⟨first, hfirst, rfl⟩, hrest, rfl⟩ := h
    exact List.forall_mem_cons.2 ⟨ensures _ _ first hfirst, ih hrest⟩

theorem list_ensures (ensures : ∀ path value a, read path value = .ok a → P a) {least : Nat}
    {found : List α} (h : list read least path value = .ok found) : ∀ a ∈ found, P a := by
  unfold list at h
  split at h
  next values =>
    obtain ⟨_, _, each, read, rfl⟩ := Reading.seq_eq_ok.1 h
    obtain ⟨_, -, rfl⟩ := Reading.fmap_eq_ok.1 each
    exact items_ensures ensures read
  next => cases h

/-! ### Amounts -/

theorem nonneg_wholeNumber {bound : Option Int} {n : Int} (h : wholeNumber bound path value = .ok n) :
    0 ≤ n := by
  unfold wholeNumber at h
  split at h
  next d =>
    simp only [Reading.softly_eq_ok, List.append_eq_nil_iff, ite_eq_right_iff, imp_false,
      List.cons_ne_nil, Option.isNone_iff_eq_none] at h
    obtain ⟨⟨⟨whole, nonneg⟩, -⟩, rfl⟩ := h
    obtain ⟨m, hm⟩ := Option.ne_none_iff_exists'.1 whole
    rw [Number.toInt?_eq_some.1 hm] at nonneg ⊢
    rw [Number.toInt?_ofInt, Option.getD_some]
    exact Number.ofInt_le_ofInt.1 (Classical.not_not.1 nonneg)
  next => cases h

theorem nonneg_decimalText {n : Int} (h : decimalText path value = .ok n) : 0 ≤ n := by
  unfold decimalText at h
  split at h
  · split at h
    · cases h
      omega
    · cases h
  · cases h

theorem nonneg_unlimitedText {n : Int} (h : unlimitedText path value = .ok n) : 0 ≤ n := by
  unfold unlimitedText at h
  split at h
  · cases h
    decide
  · cases h

/-- An amount that is read is not negative. -/
theorem nonneg_amount {n : Int} (h : amount path value = .ok n) : 0 ≤ n := by
  have read := Reading.mem_of_firstOf h
  simp only [List.mem_cons, List.not_mem_nil, or_false] at read
  rcases read with digits | number
  · exact nonneg_decimalText digits.symm
  · exact nonneg_wholeNumber number.symm

/-- A budget that is read fits into 128 bits. -/
theorem isBudget_budget {n : Int} (h : budget path value = .ok n) : IsBudget n := by
  obtain ⟨m, found, checked⟩ := Reading.andThen_eq_ok.1 h
  simp only [Reading.softly_eq_ok, ite_eq_right_iff, List.cons_ne_nil, imp_false, Int.not_lt] at checked
  obtain ⟨within, rfl⟩ := checked
  have read := Reading.mem_of_firstOf found
  simp only [List.mem_cons, List.not_mem_nil, or_false] at read
  rcases read with text | digits | number
  · exact ⟨nonneg_unlimitedText text.symm, within⟩
  · exact ⟨nonneg_decimalText digits.symm, within⟩
  · exact ⟨nonneg_wholeNumber number.symm, within⟩

theorem hasBudgets_of_permission {p : OperatorPermission} (h : permission path value = .ok p) :
    p.HasBudgets := by
  obtain ⟨parts, -, read⟩ := fields_eq_ok.1 h
  simp only [Reading.seq_eq_ok, Reading.fmap_eq_ok] at read
  obtain ⟨_, times, ⟨_, gas, ⟨_, _, ⟨_, _, ⟨_, _, ⟨_, -, rfl⟩, -, rfl⟩, -, rfl⟩, -, rfl⟩, hgas, rfl⟩,
    htimes, rfl⟩ := read
  exact ⟨isBudget_budget hgas, isBudget_budget htimes⟩

theorem nonneg_of_spendingLimit {l : SpendingLimit} (h : spendingLimit path value = .ok l) :
    0 ≤ l.allowance := by
  obtain ⟨parts, -, read⟩ := fields_eq_ok.1 h
  simp only [Reading.seq_eq_ok, Reading.fmap_eq_ok] at read
  obtain ⟨_, allowance, ⟨_, -, rfl⟩, read, rfl⟩ := read
  exact nonneg_amount read

theorem hasNonnegGas_of_userOperation {op : UserOperation} (h : userOperation path value = .ok op) :
    op.HasNonnegGas := by
  obtain ⟨parts, -, read⟩ := fields_eq_ok.1 h
  simp only [Reading.seq_eq_ok, Reading.fmap_eq_ok] at read
  obtain ⟨_, _, ⟨_, _, ⟨_, _, ⟨_, maxFee, ⟨_, pre, ⟨_, verification, ⟨_, gas, ⟨_, _, ⟨_, _, ⟨_, _,
    ⟨_, -, rfl⟩, -, rfl⟩, -, rfl⟩, -, rfl⟩, hgas, rfl⟩, hverification, rfl⟩, hpre, rfl⟩, hmaxFee, rfl⟩,
    -, rfl⟩, -, rfl⟩, -, rfl⟩ := read
  exact ⟨nonneg_amount hgas, nonneg_amount hverification, nonneg_amount hpre, nonneg_amount hmaxFee⟩

end Reader

/-! ### Requests -/

/-- A call is for some operator of a wallet, and sets nothing that is out of bounds. -/
structure ManagementCall.IsSound (call : ManagementCall) (wallet : Address) : Prop where
  own : ∃ operator, call.IsFor wallet operator
  budgets : ∀ n ∈ call.budgets, IsBudget n
  allowances : ∀ n ∈ call.allowances, 0 ≤ n
  times : ∀ w operator permission, call = .setOperatorPermission w operator permission →
    permission.window.HasTimes

namespace ToolRequest

variable {tool : Tool} {path : Path} {value : Option Json} {request : ToolRequest}

/-- The changes on a wallet that a request asks for, in order. -/
def changes (wallet : Address) : ToolRequest → List ManagementCall
  | setSessionRoot operator sessionRoot => [.setSessionRoot wallet operator sessionRoot]
  | setOperatorPermission operator permission limits =>
    [.setOperatorPermission wallet operator permission,
     .batchSetSpendingLimit wallet operator (limits.getD [])]
  | setSpendingLimit operator token allowance action =>
    (Engine.limitCall wallet operator (token.getD Address.zero) allowance action).toOption.toList
  | revokeSignature hash => [.revokeSignature wallet hash]
  | _ => []

/-- The amounts and times in a request are within the bounds of what may be filed. -/
def IsSound : ToolRequest → Prop
  | setOperatorPermission _ permission limits =>
    permission.window.HasTimes ∧ permission.HasBudgets ∧ ∀ l ∈ limits.getD [], 0 ≤ l.allowance
  | setSpendingLimit _ _ allowance _ => ∀ n, allowance = some n → 0 ≤ n
  | validateUserOp op _ => op.HasNonnegGas
  | _ => True

/-- A request that was read is sound. -/
theorem isSound_of_reader (h : reader tool path value = .ok request) : request.IsSound := by
  obtain ⟨parts, -, read⟩ := Reader.fields_eq_ok.1 h
  cases tool with
  | buildSessionTree | getOperatorPermission | revokeSignature =>
    obtain ⟨_, -, rfl⟩ := Reading.fmap_eq_ok.1 read
    trivial
  | setSessionRoot | getSpendingLimit =>
    simp only [ofFields, Reading.seq_eq_ok, Reading.fmap_eq_ok] at read
    obtain ⟨_, _, ⟨_, -, rfl⟩, -, rfl⟩ := read
    trivial
  | getPermitHash =>
    simp only [ofFields, Reading.seq_eq_ok, Reading.fmap_eq_ok] at read
    obtain ⟨_, _, ⟨_, _, ⟨_, -, rfl⟩, -, rfl⟩, -, rfl⟩ := read
    trivial
  | checkArguments =>
    simp only [ofFields, Reading.seq_eq_ok, Reading.fmap_eq_ok] at read
    obtain ⟨_, _, ⟨_, _, ⟨_, _, ⟨_, _, ⟨_, -, rfl⟩, -, rfl⟩, -, rfl⟩, -, rfl⟩, -, rfl⟩ := read
    trivial
  | setOperatorPermission =>
    simp only [ofFields, Reading.seq_eq_ok, Reading.fmap_eq_ok] at read
    obtain ⟨_, limits, ⟨_, permission, ⟨operator, -, rfl⟩, hpermission, rfl⟩, hlimits, rfl⟩ := read
    refine ⟨Reader.hasTimes_of_permission hpermission, Reader.hasBudgets_of_permission hpermission, ?_⟩
    cases limits with
    | none => exact fun _ listed => absurd listed List.not_mem_nil
    | some limits =>
      exact Reader.optional_ensures (P := fun limits => ∀ l ∈ limits, 0 ≤ l.allowance)
        (fun _ _ _ => Reader.list_ensures fun _ _ _ => Reader.nonneg_of_spendingLimit) hlimits limits rfl
  | setSpendingLimit =>
    simp only [ofFields, Reading.seq_eq_ok, Reading.fmap_eq_ok] at read
    obtain ⟨_, _, ⟨_, _, ⟨_, _, ⟨_, -, rfl⟩, -, rfl⟩, hallowance, rfl⟩, -, rfl⟩ := read
    exact Reader.optional_ensures (fun _ _ _ => Reader.nonneg_amount) hallowance
  | validateUserOp =>
    simp only [ofFields, Reading.seq_eq_ok, Reading.fmap_eq_ok] at read
    obtain ⟨_, _, ⟨_, hop, rfl⟩, -, rfl⟩ := read
    exact Reader.hasNonnegGas_of_userOperation hop

/-- A sound request asks for sound changes. -/
theorem IsSound.changes (sound : request.IsSound) (wallet : Address) :
    ∀ call ∈ request.changes wallet, call.IsSound wallet := by
  have fine : ∀ {call : ManagementCall} (operator : Address), call.IsFor wallet operator →
      call.budgets = [] → (∀ n ∈ call.allowances, 0 ≤ n) →
      (∀ w o permission, call ≠ .setOperatorPermission w o permission) → call.IsSound wallet := by
    intro call operator own budgets allowances other
    refine ⟨⟨operator, own⟩, ?_, allowances, fun w o permission same => absurd same (other w o permission)⟩
    rw [budgets]
    exact fun _ => nofun
  cases request with
  | buildSessionTree | checkArguments | getOperatorPermission | getSpendingLimit | getPermitHash
  | validateUserOp => exact fun _ => nofun
  | setSessionRoot operator root =>
    exact List.forall_mem_singleton.2 (fine operator ⟨rfl, rfl⟩ rfl nofun nofun)
  | revokeSignature hash => exact List.forall_mem_singleton.2 (fine .zero rfl rfl nofun nofun)
  | setOperatorPermission operator permission limits =>
    obtain ⟨times, budgets, allowances⟩ := sound
    refine List.forall_mem_cons.2 ⟨⟨⟨operator, rfl, rfl⟩, ?_, fun _ => nofun, ?_⟩,
      List.forall_mem_singleton.2 ?_⟩
    · exact List.forall_mem_cons.2 ⟨budgets.gas, List.forall_mem_singleton.2 budgets.times⟩
    · rintro w o granted ⟨⟩
      exact times
    · exact fine operator ⟨rfl, rfl⟩ rfl (List.forall_mem_map.2 allowances) nofun
  | setSpendingLimit operator token allowance action =>
    cases action with
    | set =>
      cases allowance with
      | none => exact fun _ => nofun
      | some n =>
        have nonneg : 0 ≤ n := sound n rfl
        exact List.forall_mem_singleton.2
          (fine operator ⟨rfl, rfl⟩ rfl (List.forall_mem_singleton.2 nonneg) nofun)
    | reset | delete => exact List.forall_mem_singleton.2 (fine operator ⟨rfl, rfl⟩ rfl nofun nofun)

end ToolRequest

end SessionKeys
