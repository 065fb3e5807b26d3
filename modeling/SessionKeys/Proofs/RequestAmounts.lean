import SessionKeys.Proofs.Amounts
import SessionKeys.Proofs.WholeNumbers

/-!
Where the amounts of a request come from. Each amount that a tool is asked for is named with its way into
the arguments (`ToolRequest.amounts`), and is what stands there: the number that digits write, whatever
their number is, or the number of 64 binary digits that is nearest to a given number. The last is checked
to be whole and not negative, but not to be the one that was given, which it is for all whole numbers up
to `2 ^ 53` and for few beyond. Main statement: `amounts_as_written`.
-/

namespace SessionKeys

/-! ### Values in their places -/

/-- What stands at the end of a way into a value; nothing if there is no such way. -/
def Json.at? : Option Json → Path → Option Json
  | value, [] => value
  | some (.object fields), .key name :: path => Json.at? (Json.field? fields name) path
  | some (.array items), .index i :: path => Json.at? items[i]? path
  | _, _ :: _ => none

/-- An amount in something that was read, and the way to where it was given. -/
structure ReadAmount where
  path : Path
  /-- the amount has at most 128 bits, and the greatest of them stands for no limit -/
  isBudget : Bool
  value : Int
deriving DecidableEq

namespace ReadAmount

/-- The amount as a part of something greater. -/
def under (step : PathStep) (a : ReadAmount) : ReadAmount :=
  { a with path := step :: a.path }

/-- The amount is what is given for it, or zero if nothing is. A text of digits is taken at its word, and a
number is the nearest one of 64 binary digits, which is the given one exactly if that is short. -/
def Stands (a : ReadAmount) : Option Json → Prop
  | none => a.value = 0
  | some (.string s) =>
    (∃ n : Nat, WritesNumber s.toList n ∧ a.value = n) ∨
      a.isBudget = true ∧ s = "unlimited" ∧ a.value = 2 ^ 128 - 1
  | some (.number d) =>
    Binary64.ofDecimal d = .ofInt a.value ∧ ((a.value : Rat) = d.value ↔ Binary64.IsShort d.value)
  | some _ => False

/-- The amount is within its bounds, and is what is given for it. -/
structure IsRead (a : ReadAmount) (given : Option Json) : Prop where
  nonneg : 0 ≤ a.value
  bounded : a.isBudget = true → a.value ≤ 2 ^ 128 - 1
  stands : a.Stands given

theorem isRead_zero (path : Path) (isBudget : Bool) : IsRead ⟨path, isBudget, 0⟩ none :=
  ⟨Int.le_refl 0, fun _ => Int.sub_nonneg_of_le (by decide), rfl⟩

theorem IsRead.under {a : ReadAmount} {given : Option Json} (h : a.IsRead given) (step : PathStep) :
    (a.under step).IsRead given :=
  ⟨h.nonneg, h.bounded, h.stands⟩

end ReadAmount

/-! ### Readers of amounts -/

namespace Reader

variable {α : Type} {path : Path} {value : Option Json} {n : Int} {isBudget : Bool}

theorem stands_of_decimalText (h : decimalText path value = .ok n) :
    ReadAmount.Stands ⟨[], isBudget, n⟩ value := by
  unfold decimalText at h
  split at h
  next s =>
    split at h
    next m found =>
      cases h
      exact .inl ⟨m, decimal?_eq_some.1 found, rfl⟩
    next => cases h
  next => cases h

theorem stands_of_unlimitedText (h : unlimitedText path value = .ok n) :
    ReadAmount.Stands ⟨[], true, n⟩ value := by
  unfold unlimitedText at h
  split at h
  next =>
    cases h
    exact .inr ⟨rfl, rfl, rfl⟩
  next => cases h

theorem stands_of_wholeNumber (h : wholeNumber none path value = .ok n) :
    ReadAmount.Stands ⟨[], isBudget, n⟩ value := by
  have nonneg := nonneg_wholeNumber h
  unfold wholeNumber at h
  split at h
  next d =>
    simp only [Reading.softly_eq_ok, List.append_eq_nil_iff, ite_eq_right_iff, imp_false,
      List.cons_ne_nil, Option.isNone_iff_eq_none] at h
    obtain ⟨⟨⟨whole, -⟩, -⟩, rfl⟩ := h
    obtain ⟨m, hm⟩ := Option.ne_none_iff_exists'.1 whole
    rw [hm, Option.getD_some] at nonneg ⊢
    have rounded := Number.toInt?_eq_some.1 hm
    exact ⟨rounded, Binary64.eq_value_iff_isShort nonneg rounded⟩
  next => cases h

/-- Whatever a reader finds has its amounts from where they were given. -/
def FindsAmounts (read : Reader α) (amounts : α → List ReadAmount) : Prop :=
  ∀ path value a, read path value = .ok a → ∀ x ∈ amounts a, x.IsRead (Json.at? value x.path)

theorem findsAmounts_amount : FindsAmounts amount fun n => [⟨[], false, n⟩] := by
  intro path value n h
  have read := Reading.mem_of_firstOf h
  simp only [List.mem_cons, List.not_mem_nil, or_false] at read
  refine List.forall_mem_singleton.2 ⟨nonneg_amount h, nofun, ?_⟩
  rcases read with digits | number
  · exact stands_of_decimalText digits.symm
  · exact stands_of_wholeNumber number.symm

theorem findsAmounts_budget : FindsAmounts budget fun n => [⟨[], true, n⟩] := by
  intro path value n h
  obtain ⟨nonneg, within⟩ := isBudget_budget h
  obtain ⟨m, found, checked⟩ := Reading.andThen_eq_ok.1 h
  obtain ⟨-, rfl⟩ := Reading.softly_eq_ok.1 checked
  have read := Reading.mem_of_firstOf found
  simp only [List.mem_cons, List.not_mem_nil, or_false] at read
  refine List.forall_mem_singleton.2 ⟨nonneg, fun _ => within, ?_⟩
  rcases read with text | digits | number
  · exact stands_of_unlimitedText text.symm
  · exact stands_of_decimalText digits.symm
  · exact stands_of_wholeNumber number.symm

theorem findsAmounts_optionalBudget :
    FindsAmounts (optional budget) fun found => [⟨[], true, found.getD 0⟩] := by
  intro path value found h
  cases value with
  | none =>
    cases h
    exact List.forall_mem_singleton.2 (ReadAmount.isRead_zero [] true)
  | some v =>
    obtain ⟨n, hn, rfl⟩ := Reading.map_eq_ok.1 h
    exact findsAmounts_budget path (some v) n hn

/-! ### Readers of parts -/

namespace FindsAmounts

variable {read : Reader α} {amounts : α → List ReadAmount}

theorem optional (finds : FindsAmounts read amounts) :
    FindsAmounts (Reader.optional read) fun found => found.toList.flatMap amounts := by
  intro path value found h
  cases value with
  | none =>
    cases h
    exact nofun
  | some v =>
    obtain ⟨a, ha, rfl⟩ := Reading.map_eq_ok.1 h
    simpa using finds path (some v) a ha

/-- A value stands for a missing one if its amounts are zero. -/
theorem orElse (finds : FindsAmounts read amounts) (fallback : α)
    (zero : ∀ x ∈ amounts fallback, x.IsRead (Json.at? none x.path)) :
    FindsAmounts (Reader.orElse read fallback) amounts := by
  intro path value a h
  cases value with
  | none =>
    cases h
    exact zero
  | some v => exact finds path (some v) a h

/-- The amounts of the items of a list. -/
def inItems (amounts : α → List ReadAmount) (items : List α) : List ReadAmount :=
  items.zipIdx.flatMap fun (a, i) => (amounts a).map (.under (.index i))

theorem items (finds : FindsAmounts read amounts) {path : Path} {start : Nat} {values : List Json}
    {found : List α} (h : Reader.items read path start values = .ok found) {i : Nat} {a : α}
    (listed : found[i]? = some a) : ∀ x ∈ amounts a, x.IsRead (Json.at? values[i]? x.path) := by
  induction values generalizing start found i with
  | nil =>
    cases h
    cases listed
  | cons v rest ih =>
    simp only [Reader.items, Reading.seq_eq_ok, Reading.fmap_eq_ok] at h
    obtain ⟨_, others, ⟨first, hfirst, rfl⟩, hrest, rfl⟩ := h
    cases i with
    | zero =>
      cases listed
      exact finds _ (some v) _ hfirst
    | succ i => exact ih hrest listed

theorem list (finds : FindsAmounts read amounts) (least : Nat) :
    FindsAmounts (Reader.list read least) (inItems amounts) := by
  intro path value found h x hx
  unfold Reader.list at h
  split at h
  next values =>
    obtain ⟨_, _, each, read, rfl⟩ := Reading.seq_eq_ok.1 h
    obtain ⟨_, -, rfl⟩ := Reading.fmap_eq_ok.1 each
    obtain ⟨⟨a, i⟩, listed, hx⟩ := List.mem_flatMap.1 hx
    obtain ⟨y, hy, rfl⟩ := List.mem_map.1 hx
    exact (finds.items read (List.mem_zipIdx_iff_getElem?.1 listed) y hy).under _
  next => cases h

/-- The amounts of a field of an object. -/
theorem field (finds : FindsAmounts read amounts) {name : String} {path : Path}
    {parts : List (String × Json)} {a : α} (h : Reader.field read name path parts = .ok a) :
    ∀ x ∈ (amounts a).map (ReadAmount.under (.key name)),
      x.IsRead (Json.at? (some (.object parts)) x.path) := by
  refine List.forall_mem_map.2 fun y hy => ?_
  exact (finds _ (Json.field? parts name) a h y hy).under _

end FindsAmounts

end Reader

/-! ### Records -/

def Session.amounts (s : Session) : List ReadAmount :=
  [⟨[.key "times_limit"], true, s.timesLimit⟩]

def OperatorPermission.amounts (p : OperatorPermission) : List ReadAmount :=
  [⟨[.key "gas_remaining"], true, p.gasRemaining⟩, ⟨[.key "times_remaining"], true, p.timesRemaining⟩]

def SpendingLimit.amounts (l : SpendingLimit) : List ReadAmount :=
  [⟨[.key "allowance"], false, l.allowance⟩]

def UserOperation.amounts (op : UserOperation) : List ReadAmount :=
  [⟨[.key "nonce"], false, op.nonce⟩,
   ⟨[.key "callGasLimit"], false, op.callGasLimit⟩,
   ⟨[.key "verificationGasLimit"], false, op.verificationGasLimit⟩,
   ⟨[.key "preVerificationGas"], false, op.preVerificationGas⟩,
   ⟨[.key "maxFeePerGas"], false, op.maxFeePerGas⟩,
   ⟨[.key "maxPriorityFeePerGas"], false, op.maxPriorityFeePerGas⟩]

namespace Reader

theorem findsAmounts_session : FindsAmounts session Session.amounts := by
  intro path value s h
  obtain ⟨parts, rfl, read⟩ := fields_eq_ok.1 h
  obtain ⟨form, read, made⟩ := Reading.andThen_eq_ok.1 read
  simp only [Reading.seq_eq_ok, Reading.fmap_eq_ok] at read
  obtain ⟨_, limit, ⟨_, _, ⟨_, _, ⟨_, _, ⟨_, _, ⟨_, _, ⟨_, _, ⟨_, -, rfl⟩, -, rfl⟩, -, rfl⟩, -, rfl⟩,
    -, rfl⟩, -, rfl⟩, -, rfl⟩, hlimit, rfl⟩ := read
  unfold SessionForm.session at made
  split at made
  · cases made
  · cases made
    exact findsAmounts_optionalBudget.field hlimit

theorem findsAmounts_permission : FindsAmounts permission OperatorPermission.amounts := by
  intro path value p h
  obtain ⟨parts, rfl, read⟩ := fields_eq_ok.1 h
  simp only [Reading.seq_eq_ok, Reading.fmap_eq_ok] at read
  obtain ⟨_, times, ⟨_, gas, ⟨_, _, ⟨_, _, ⟨_, _, ⟨_, -, rfl⟩, -, rfl⟩, -, rfl⟩, -, rfl⟩, hgas, rfl⟩,
    htimes, rfl⟩ := read
  exact List.forall_mem_append.2 ⟨findsAmounts_budget.field hgas, findsAmounts_budget.field htimes⟩

theorem findsAmounts_spendingLimit : FindsAmounts spendingLimit SpendingLimit.amounts := by
  intro path value l h
  obtain ⟨parts, rfl, read⟩ := fields_eq_ok.1 h
  simp only [Reading.seq_eq_ok, Reading.fmap_eq_ok] at read
  obtain ⟨_, allowance, ⟨_, -, rfl⟩, read, rfl⟩ := read
  exact findsAmounts_amount.field read

theorem findsAmounts_userOperation : FindsAmounts userOperation UserOperation.amounts := by
  intro path value op h
  obtain ⟨parts, rfl, read⟩ := fields_eq_ok.1 h
  simp only [Reading.seq_eq_ok, Reading.fmap_eq_ok] at read
  obtain ⟨_, _, ⟨_, _, ⟨_, tip, ⟨_, maxFee, ⟨_, pre, ⟨_, verification, ⟨_, gas, ⟨_, _, ⟨_, _, ⟨_, nonce,
    ⟨_, -, rfl⟩, hnonce, rfl⟩, -, rfl⟩, -, rfl⟩, hgas, rfl⟩, hverification, rfl⟩, hpre, rfl⟩, hmaxFee,
    rfl⟩, htip, rfl⟩, -, rfl⟩, -, rfl⟩ := read
  exact List.forall_mem_append.2 ⟨findsAmounts_amount.field hnonce,
    List.forall_mem_append.2 ⟨findsAmounts_amount.field hgas,
    List.forall_mem_append.2 ⟨findsAmounts_amount.field hverification,
    List.forall_mem_append.2 ⟨findsAmounts_amount.field hpre,
    List.forall_mem_append.2 ⟨findsAmounts_amount.field hmaxFee, findsAmounts_amount.field htip⟩⟩⟩⟩⟩

end Reader

/-! ### Requests -/

namespace ToolRequest

open Reader.FindsAmounts (inItems)

/-- The amounts in a permission and in some spending limits. -/
def grantAmounts (permission : OperatorPermission) (limits : Option (List SpendingLimit)) :
    List ReadAmount :=
  permission.amounts.map (.under (.key "permission")) ++
    (limits.toList.flatMap (inItems SpendingLimit.amounts)).map (.under (.key "spending_limits"))

/-- The amounts in a request, and the ways to them in the arguments. -/
def amounts : ToolRequest → List ReadAmount
  | buildSessionTree sessions => (inItems Session.amounts sessions).map (.under (.key "sessions"))
  | checkArguments session _ _ value _ =>
    session.amounts.map (.under (.key "session")) ++ [⟨[.key "value"], false, value⟩]
  | setOperatorPermission _ permission limits => grantAmounts permission limits
  | setSpendingLimit _ _ allowance _ => allowance.toList.map fun n => ⟨[.key "allowance"], false, n⟩
  | getPermitHash _ permission limits => grantAmounts permission (some limits)
  | validateUserOp op _ => op.amounts.map (.under (.key "user_op"))
  | setSessionRoot .. | getOperatorPermission _ | getSpendingLimit .. | revokeSignature _ => []

theorem isRead_of_reader {tool : Tool} {path : Path} {value : Option Json} {request : ToolRequest}
    (h : reader tool path value = .ok request) :
    ∀ a ∈ request.amounts, a.IsRead (Json.at? value a.path) := by
  obtain ⟨parts, rfl, read⟩ := Reader.fields_eq_ok.1 h
  have limits := Reader.findsAmounts_spendingLimit.list 0
  cases tool with
  | buildSessionTree =>
    obtain ⟨sessions, hsessions, rfl⟩ := Reading.fmap_eq_ok.1 read
    exact (Reader.findsAmounts_session.list 1).field hsessions
  | checkArguments =>
    -- here and below the last field comes apart first
    simp only [ofFields, Reading.seq_eq_ok, Reading.fmap_eq_ok] at read
    obtain ⟨_, _, ⟨_, native, ⟨_, _, ⟨_, _, ⟨session, hsession, rfl⟩, -, rfl⟩, -, rfl⟩, hnative, rfl⟩, -,
      rfl⟩ := read
    have natives := Reader.findsAmounts_amount.orElse 0
      (List.forall_mem_singleton.2 (ReadAmount.isRead_zero [] false))
    exact List.forall_mem_append.2
      ⟨Reader.findsAmounts_session.field hsession, natives.field hnative⟩
  | setOperatorPermission =>
    simp only [ofFields, Reading.seq_eq_ok, Reading.fmap_eq_ok] at read
    obtain ⟨_, _, ⟨_, permission, ⟨_, -, rfl⟩, hpermission, rfl⟩, hlimits, rfl⟩ := read
    exact List.forall_mem_append.2
      ⟨Reader.findsAmounts_permission.field hpermission, limits.optional.field hlimits⟩
  | setSpendingLimit =>
    simp only [ofFields, Reading.seq_eq_ok, Reading.fmap_eq_ok] at read
    obtain ⟨_, _, ⟨_, allowance, ⟨_, _, ⟨_, -, rfl⟩, -, rfl⟩, hallowance, rfl⟩, -, rfl⟩ := read
    have found := Reader.findsAmounts_amount.optional.field hallowance
    cases allowance with
    | none => exact List.forall_mem_nil _
    | some n => exact found
  | getPermitHash =>
    simp only [ofFields, Reading.seq_eq_ok, Reading.fmap_eq_ok] at read
    obtain ⟨_, given, ⟨_, permission, ⟨_, -, rfl⟩, hpermission, rfl⟩, hlimits, rfl⟩ := read
    have found := (limits.orElse [] (List.forall_mem_nil _)).field hlimits
    refine List.forall_mem_append.2 ⟨Reader.findsAmounts_permission.field hpermission, ?_⟩
    simpa using found
  | validateUserOp =>
    simp only [ofFields, Reading.seq_eq_ok, Reading.fmap_eq_ok] at read
    obtain ⟨_, _, ⟨op, hop, rfl⟩, -, rfl⟩ := read
    exact Reader.findsAmounts_userOperation.field hop
  | setSessionRoot | getSpendingLimit =>
    simp only [ofFields, Reading.seq_eq_ok, Reading.fmap_eq_ok] at read
    obtain ⟨_, _, ⟨_, -, rfl⟩, -, rfl⟩ := read
    exact List.forall_mem_nil _
  | getOperatorPermission | revokeSignature =>
    obtain ⟨_, -, rfl⟩ := Reading.fmap_eq_ok.1 read
    exact List.forall_mem_nil _

/-- **Amounts are what was written, as far as 64 binary digits tell.** Of the arguments that a tool accepts,
every amount is not negative, and at most the greatest of 128 bits if it is a budget. It is the number that
the given digits write, however many there are and whether or not zeros stand in front, or it is unlimited
if the text says so, or zero if it may be missing and is. If a number is given for it, it is the nearest
one of 64 binary digits: exactly the given one up to `2 ^ 53`, and beyond only if 53 binary digits with
zeros behind them are enough for it. -/
theorem amounts_as_written {tool : Tool} {path : Path} {arguments : Json} {request : ToolRequest}
    (h : reader tool path (some arguments) = .ok request) :
    ∀ a ∈ request.amounts,
      a.IsRead (Json.at? (some arguments) a.path) ∧
      ∀ (d : Decimal) (n : Nat), Json.at? (some arguments) a.path = some (.number d) → d.value = n →
        n ≤ 2 ^ 53 → a.value = n := by
  intro a ha
  have read := isRead_of_reader h a ha
  refine ⟨read, fun d n given written small => ?_⟩
  have stands := read.stands
  rw [given] at stands
  have exact := stands.2.2 (written ▸ Binary64.isShort_natCast small)
  rw [written] at exact
  exact_mod_cast exact

/-- An allowance of `2 ^ 53 + 1`, given as a number, is accepted as one less. -/
theorem rounded_allowance_accepted :
    let given : Decimal := ⟨9007199254740993, 0⟩
    let arguments : Json := .object
      [("operator", .string "0x6000000000000000000000000000000000000006"), ("allowance", .number given)]
    let request : ToolRequest := .setSpendingLimit (Address.ofBytes (0x60 :: List.replicate 18 0 ++ [6])) none
      (some 9007199254740992) .set
    reader .setSpendingLimit [] (some arguments) = .ok request ∧ ¬Binary64.IsShort given.value := by
  intro given arguments request
  have operator : Reader.address [.key "operator"]
      (some (.string "0x6000000000000000000000000000000000000006")) =
        .ok (Address.ofBytes (0x60 :: List.replicate 18 0 ++ [6])) := by
    have bytes : (Address.ofText "0x6000000000000000000000000000000000000006").bytes? =
        some (0x60 :: List.replicate 18 0 ++ [6]) := by decide +kernel
    unfold Reader.address Reader.accepted Address.checksummed?
    simp only [bytes, Option.map_some]
  have allowance : Reader.amount [.key "allowance"] (some (.number given)) = .ok 9007199254740992 := by
    have rounded : Binary64.ofDecimal given = .ofInt 9007199254740992 := by decide +kernel
    unfold Reader.amount Reader.decimalText Reader.wholeNumber
    simp only [rounded, Number.toInt?_ofInt]
    rfl
  have accepted : reader .setSpendingLimit [] (some arguments) = .ok request := by
    refine Reader.fields_eq_ok.2 ⟨_, rfl, ?_⟩
    simp only [ofFields, Reading.seq_eq_ok, Reading.fmap_eq_ok]
    exact ⟨_, _, ⟨_, _, ⟨_, _, ⟨_, operator, rfl⟩, rfl, rfl⟩, congrArg (Reading.map some) allowance, rfl⟩,
      rfl, rfl⟩
  refine ⟨accepted, fun short => ?_⟩
  have found := amounts_as_written accepted ⟨[.key "allowance"], false, 9007199254740992⟩
    List.mem_cons_self
  have same := found.1.stands.2.2 short
  exact absurd same (by decide +kernel)

end ToolRequest

end SessionKeys
