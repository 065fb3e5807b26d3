import SessionKeys.Proofs.Acceptance
import SessionKeys.Proofs.Dates
import SessionKeys.Proofs.Permissions
import SessionKeys.Proofs.SessionEncoding

/-!
Windows whose bounds are whole seconds of 48 bits. Sessions and permissions that can be hashed have such
windows, narrowing keeps them, and an operation that is settled under one is valid in one. Its packed form
can always be written; it can be shown if both bounds have a date.
-/

namespace SessionKeys

/-- A time in whole seconds, of 48 bits. -/
def Number.IsTime (t : Number) : Prop :=
  ∃ n : Nat, t = .ofInt n ∧ n < 2 ^ 48

theorem Number.isTime_zero : IsTime 0 :=
  ⟨0, rfl, by decide⟩

/-- A number that is encoded with 48 bits is such a time. -/
theorem Number.IsTime.of_encodeNumber {t : Number} {h : Hex} (encoded : Abi.encodeNumber 48 t = .ok h) :
    t.IsTime := by
  obtain ⟨m, rfl, ⟨nonneg, fits⟩, -⟩ := Abi.encodeNumber_eq_ok.1 encoded
  lift m to Nat using nonneg
  exact ⟨m, rfl, Abi.natCast_lt_valueCount.1 fits⟩

namespace ValidityWindow

/-- Both bounds of a window are such times. -/
structure HasTimes (w : ValidityWindow) : Prop where
  validUntil : w.validUntil.IsTime
  validAfter : w.validAfter.IsTime

/-- Both bounds of a window have a date. -/
def IsDated (w : ValidityWindow) : Prop :=
  w.validUntil ≤ .ofInt lastDatedSecond ∧ w.validAfter ≤ .ofInt lastDatedSecond

variable {a b w : ValidityWindow}

/-- A bound of a narrowed window is one of the bounds that it comes from. -/
theorem HasTimes.intersect (ha : a.HasTimes) (hb : b.HasTimes) (h : a.intersect b = .ok w) :
    w.HasTimes := by
  have either : ∀ {s t : Number}, s.IsTime → t.IsTime → (earlier s t).IsTime ∧ (later s t).IsTime := by
    intro s t hs ht
    rcases earlier_cases s t with ⟨first, last, -⟩ | ⟨first, last, -⟩
    · rw [first, last]
      exact ⟨hs, ht⟩
    · rw [first, last]
      exact ⟨ht, hs⟩
  obtain ⟨rfl, -⟩ := intersect_eq_ok.1 h
  obtain ⟨first, last⟩ := either ha.validUntil hb.validUntil
  refine ⟨?_, (either ha.validAfter hb.validAfter).2⟩
  show (earlierEnd _ _).IsTime
  unfold earlierEnd
  split
  · exact last
  · exact first

/-! ### Showing a window -/

section

variable {α : Type} (f : String → String → α)

/-- A window is shown, the start first. -/
theorem exists_shown (times : w.HasTimes) (dated : w.IsDated) :
    ∃ shown, (do
      let validAfter ← boundText w.validAfter
      let validUntil ← boundText w.validUntil
      return f validAfter validUntil : Except Failure α) = .ok shown := by
  obtain ⟨⟨u, hu, -⟩, ⟨v, hv, -⟩⟩ := times
  unfold IsDated at dated
  rw [hu, hv, Number.ofInt_le_ofInt, Number.ofInt_le_ofInt] at dated
  obtain ⟨x, hx⟩ := exists_boundText (n := v) (by omega)
  obtain ⟨y, hy⟩ := exists_boundText (n := u) (by omega)
  refine ⟨f x y, ?_⟩
  rw [hu, hv, hx, hy]
  rfl

/-- A window cannot be shown if one of its bounds has no date. -/
theorem shown_of_undated (times : w.HasTimes) (undated : ¬w.IsDated) :
    (do
      let validAfter ← boundText w.validAfter
      let validUntil ← boundText w.validUntil
      return f validAfter validUntil : Except Failure α) = .error .dateOutOfRange := by
  obtain ⟨⟨u, hu, -⟩, ⟨v, hv, -⟩⟩ := times
  unfold IsDated at undated
  rw [hu, hv, Number.ofInt_le_ofInt, Number.ofInt_le_ofInt] at undated
  rw [hu, hv]
  by_cases late : lastDatedSecond < v
  · rw [boundText_of_lt late]
    rfl
  · obtain ⟨x, hx⟩ := exists_boundText (Nat.not_lt.1 late)
    rw [hx, boundText_of_lt (n := u) (by omega)]
    rfl

end

/-- The result of a validation in such a window can be packed. -/
theorem HasTimes.exists_pack (times : w.HasTimes) :
    ∃ packed, (ValidationData.valid w).pack = .ok packed := by
  obtain ⟨⟨u, hu, -⟩, ⟨v, hv, -⟩⟩ := times
  unfold ValidationData.pack ValidationData.valid
  rw [hu, hv, integral_ofInt, integral_ofInt]
  exact ⟨_, rfl⟩

end ValidityWindow

theorem ValidationData.valid_inj {v w : ValidityWindow} : valid v = valid w ↔ v = w := by
  cases v
  cases w
  simp [valid]

theorem OperatorPermission.exists_details {p : OperatorPermission} (times : p.window.HasTimes)
    (dated : p.window.IsDated) : ∃ details, p.details = .ok details :=
  ValidityWindow.exists_shown _ times dated

theorem OperatorPermission.details_of_undated {p : OperatorPermission} (times : p.window.HasTimes)
    (undated : ¬p.window.IsDated) : p.details = .error .dateOutOfRange :=
  ValidityWindow.shown_of_undated _ times undated

theorem ValidationData.exists_details {w : ValidityWindow} (times : w.HasTimes) (dated : w.IsDated) :
    ∃ details, (valid w).details = .ok details :=
  ValidityWindow.exists_shown _ times dated

theorem ValidationData.details_of_undated {w : ValidityWindow} (times : w.HasTimes)
    (undated : ¬w.IsDated) : (valid w).details = .error .dateOutOfRange :=
  ValidityWindow.shown_of_undated _ times undated

/-! ### Windows in force -/

theorem ValidityWindow.hasTimes_unbounded : HasTimes ⟨0, 0⟩ :=
  ⟨Number.isTime_zero, Number.isTime_zero⟩

/-- A permission that can be hashed has such times. -/
theorem OperatorPermission.hasTimes_of_hash {p : OperatorPermission} {h : Hex}
    (hashed : p.hash = .ok h) : p.window.HasTimes := by
  obtain ⟨⟨_, validUntil⟩, ⟨_, validAfter⟩, -⟩ := encoded_of_hash hashed
  exact ⟨.of_encodeNumber validUntil, .of_encodeNumber validAfter⟩

/-- A session that can be made a leaf has such times. -/
theorem Session.hasTimes_of_leaf {s : Session} {leaf : Hex} (committed : s.leaf = .ok leaf) :
    s.window.HasTimes := by
  obtain ⟨row, encoded, -⟩ := bind_eq_ok.1 committed
  obtain ⟨_, _, _, _, _, _, _, -, -, -, -, validUntil, validAfter, -⟩ :=
    encodeFields_eq_ok.1 encoded
  exact ⟨.of_encodeNumber validUntil, .of_encodeNumber validAfter⟩

/-- Narrowing to the windows of sessions keeps the times. -/
theorem CallContext.hasTimes_settleCalls {c : CallContext} {index : Nat}
    {steps : List (WalletCall × SessionEntry)} {s s' : Store} {w w' : ValidityWindow}
    (times : w.HasTimes) (h : c.settleCalls index steps s w = .ok (s', w')) : w'.HasTimes := by
  induction steps generalizing index s w with
  | nil =>
    cases h
    exact times
  | cons step rest ih =>
    obtain ⟨call, shown⟩ := step
    rw [settleCalls] at h
    simp only [bind_eq_ok, orFail_eq_ok] at h
    obtain ⟨s₁, settled, w₁, narrowed, others⟩ := h
    obtain ⟨allowed, -⟩ := (exists_settleCall index).1 ⟨s₁, settled⟩
    obtain ⟨leaf, -, -, committed, -⟩ := allowed.committed
    exact ih (times.intersect (Session.hasTimes_of_leaf committed) narrowed) others

namespace PreparedOperation

variable {p : PreparedOperation} {permit : Option VerifiedPermit} {s s' : Store}
  {window : ValidityWindow}

/-- An operation is valid in a window of whole seconds if what is in force is. -/
theorem hasTimes_settle (h : p.settle permit s = .ok (s', window))
    (times : (p.permissionInForce permit s).window.HasTimes) : window.HasTimes := by
  obtain ⟨s₁, s₂, installed, -, -, settled⟩ := settle_eq_ok.1 h
  rw [permission_installPermit installed] at settled
  exact CallContext.hasTimes_settleCalls times settled

end PreparedOperation

end SessionKeys
