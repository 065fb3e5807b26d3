import SessionKeys.Proofs.Times
import SessionKeys.Tool.Request

/-!
What is known of values that were read. A record is read only if all its fields are, so what the readers
of the fields check holds of every record. Here this is followed for times: the window of a permission
that was read has whole seconds of 48 bits as its bounds (`ToolRequest.hasTimes_of_reader`).
-/

namespace SessionKeys

/-! ### Readings -/

namespace Reading

variable {α β : Type}

theorem map_eq_ok {f : α → β} {r : Reading α} {b : β} :
    r.map f = .ok b ↔ ∃ a, r = .ok a ∧ f a = b := by
  cases r with
  | ok a => simp [map]
  | soft issues => simp [map]
  | hard issues => simp [map]

theorem fmap_eq_ok {f : α → β} {r : Reading α} {b : β} :
    f <$> r = .ok b ↔ ∃ a, r = .ok a ∧ f a = b :=
  map_eq_ok

theorem seq_eq_ok {rf : Reading (α → β)} {r : Reading α} {b : β} :
    rf <*> r = .ok b ↔ ∃ f a, rf = .ok f ∧ r = .ok a ∧ f a = b := by
  show rf.apply r = .ok b ↔ _
  cases rf with
  | ok f => simp [apply, map_eq_ok]
  | soft issues => cases r <;> simp [apply]
  | hard issues => simp [apply]

theorem softly_eq_ok {path : Path} {value a : α} {causes : List IssueCause} :
    softly path value causes = .ok a ↔ causes = [] ∧ value = a := by
  unfold softly
  cases causes with
  | nil => simp
  | cons cause rest => simp

end Reading

namespace Reader

variable {α : Type} {path : Path} {value : Option Json}

theorem fields_eq_ok {read : Path → List (String × Json) → Reading α} {a : α} :
    fields read path value = .ok a ↔ ∃ parts, value = some (.object parts) ∧ read path parts = .ok a := by
  unfold fields
  split
  next parts => simp
  next other no =>
    constructor
    · intro h
      cases h
    · rintro ⟨parts, rfl, -⟩
      exact absurd rfl (no parts)

/-- What a reader ensures holds of another value that stands for a missing one, if it holds of that. -/
theorem orElse_ensures {read : Reader α} {P : α → Prop}
    (ensures : ∀ path value a, read path value = .ok a → P a) {fallback a : α} (holds : P fallback)
    (h : orElse read fallback path value = .ok a) : P a := by
  cases value with
  | none =>
    cases h
    exact holds
  | some v => exact ensures path (some v) a h

/-- A whole number that is read is not negative and does not exceed the bound. -/
theorem bounds_of_wholeNumber {bound n : Int} (h : wholeNumber (some bound) path value = .ok n) :
    0 ≤ n ∧ n ≤ bound := by
  unfold wholeNumber at h
  split at h
  next d =>
    simp only [Reading.softly_eq_ok, List.append_eq_nil_iff, ite_eq_right_iff, imp_false,
      List.cons_ne_nil, Option.isNone_iff_eq_none] at h
    obtain ⟨⟨⟨whole, nonneg⟩, below⟩, rfl⟩ := h
    obtain ⟨m, hm⟩ := Option.ne_none_iff_exists'.1 whole
    rw [Number.toInt?_eq_some.1 hm] at nonneg below ⊢
    rw [Number.toInt?_ofInt, Option.getD_some]
    exact ⟨Number.ofInt_le_ofInt.1 (Classical.not_not.1 nonneg),
      Number.ofInt_le_ofInt.1 (Classical.not_not.1 below)⟩
  next => cases h

theorem isTime_of_timestamp {t : Number} (h : timestamp path value = .ok t) : t.IsTime := by
  obtain ⟨n, read, rfl⟩ := Reading.fmap_eq_ok.1 h
  obtain ⟨nonneg, last⟩ := bounds_of_wholeNumber read
  lift n to Nat using nonneg
  unfold lastSecond at last
  exact ⟨n, rfl, by omega⟩

/-- The window of a permission that is read has whole seconds of 48 bits as its bounds. -/
theorem hasTimes_of_permission {p : OperatorPermission} (h : permission path value = .ok p) :
    p.window.HasTimes := by
  obtain ⟨parts, -, read⟩ := fields_eq_ok.1 h
  simp only [Reading.seq_eq_ok, Reading.fmap_eq_ok] at read
  obtain ⟨_, _, ⟨_, _, ⟨_, validAfter, ⟨_, validUntil, ⟨_, _, ⟨_, -, rfl⟩, -, rfl⟩, hu, rfl⟩, ha, rfl⟩,
    -, rfl⟩, -, rfl⟩ := read
  have ensures : ∀ path value t, timestamp path value = .ok t → t.IsTime :=
    fun _ _ _ => isTime_of_timestamp
  exact ⟨orElse_ensures ensures Number.isTime_zero hu, orElse_ensures ensures Number.isTime_zero ha⟩

end Reader

/-! ### Requests -/

namespace ToolRequest

/-- The window that a request asks to be granted, if it asks for one. -/
def window? : ToolRequest → Option ValidityWindow
  | setOperatorPermission _ permission _ => some permission.window
  | _ => none

/-- A request asks for no window but one with whole seconds of 48 bits as its bounds. -/
def HasTimes (request : ToolRequest) : Prop :=
  ∀ w, request.window? = some w → w.HasTimes

theorem hasTimes_of_reader {tool : Tool} {path : Path} {value : Option Json} {request : ToolRequest}
    (h : reader tool path value = .ok request) : request.HasTimes := by
  obtain ⟨parts, -, read⟩ := Reader.fields_eq_ok.1 h
  intro w asked
  cases tool with
  | setOperatorPermission =>
    simp only [ofFields, Reading.seq_eq_ok, Reading.fmap_eq_ok] at read
    obtain ⟨_, _, ⟨_, permission, ⟨_, -, rfl⟩, hp, rfl⟩, -, rfl⟩ := read
    cases asked
    exact Reader.hasTimes_of_permission hp
  | buildSessionTree | getOperatorPermission | revokeSignature =>
    obtain ⟨_, -, rfl⟩ := Reading.fmap_eq_ok.1 read
    cases asked
  | setSessionRoot | getSpendingLimit | validateUserOp =>
    simp only [ofFields, Reading.seq_eq_ok, Reading.fmap_eq_ok] at read
    obtain ⟨_, _, ⟨_, -, rfl⟩, -, rfl⟩ := read
    cases asked
  | getPermitHash =>
    simp only [ofFields, Reading.seq_eq_ok, Reading.fmap_eq_ok] at read
    obtain ⟨_, _, ⟨_, _, ⟨_, -, rfl⟩, -, rfl⟩, -, rfl⟩ := read
    cases asked
  | setSpendingLimit =>
    simp only [ofFields, Reading.seq_eq_ok, Reading.fmap_eq_ok] at read
    obtain ⟨_, _, ⟨_, _, ⟨_, _, ⟨_, -, rfl⟩, -, rfl⟩, -, rfl⟩, -, rfl⟩ := read
    cases asked
  | checkArguments =>
    simp only [ofFields, Reading.seq_eq_ok, Reading.fmap_eq_ok] at read
    obtain ⟨_, _, ⟨_, _, ⟨_, _, ⟨_, _, ⟨_, -, rfl⟩, -, rfl⟩, -, rfl⟩, -, rfl⟩, -, rfl⟩ := read
    cases asked

end ToolRequest

end SessionKeys
