import SessionKeys.Accounting
import SessionKeys.Proofs.Computation

/-!
How often the sessions of a batch may be used. Each use is checked against the uses counted before
it, those of the same batch among them. As the limit of a session is part of its leaf, all checks go
well if the uses with those of the whole batch are within the limit. Main statements:
`suffice_iff_each`, for each use in its place, and `each_iff_all`, for the batch as a whole.
-/

namespace SessionKeys

namespace Session

/-- The uses of a session are limited. -/
def IsLimited (s : Session) : Prop :=
  isUnlimitedTimes s.timesLimit = false

instance (s : Session) : Decidable s.IsLimited :=
  inferInstanceAs (Decidable (_ = _))

/-- Whether a use of a session is counted under a leaf. -/
def countsUnder (leaf : Hex) (s : Session) : Bool :=
  decide s.IsLimited && s.leaf.toOption.map Hex.key == some leaf.key

theorem countsUnder_of_leaf {s : Session} {leaf other : Hex} (limited : s.IsLimited)
    (hleaf : s.leaf = .ok leaf) : s.countsUnder other = true ↔ leaf.key = other.key := by
  unfold countsUnder
  rw [hleaf]
  simp [limited, Except.toOption]

theorem leaf_of_countsUnder {s : Session} {leaf : Hex} (h : s.countsUnder leaf = true) :
    s.IsLimited ∧ ∃ own, s.leaf = .ok own ∧ own.key = leaf.key := by
  unfold countsUnder at h
  rw [Bool.and_eq_true, decide_eq_true_eq] at h
  refine ⟨h.1, ?_⟩
  cases hl : s.leaf with
  | error e =>
    rw [hl] at h
    cases h.2
  | ok own =>
    rw [hl] at h
    exact ⟨own, rfl, by simpa [Except.toOption] using h.2⟩

end Session

/-- How often sessions were used, by their leaves. -/
abbrev Uses := Hex → Int

namespace Uses

/-- The uses after one more of a session. -/
def after (uses : Uses) (session : Session) : Uses := fun leaf =>
  if session.countsUnder leaf then uses leaf + 1 else uses leaf

/-- A use of a session is within its limit. -/
def Allow (uses : Uses) (session : Session) : Prop :=
  session.IsLimited → ∃ leaf, session.leaf = .ok leaf ∧ uses leaf < session.timesLimit

/-- Some sessions can be used one after the other. -/
def Suffice : Uses → List Session → Prop
  | _, [] => True
  | uses, session :: rest => uses.Allow session ∧ (uses.after session).Suffice rest

/-- Each limited session is within its limit when its uses earlier in the batch are counted. -/
def EachWithin (uses : Uses) (sessions : List Session) : Prop :=
  ∀ before session rest, sessions = before ++ session :: rest → session.IsLimited →
    ∃ leaf, session.leaf = .ok leaf ∧
      uses leaf + before.countP (·.countsUnder leaf) < session.timesLimit

/-- Each limited session is within its limit when all its uses in the batch are counted. -/
def AllWithin (uses : Uses) (sessions : List Session) : Prop :=
  ∀ session ∈ sessions, session.IsLimited →
    ∃ leaf, session.leaf = .ok leaf ∧
      uses leaf + sessions.countP (·.countsUnder leaf) ≤ session.timesLimit

/-- A use counts for those after it, whether it is counted at once or together with them. -/
theorem after_add_countP (uses : Uses) (first : Session) (before : List Session) (leaf : Hex) :
    uses.after first leaf + before.countP (·.countsUnder leaf) =
      uses leaf + (first :: before).countP (·.countsUnder leaf) := by
  unfold after
  rw [List.countP_cons]
  by_cases counts : first.countsUnder leaf = true
  · rw [if_pos counts, if_pos counts]
    push_cast
    omega
  · rw [if_neg counts, if_neg counts, Nat.add_zero]

theorem suffice_iff_each {uses : Uses} {sessions : List Session} :
    uses.Suffice sessions ↔ uses.EachWithin sessions := by
  unfold EachWithin
  induction sessions generalizing uses with
  | nil => simp [Suffice]
  | cons first others ih =>
    rw [Suffice, ih]
    constructor
    · rintro ⟨now, later⟩ before session rest split limited
      rcases before with _ | ⟨_, before⟩
      · cases split
        obtain ⟨leaf, hleaf, hlt⟩ := now limited
        exact ⟨leaf, hleaf, by simpa using hlt⟩
      · cases split
        obtain ⟨leaf, hleaf, hlt⟩ := later before session rest rfl limited
        rw [after_add_countP] at hlt
        exact ⟨leaf, hleaf, hlt⟩
    · intro each
      refine ⟨fun limited => ?_, fun before session rest split limited => ?_⟩
      · obtain ⟨leaf, hleaf, hlt⟩ := each [] first others rfl limited
        exact ⟨leaf, hleaf, by simpa using hlt⟩
      · obtain ⟨leaf, hleaf, hlt⟩ :=
          each (first :: before) session rest (by rw [split]; rfl) limited
        rw [← after_add_countP] at hlt
        exact ⟨leaf, hleaf, hlt⟩

/-- The last of some elements that have a property. -/
theorem exists_last {α : Type} {p : α → Bool} {l : List α} (h : ∃ a ∈ l, p a = true) :
    ∃ before a rest, l = before ++ a :: rest ∧ p a = true ∧ rest.countP p = 0 := by
  induction l with
  | nil => simp at h
  | cons b l ih =>
    by_cases later : ∃ a ∈ l, p a = true
    · obtain ⟨before, a, rest, rfl, ha, hrest⟩ := ih later
      exact ⟨b :: before, a, rest, rfl, ha, hrest⟩
    · have none : l.countP p = 0 := List.countP_eq_zero.2 fun a ha hp => later ⟨a, ha, hp⟩
      obtain ⟨a, ha, hp⟩ := h
      rcases List.mem_cons.1 ha with rfl | ha
      · exact ⟨[], a, l, rfl, hp, none⟩
      · exact absurd ⟨a, ha, hp⟩ later

/-- The uses do not look at how a leaf is written. -/
def ByKey (uses : Uses) : Prop :=
  ∀ a b : Hex, a.key = b.key → uses a = uses b

/-- Sessions of one leaf have one limit. -/
def OneLimit (sessions : List Session) : Prop :=
  ∀ a ∈ sessions, ∀ b ∈ sessions, ∀ leaf,
    a.countsUnder leaf = true → b.countsUnder leaf = true → a.timesLimit = b.timesLimit

/-- It is enough that all uses of a batch are within the limits. -/
theorem AllWithin.each {uses : Uses} {sessions : List Session} (h : uses.AllWithin sessions) :
    uses.EachWithin sessions := by
  rintro before session rest rfl limited
  obtain ⟨leaf, hleaf, total⟩ := h session (by simp) limited
  refine ⟨leaf, hleaf, ?_⟩
  have itself := (Session.countsUnder_of_leaf limited hleaf).2 rfl
  rw [List.countP_append, List.countP_cons, if_pos itself] at total
  push_cast at total
  omega

/-- If the limit of a session is part of what its leaf tells, it is also needed. -/
theorem each_iff_all {uses : Uses} {sessions : List Session} (byKey : uses.ByKey)
    (one : OneLimit sessions) : uses.EachWithin sessions ↔ uses.AllWithin sessions := by
  refine ⟨fun each session hs limited => ?_, AllWithin.each⟩
  obtain ⟨start, rest, split⟩ := List.append_of_mem hs
  obtain ⟨leaf, hleaf, -⟩ := each start session rest split limited
  have itself := (Session.countsUnder_of_leaf limited hleaf).2 rfl
  -- the last use under this leaf is checked against all the others
  obtain ⟨before, last, after, rfl, counts, none⟩ :=
    exists_last (p := fun s => s.countsUnder leaf) ⟨session, hs, itself⟩
  obtain ⟨lastLimited, own, hown, same⟩ := Session.leaf_of_countsUnder counts
  obtain ⟨_, hl, hlt⟩ := each before last after rfl lastLimited
  rw [hown, Except.ok.injEq] at hl
  subst hl
  have under : (fun s : Session => s.countsUnder own) = fun s => s.countsUnder leaf := by
    funext s
    unfold Session.countsUnder
    rw [same]
  rw [byKey own leaf same, under] at hlt
  rw [one session hs last (by simp) leaf itself counts]
  refine ⟨leaf, hleaf, ?_⟩
  rw [List.countP_append, List.countP_cons, if_pos counts, none]
  push_cast
  omega

end Uses

/-! ### Charging a store -/

namespace Store

variable {s s' : Store} {wallet operator : Address}

theorem byKey_usesOfSession (s : Store) (wallet operator : Address) :
    Uses.ByKey (s.usesOfSession wallet operator) := by
  intro a b same
  unfold usesOfSession
  rw [same]

/-- A use of a session can be counted if it is within the limit. -/
theorem exists_consumeSessionUse {session : Session} :
    (∃ s', s.consumeSessionUse wallet operator session = .ok s') ↔
      Uses.Allow (s.usesOfSession wallet operator) session := by
  unfold consumeSessionUse Uses.Allow Session.IsLimited
  cases Session.isUnlimitedTimes session.timesLimit with
  | true => simp [pure_eq_ok]
  | false =>
    simp only [Bool.false_eq_true, if_false, bind_eq_ok, throw_eq_error, error_bind,
      error_ite_eq_ok, orFail_eq_ok, pure_eq_ok, forall_const]
    constructor
    · rintro ⟨-, leaf, hleaf, hlt, -⟩
      exact ⟨leaf, hleaf, by omega⟩
    · rintro ⟨leaf, hleaf, hlt⟩
      exact ⟨_, leaf, hleaf, by omega, rfl⟩

/-- A use of a session is not counted, or counted under its leaf as one more within the limit. -/
theorem consumeSessionUse_cases {session : Session}
    (h : s.consumeSessionUse wallet operator session = .ok s') :
    (¬session.IsLimited ∧ s' = s) ∨
      ∃ leaf, session.IsLimited ∧ session.leaf = .ok leaf ∧
        s.usesOfSession wallet operator leaf < session.timesLimit ∧
        s' = s.setUsesOfSession wallet operator leaf (s.usesOfSession wallet operator leaf + 1) := by
  unfold consumeSessionUse at h
  by_cases limited : session.IsLimited
  · have counted := limited
    unfold Session.IsLimited at counted
    simp only [counted, Bool.false_eq_true, if_false, bind_eq_ok, throw_eq_error, error_bind,
      error_ite_eq_ok, orFail_eq_ok, pure_eq_ok, Except.ok.injEq, Int.not_le] at h
    obtain ⟨leaf, hleaf, within, rfl⟩ := h
    exact .inr ⟨leaf, limited, hleaf, within, rfl⟩
  · have unlimited : Session.isUnlimitedTimes session.timesLimit = true := by
      simpa [Session.IsLimited] using limited
    rw [unlimited] at h
    exact .inl ⟨limited, (Except.ok.inj h).symm⟩

/-- A use that is counted is one more under the leaf of the session. -/
theorem left_of_consumeSessionUse {session : Session}
    (h : s.consumeSessionUse wallet operator session = .ok s') :
    s'.usesOfSession wallet operator = Uses.after (s.usesOfSession wallet operator) session ∧
      s'.spendingLimit? wallet operator = s.spendingLimit? wallet operator := by
  rcases consumeSessionUse_cases h with ⟨unlimited, rfl⟩ | ⟨leaf, limited, hleaf, -, rfl⟩
  · refine ⟨funext fun other => ?_, rfl⟩
    unfold Uses.after Session.countsUnder
    simp [unlimited]
  · refine ⟨funext fun other => ?_, rfl⟩
    unfold Uses.after
    have counts : session.countsUnder other = true ↔ leaf.key = other.key :=
      Session.countsUnder_of_leaf limited hleaf
    by_cases same : leaf.key = other.key
    · rw [if_pos (counts.2 same), byKey_usesOfSession s wallet operator other leaf same.symm]
      unfold setUsesOfSession
      simp [usesOfSession, same]
    · rw [if_neg fun hc => same (counts.1 hc)]
      unfold setUsesOfSession
      simp [usesOfSession, Table.find?_put, same]

end Store

end SessionKeys
