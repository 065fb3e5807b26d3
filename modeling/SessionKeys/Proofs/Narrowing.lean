import Mathlib.Data.List.Perm.Basic
import Mathlib.Order.Lattice
import SessionKeys.Proofs.Window

/-!
Narrowing several windows to one. What two windows share is again a window (`meet`), which does not depend on
the order of the two, nor of more of them on how they are grouped; only whether it is looked at when it is
empty does. As a window that shares nothing with another one never comes to share something by further
narrowing, every grouping of some windows in any order comes to the same end. Main statement:
`narrowing_shares_moments`.
-/

namespace SessionKeys

/-! ### The line of numbers -/

instance : LinearOrder Number where
  le_refl := Number.le_refl
  le_trans _ _ _ := Number.le_trans
  le_antisymm _ _ := Number.le_antisymm
  le_total := Number.le_total
  lt_iff_le_not_ge a b := ⟨fun h => ⟨(Number.le_total a b).resolve_right h, h⟩, And.right⟩
  toDecidableLE := Number.decidableLe
  toDecidableEq := inferInstance
  toDecidableLT := Number.decidableLt

namespace ValidityWindow

theorem earlier_eq_min (a b : Number) : earlier a b = min a b := rfl

theorem later_eq_max (a b : Number) : later a b = max a b := rfl

/-! ### Ends -/

theorem earlierEnd_comm (a b : Number) : earlierEnd a b = earlierEnd b a := by
  unfold earlierEnd
  rw [earlier_eq_min, earlier_eq_min, later_eq_max, later_eq_max, min_comm, max_comm]

/-- Zero is no end, so the other end counts. -/
theorem earlierEnd_zero (a : Number) : earlierEnd a 0 = a := by
  unfold earlierEnd
  rcases earlier_cases a 0 with ⟨first, last, -⟩ | ⟨first, last, -⟩
  · rw [first, last]
    split
    next zero => exact zero.symm
    next => rfl
  · rw [first, last, if_pos rfl]

theorem earlierEnd_of_ne_zero {a b : Number} (ha : a ≠ 0) (hb : b ≠ 0) :
    earlierEnd a b = min a b ∧ min a b ≠ 0 := by
  have some : earlier a b ≠ 0 := by
    rcases earlier_cases a b with ⟨first, -⟩ | ⟨first, -⟩
    · rwa [first]
    · rwa [first]
  exact ⟨if_neg some, some⟩

theorem earlierEnd_assoc (a b c : Number) :
    earlierEnd (earlierEnd a b) c = earlierEnd a (earlierEnd b c) := by
  by_cases ha : a = 0
  · rw [ha, earlierEnd_comm 0 b, earlierEnd_zero, earlierEnd_comm 0, earlierEnd_zero]
  by_cases hb : b = 0
  · rw [hb, earlierEnd_zero, earlierEnd_comm 0 c, earlierEnd_zero]
  by_cases hc : c = 0
  · rw [hc, earlierEnd_zero, earlierEnd_zero]
  obtain ⟨first, nonzero⟩ := earlierEnd_of_ne_zero ha hb
  obtain ⟨last, nonzero'⟩ := earlierEnd_of_ne_zero hb hc
  rw [first, last, (earlierEnd_of_ne_zero nonzero hc).1, (earlierEnd_of_ne_zero ha nonzero').1, min_assoc]

/-! ### What windows share -/

/-- The window of the moments that two windows share; it is empty if there are none. -/
def meet (a b : ValidityWindow) : ValidityWindow :=
  ⟨earlierEnd a.validUntil b.validUntil, later a.validAfter b.validAfter⟩

theorem contains_meet {a b : ValidityWindow} {t : Number} :
    (a.meet b).Contains t ↔ a.Contains t ∧ b.Contains t :=
  contains_intersect

theorem meet_comm (a b : ValidityWindow) : a.meet b = b.meet a := by
  unfold meet
  rw [earlierEnd_comm, later_eq_max, later_eq_max, max_comm]

theorem meet_assoc (a b c : ValidityWindow) : (a.meet b).meet c = a.meet (b.meet c) := by
  unfold meet
  simp only [earlierEnd_assoc, later_eq_max, max_assoc]

instance : Std.Commutative meet := ⟨meet_comm⟩

instance : Std.Associative meet := ⟨meet_assoc⟩

/-- Two windows are refused for one cause only. -/
theorem code_of_intersect {a b : ValidityWindow} {r : Refusal} (h : a.intersect b = .error r) :
    r.code = .invalidValidationDuration := by
  have unfolded : a.intersect b = (a.meet b).assertValid >>= fun _ => .ok (a.meet b) := rfl
  rw [unfolded] at h
  unfold assertValid at h
  split at h
  · cases h
    rfl
  · cases h

/-- The window of all moments. -/
def always : ValidityWindow :=
  ⟨0, .infinite true⟩

theorem meet_always (w : ValidityWindow) : w.meet always = w := by
  have start : later w.validAfter (.infinite true) = w.validAfter := by
    rcases earlier_cases w.validAfter (.infinite true) with ⟨-, last, before⟩ | ⟨-, last, -⟩
    · exact last.trans (Number.le_antisymm trivial before)
    · exact last
  unfold meet always
  rw [earlierEnd_zero, start]

/-- The window of the moments that some windows share. -/
def shared (windows : List ValidityWindow) : ValidityWindow :=
  windows.foldr meet always

theorem contains_always (t : Number) : always.Contains t :=
  ⟨trivial, .inl rfl⟩

theorem contains_shared {windows : List ValidityWindow} {t : Number} :
    (shared windows).Contains t ↔ ∀ w ∈ windows, w.Contains t := by
  unfold shared
  induction windows with
  | nil => simpa using contains_always t
  | cons w rest ih => rw [List.foldr_cons, contains_meet, ih, List.forall_mem_cons]

theorem shared_singleton (w : ValidityWindow) : shared [w] = w :=
  meet_always w

theorem shared_append (windows more : List ValidityWindow) :
    shared (windows ++ more) = (shared windows).meet (shared more) := by
  unfold shared
  induction windows with
  | nil => exact ((meet_comm always _).trans (meet_always _)).symm
  | cons w rest ih =>
    rw [List.cons_append, List.foldr_cons, List.foldr_cons, ih, meet_assoc]

/-! ### Groupings -/

/-- Some windows that are narrowed two at a time, in some order. -/
inductive Grouping where
  | alone (w : ValidityWindow)
  | joined (left right : Grouping)

namespace Grouping

def windows : Grouping → List ValidityWindow
  | alone w => [w]
  | joined left right => left.windows ++ right.windows

/-- Narrows the windows of a grouping to one. -/
def narrowed : Grouping → Except Refusal ValidityWindow
  | alone w => .ok w
  | joined left right => do (← left.narrowed).intersect (← right.narrowed)

/-- A window that is narrowed to others one after the other. -/
def inTurn (w : ValidityWindow) (others : List ValidityWindow) : Grouping :=
  others.foldl (fun g other => joined g (alone other)) (alone w)

theorem windows_inTurn (w : ValidityWindow) (others : List ValidityWindow) :
    (inTurn w others).windows = w :: others := by
  have general : ∀ g : Grouping,
      (others.foldl (fun g other => joined g (alone other)) g).windows = g.windows ++ others := by
    induction others with
    | nil => exact fun g => (List.append_nil _).symm
    | cons other rest ih =>
      intro g
      rw [List.foldl_cons, ih, windows, windows, List.append_assoc]
      rfl
  exact general (alone w)

theorem narrowed_inTurn (w : ValidityWindow) (others : List ValidityWindow) :
    (inTurn w others).narrowed = others.foldlM intersect w := by
  have general : ∀ g : Grouping,
      (others.foldl (fun g other => joined g (alone other)) g).narrowed =
        g.narrowed >>= fun w => others.foldlM intersect w := by
    induction others with
    | nil =>
      intro g
      cases h : g.narrowed with
      | error r => rw [List.foldl_nil, h, error_bind]
      | ok w => rw [List.foldl_nil, h, ok_bind, List.foldlM_nil, pure_eq_ok]
    | cons other rest ih =>
      intro g
      rw [List.foldl_cons, ih, narrowed]
      cases g.narrowed with
      | error r => rfl
      | ok w => rfl
  exact general (alone w)

theorem length_windows_pos (g : Grouping) : 1 ≤ g.windows.length := by
  induction g with
  | alone w => exact Nat.le_refl 1
  | joined left right ihl _ =>
    rw [windows, List.length_append]
    omega

/-- A grouping of at least two windows is narrowed to what all of them share, if there is a moment that they
share; one window alone is not looked at. -/
theorem narrowed_eq_ok {g : Grouping} {w : ValidityWindow} :
    g.narrowed = .ok w ↔
      w = shared g.windows ∧ (2 ≤ g.windows.length → ∃ t, ∀ v ∈ g.windows, v.Contains t) := by
  induction g generalizing w with
  | alone v =>
    rw [narrowed, windows, shared_singleton, Except.ok.injEq]
    exact ⟨fun same => ⟨same.symm, fun more => absurd more (Nat.not_succ_le_self 1)⟩, fun h => h.1.symm⟩
  | joined left right ihl ihr =>
    have several : 2 ≤ left.windows.length + right.windows.length :=
      Nat.add_le_add left.length_windows_pos right.length_windows_pos
    rw [narrowed, windows, shared_append, List.length_append]
    simp only [bind_eq_ok, intersect_eq_ok, List.forall_mem_append, several, true_imp_iff]
    constructor
    · rintro ⟨l, hl, r, hr, same, t, here, there⟩
      obtain ⟨rfl, -⟩ := ihl.1 hl
      obtain ⟨rfl, -⟩ := ihr.1 hr
      exact ⟨same, t, contains_shared.1 here, contains_shared.1 there⟩
    · -- a moment that all windows share is shared on either side, so neither is refused
      rintro ⟨same, t, here, there⟩
      exact ⟨_, ihl.2 ⟨rfl, fun _ => ⟨t, here⟩⟩, _, ihr.2 ⟨rfl, fun _ => ⟨t, there⟩⟩, same, t,
        contains_shared.2 here, contains_shared.2 there⟩

/-- Whatever is refused in a grouping is refused for one cause. -/
theorem code_of_narrowed {g : Grouping} {r : Refusal} (h : g.narrowed = .error r) :
    r.code = .invalidValidationDuration := by
  induction g generalizing r with
  | alone w => cases h
  | joined left right ihl ihr =>
    rw [narrowed] at h
    cases hl : left.narrowed with
    | error e =>
      rw [hl, error_bind] at h
      cases h
      exact ihl hl
    | ok v =>
      rw [hl, ok_bind] at h
      cases hr : right.narrowed with
      | error e =>
        rw [hr, error_bind] at h
        cases h
        exact ihr hr
      | ok w =>
        rw [hr, ok_bind] at h
        exact code_of_intersect h

end Grouping

/-- A narrowing of some windows ends as it should: it is refused exactly if there is no moment that all of them
share, and gives the window of the shared moments otherwise. -/
structure IsIntersection (windows : List ValidityWindow) (outcome : Except Refusal ValidityWindow) :
    Prop where
  refused : (∃ r, outcome = .error r ∧ r.code = .invalidValidationDuration) ↔
    ¬∃ t, ∀ w ∈ windows, w.Contains t
  given : (∃ t, ∀ w ∈ windows, w.Contains t) →
    ∃ v, outcome = .ok v ∧ ∀ t, v.Contains t ↔ ∀ w ∈ windows, w.Contains t

namespace Grouping

theorem isIntersection_narrowed {g : Grouping} (several : 2 ≤ g.windows.length) :
    IsIntersection g.windows g.narrowed := by
  constructor
  · constructor
    · rintro ⟨r, refused, -⟩ common
      rw [narrowed_eq_ok.2 ⟨rfl, fun _ => common⟩] at refused
      cases refused
    · intro none
      cases ends : g.narrowed with
      | ok w => exact absurd ((narrowed_eq_ok.1 ends).2 several) none
      | error r => exact ⟨r, rfl, code_of_narrowed ends⟩
  · intro common
    exact ⟨_, narrowed_eq_ok.2 ⟨rfl, fun _ => common⟩, fun t => contains_shared⟩

/-- The same windows in another order and grouping are narrowed to the same, or refused for the same cause. -/
theorem mapError_narrowed_of_perm {g h : Grouping} (perm : g.windows.Perm h.windows) :
    g.narrowed.mapError Refusal.code = h.narrowed.mapError Refusal.code := by
  have same : ∀ w, g.narrowed = .ok w ↔ h.narrowed = .ok w := by
    intro w
    rw [narrowed_eq_ok, narrowed_eq_ok, shared, shared, perm.foldr_op_eq, perm.length_eq]
    simp only [perm.mem_iff]
  cases hg : g.narrowed with
  | ok w => rw [(same w).1 hg]
  | error r =>
    cases hh : h.narrowed with
    | ok w =>
      rw [(same w).2 hh] at hg
      cases hg
    | error q => exact congrArg Except.error ((code_of_narrowed hg).trans (code_of_narrowed hh).symm)

end Grouping

/-- **Narrowing is intersecting.** Whatever the bounds of two windows are, narrowing one to the other is refused
exactly if they share no moment, and otherwise gives the window of the moments that they share. So does
narrowing a window to several others one after the other; and narrowing the same windows two at a time, in any
other order and grouping, gives the same window, or is refused with the same code. (Which two bounds are named
in the refusal depends on the order.) -/
theorem narrowing_shares_moments :
    (∀ a b : ValidityWindow, IsIntersection [a, b] (a.intersect b)) ∧
    ∀ (w : ValidityWindow) (others : List ValidityWindow), others ≠ [] →
      IsIntersection (w :: others) (others.foldlM intersect w) ∧
      ∀ g : Grouping, g.windows.Perm (w :: others) →
        g.narrowed.mapError Refusal.code = (others.foldlM intersect w).mapError Refusal.code := by
  constructor
  · intro a b
    exact Grouping.isIntersection_narrowed (g := .joined (.alone a) (.alone b)) (Nat.le_refl 2)
  · intro w others some
    rw [← Grouping.narrowed_inTurn, ← Grouping.windows_inTurn]
    refine ⟨Grouping.isIntersection_narrowed ?_, fun g perm => Grouping.mapError_narrowed_of_perm perm⟩
    rw [Grouping.windows_inTurn]
    exact Nat.succ_le_succ (List.length_pos_iff.2 some)

/-- A window without an end and two others that have one are narrowed alike in another order. -/
theorem three_windows_in_other_order :
    let g : Grouping := .joined (.alone ⟨15, 12⟩) (.joined (.alone ⟨0, 10⟩) (.alone ⟨20, 0⟩))
    g.windows.Perm [⟨0, 10⟩, ⟨20, 0⟩, ⟨15, 12⟩] ∧ g.narrowed.mapError Refusal.code = .ok ⟨15, 12⟩ := by
  intro g
  have perm : g.windows.Perm [⟨0, 10⟩, ⟨20, 0⟩, ⟨15, 12⟩] := by decide
  refine ⟨perm, ((narrowing_shares_moments.2 ⟨0, 10⟩ [⟨20, 0⟩, ⟨15, 12⟩] (List.cons_ne_nil _ _)).2 g perm).trans ?_⟩
  decide

end ValidityWindow

end SessionKeys
