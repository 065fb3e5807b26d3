import SessionKeys.Proofs.Computation
import SessionKeys.ValidityWindow

/-!
Windows of time as sets of moments. A window is empty if no moment lies in it (`isEmpty_iff`), two
windows are narrowed to the moments that they share (`contains_intersect`), and a window can be
narrowed to several others one after the other if all of them share a moment (`narrows_iff`).
-/

namespace SessionKeys.ValidityWindow

/-! ### Earlier and later -/

theorem earlier_cases (a b : Number) :
    (earlier a b = a ∧ later a b = b ∧ a ≤ b) ∨ (earlier a b = b ∧ later a b = a ∧ b ≤ a) := by
  unfold earlier later
  by_cases h : a ≤ b
  · rw [if_pos h, if_pos h]
    exact .inl ⟨rfl, rfl, h⟩
  · rw [if_neg h, if_neg h]
    exact .inr ⟨rfl, rfl, (Number.le_total a b).resolve_left h⟩

theorem later_le {a b t : Number} : later a b ≤ t ↔ a ≤ t ∧ b ≤ t := by
  rcases earlier_cases a b with ⟨-, last, h⟩ | ⟨-, last, h⟩
  · rw [last]
    exact ⟨fun hb => ⟨Number.le_trans h hb, hb⟩, And.right⟩
  · rw [last]
    exact ⟨fun ha => ⟨ha, Number.le_trans h ha⟩, And.left⟩

/-- A moment is not after an end, of which zero is none. -/
def Ends (validUntil t : Number) : Prop :=
  validUntil = 0 ∨ t ≤ validUntil

/-- Zero is no end, whether other ends are before it or after it. -/
theorem ends_earlierEnd {a b t : Number} : Ends (earlierEnd a b) t ↔ Ends a t ∧ Ends b t := by
  unfold earlierEnd Ends
  by_cases zero : earlier a b = 0
  · rw [if_pos zero]
    rcases earlier_cases a b with ⟨first, last, -⟩ | ⟨first, last, -⟩
    · rw [last]
      exact ⟨fun h => ⟨.inl (first.symm.trans zero), h⟩, And.right⟩
    · rw [last]
      exact ⟨fun h => ⟨h, .inl (first.symm.trans zero)⟩, And.left⟩
  · rw [if_neg zero]
    rcases earlier_cases a b with ⟨first, -, h⟩ | ⟨first, -, h⟩
    · rw [first] at zero ⊢
      refine ⟨fun hend => ?_, And.left⟩
      have before := hend.resolve_left zero
      exact ⟨hend, .inr (Number.le_trans before h)⟩
    · rw [first] at zero ⊢
      refine ⟨fun hend => ?_, And.right⟩
      have before := hend.resolve_left zero
      exact ⟨.inr (Number.le_trans before h), hend⟩

/-! ### Moments -/

/-- A window is empty if no moment lies in it. -/
theorem isEmpty_iff {w : ValidityWindow} : w.IsEmpty ↔ ¬∃ t, w.Contains t := by
  constructor
  · rintro ⟨hend, before⟩ ⟨t, starts, ends⟩
    exact before (Number.le_trans starts (ends.resolve_left hend))
  · intro none
    refine ⟨fun hend => none ⟨w.validAfter, Number.le_refl _, .inl hend⟩, fun h => ?_⟩
    exact none ⟨w.validAfter, Number.le_refl _, .inr h⟩

theorem not_isEmpty_iff {w : ValidityWindow} : ¬w.IsEmpty ↔ ∃ t, w.Contains t := by
  rw [isEmpty_iff, Classical.not_not]

/-- The moments that two windows share. -/
theorem contains_intersect {a b : ValidityWindow} {t : Number} :
    Contains ⟨earlierEnd a.validUntil b.validUntil, later a.validAfter b.validAfter⟩ t ↔
      a.Contains t ∧ b.Contains t := by
  have ends := ends_earlierEnd (a := a.validUntil) (b := b.validUntil) (t := t)
  unfold Ends at ends
  unfold Contains
  rw [later_le, ends]
  constructor
  · rintro ⟨⟨ha, hb⟩, hea, heb⟩
    exact ⟨⟨ha, hea⟩, hb, heb⟩
  · rintro ⟨⟨ha, hea⟩, hb, heb⟩
    exact ⟨⟨ha, hb⟩, hea, heb⟩

/-- Two windows can be narrowed to one if they share a moment. -/
theorem intersect_eq_ok {a b w : ValidityWindow} :
    a.intersect b = .ok w ↔
      w = ⟨earlierEnd a.validUntil b.validUntil, later a.validAfter b.validAfter⟩ ∧
        ∃ t, a.Contains t ∧ b.Contains t := by
  have shared : (∃ t, a.Contains t ∧ b.Contains t) ↔
      ¬IsEmpty ⟨earlierEnd a.validUntil b.validUntil, later a.validAfter b.validAfter⟩ := by
    rw [not_isEmpty_iff]
    simp only [contains_intersect]
  rw [shared]
  unfold intersect assertValid
  simp only [bind_eq_ok, error_ite_eq_ok, pure_eq_ok, Except.ok.injEq]
  constructor
  · rintro ⟨-, ⟨nonempty, -⟩, rfl⟩
    exact ⟨rfl, nonempty⟩
  · rintro ⟨rfl, nonempty⟩
    exact ⟨(), ⟨nonempty, trivial⟩, rfl⟩

/-! ### Several windows -/

/-- A window can be narrowed to others one after the other. -/
def Narrows : ValidityWindow → List ValidityWindow → Prop
  | _, [] => True
  | w, other :: rest => ∃ w', w.intersect other = .ok w' ∧ w'.Narrows rest

/-- A window can be narrowed to others, at least one, if all of them share a moment. -/
theorem narrows_iff {w : ValidityWindow} {others : List ValidityWindow} (hne : others ≠ []) :
    w.Narrows others ↔ ∃ t, w.Contains t ∧ ∀ other ∈ others, other.Contains t := by
  induction others generalizing w with
  | nil => exact absurd rfl hne
  | cons other rest ih =>
    unfold Narrows
    constructor
    · rintro ⟨w', narrowed, further⟩
      obtain ⟨rfl, t, here, there⟩ := intersect_eq_ok.1 narrowed
      by_cases last : rest = []
      · subst last
        exact ⟨t, here, by simpa using there⟩
      · obtain ⟨t, shared, others⟩ := (ih last).1 further
        obtain ⟨here, there⟩ := contains_intersect.1 shared
        exact ⟨t, here, by simpa using ⟨there, others⟩⟩
    · rintro ⟨t, here, others⟩
      have there := others other List.mem_cons_self
      refine ⟨_, intersect_eq_ok.2 ⟨rfl, t, here, there⟩, ?_⟩
      by_cases last : rest = []
      · subst last
        trivial
      · refine (ih last).2 ⟨t, contains_intersect.2 ⟨here, there⟩, fun o ho => ?_⟩
        exact others o (List.mem_cons_of_mem other ho)

end SessionKeys.ValidityWindow
