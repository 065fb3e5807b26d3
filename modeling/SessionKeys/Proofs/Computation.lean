import Mathlib.Data.List.Forall2
import SessionKeys.Failure

/-!
Reading computations that may fail from their end: one that ends well has gone well through each of
its steps, and none of its checks has stopped it.
-/

namespace SessionKeys

variable {ε α β : Type}

/-! ### Steps -/

@[simp] theorem ok_bind (a : α) (f : α → Except ε β) : (.ok a : Except ε α) >>= f = f a := rfl

@[simp] theorem error_bind (e : ε) (f : α → Except ε β) : (.error e : Except ε α) >>= f = .error e :=
  rfl

theorem throw_eq_error (e : ε) : (throw e : Except ε α) = .error e := rfl

theorem pure_eq_ok (a : α) : (pure a : Except ε α) = .ok a := rfl

theorem bind_eq_ok {x : Except ε α} {f : α → Except ε β} {b : β} :
    x >>= f = .ok b ↔ ∃ a, x = .ok a ∧ f a = .ok b := by
  cases x with
  | error e => simp
  | ok a => simp

/-- A computation of which something was told when it ended has ended well. -/
theorem exists_ok_of_toOption {x : Except ε α} {f : α → β} {b : β} (h : x.toOption.map f = some b) :
    ∃ a, x = .ok a ∧ f a = b := by
  cases x with
  | error e => cases h
  | ok a => exact ⟨a, rfl, Option.some.inj h⟩

/-- A list of computations that end well has their results, one by one. -/
theorem forall₂_of_mapM_eq_ok {f : α → Except ε β} {l : List α} {results : List β}
    (h : l.mapM f = .ok results) : List.Forall₂ (fun a b => f a = .ok b) l results := by
  induction l generalizing results with
  | nil =>
    rw [List.mapM_nil, pure_eq_ok, Except.ok.injEq] at h
    subst h
    exact .nil
  | cons a l ih =>
    rw [List.mapM_cons] at h
    simp only [bind_eq_ok, pure_eq_ok, Except.ok.injEq] at h
    obtain ⟨b, hb, rest, hrest, rfl⟩ := h
    exact .cons hb (ih hrest)

theorem exists_of_mem_mapM {f : α → Except ε β} {l : List α} {results : List β}
    (h : l.mapM f = .ok results) {b : β} (hb : b ∈ results) : ∃ a ∈ l, f a = .ok b := by
  obtain ⟨length, each⟩ := List.forall₂_iff_get.1 (forall₂_of_mapM_eq_ok h)
  obtain ⟨i, rfl⟩ := List.mem_iff_get.1 hb
  have inside : i.val < l.length := by
    rw [length]
    exact i.isLt
  exact ⟨_, List.get_mem l ⟨i, inside⟩, each i inside i.isLt⟩

/-- None of the computations of a list that end well fails. -/
theorem exists_ok_of_mem {f : α → Except ε β} {l : List α} {results : List β}
    (h : l.mapM f = .ok results) {a : α} (ha : a ∈ l) : ∃ b, f a = .ok b := by
  obtain ⟨length, each⟩ := List.forall₂_iff_get.1 (forall₂_of_mapM_eq_ok h)
  obtain ⟨i, rfl⟩ := List.mem_iff_get.1 ha
  exact ⟨_, each i i.isLt (length ▸ i.isLt)⟩

/-- A list of computations of which none fails ends well. -/
theorem exists_mapM_eq_ok {γ : Type} {f : α → Except ε β} {g : α → γ} {related : β → γ → Prop}
    {l : List α} (each : ∀ a ∈ l, ∃ b, f a = .ok b ∧ related b (g a)) :
    ∃ results, l.mapM f = .ok results ∧ List.Forall₂ related results (l.map g) := by
  induction l with
  | nil => exact ⟨[], rfl, .nil⟩
  | cons a l ih =>
    obtain ⟨b, hb, first⟩ := each a List.mem_cons_self
    obtain ⟨results, hresults, rest⟩ := ih fun x hx => each x (List.mem_cons_of_mem a hx)
    refine ⟨b :: results, ?_, .cons first rest⟩
    rw [List.mapM_cons, hb, ok_bind, hresults]
    rfl

/-! ### Checks -/

theorem error_ite_eq_ok {c : Prop} [Decidable c] {e : ε} {x : Except ε α} {a : α} :
    (if c then .error e else x) = .ok a ↔ ¬c ∧ x = .ok a := by
  by_cases hc : c
  · simp [hc]
  · simp [hc]

theorem ite_error_eq_ok {c : Prop} [Decidable c] {e : ε} {x : Except ε α} {a : α} :
    (if c then x else .error e) = .ok a ↔ c ∧ x = .ok a := by
  by_cases hc : c
  · simp [hc]
  · simp [hc]

/-! ### Failures of another kind -/

section Coe

variable [Coe ε Failure]

@[simp] theorem orFail_ok (a : α) : orFail (.ok a : Except ε α) = .ok a := rfl

@[simp] theorem orFail_error (e : ε) : orFail (.error e : Except ε α) = .error (e : Failure) := rfl

theorem orFail_eq_ok {x : Except ε α} {a : α} : orFail x = .ok a ↔ x = .ok a := by
  cases x with
  | error e => simp
  | ok b => simp

theorem reading_eq_ok {what : String} {x : Except Failure α} {a : α} :
    reading what x = .ok a ↔ x = .ok a := by
  cases x with
  | error e =>
    constructor
    · intro h
      cases h
    · intro h
      cases h
  | ok b => exact Iff.rfl

/-- Several changes fail for the cause for which one of them fails. -/
theorem orFail_foldlM (f : β → α → Except ε β) (l : List α) (b : β) :
    orFail (l.foldlM f b) = l.foldlM (fun b a => orFail (f b a)) b := by
  induction l generalizing b with
  | nil => rfl
  | cons a l ih =>
    rw [List.foldlM_cons, List.foldlM_cons]
    cases f b a with
    | error e => rfl
    | ok b' => exact ih b'

end Coe

end SessionKeys
