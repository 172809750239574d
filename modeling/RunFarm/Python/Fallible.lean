import Mathlib.Data.List.Basic

/-! Steps that may raise, one after the other. -/
set_option autoImplicit false

namespace Python

variable {ε α β : Type} {xs : List α} {ys : List β} {f : α → Except ε β}

theorem bind_eq_ok {x : Except ε α} {g : α → Except ε β} {b : β} :
    (x >>= g) = .ok b ↔ ∃ a, x = .ok a ∧ g a = .ok b := by
  cases x <;> simp [bind, Except.bind]

theorem pure_eq_ok {a b : α} : (pure a : Except ε α) = .ok b ↔ a = b := by
  simp [pure, Except.pure]

theorem mapM_ok : (∃ ys, xs.mapM f = .ok ys) ↔ ∀ x ∈ xs, ∃ y, f x = .ok y := by
  induction xs with
  | nil => simp [pure_eq_ok]
  | cons x xs ih =>
    rw [List.forall_mem_cons, ← ih]
    simp only [List.mapM_cons, bind_eq_ok, pure_eq_ok]
    constructor
    · rintro ⟨_, y, hy, ys, hys, rfl⟩
      exact ⟨⟨y, hy⟩, ys, hys⟩
    · rintro ⟨⟨y, hy⟩, ys, hys⟩
      exact ⟨y :: ys, y, hy, ys, hys, rfl⟩

theorem mem_mapM (h : xs.mapM f = .ok ys) (y : β) : y ∈ ys ↔ ∃ x ∈ xs, f x = .ok y := by
  induction xs generalizing ys with
  | nil =>
    cases h
    simp
  | cons x xs ih =>
    simp only [List.mapM_cons, bind_eq_ok, pure_eq_ok] at h
    obtain ⟨y', hy', ys', hys', rfl⟩ := h
    rw [List.mem_cons, ih hys']
    constructor
    · rintro (rfl | ⟨x', hx', hy⟩)
      · exact ⟨x, by simp, hy'⟩
      · exact ⟨x', by simp [hx'], hy⟩
    · rintro ⟨x', hx', hy⟩
      rcases List.mem_cons.mp hx' with rfl | hx'
      · rw [hy'] at hy
        cases hy
        exact .inl rfl
      · exact .inr ⟨x', hx', hy⟩

end Python
