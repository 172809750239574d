import Mathlib.Data.List.Basic

/-! Machines that answer one call after the other, and when two of them answer alike. -/
set_option autoImplicit false

namespace Observation

variable {σ τ κ ι ο : Type}

def answers (f : ι → σ → ο × σ) : List ι → σ → List ο
  | [], _ => []
  | i :: is, s => (f i s).1 :: answers f is (f i s).2

/-- Each call comes in a state of the machine `next` that allows it. -/
def Throughout (P : κ → ι → Prop) (next : ι → κ → κ) : κ → List ι → Prop
  | _, [] => True
  | a, i :: is => P a i ∧ Throughout P next (next i a) is

variable {f : ι → σ → ο × σ} {g : ι → τ → ο × τ} {next : ι → κ → κ} {P Q : κ → ι → Prop}
  {s : σ} {t : τ} {a : κ} {calls : List ι}

structure Parted (f : ι → σ → ο × σ) (g : ι → τ → ο × τ) (next : ι → κ → κ) (P Q : κ → ι → Prop)
    (R : σ → κ → Prop) (R' : τ → κ → Prop) : Prop where
  left : ∀ {s a i}, R s a → Q a i → P a i → R (f i s).2 (next i a)
  right : ∀ {t a i}, R' t a → Q a i → P a i → R' (g i t).2 (next i a)
  answer : ∀ {s t a i}, R s a → R' t a → Q a i → ((f i s).1 = (g i t).1 ↔ P a i)

theorem Parted.answers_eq_iff {R : σ → κ → Prop} {R' : τ → κ → Prop}
    (h : Parted f g next P Q R R') (hR : R s a) (hR' : R' t a)
    (hQ : Throughout Q next a calls) :
    answers f calls s = answers g calls t ↔ Throughout P next a calls := by
  induction calls generalizing s t a with
  | nil => simp [answers, Throughout]
  | cons i is ih =>
    obtain ⟨hi, hQ⟩ := hQ
    simp only [answers, List.cons.injEq, Throughout, h.answer hR hR' hi]
    constructor
    · rintro ⟨hP, hrest⟩
      exact ⟨hP, (ih (h.left hR hi hP) (h.right hR' hi hP) hQ).mp hrest⟩
    · rintro ⟨hP, hrest⟩
      exact ⟨hP, (ih (h.left hR hi hP) (h.right hR' hi hP) hQ).mpr hrest⟩

end Observation
