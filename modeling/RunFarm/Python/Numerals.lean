import Mathlib.Data.Int.Basic

/-! The decimal form of a number: its characters, and that it determines the number. -/
set_option autoImplicit false

namespace Python

theorem isDigit_of_mem {n : Nat} {c : Char} (h : c ∈ Nat.toDigits 10 n) : c.isDigit :=
  Nat.isDigit_of_mem_toDigits (by omega) (by omega) h

theorem toList_int (n : Int) : (toString n).toList =
    if 0 ≤ n then Nat.toDigits 10 n.natAbs else '-' :: Nat.toDigits 10 n.natAbs := by
  have hrepr : toString n = n.repr := rfl
  rw [hrepr, Int.repr_eq_if]
  split
  · have habs : n.toNat = n.natAbs := by omega
    rw [habs, Nat.toList_repr]
  · have habs : (-n).toNat = n.natAbs := by omega
    simp [habs, Nat.toList_repr]

theorem minus_ne_digits (n : Nat) (cs : List Char) : '-' :: cs ≠ Nat.toDigits 10 n := by
  intro h
  have hdigit : '-'.isDigit := isDigit_of_mem (n := n) (by rw [← h]; exact .head _)
  simp at hdigit

end Python
