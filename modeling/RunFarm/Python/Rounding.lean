import Mathlib.Data.Rat.Floor
import Mathlib.Algebra.Order.Floor.Ring
import Mathlib.Tactic.Linarith
import Mathlib.Tactic.Positivity
import Mathlib.Tactic.FieldSimp

/-! Decimal rounding of exact numbers, ties going to the even neighbour. -/
set_option autoImplicit false

namespace Python

def halfEven (x : ℚ) : ℤ :=
  if x - ⌊x⌋ < 1/2 then ⌊x⌋
  else if 1/2 < x - ⌊x⌋ then ⌊x⌋ + 1
  else if ⌊x⌋ % 2 = 0 then ⌊x⌋
  else ⌊x⌋ + 1

theorem halfEven_near (x : ℚ) : |(halfEven x : ℚ) - x| ≤ 1/2 := by
  have hlo := Int.floor_le x
  have hhi := Int.lt_floor_add_one x
  unfold halfEven
  split_ifs <;> rw [abs_le] <;> push_cast <;> constructor <;> linarith

def round (x : ℚ) (n : Nat) : ℚ := halfEven (x * 10^n) / 10^n

theorem round_near (x : ℚ) (n : Nat) : |round x n - x| ≤ 1/2 / 10^n := by
  have hp : (0 : ℚ) < 10^n := by positivity
  have hx : round x n - x = ((halfEven (x * 10^n) : ℚ) - x * 10^n) / 10^n := by
    unfold round
    field_simp
  rw [hx, abs_div, abs_of_pos hp]
  exact div_le_div_of_nonneg_right (halfEven_near _) hp.le

theorem round_ne_zero {x : ℚ} (n : Nat) (hx : 1 ≤ x) : round x n ≠ 0 := by
  intro h
  have hnear := round_near x n
  have hpow : (1 : ℚ) ≤ 10^n := one_le_pow₀ (by norm_num)
  have hsmall : (1/2 : ℚ) / 10^n ≤ 1/2 := div_le_self (by norm_num) hpow
  rw [h, abs_le] at hnear
  linarith [hnear.1]

example : round (2675/1000) 2 = 268/100 := by decide +kernel

end Python
