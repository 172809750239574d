import Mathlib.Data.List.Lex
import Mathlib.Data.String.Basic
import RunFarm.Python.Numerals
import RunFarm.Python.Rounding

/-! Numbers in a fixed number of digits: the texts are in the order of the numbers. -/
set_option autoImplicit false

namespace Python

/-- The digits of `n` in base `b`, with zeros on the left up to `width`. -/
def padded (b width n : Nat) : List Char :=
  List.replicate (width - (Nat.toDigits b n).length) '0' ++ Nat.toDigits b n

/-- `f"{t:0<width>d}"`: the sign counts. -/
def zeroPadded (width : Nat) (t : Int) : List Char :=
  if 0 ≤ t then padded 10 width t.natAbs else '-' :: padded 10 (width - 1) t.natAbs

/-- `f"{x:.<places>f}"`. -/
def fixed (places : Nat) (x : ℚ) : String :=
  let n := (halfEven (x * 10 ^ places)).natAbs
  let decimals := padded 10 places (n % 10 ^ places)
  (if x < 0 then "-" else "") ++ toString (n / 10 ^ places) ++
    (if places = 0 then "" else "." ++ String.ofList decimals)

/-- The last `width` digits of `n`. -/
def lastDigits (b : Nat) : Nat → Nat → List Char
  | 0, _ => []
  | width + 1, n => lastDigits b width (n / b) ++ [(n % b).digitChar]

variable {b w m n : Nat}

@[simp] theorem length_lastDigits : (lastDigits b w n).length = w := by
  induction w generalizing n with
  | zero => rfl
  | succ w ih => simp [lastDigits, ih]

theorem lastDigits_zero : lastDigits b w 0 = List.replicate w '0' := by
  induction w with
  | zero => rfl
  | succ w ih =>
    rw [lastDigits, Nat.zero_div, ih, Nat.zero_mod]
    exact List.replicate_succ'.symm

theorem padded_eq (hb : 1 < b) (hn : n < b ^ (w + 1)) :
    padded b (w + 1) n = lastDigits b (w + 1) n := by
  induction w generalizing n with
  | zero =>
    rw [padded, Nat.toDigits_of_lt_base (by simpa using hn)]
    simp [lastDigits, Nat.mod_eq_of_lt (show n < b by simpa using hn)]
  | succ w ih =>
    by_cases hlt : n < b
    · rw [padded, Nat.toDigits_of_lt_base hlt, lastDigits, Nat.div_eq_of_lt hlt,
        Nat.mod_eq_of_lt hlt, lastDigits_zero]
      rfl
    · have hdiv : n / b < b ^ (w + 1) := by
        rw [Nat.div_lt_iff_lt_mul (by omega)]
        simpa [Nat.pow_succ] using hn
      rw [lastDigits, ← ih hdiv, padded, padded, Nat.toDigits_of_base_le hb (by omega)]
      simp

theorem length_padded (hb : 1 < b) (hn : n < b ^ (w + 1)) :
    (padded b (w + 1) n).length = w + 1 := by
  rw [padded_eq hb hn, length_lastDigits]

theorem mem_padded (hb : 1 < b) (hn : n < b ^ (w + 1)) {c : Char}
    (hc : c ∈ padded b (w + 1) n) : ∃ d < b, c = d.digitChar := by
  rw [padded_eq hb hn] at hc
  generalize w + 1 = k at hc
  clear hn
  induction k generalizing n with
  | zero => simp [lastDigits] at hc
  | succ k ih =>
    rw [lastDigits, List.mem_append, List.mem_singleton] at hc
    rcases hc with hc | rfl
    · exact ih hc
    · exact ⟨n % b, Nat.mod_lt n (by omega), rfl⟩

theorem digitChar_lt_iff (hm : m < 16) (hn : n < 16) : m.digitChar < n.digitChar ↔ m < n := by
  have h : ∀ i j : Fin 16, i.val.digitChar < j.val.digitChar ↔ i.val < j.val := by decide
  exact h ⟨m, hm⟩ ⟨n, hn⟩

theorem append_lt_append_iff {α : Type} [LinearOrder α] {l₁ l₂ r₁ r₂ : List α}
    (hlen : l₁.length = l₂.length) : l₁ ++ r₁ < l₂ ++ r₂ ↔ l₁ < l₂ ∨ l₁ = l₂ ∧ r₁ < r₂ := by
  induction l₁ generalizing l₂ with
  | nil =>
    obtain rfl : l₂ = [] := by simpa using hlen.symm
    simp
  | cons a l₁ ih =>
    cases l₂ with
    | nil => simp at hlen
    | cons c l₂ =>
      simp only [List.cons_append, List.cons_lt_cons_iff, List.cons.injEq,
        ih (Nat.succ.inj hlen)]
      tauto

theorem lt_iff_div_mod (b m n : Nat) :
    m < n ↔ m / b < n / b ∨ m / b = n / b ∧ m % b < n % b := by
  have hm := Nat.div_add_mod m b
  have hn := Nat.div_add_mod n b
  constructor
  · intro h
    rcases Nat.lt_or_eq_of_le (Nat.div_le_div_right (c := b) h.le) with hlt | heq
    · exact .inl hlt
    · rw [heq] at hm
      exact .inr ⟨heq, by omega⟩
  · rintro (hlt | ⟨heq, hlt⟩)
    · exact Nat.lt_of_not_le fun hle => absurd (Nat.div_le_div_right (c := b) hle) (by omega)
    · rw [heq] at hm
      omega

theorem lastDigits_lt_iff (hb : b ≤ 16) (hm : m < b ^ w) (hn : n < b ^ w) :
    lastDigits b w m < lastDigits b w n ↔ m < n := by
  induction w generalizing m n with
  | zero =>
    obtain rfl : m = 0 := by simpa using hm
    obtain rfl : n = 0 := by simpa using hn
    simp
  | succ w ih =>
    have hpos : 0 < b := Nat.pos_of_ne_zero fun h0 => by simp [h0] at hm
    have hdiv : ∀ k, k < b ^ (w + 1) → k / b < b ^ w := fun k hk => by
      rwa [Nat.div_lt_iff_lt_mul hpos, ← Nat.pow_succ]
    have hdigit : ∀ k, k % b < 16 := fun k => (Nat.mod_lt k hpos).trans_le hb
    have heq : lastDigits b w (m / b) = lastDigits b w (n / b) ↔ m / b = n / b := by
      refine ⟨fun h => ?_, fun h => by rw [h]⟩
      have h₁ := ih (hdiv m hm) (hdiv n hn)
      have h₂ := ih (hdiv n hn) (hdiv m hm)
      rw [h] at h₁ h₂
      simp only [lt_self_iff_false, false_iff, not_lt] at h₁ h₂
      omega
    rw [lastDigits, lastDigits, append_lt_append_iff (by simp), ih (hdiv m hm) (hdiv n hn), heq,
      List.cons_lt_cons_iff, digitChar_lt_iff (hdigit m) (hdigit n), lt_iff_div_mod b m n]
    simp

theorem padded_lt_iff (hb : 1 < b) (hb' : b ≤ 16) (hm : m < b ^ (w + 1))
    (hn : n < b ^ (w + 1)) :
    padded b (w + 1) m < padded b (w + 1) n ↔ m < n := by
  rw [padded_eq hb hm, padded_eq hb hn, lastDigits_lt_iff hb' hm hn]

theorem padded_inj (hb : 1 < b) (hb' : b ≤ 16) (hm : m < b ^ (w + 1))
    (hn : n < b ^ (w + 1)) :
    padded b (w + 1) m = padded b (w + 1) n ↔ m = n := by
  refine ⟨fun h => ?_, fun h => by rw [h]⟩
  have h₁ := padded_lt_iff hb hb' hm hn
  have h₂ := padded_lt_iff hb hb' hn hm
  rw [h] at h₁ h₂
  simp only [lt_self_iff_false, false_iff, not_lt] at h₁ h₂
  omega

variable {s t : Int}

theorem length_zeroPadded (ht : t.natAbs < 10 ^ (w + 1)) :
    (zeroPadded (w + 2) t).length = w + 2 := by
  unfold zeroPadded
  split
  · exact length_padded (by decide) (ht.trans (Nat.pow_lt_pow_right (by decide) (by omega)))
  · simp [length_padded (b := 10) (by decide) ht]

theorem minus_lt_padded (ht : n < 10 ^ (w + 1)) (cs : List Char) :
    '-' :: cs < padded 10 (w + 1) n := by
  have hlen := length_padded (b := 10) (by decide) ht
  cases hp : padded 10 (w + 1) n with
  | nil => simp [hp] at hlen
  | cons c rest =>
    have hc : c ∈ padded 10 (w + 1) n := by simp [hp]
    have hdigit : '0' ≤ c := by
      rw [padded, List.mem_append, List.mem_replicate] at hc
      rcases hc with ⟨-, rfl⟩ | hc
      · exact le_rfl
      · have := isDigit_of_mem hc
        simp [Char.isDigit] at this
        exact this.1
    rw [List.cons_lt_cons_iff]
    exact .inl (lt_of_lt_of_le (by decide) hdigit)

theorem zeroPadded_lt_iff (hs : s.natAbs < 10 ^ (w + 1)) (ht : t.natAbs < 10 ^ (w + 1))
    (hle : s ≤ t) : zeroPadded (w + 2) s < zeroPadded (w + 2) t ↔ s < t ∧ 0 ≤ t := by
  have hwide : ∀ n, n < 10 ^ (w + 1) → n < 10 ^ (w + 1 + 1) :=
    fun n hn => hn.trans (Nat.pow_lt_pow_right (by decide) (by omega))
  unfold zeroPadded
  by_cases hs0 : 0 ≤ s
  · have ht0 : 0 ≤ t := by omega
    rw [if_pos hs0, if_pos ht0, padded_lt_iff (by decide) (by decide) (hwide _ hs) (hwide _ ht)]
    omega
  · rw [if_neg hs0]
    by_cases ht0 : 0 ≤ t
    · rw [if_pos ht0]
      have hminus := minus_lt_padded (hwide _ ht) (padded 10 (w + 1) s.natAbs)
      exact iff_of_true hminus ⟨by omega, ht0⟩
    · rw [if_neg ht0, List.cons_lt_cons_iff]
      simp only [lt_self_iff_false, true_and, false_or,
        show w + 2 - 1 = w + 1 from rfl]
      rw [padded_lt_iff (by decide) (by decide) hs ht]
      omega

theorem zeroPadded_inj (hs : s.natAbs < 10 ^ (w + 1)) (ht : t.natAbs < 10 ^ (w + 1)) :
    zeroPadded (w + 2) s = zeroPadded (w + 2) t ↔ s = t := by
  refine ⟨fun h => ?_, fun h => by rw [h]⟩
  have hwide : ∀ n, n < 10 ^ (w + 1) → n < 10 ^ (w + 1 + 1) :=
    fun n hn => hn.trans (Nat.pow_lt_pow_right (by decide) (by omega))
  unfold zeroPadded at h
  by_cases hs0 : 0 ≤ s <;> by_cases ht0 : 0 ≤ t
  · rw [if_pos hs0, if_pos ht0, padded_inj (by decide) (by decide) (hwide _ hs) (hwide _ ht)] at h
    omega
  · rw [if_pos hs0, if_neg ht0] at h
    exact absurd h.symm (minus_lt_padded (hwide _ hs) _).ne
  · rw [if_neg hs0, if_pos ht0] at h
    exact absurd h (minus_lt_padded (hwide _ ht) _).ne
  · rw [if_neg hs0, if_neg ht0, List.cons.injEq] at h
    have habs := (padded_inj (by decide) (by decide) hs ht).mp h.2
    omega

end Python
