import Mathlib.Algebra.BigOperators.Group.List.Basic
import Mathlib.Algebra.Order.BigOperators.Group.List
import Mathlib.Algebra.Order.Floor.Semiring
import Mathlib.Data.List.GetD
import Mathlib.Data.List.Sort
import Mathlib.Tactic.Linarith

/-! Apportionment by largest remainders: whole seats for shares that add up to a whole number. -/
set_option autoImplicit false

namespace Apportion

variable {K : Type} [Field K] [LinearOrder K] [FloorSemiring K]

def remainder (x : K) : K := x - ⌊x⌋₊

def floors (xs : List K) : List Nat := xs.map fun x => ⌊x⌋₊

def remainderAt (xs : List K) (i : Nat) : K := remainder (xs.getD i 0)

def largestFirst (xs : List K) : List Nat :=
  (List.range xs.length).insertionSort fun i j => remainderAt xs j ≤ remainderAt xs i

def favoured (n : Nat) (xs : List K) : List Nat :=
  (largestFirst xs).take (n - (floors xs).sum)

def giveEach (counts places : List Nat) : List Nat :=
  places.foldl (fun counts i => counts.modify i (· + 1)) counts

def seats (n : Nat) (xs : List K) : List Nat := giveEach (floors xs) (favoured n xs)

structure Shares (n : Nat) (xs : List K) : Prop where
  nonneg : ∀ x ∈ xs, 0 ≤ x
  total : xs.sum = n

@[simp] theorem length_giveEach (counts places : List Nat) :
    (giveEach counts places).length = counts.length := by
  induction places generalizing counts with
  | nil => rfl
  | cons i places ih =>
    have hstep := ih (counts.modify i (· + 1))
    rw [List.length_modify] at hstep
    exact hstep

theorem getD_giveEach (counts places : List Nat) {i : Nat} (hi : i < counts.length) :
    (giveEach counts places).getD i 0 = counts.getD i 0 + places.count i := by
  induction places generalizing counts with
  | nil => simp [giveEach]
  | cons j places ih =>
    have hlen : i < (counts.modify j (· + 1)).length := by simpa using hi
    have hstep := ih (counts.modify j (· + 1)) hlen
    simp only [giveEach, List.foldl_cons] at hstep ⊢
    rw [hstep, List.count_cons]
    by_cases hj : j = i
    · subst hj
      simp [List.getD_eq_getElem?_getD, hi]
      omega
    · simp [List.getD_eq_getElem?_getD, hj]

theorem sum_modify {counts : List Nat} {i : Nat} (hi : i < counts.length) :
    (counts.modify i (· + 1)).sum = counts.sum + 1 := by
  induction counts generalizing i with
  | nil => simp at hi
  | cons c counts ih =>
    cases i with
    | zero => simp; omega
    | succ i =>
      have hrest := ih (i := i) (by simpa using hi)
      simp [hrest]
      omega

theorem sum_giveEach (counts places : List Nat) (h : ∀ i ∈ places, i < counts.length) :
    (giveEach counts places).sum = counts.sum + places.length := by
  induction places generalizing counts with
  | nil => simp [giveEach]
  | cons i places ih =>
    obtain ⟨hi, hplaces⟩ := List.forall_mem_cons.mp h
    have hstep := ih (counts.modify i (· + 1)) (by simpa using hplaces)
    simp only [giveEach, List.foldl_cons] at hstep ⊢
    rw [hstep, sum_modify hi, List.length_cons]
    omega

theorem largestFirst_perm (xs : List K) : (largestFirst xs).Perm (List.range xs.length) :=
  List.perm_insertionSort _ _

theorem largestFirst_sorted (xs : List K) :
    (largestFirst xs).Pairwise fun i j => remainderAt xs j ≤ remainderAt xs i := by
  have htotal : Std.Total fun i j => remainderAt xs j ≤ remainderAt xs i :=
    ⟨fun _ _ => le_total _ _⟩
  have htrans : IsTrans Nat fun i j => remainderAt xs j ≤ remainderAt xs i :=
    ⟨fun _ _ _ hij hjk => hjk.trans hij⟩
  exact List.pairwise_insertionSort _ _

theorem map_remainderAt (xs : List K) :
    (List.range xs.length).map (remainderAt xs) = xs.map remainder := by
  refine List.ext_getElem (by simp) fun i hi _ => ?_
  have hlen : i < xs.length := by simpa using hi
  simp [remainderAt, List.getD_eq_getElem?_getD, hlen]

theorem sum_largestFirst (xs : List K) :
    ((largestFirst xs).map (remainderAt xs)).sum = (xs.map remainder).sum := by
  rw [← map_remainderAt]
  exact ((largestFirst_perm xs).map _).sum_eq

theorem favoured_lt {n : Nat} {xs : List K} {i : Nat}
    (hi : i ∈ favoured n xs) : i < xs.length := by
  have hmem := (largestFirst_perm xs).mem_iff.mp (List.mem_of_mem_take hi)
  simpa using hmem

theorem favoured_nodup (n : Nat) (xs : List K) :
    (favoured n xs).Nodup :=
  ((largestFirst_perm xs).nodup_iff.mpr List.nodup_range).sublist (List.take_sublist _ _)

@[simp] theorem length_seats (n : Nat) (xs : List K) : (seats n xs).length = xs.length := by
  simp [seats, floors]

theorem getD_seats {n : Nat} {xs : List K} {i : Nat} (hi : i < xs.length) : (seats n xs).getD i 0 =
    ⌊xs.getD i 0⌋₊ + if i ∈ favoured n xs then 1 else 0 := by
  have hlen : i < (floors xs).length := by simpa [floors] using hi
  rw [seats, getD_giveEach _ _ hlen]
  congr 1
  · simp [floors, List.getD_eq_getElem?_getD, hi]
  · split
    · exact List.count_eq_one_of_mem (favoured_nodup n xs) ‹_›
    · exact List.count_eq_zero_of_not_mem ‹_›

variable [IsStrictOrderedRing K]

theorem remainder_lt_one (x : K) : remainder x < 1 := by
  have hlt := Nat.lt_floor_add_one x
  unfold remainder
  linarith

theorem remainder_nonneg {x : K} (h : 0 ≤ x) : 0 ≤ remainder x :=
  sub_nonneg.mpr (Nat.floor_le h)

theorem sum_floors (xs : List K) :
    ((floors xs).sum : K) + (xs.map remainder).sum = xs.sum := by
  induction xs with
  | nil => simp [floors]
  | cons x xs ih =>
    simp only [floors, List.map_cons, List.sum_cons, Nat.cast_add, remainder] at ih ⊢
    linarith

theorem sum_remainders_le (xs : List K) (places : List Nat) :
    (places.map (remainderAt xs)).sum ≤ places.length := by
  have hle := List.sum_le_card_nsmul (places.map (remainderAt xs)) 1 fun x hx => ?_
  · simpa using hle
  · obtain ⟨i, _, rfl⟩ := List.mem_map.mp hx
    exact (remainder_lt_one _).le

variable {n : Nat} {xs : List K}

namespace Shares

theorem remainders_nonneg (h : Shares n xs) : 0 ≤ (xs.map remainder).sum := by
  refine List.sum_nonneg fun r hr => ?_
  obtain ⟨x, hx, rfl⟩ := List.mem_map.mp hr
  exact remainder_nonneg (h.nonneg x hx)

theorem floors_le (h : Shares n xs) : (floors xs).sum ≤ n := by
  have hsum := sum_floors xs
  have hrest := h.remainders_nonneg
  rw [h.total] at hsum
  exact_mod_cast (by linarith : ((floors xs).sum : K) ≤ n)

theorem leftover (h : Shares n xs) :
    ((n - (floors xs).sum : Nat) : K) = ((largestFirst xs).map (remainderAt xs)).sum := by
  have hsum := sum_floors xs
  rw [h.total] at hsum
  rw [Nat.cast_sub h.floors_le, sum_largestFirst]
  linarith

theorem length_favoured (h : Shares n xs) :
    (favoured n xs).length = n - (floors xs).sum := by
  have hle := sum_remainders_le xs (largestFirst xs)
  have hlength : n - (floors xs).sum ≤ (largestFirst xs).length := by
    exact_mod_cast (h.leftover ▸ hle : ((n - (floors xs).sum : Nat) : K) ≤ _)
  rw [favoured, List.length_take]
  omega

theorem favoured_remainder (h : Shares n xs) {i : Nat} (hi : i ∈ favoured n xs) :
    0 < remainderAt xs i := by
  by_contra hzero
  obtain ⟨before, behind, hsplit⟩ := List.append_of_mem hi
  have hrest : (((largestFirst xs).drop (n - (floors xs).sum)).map (remainderAt xs)).sum ≤ 0 := by
    refine (List.sum_le_card_nsmul _ 0 fun r hr => ?_).trans (by simp)
    obtain ⟨j, hj, rfl⟩ := List.mem_map.mp hr
    have hsorted := largestFirst_sorted xs
    rw [← List.take_append_drop (n - (floors xs).sum) (largestFirst xs)] at hsorted
    exact ((List.pairwise_append.mp hsorted).2.2 i hi j hj).trans (not_lt.mp hzero)
  have hleft := h.leftover
  rw [← List.take_append_drop (n - (floors xs).sum) (largestFirst xs), List.map_append,
    List.sum_append, ← favoured, hsplit] at hleft
  have hlength := h.length_favoured
  rw [hsplit, List.length_append, List.length_cons] at hlength
  rw [← hlength] at hrest
  have hbefore := sum_remainders_le xs before
  have hbehind := sum_remainders_le xs behind
  simp only [List.map_append, List.map_cons, List.sum_append, List.sum_cons, ← hlength,
    Nat.cast_add, Nat.cast_one] at hleft
  linarith [not_lt.mp hzero]

theorem sum_seats (h : Shares n xs) : (seats n xs).sum = n := by
  have hlt : ∀ i ∈ favoured n xs, i < (floors xs).length := fun i hi => by
    simpa [floors] using favoured_lt hi
  have hle := h.floors_le
  rw [seats, sum_giveEach _ _ hlt, h.length_favoured]
  omega

theorem seats_near (h : Shares n xs) {i : Nat} (hi : i < xs.length) :
    |((seats n xs).getD i 0 : K) - xs.getD i 0| < 1 := by
  have hnonneg : 0 ≤ xs.getD i 0 := by
    rw [List.getD_eq_getElem _ _ hi]
    exact h.nonneg _ (List.getElem_mem hi)
  have hlow := Nat.floor_le hnonneg
  have hhigh := Nat.lt_floor_add_one (xs.getD i 0)
  rw [getD_seats hi, abs_lt]
  split
  · have hpos := h.favoured_remainder ‹_›
    simp only [remainderAt, remainder] at hpos
    push_cast
    constructor <;> linarith
  · push_cast
    constructor <;> linarith

theorem seats_zero (h : Shares n xs) {i : Nat} (hi : i < xs.length) (hzero : xs.getD i 0 = 0) :
    (seats n xs).getD i 0 = 0 := by
  have hnot : i ∉ favoured n xs := fun hmem => by
    have hpos := h.favoured_remainder hmem
    rw [remainderAt, remainder, hzero] at hpos
    simp at hpos
  rw [getD_seats hi, if_neg hnot, hzero]
  simp

end Shares

end Apportion
