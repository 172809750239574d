import Mathlib.Data.List.Infix
import RunFarm.Python.Lines

/-! `s.find(t)` and `s.split()`, and what a text that goes on does to them. -/
set_option autoImplicit false

namespace Python

section
variable {α : Type} {pat cs : List α}

theorem prefix_drop_append {j : Nat} (ds : List α) (h : j + pat.length ≤ cs.length) :
    pat <+: (cs ++ ds).drop j ↔ pat <+: cs.drop j := by
  rw [List.drop_append_of_le_length (by omega)]
  refine ⟨fun hpat => ?_, fun hpat => hpat.trans (List.prefix_append _ _)⟩
  refine List.prefix_of_prefix_length_le hpat (List.prefix_append _ _) ?_
  rw [List.length_drop]
  omega

variable [DecidableEq α]

/-- `s.find(t)`, without a value for -1. -/
def find (pat : List α) : List α → Option Nat
  | [] => if pat = [] then some 0 else none
  | c :: cs => if pat <+: c :: cs then some 0 else (find pat cs).map (· + 1)

variable {i : Nat}

theorem find_eq_some : find pat cs = some i ↔ pat <+: cs.drop i ∧ ∀ j < i, ¬ pat <+: cs.drop j := by
  induction cs generalizing i with
  | nil =>
    by_cases hpat : pat = []
    · subst hpat
      cases i with
      | zero => simp [find]
      | succ i =>
        simp only [find, if_true, Option.some.injEq]
        exact iff_of_false (Nat.succ_ne_zero i).symm fun h =>
          h.2 0 (Nat.succ_pos i) List.nil_prefix
    · simp [find, hpat]
  | cons c cs ih =>
    by_cases hhere : pat <+: c :: cs
    · cases i with
      | zero => simp [find, hhere]
      | succ i =>
        simp only [find, if_pos hhere, Option.some.injEq]
        exact iff_of_false (Nat.succ_ne_zero i).symm fun h => h.2 0 (Nat.succ_pos i) hhere
    · rw [find, if_neg hhere]
      cases i with
      | zero => simp [hhere]
      | succ i =>
        simp only [Option.map_eq_some_iff, Nat.add_right_cancel_iff, exists_eq_right, ih,
          List.drop_succ_cons]
        refine and_congr_right fun _ => ⟨fun h j hj => ?_, fun h j hj => h (j + 1) (by omega)⟩
        cases j with
        | zero => exact hhere
        | succ j => exact h j (by omega)

theorem find_eq_none (h : ¬ pat <:+: cs) : find pat cs = none := by
  by_contra hfound
  obtain ⟨i, hi⟩ := Option.ne_none_iff_exists'.mp hfound
  exact h ((find_eq_some.mp hi).1.isInfix.trans (List.drop_suffix i cs).isInfix)

theorem find_le (h : find pat cs = some i) : i + pat.length ≤ cs.length ∨ pat = [] := by
  obtain ⟨hpat, -⟩ := find_eq_some.mp h
  have hlength := hpat.length_le
  rw [List.length_drop] at hlength
  by_cases hnil : pat = []
  · exact .inr hnil
  · have hpos := List.length_pos_iff.mpr hnil
    exact .inl (by omega)

theorem find_append (h : find pat cs = some i) (hpat : pat ≠ []) (ds : List α) :
    find pat (cs ++ ds) = some i := by
  have hle := (find_le h).resolve_right hpat
  obtain ⟨hhere, hbefore⟩ := find_eq_some.mp h
  rw [find_eq_some, prefix_drop_append ds hle]
  refine ⟨hhere, fun j hj => ?_⟩
  rw [prefix_drop_append ds (by omega)]
  exact hbefore j hj

def Borderless (pat : List α) : Prop :=
  ∀ n < pat.length, 0 < n → pat.drop n ≠ pat.take (pat.length - n)

instance (pat : List α) : Decidable (Borderless pat) := by
  unfold Borderless
  infer_instance

theorem find_here (hpat : Borderless pat) {before : List α} (h : ¬ pat <:+: before)
    (after : List α) : find pat (before ++ (pat ++ after)) = some before.length := by
  rw [find_eq_some, List.drop_left]
  refine ⟨List.prefix_append _ _, fun j hj hover => ?_⟩
  rw [List.drop_append_of_le_length hj.le] at hover
  generalize hs : before.drop j = s at hover
  have hlength : s.length = before.length - j := by rw [← hs, List.length_drop]
  by_cases hlong : pat.length ≤ s.length
  · refine h (List.IsInfix.trans ?_ (hs ▸ List.drop_suffix j before).isInfix)
    exact (List.prefix_of_prefix_length_le hover (List.prefix_append _ _) hlong).isInfix
  · -- the rest of it begins where it begins itself
    obtain ⟨t, rfl⟩ := List.prefix_of_prefix_length_le (List.prefix_append s _) hover
      (by omega)
    rw [List.prefix_append_right_inj] at hover
    have hbegin : t <+: s ++ t :=
      List.prefix_of_prefix_length_le hover (List.prefix_append _ _) (by simp)
    rw [List.length_append] at hlong
    refine hpat s.length (by rw [List.length_append]; omega) (by omega) ?_
    have hrest : (s ++ t).length - s.length = t.length := by simp
    rw [List.drop_left, hrest]
    exact List.prefix_iff_eq_take.mp hbegin

theorem find_fresh {c : α} {before : List α} (h : c ∉ before) (pat after : List α) :
    find (c :: pat) (before ++ (c :: pat ++ after)) = some before.length := by
  rw [find_eq_some, List.drop_left]
  refine ⟨List.prefix_append _ _, fun j hj hover => ?_⟩
  rw [List.drop_append_of_le_length hj.le] at hover
  obtain ⟨d, ds, hdrop⟩ := List.exists_cons_of_ne_nil
    (List.ne_nil_of_length_pos (by rw [List.length_drop]; omega) : before.drop j ≠ [])
  rw [hdrop, List.cons_append, List.cons_prefix_cons] at hover
  exact h (hover.1 ▸ List.mem_of_mem_drop (hdrop ▸ List.mem_cons_self))

end

/-- `s.split()`. -/
def blankSplit (cs : List Char) : List (List Char) := (cs.splitOnP isSpace).filter (· ≠ [])

theorem blankSplit_flatMap {ws : List (List Char)}
    (h : ∀ w ∈ ws, w ≠ [] ∧ ∀ c ∈ w, isSpace c = false) :
    blankSplit (ws.flatMap (' ' :: ·)) = ws := by
  have hsplit (w : List Char) (hw : ∀ c ∈ w, isSpace c = false) :
      ∀ ws : List (List Char), (∀ w ∈ ws, ∀ c ∈ w, isSpace c = false) →
        (w ++ ws.flatMap (' ' :: ·)).splitOnP isSpace = w :: ws := by
    intro ws hws
    induction ws generalizing w with
    | nil => rw [List.flatMap_nil, List.append_nil, List.splitOnP_eq_singleton hw]
    | cons v ws ih =>
      rw [List.flatMap_cons, List.cons_append,
        List.splitOnP_append_cons_of_forall_mem hw ' ' (by decide),
        ih v (hws v List.mem_cons_self) fun u hu => hws u (List.mem_cons_of_mem _ hu)]
  have hall := hsplit [] (by simp) ws fun w hw => (h w hw).2
  rw [List.nil_append] at hall
  rw [blankSplit, hall, List.filter_cons_of_neg (by simp), List.filter_eq_self]
  exact fun w hw => decide_eq_true (h w hw).1

end Python
