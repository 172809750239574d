import Mathlib.Data.Fin.Basic
import Mathlib.Data.List.FinRange
import RunFarm.Python.Dict

/-! `CutFlow`: for each leg a row of stages and the reasons of its drops. A stage is its place
in the list of stages. -/
set_option autoImplicit false

namespace RunFarm
open Python

/-- `None`, `True` or `False` at each stage. -/
abbrev StageRow (n : Nat) := Fin n → Option Bool

@[ext]
structure CutFlow (n : Nat) where
  rows : Dict String (StageRow n) := Dict.empty
  reasons : Dict (String × Fin n) String := Dict.empty

@[ext]
structure LegView (n : Nat) where
  row : Option (StageRow n) := none
  reason : Fin n → Option String := fun _ => none

variable {n : Nat}

/-- The stages after `i`. -/
def later (i : Fin n) : List (Fin n) := (List.finRange n).filter (i < ·)

def force (row : StageRow n) (js : List (Fin n)) : StageRow n :=
  js.foldl (fun row j => Function.update row j (some false)) row

def unforce (dropped : Fin n → Bool) : List (Fin n) → StageRow n → StageRow n
  | [], row => row
  | j :: js, row =>
    if dropped j then row
    else unforce dropped js (if row j = some false then Function.update row j none else row)

namespace CutFlow

def enter (cf : CutFlow n) (leg : String) : CutFlow n where
  rows := cf.rows.set leg (fun _ => none)
  reasons := cf.reasons.keep (fun k => k.1 ≠ leg)

def entered (cf : CutFlow n) (leg : String) : CutFlow n :=
  if (cf.rows.get leg).isSome then cf else cf.enter leg

def mark (cf : CutFlow n) (leg : String) (i : Fin n) (ok : Bool) (reason : String := "") :
    CutFlow n :=
  let cf := cf.entered leg
  let row := Function.update ((cf.rows.get leg).getD fun _ => none) i (some ok)
  if ok then
    let reasons := cf.reasons.keep (fun k => k ≠ (leg, i))
    { rows := cf.rows.set leg (unforce (fun j => (reasons.get (leg, j)).isSome) (later i) row)
      reasons := reasons }
  else
    { rows := cf.rows.set leg (force row (later i))
      reasons := cf.reasons.set (leg, i) (if reason = "" then "unspecified" else reason) }

def view (cf : CutFlow n) (leg : String) : LegView n where
  row := cf.rows.get leg
  reason i := cf.reasons.get (leg, i)

end CutFlow

namespace LegView

def fresh : LegView n := { row := some fun _ => none }

/-- What the row has at a stage; a leg without a row has nothing there. -/
def stage (v : LegView n) (j : Fin n) : Option Bool := (v.row.getD fun _ => none) j

def entered (v : LegView n) : LegView n := if v.row.isSome then v else fresh

def mark (v : LegView n) (i : Fin n) (ok : Bool) (reason : String := "") : LegView n :=
  let v := v.entered
  let row := Function.update (v.row.getD fun _ => none) i (some ok)
  if ok then
    let reasons := Function.update v.reason i none
    { row := some (unforce (fun j => (reasons j).isSome) (later i) row), reason := reasons }
  else
    { row := some (force row (later i))
      reason := Function.update v.reason i (some (if reason = "" then "unspecified" else reason)) }

end LegView

variable {cf : CutFlow n} {v : LegView n} {leg leg' : String} {i j : Fin n} {ok : Bool}
  {reason : String}

@[simp] theorem mem_later : j ∈ later i ↔ i < j := by
  simp [later]

theorem view_enter (cf : CutFlow n) (leg leg' : String) :
    (cf.enter leg).view leg' = if leg' = leg then LegView.fresh else cf.view leg' := by
  by_cases h : leg' = leg
  · subst h
    simp [CutFlow.view, CutFlow.enter, LegView.fresh]
  · simp [CutFlow.view, CutFlow.enter, h]

theorem view_entered (cf : CutFlow n) (leg leg' : String) :
    (cf.entered leg).view leg' = if leg' = leg then (cf.view leg).entered else cf.view leg' := by
  unfold CutFlow.entered LegView.entered
  by_cases hrow : (cf.rows.get leg).isSome
  · have hview : (cf.view leg).row.isSome := hrow
    rw [if_pos hrow, if_pos hview]
    split <;> simp_all
  · have hview : ¬ (cf.view leg).row.isSome := hrow
    rw [if_neg hrow, if_neg hview]
    exact view_enter cf leg leg'

theorem view_mark (cf : CutFlow n) (leg leg' : String) (i : Fin n) (ok : Bool) (reason : String) :
    (cf.mark leg i ok reason).view leg' =
      if leg' = leg then (cf.view leg).mark i ok reason else cf.view leg' := by
  have hent := view_entered cf leg
  unfold CutFlow.mark LegView.mark
  by_cases h : leg' = leg
  · subst h
    rw [if_pos rfl, ← (hent leg').trans (if_pos rfl)]
    generalize cf.entered leg' = cf
    cases ok with
    | true =>
      have hdrops : ∀ j, (cf.reasons.keep (fun k => k ≠ (leg', i))).get (leg', j) =
          Function.update (cf.view leg').reason i none j := by
        intro j
        by_cases hj : j = i <;> simp [CutFlow.view, hj]
      simp only [if_true, CutFlow.view, Dict.get_set, hdrops]
    | false =>
      have hdrops : ∀ j r, (cf.reasons.set (leg', i) r).get (leg', j) =
          Function.update (cf.view leg').reason i (some r) j := by
        intro j r
        by_cases hj : j = i <;> simp [CutFlow.view, hj]
      simp only [Bool.false_eq_true, if_false, CutFlow.view, Dict.get_set, if_true, hdrops]
  · rw [if_neg h, ← (hent leg').trans (if_neg h)]
    generalize cf.entered leg = cf
    cases ok <;> simp [CutFlow.view, h]

theorem view_enter_self (cf : CutFlow n) (leg : String) :
    (cf.enter leg).view leg = LegView.fresh := by
  rw [view_enter, if_pos rfl]

theorem view_enter_of_ne (h : leg' ≠ leg) : (cf.enter leg).view leg' = cf.view leg' := by
  rw [view_enter, if_neg h]

theorem view_mark_self (cf : CutFlow n) (leg : String) (i : Fin n) (ok : Bool) (reason : String) :
    (cf.mark leg i ok reason).view leg = (cf.view leg).mark i ok reason := by
  rw [view_mark, if_pos rfl]

theorem view_mark_of_ne (h : leg' ≠ leg) :
    (cf.mark leg i ok reason).view leg' = cf.view leg' := by
  rw [view_mark, if_neg h]

@[simp] theorem fresh_reason (j : Fin n) : (LegView.fresh : LegView n).reason j = none := rfl

@[simp] theorem fresh_row : (LegView.fresh : LegView n).row = some fun _ => none := rfl

theorem entered_reason (v : LegView n) (j : Fin n) :
    v.entered.reason j = if v.row.isSome then v.reason j else none := by
  unfold LegView.entered
  split <;> rfl

theorem mark_reason_of_ne (v : LegView n) (ok : Bool) (reason : String) (h : j ≠ i) :
    (v.mark i ok reason).reason j = v.entered.reason j := by
  cases ok <;> simp [LegView.mark, h]

theorem mark_true_reason (v : LegView n) (i : Fin n) (reason : String) :
    (v.mark i true reason).reason i = none := by
  simp [LegView.mark]

theorem mark_false_reason (v : LegView n) (i : Fin n) (reason : String) :
    (v.mark i false reason).reason i = some (if reason = "" then "unspecified" else reason) := by
  simp [LegView.mark]

theorem mark_row_isSome (v : LegView n) (i : Fin n) (ok : Bool) (reason : String) :
    (v.mark i ok reason).row.isSome := by
  cases ok <;> simp [LegView.mark]

theorem force_apply (row : StageRow n) (js : List (Fin n)) (j : Fin n) :
    force row js j = if j ∈ js then some false else row j := by
  induction js generalizing row with
  | nil => simp [force]
  | cons k js ih =>
    have hcons : force row (k :: js) = force (Function.update row k (some false)) js := rfl
    rw [hcons, ih]
    by_cases hk : j = k
    · subst hk
      simp
    · simp [hk]

theorem unforce_of_not_mem (dropped : Fin n → Bool) {js : List (Fin n)} (row : StageRow n)
    (h : j ∉ js) : unforce dropped js row j = row j := by
  induction js generalizing row with
  | nil => rfl
  | cons k js ih =>
    simp only [List.mem_cons, not_or] at h
    simp only [unforce]
    split
    · rfl
    · rw [ih _ h.2]
      split <;> simp [h.1]

theorem entered_stage (v : LegView n) (j : Fin n) : v.entered.stage j = v.stage j := by
  unfold LegView.entered
  split
  · rfl
  · simp_all [LegView.stage]

theorem mark_stage_self (v : LegView n) (i : Fin n) (ok : Bool) (reason : String) :
    (v.mark i ok reason).stage i = some ok := by
  cases ok
  · simp [LegView.mark, LegView.stage, force_apply]
  · simp [LegView.mark, LegView.stage, unforce_of_not_mem]

theorem mark_stage_before (v : LegView n) (ok : Bool) (reason : String) (h : j < i) :
    (v.mark i ok reason).stage j = v.stage j := by
  have hne : j ≠ i := ne_of_lt h
  have hnot : j ∉ later i := by
    rw [mem_later]
    exact lt_asymm h
  rw [← entered_stage v j]
  cases ok
  · simp [LegView.mark, LegView.stage, force_apply, lt_asymm h, hne]
  · simp [LegView.mark, LegView.stage, unforce_of_not_mem _ _ hnot, hne]

theorem mark_false_after (v : LegView n) (reason : String) (h : i < j) :
    (v.mark i false reason).stage j = some false := by
  simp [LegView.mark, LegView.stage, force_apply, h]

theorem unforce_true (dropped : Fin n → Bool) (js : List (Fin n)) {row : StageRow n}
    (h : row j = some true) : unforce dropped js row j = some true := by
  induction js generalizing row with
  | nil => exact h
  | cons k js ih =>
    simp only [unforce]
    split
    · exact h
    · split
      · rename_i hk
        have hne : j ≠ k := fun heq => by
          rw [heq, hk] at h
          cases h
        exact ih (by rw [Function.update_of_ne hne, h])
      · exact ih h

theorem mark_true_keeps (i : Fin n) (reason : String) (h : v.stage j = some true) :
    (v.mark i true reason).stage j = some true := by
  rw [← entered_stage v j] at h
  simp only [LegView.mark, LegView.stage, if_true, Option.getD_some]
  refine unforce_true _ _ ?_
  by_cases hj : j = i
  · rw [hj, Function.update_self]
  · rw [Function.update_of_ne hj]
    exact h

end RunFarm
