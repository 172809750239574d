import Mathlib.Data.List.Sort
import RunFarm.Governed.CutFlow

/-! Runs of `enter` and `mark` and what `table` shows of them: every False has a drop at or
before it, and a drop holds every later stage unless a pass is marked behind it. -/
set_option autoImplicit false

namespace RunFarm
open Python

variable {n : Nat}

/-- A call on a cut-flow; `unknown` is a mark at a stage that is not in the list, which has
entered the leg when it raises. -/
inductive CutFlowCall (n : Nat) where
  | enter (leg : String)
  | mark (leg : String) (i : Fin n) (ok : Bool) (reason : String)
  | unknown (leg : String)
  deriving DecidableEq

def CutFlowCall.after (cf : CutFlow n) : CutFlowCall n → CutFlow n
  | .enter leg => cf.enter leg
  | .mark leg i ok reason => cf.mark leg i ok reason
  | .unknown leg => cf.entered leg

def runMarks (calls : List (CutFlowCall n)) : CutFlow n := calls.foldl CutFlowCall.after {}

structure Drop where
  leg : String
  stage : String
  reason : String
  deriving DecidableEq

/-- The order of the items `((leg, stage), reason)`. -/
def Drop.le (d d' : Drop) : Prop :=
  d.leg < d'.leg ∨ d.leg = d'.leg ∧
    (d.stage < d'.stage ∨ d.stage = d'.stage ∧ d.reason ≤ d'.reason)

instance : DecidableRel Drop.le := fun _ _ => inferInstanceAs (Decidable (_ ∨ _ ∧ (_ ∨ _ ∧ _)))

structure Table where
  entered : Nat
  waterfall : List (String × Nat)
  drops : List Drop
  deriving DecidableEq

namespace CutFlow

/-- The legs that `sum(1 for r in self.rows.values() if r[i])` counts. -/
def counted (cf : CutFlow n) (i : Fin n) : List String :=
  (cf.rows.items.filter (fun e => e.2 i = some true)).map Prod.fst

def table (stages : Fin n → String) (cf : CutFlow n) : Table where
  entered := cf.rows.items.length
  waterfall := (List.finRange n).map (fun i => (stages i, (cf.counted i).length))
  drops := (cf.reasons.items.map (fun e => ⟨e.1.1, stages e.1.2, e.2⟩)).insertionSort Drop.le

end CutFlow

structure LegView.Explained (v : LegView n) : Prop where
  explained : ∀ j, v.stage j = some false → ∃ i ≤ j, (v.reason i).isSome
  dropped : ∀ i, (v.reason i).isSome → v.stage i = some false

def LegView.Dominated (v : LegView n) : Prop :=
  ∀ i j, i < j → (v.reason i).isSome → v.stage j = some false

/-- The call marks a stage as passed behind a drop of the same leg. -/
def CutFlow.Overtakes (cf : CutFlow n) : CutFlowCall n → Prop
  | .mark leg i true _ => ∃ k < i, ((cf.view leg).reason k).isSome
  | _ => False

variable {cf : CutFlow n} {v : LegView n} {leg : String} {i j k : Fin n} {reason : String}
  {dropped : Fin n → Bool} {row : StageRow n} {js : List (Fin n)} {call : CutFlowCall n}
  {calls : List (CutFlowCall n)}

theorem later_sorted (i : Fin n) : (later i).Pairwise (· < ·) :=
  (List.pairwise_lt_finRange n).filter _

theorem unforce_stops (hjs : js.Pairwise (· < ·)) (hk : k ∈ js) (hdrop : dropped k = true)
    (hkj : k ≤ j) : unforce dropped js row j = row j := by
  induction js generalizing row with
  | nil => simp at hk
  | cons a js ih =>
    rw [List.pairwise_cons] at hjs
    simp only [unforce]
    split
    · rfl
    · rename_i ha
      have hmem : k ∈ js := by
        rcases List.mem_cons.mp hk with rfl | hmem
        · exact absurd hdrop ha
        · exact hmem
      have hne : j ≠ a := by
        have := hjs.1 k hmem
        omega
      rw [ih hjs.2 hmem]
      split <;> simp [hne]

theorem unforce_clears (hjs : js.Pairwise (· < ·)) (hj : j ∈ js)
    (h : unforce dropped js row j = some false) : ∃ k ∈ js, k ≤ j ∧ dropped k = true := by
  induction js generalizing row with
  | nil => simp at hj
  | cons a js ih =>
    rw [List.pairwise_cons] at hjs
    have haj : a ≤ j := by
      rcases List.mem_cons.mp hj with rfl | hmem
      · exact le_rfl
      · exact le_of_lt (hjs.1 j hmem)
    simp only [unforce] at h
    split at h
    · exact ⟨a, .head _, haj, ‹_›⟩
    · by_cases hmem : j ∈ js
      · obtain ⟨k, hk, hkj, hdrop⟩ := ih hjs.2 hmem h
        exact ⟨k, .tail _ hk, hkj, hdrop⟩
      · rw [unforce_of_not_mem _ _ hmem] at h
        obtain rfl : j = a := (List.mem_cons.mp hj).resolve_right hmem
        split at h
        · simp at h
        · exact absurd h ‹_›

theorem mark_true_row (v : LegView n) (i j : Fin n) (reason : String) :
    (v.mark i true reason).stage j =
      unforce (fun j => ((v.mark i true reason).reason j).isSome) (later i)
        (Function.update (v.entered.row.getD fun _ => none) i (some true)) j := by
  simp [LegView.mark, LegView.stage]

theorem mark_true_explained (v : LegView n) (reason : String) (hij : i < j)
    (h : (v.mark i true reason).stage j = some false) :
    ∃ k, i < k ∧ k ≤ j ∧ ((v.mark i true reason).reason k).isSome := by
  rw [mark_true_row v i j reason] at h
  obtain ⟨k, hk, hkj, hdrop⟩ := unforce_clears (later_sorted i) (mem_later.mpr hij) h
  exact ⟨k, mem_later.mp hk, hkj, hdrop⟩

theorem mark_true_stops (v : LegView n) (reason : String) (hik : i < k) (hkj : k ≤ j)
    (h : ((v.mark i true reason).reason k).isSome) :
    (v.mark i true reason).stage j = v.stage j := by
  have hne : j ≠ i := by omega
  rw [mark_true_row v i j reason,
    unforce_stops (later_sorted i) (mem_later.mpr hik) h hkj, Function.update_of_ne hne,
    ← entered_stage v j, LegView.stage]

theorem LegView.Explained.fresh : (LegView.fresh : LegView n).Explained :=
  ⟨by simp [LegView.stage], by simp⟩

theorem LegView.Explained.entered (h : v.Explained) : v.entered.Explained := by
  unfold LegView.entered
  split
  · exact h
  · exact .fresh

theorem LegView.Explained.mark (h : v.Explained) (i : Fin n) (ok : Bool) (reason : String) :
    (v.mark i ok reason).Explained := by
  have hent := h.entered
  cases ok with
  | true =>
    refine ⟨fun j hj => ?_, fun k hk => ?_⟩
    · rcases lt_trichotomy j i with hlt | rfl | hgt
      · rw [mark_stage_before v true reason hlt, ← entered_stage] at hj
        obtain ⟨k, hkj, hk⟩ := hent.explained j hj
        refine ⟨k, hkj, ?_⟩
        rwa [mark_reason_of_ne v true reason (by omega)]
      · rw [mark_stage_self] at hj
        simp at hj
      · obtain ⟨k, _, hkj, hk⟩ := mark_true_explained v reason hgt hj
        exact ⟨k, hkj, hk⟩
    · have hki : k ≠ i := by
        rintro rfl
        simp [mark_true_reason] at hk
      have hold := hk
      rw [mark_reason_of_ne v true reason hki] at hold
      have hfalse : v.stage k = some false := entered_stage v k ▸ hent.dropped k hold
      rcases lt_or_gt_of_ne hki with hlt | hgt
      · rw [mark_stage_before v true reason hlt, hfalse]
      · rw [mark_true_stops v reason hgt le_rfl hk, hfalse]
  | false =>
    refine ⟨fun j hj => ?_, fun k hk => ?_⟩
    · by_cases hji : j < i
      · rw [mark_stage_before v false reason hji, ← entered_stage] at hj
        obtain ⟨k, hkj, hk⟩ := hent.explained j hj
        refine ⟨k, hkj, ?_⟩
        rwa [mark_reason_of_ne v false reason (by omega)]
      · exact ⟨i, by omega, by simp [mark_false_reason]⟩
    · rcases lt_trichotomy k i with hlt | rfl | hgt
      · rw [mark_reason_of_ne v false reason (by omega)] at hk
        rw [mark_stage_before v false reason hlt, ← entered_stage]
        exact hent.dropped k hk
      · exact mark_stage_self v k false reason
      · exact mark_false_after v reason hgt

theorem view_empty (leg : String) : ({} : CutFlow n).view leg = { } := rfl

theorem explained_after (h : ∀ leg, (cf.view leg).Explained) (leg : String) :
    ((call.after cf).view leg).Explained := by
  cases call with
  | enter leg' =>
    rw [CutFlowCall.after, view_enter]
    split
    · exact .fresh
    · exact h leg
  | mark leg' i ok reason =>
    rw [CutFlowCall.after, view_mark]
    split
    · exact (h leg').mark i ok reason
    · exact h leg
  | unknown leg' =>
    rw [CutFlowCall.after, view_entered]
    split
    · exact (h leg').entered
    · exact h leg

theorem runMarks_append (calls : List (CutFlowCall n)) (call : CutFlowCall n) :
    runMarks (calls ++ [call]) = call.after (runMarks calls) := by
  simp [runMarks]

theorem runMarks_explained (calls : List (CutFlowCall n)) (leg : String) :
    ((runMarks calls).view leg).Explained := by
  induction calls using List.reverseRecOn generalizing leg with
  | nil =>
    rw [runMarks, List.foldl_nil, view_empty]
    exact ⟨by simp [LegView.stage], by simp⟩
  | append_singleton calls call ih =>
    rw [runMarks_append]
    exact explained_after ih leg

/-- After any calls a False has a drop at or before it and a drop is False itself. A pass marked
then leaves a False behind it only from a drop behind it, and clears nothing from that drop on. -/
theorem every_false_explained (calls : List (CutFlowCall n)) (leg : String) :
    (∀ j, ((runMarks calls).view leg).stage j = some false →
      ∃ i ≤ j, (((runMarks calls).view leg).reason i).isSome) ∧
    (∀ i, (((runMarks calls).view leg).reason i).isSome →
      ((runMarks calls).view leg).stage i = some false) ∧
    ∀ (i : Fin n) (reason : String),
      let now := (runMarks (calls ++ [.mark leg i true reason])).view leg
      (∀ j, i < j → now.stage j = some false → ∃ k, i < k ∧ k ≤ j ∧ (now.reason k).isSome) ∧
      ∀ k j, i < k → k ≤ j → (((runMarks calls).view leg).reason k).isSome →
        now.stage j = ((runMarks calls).view leg).stage j := by
  have h := runMarks_explained calls leg
  refine ⟨h.explained, h.dropped, fun i reason => ?_⟩
  simp only [runMarks_append, CutFlowCall.after, view_mark_self]
  generalize (runMarks calls).view leg = v at h ⊢
  refine ⟨fun j hij => mark_true_explained v reason hij, fun k j hik hkj hk => ?_⟩
  refine mark_true_stops v reason hik hkj ?_
  have hrow : v.row.isSome := by
    have hfalse := h.dropped k hk
    cases hv : v.row
    · simp [LegView.stage, hv] at hfalse
    · rfl
  rwa [mark_reason_of_ne v true reason (by omega), entered_reason, if_pos hrow]

theorem LegView.Dominated.mark (h : v.entered.Dominated) (ok : Bool) (reason : String)
    (hpass : ok = true → ∀ k < i, v.reason k = none) : (v.mark i ok reason).Dominated := by
  intro k j hkj hk
  cases ok with
  | true =>
    have hki : k ≠ i := by
      rintro rfl
      simp [mark_true_reason] at hk
    have hold := hk
    rw [mark_reason_of_ne v true reason hki] at hold
    have hik : i < k := by
      by_contra hnot
      rw [entered_reason, hpass rfl k (by omega)] at hold
      simp at hold
    rw [mark_true_stops v reason hik (le_of_lt hkj) hk, ← entered_stage]
    exact h k j hkj hold
  | false =>
    rcases lt_trichotomy j i with hlt | rfl | hgt
    · rw [mark_reason_of_ne v false reason (by omega)] at hk
      rw [mark_stage_before v false reason hlt, ← entered_stage]
      exact h k j hkj hk
    · exact mark_stage_self v j false reason
    · exact mark_false_after v reason hgt

theorem LegView.Dominated.entered (h : v.Dominated) : v.entered.Dominated := by
  unfold LegView.entered
  split
  · exact h
  · intro i j _ hi
    simp at hi

theorem dominated_after (h : ∀ leg, (cf.view leg).Dominated) (hcall : ¬ cf.Overtakes call)
    (leg : String) : ((call.after cf).view leg).Dominated := by
  cases call with
  | enter leg' =>
    rw [CutFlowCall.after, view_enter]
    split
    · intro i j _ hi
      simp at hi
    · exact h leg
  | mark leg' i ok reason =>
    rw [CutFlowCall.after, view_mark]
    split
    · refine (h leg').entered.mark ok reason ?_
      rintro rfl k hk
      by_contra hsome
      exact hcall ⟨k, hk, Option.isSome_iff_ne_none.mpr hsome⟩
    · exact h leg
  | unknown leg' =>
    rw [CutFlowCall.after, view_entered]
    split
    · exact (h leg').entered
    · exact h leg

theorem overtaken (reason : String) (h : (cf.view leg).Explained) (hki : k < i)
    (hk : ((cf.view leg).reason k).isSome) :
    ¬ ((cf.mark leg i true reason).view leg).Dominated := by
  intro hdom
  have hrow : (cf.view leg).row.isSome := by
    have hfalse := h.dropped k hk
    cases hv : (cf.view leg).row
    · simp [LegView.stage, hv] at hfalse
    · rfl
  rw [view_mark_self] at hdom
  have hfalse := hdom k i hki (by
    rwa [mark_reason_of_ne _ true reason (by omega), entered_reason, if_pos hrow])
  rw [mark_stage_self] at hfalse
  simp at hfalse

theorem mem_counted : leg ∈ cf.counted j ↔ (cf.view leg).stage j = some true := by
  simp only [CutFlow.counted, List.mem_map, List.mem_filter, decide_eq_true_eq, Prod.exists,
    exists_and_right, exists_eq_right, Dict.mem_items, LegView.stage, CutFlow.view]
  cases cf.rows.get leg <;> simp

theorem mem_drops {stages : Fin n → String} {d : Drop} :
    d ∈ (cf.table stages).drops ↔
      ∃ i, (cf.view d.leg).reason i = some d.reason ∧ stages i = d.stage := by
  simp only [CutFlow.table, List.mem_insertionSort, List.mem_map, Prod.exists, Dict.mem_items,
    CutFlow.view]
  constructor
  · rintro ⟨leg, i, reason, hreason, rfl⟩
    exact ⟨i, hreason, rfl⟩
  · rintro ⟨i, hreason, hstage⟩
    exact ⟨d.leg, i, d.reason, hreason, by rw [hstage]⟩

/-- A drop dominates: in the rows, and in what `table` counts. -/
structure CutFlow.DropsDominate (cf : CutFlow n) : Prop where
  rows : ∀ leg, (cf.view leg).Dominated
  survivors : ∀ stages, ∀ d ∈ (cf.table stages).drops,
    ∃ i, stages i = d.stage ∧ ∀ j, i < j → d.leg ∉ cf.counted j

theorem dropsDominate_of_rows (h : ∀ leg, (cf.view leg).Dominated) : cf.DropsDominate := by
  refine ⟨h, fun stages d hd => ?_⟩
  obtain ⟨i, hreason, hstage⟩ := mem_drops.mp hd
  refine ⟨i, hstage, fun j hij hmem => ?_⟩
  have hfalse := h d.leg i j hij (by rw [hreason]; rfl)
  rw [mem_counted, hfalse] at hmem
  simp at hmem

/-- Drops dominate in all states of a run exactly when no stage is marked as passed behind a
drop of its leg. -/
theorem drops_dominate_iff (calls : List (CutFlowCall n)) :
    (∀ before behind, calls = before ++ behind → (runMarks before).DropsDominate) ↔
      ∀ before call behind, calls = before ++ call :: behind →
        ¬ (runMarks before).Overtakes call := by
  constructor
  · intro h before call behind hsplit hover
    have hafter := (h (before ++ [call]) behind (by simp [hsplit])).rows
    rw [runMarks_append] at hafter
    cases call with
    | enter leg => exact hover
    | unknown leg => exact hover
    | mark leg i ok reason =>
      cases ok with
      | false => exact hover
      | true =>
        obtain ⟨k, hki, hk⟩ := hover
        exact overtaken reason (runMarks_explained before leg) hki hk (hafter leg)
  · intro h before behind hsplit
    refine dropsDominate_of_rows ?_
    induction before using List.reverseRecOn generalizing behind with
    | nil =>
      intro leg i j _ hi
      simp [runMarks, view_empty] at hi
    | append_singleton before call ih =>
      rw [runMarks_append]
      have hsplit' : calls = before ++ call :: behind := by simp [hsplit]
      exact dominated_after (ih (call :: behind) hsplit') (h before call behind hsplit')

/-- A leg that fails at the first stage and is passed at the second one counts as a survivor. -/
theorem drop_overtaken :
    ¬ ∀ (n : Nat) (calls : List (CutFlowCall n)), (runMarks calls).DropsDominate := by
  intro h
  have hrows := (h 2 [.mark "leg" 0 false "preflight", .mark "leg" 1 true ""]).rows
  exact absurd (hrows "leg" 0 1 (by decide) (by decide)) (by decide)

end RunFarm
