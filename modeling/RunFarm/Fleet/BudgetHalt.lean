import RunFarm.Fleet.Endings
import RunFarm.Fleet.Unwinding

/-! What still happens after a `BudgetExceeded`, and what leaves `run`. -/
set_option autoImplicit false

namespace RunFarm
open Files Python Transition

variable {α : Type} {R : FleetRun α} {s s' t : Threads R.size} {e : ThreadEvent R.size}
  {Q : Outcome → Prop}

def LegTask.exception : LegTask → Option Raised
  | .failed e => some e
  | _ => none

namespace Threads

/-- What the main thread meets first in the `as_completed` loop. -/
def firstFailure {n : Nat} (s : Threads n) : Option Raised :=
  s.finished.findSome? fun i => (s.tasks i).exception

/-- The end that the main thread is bound for is in `Q`. -/
def Bound (R : FleetRun α) (Q : Outcome → Prop) (s : Threads R.size) : Prop :=
  match s.main with
  | .submitting _ | .handling _ _ => False
  | .collecting => ∃ e ∈ s.firstFailure, Q (.stopped (.raised e))
  | .cancelling e _ => Q (.stopped (.raised e))
  | .draining x => ∀ results, Q (R.outcome results x)
  | .ended o => Q o

end Threads

theorem findSome_congr {ι β : Type} {f g : ι → Option β} {order : List ι}
    (h : ∀ i ∈ order, f i = g i) : order.findSome? f = order.findSome? g := by
  induction order with
  | nil => rfl
  | cons i order ih =>
    rw [List.findSome?_cons, List.findSome?_cons, h i (.head _), ih fun j hj => h j (.tail _ hj)]

theorem put_finished (s : Threads R.size) (i : Fin R.size) (pool : OfferPool)
    (live : List InstanceId) (task : LegTask) :
    ∃ more, (s.put i pool live task).finished = s.finished ++ more := by
  unfold Threads.put
  dsimp only
  split
  · exact ⟨[i], rfl⟩
  · exact ⟨[], (List.append_nil _).symm⟩

theorem Threads.Bound.step (h : s.Bound R Q) (horderly : Orderly R s) (hquiet : e.quiet = true)
    (hs : s.step R e = some s') : s'.Bound R Q := by
  -- a step of a worker leaves the futures that are over
  have hworker : s'.main = s.main → (∃ more, s'.finished = s.finished ++ more) →
      s'.Bound R Q := by
    rintro hmain ⟨more, hmore⟩
    unfold Threads.Bound at h ⊢
    rw [hmain]
    cases hm : s.main with
    | collecting =>
      rw [hm] at h
      obtain ⟨x, hx, hQ⟩ := h
      refine ⟨x, ?_, hQ⟩
      have hsame : ∀ i ∈ s.finished, (s'.tasks i).exception = (s.tasks i).exception :=
        fun i hi => congrArg _ (over_stays horderly.toStaffed hs (horderly.futures i hi))
      rw [Option.mem_def, Threads.firstFailure] at hx ⊢
      rw [hmore, List.findSome?_append, findSome_congr hsame, hx, Option.some_or]
    | _ =>
      rw [hm] at h
      exact h
  unfold Threads.Bound at h
  cases thread_step hs with
  | submitted k hk hmain | listened order hmain =>
    rw [hmain] at h
    exact h.elim
  | result i rest r hmain hqueue htask =>
    rw [hmain, Threads.firstFailure, hqueue, List.findSome?_cons, htask] at h
    unfold Threads.Bound
    dsimp only
    rw [hmain]
    exact h
  | halted i rest e hmain hqueue htask =>
    rw [hmain, Threads.firstFailure, hqueue, List.findSome?_cons, htask] at h
    obtain ⟨x, hx, hQ⟩ := h
    cases hx
    exact hQ
  | broke i rest e hmain hqueue htask =>
    rw [hmain, Threads.firstFailure, hqueue, List.findSome?_cons, htask] at h
    obtain ⟨x, hx, hQ⟩ := h
    cases hx
    exact fun _ => hQ
  | cancelled e k hk hmain htask =>
    rw [hmain] at h
    exact h
  | kept e k hk hmain =>
    rw [hmain] at h
    exact h
  | swept e hmain =>
    rw [hmain] at h
    exact fun _ => h
  | left hmain hqueue =>
    rw [hmain, Threads.firstFailure, hqueue] at h
    obtain ⟨x, hx, -⟩ := h
    cases hx
  | joined x hmain =>
    rw [hmain] at h
    exact h _
  | took i htask => exact hworker rfl ⟨[], (List.append_nil _).symm⟩
  | worked i we pool live task hstep => exact hworker rfl (put_finished ..)
  | signalled | destroyed | unwound | chained => cases hquiet

def BudgetStop (o : Outcome) : Prop :=
  ∃ e : Raised, e.exc.kind = .budgetExceeded ∧ o = .stopped (.raised e)

/-- Whatever failure the main thread meets first is a `BudgetExceeded`: before it listens, the
futures that are over come in any order, and a listing may raise. -/
def Threads.HaltsOnBudget (R : FleetRun α) (s : Threads R.size) : Prop :=
  match s.main with
  | .submitting _ => (∃ i ∈ s.finished, ∃ x, s.tasks i = .failed x) ∧
      (∀ i ∈ s.finished, ∀ x, s.tasks i = .failed x → x.exc.kind = .budgetExceeded) ∧
      (R.maxRefills ≤ s.pool.refills ∨ ∀ i, (s.tasks i).ended = true)
  | _ => s.Bound R BudgetStop

theorem Threads.Bound.halts (h : s.Bound R BudgetStop) : s.HaltsOnBudget R := by
  unfold Threads.HaltsOnBudget
  split
  · rename_i hmain
    rw [Threads.Bound, hmain] at h
    exact h.elim
  · exact h

theorem firstFailure_some {x : Raised} (h : s.firstFailure = some x) :
    ∃ i ∈ s.finished, s.tasks i = .failed x := by
  obtain ⟨i, hi, htask⟩ := List.exists_of_findSome?_eq_some h
  refine ⟨i, hi, ?_⟩
  generalize s.tasks i = task at htask
  cases task <;> cases htask
  rfl

theorem firstFailure_isSome {i : Fin R.size} {x : Raised} (hi : i ∈ s.finished)
    (htask : s.tasks i = .failed x) : ∃ x, s.firstFailure = some x := by
  refine Option.isSome_iff_exists.mp (List.findSome?_isSome_iff.mpr ⟨i, hi, ?_⟩)
  rw [htask]
  rfl

theorem WorkStep.failed {maxRefills : Int} {leg : FleetLeg α} {pool pool' : OfferPool}
    {live live' : List InstanceId} {task task' : LegTask} {we : WorkEvent} {x : Raised}
    (h : WorkStep maxRefills leg pool live task we pool' live' task') (htask : task' = .failed x) :
    x.exc.kind = .budgetExceeded ∧ we = .raised x ∨
      pool.drained maxRefills ∧ we = .asked (.error x) := by
  have hfailure : ∀ tried e, afterFailure leg tried e = .failed x →
      x.exc.kind = .budgetExceeded ∧ e = x := by
    intro tried e heq
    rcases afterFailure_kinds leg tried e with ⟨h, hkind⟩ | ⟨-, h | h⟩ <;> rw [h] at heq <;>
      cases heq
    exact ⟨hkind, rfl⟩
  cases h with
  | broke tried answer pool' e hgot =>
    cases htask
    have hkinds := OfferPool.get_got pool maxRefills answer
    rw [hgot] at hkinds
    cases hkinds with
    | raised _ hdrained hanswer => exact .inr ⟨hdrained, by rw [hanswer]⟩
  | refused tried offer e =>
    obtain ⟨hkind, rfl⟩ := hfailure tried e htask
    exact .inl ⟨hkind, rfl⟩
  | died tried offer host e =>
    obtain ⟨hkind, rfl⟩ := hfailure tried e htask
    exact .inl ⟨hkind, rfl⟩
  | _ => cases htask

theorem WorkStep.refills {maxRefills : Int} {leg : FleetLeg α} {pool pool' : OfferPool}
    {live live' : List InstanceId} {task task' : LegTask} {we : WorkEvent}
    (h : WorkStep maxRefills leg pool live task we pool' live' task') :
    pool.refills ≤ pool'.refills := by
  have hget : ∀ {answer result}, pool.get maxRefills answer = (pool', result) →
      pool.refills ≤ pool'.refills := by
    intro answer result hgot
    have hkinds := OfferPool.get_got pool maxRefills answer
    rw [hgot] at hkinds
    cases hkinds <;> simp
  cases h with
  | offered tried answer pool' offer hgot => exact hget hgot
  | drained tried answer pool' hgot => exact hget hgot
  | broke tried answer pool' e hgot => exact hget hgot
  | _ => exact le_rfl

theorem finished_stays {k : Nat} {i : Fin R.size} (hmain : s.main = .submitting k)
    (hquiet : e.quiet = true) (hs : s.step R e = some s') (hi : i ∈ s.finished) :
    i ∈ s'.finished := by
  cases thread_step hs with
  | submitted | took => exact hi
  | listened order hsub hperm => exact hperm.mem_iff.mpr hi
  | worked j we pool live task =>
    obtain ⟨more, hmore⟩ := put_finished s j pool live task
    rw [hmore]
    exact List.mem_append_left more hi
  | result _ _ _ hm | halted _ _ _ hm | broke _ _ _ hm | cancelled _ _ _ hm | kept _ _ _ hm
  | swept _ hm | left hm | joined _ hm =>
    rw [hmain] at hm
    cases hm
  | signalled | destroyed | unwound | chained => cases hquiet

theorem Threads.HaltsOnBudget.step (h : s.HaltsOnBudget R) (horderly : Orderly R s)
    (hquiet : e.quiet = true) (hs : s.step R e = some s') : s'.HaltsOnBudget R := by
  unfold Threads.HaltsOnBudget at h
  split at h
  · rename_i k hmain
    obtain ⟨⟨i, hi, x, hx⟩, hall, hclosed⟩ := h
    have hsame : ∀ j ∈ s.finished, s'.tasks j = s.tasks j :=
      fun j hj => over_stays horderly.toStaffed hs (horderly.futures j hj)
    have hi' := finished_stays hmain hquiet hs hi
    have hx' := (hsame i hi).trans hx
    have hall' : ∀ j ∈ s.finished, ∀ y, s'.tasks j = .failed y → y.exc.kind = .budgetExceeded :=
      fun j hj y hy => hall j hj y ((hsame j hj).symm.trans hy)
    have hopen : ∀ {j : Fin R.size}, (s.tasks j).ended = false → R.maxRefills ≤ s.pool.refills := by
      intro j hj
      refine hclosed.resolve_right fun hended => ?_
      rw [hended j] at hj
      cases hj
    unfold Threads.HaltsOnBudget
    cases thread_step hs with
    | submitted k' hk' hsub =>
      have hsubmitted := horderly.submitted
      rw [hsub] at hsubmitted
      have htask : s.tasks ⟨k', hk'⟩ = .unsubmitted := (hsubmitted.2 ⟨k', hk'⟩).mpr le_rfl
      exact ⟨⟨i, hi', x, hx'⟩, hall', .inl (hopen (j := ⟨k', hk'⟩) (by rw [htask]; rfl))⟩
    | listened order hsub hperm =>
      obtain ⟨y, hy⟩ := firstFailure_isSome hi' hx'
      obtain ⟨j, hj, htask⟩ := firstFailure_some hy
      exact ⟨y, hy, y, hall' j (hperm.mem_iff.mp hj) y htask, rfl⟩
    | took j htask =>
      dsimp only
      rw [hmain]
      exact ⟨⟨i, hi', x, hx'⟩, hall', .inl (hopen (j := j) (by rw [htask]; rfl))⟩
    | worked j we pool live task hstep =>
      have hrefills : R.maxRefills ≤ s.pool.refills := hopen (ended_of_running hstep.source)
      rw [show (s.put j pool live task).main = s.main from rfl, hmain]
      refine ⟨⟨i, hi', x, hx'⟩, fun j' hj' y hy => ?_,
        .inl (hrefills.trans (Int.ofNat_le.mpr hstep.refills))⟩
      rcases mem_put_finished hj' with hj' | ⟨rfl, -⟩
      · exact hall' j' hj' y hy
      · rcases hstep.failed ((Function.update_self _ _ _).symm.trans hy) with hkind | hraised
        · exact hkind.1
        · have := hraised.1.2
          omega
    | result _ _ _ hm | halted _ _ _ hm | broke _ _ _ hm | cancelled _ _ _ hm | kept _ _ _ hm
    | swept _ hm | left hm | joined _ hm =>
      rw [hmain] at hm
      cases hm
    | signalled | destroyed | unwound | chained => cases hquiet
  · exact (Threads.Bound.step h horderly hquiet hs).halts

theorem submits_all {k : Nat} (h : Orderly R s) (hmain : s.main = .submitting k) :
    ∃ t, Quietly R s t ∧ t.main = .submitting R.size ∧ t.pool = s.pool ∧ t.busy = s.busy ∧
      t.finished = s.finished ∧ ∀ i, t.tasks i =
        if s.tasks i = .unsubmitted then .waiting else s.tasks i := by
  have hsubmitted := h.submitted
  rw [h.calm, hmain] at hsubmitted
  induction hm : R.size - k generalizing s k with
  | zero =>
    have hk : k = R.size := by
      have := hsubmitted.1
      omega
    refine ⟨s, .refl s, hk ▸ hmain, rfl, rfl, rfl, fun i => (if_neg fun hi => ?_).symm⟩
    have := (hsubmitted.2 i).mp hi
    omega
  | succ m ih =>
    have hk : k < R.size := by omega
    have hstep : s.step R .submitted = some { s with
        tasks := Function.update s.tasks ⟨k, hk⟩ .waiting, main := .submitting (k + 1) } := by
      simp [Threads.step, hmain, hk]
    have hnext := h.step rfl hstep
    obtain ⟨t, hvia, htmain, hpool, hbusy, hfinished, hall⟩ :=
      ih hnext rfl hnext.submitted (by omega)
    refine ⟨t, .trans (.single rfl hstep) hvia, htmain, hpool, hbusy, hfinished, fun i => ?_⟩
    rw [hall]
    by_cases hi : i = ⟨k, hk⟩
    · subst hi
      simp [(hsubmitted.2 ⟨k, hk⟩).mpr le_rfl]
    · simp [Function.update_of_ne hi]

def hostGone : Raised := ⟨⟨.hostProbeFailed, none, ""⟩, "HostProbeFailed"⟩

theorem comes_to_ask {j : Fin R.size} (hfree : s.busy.length < R.slots)
    (hopen : (s.tasks j).ended = false) (hsubmitted : s.tasks j ≠ .unsubmitted) :
    ∃ t i tried, Quietly R s t ∧ t.main = s.main ∧ t.pool = s.pool ∧ t.tasks i = .asking tried := by
  cases htask : s.tasks j with
  | waiting =>
    obtain ⟨i, hnext⟩ := exists_next ⟨j, htask⟩
    exact ⟨_, i, 0, .single (e := .took i) rfl (if_pos ⟨hnext, hfree⟩), rfl, rfl,
      Function.update_self _ _ _⟩
  | asking tried => exact ⟨s, j, tried, .refl s, rfl, rfl, htask⟩
  | renting tried offer =>
    have hstep : s.step R (.worked j (.raised hostGone)) =
        some (s.put j s.pool s.live (.asking tried)) := by
      simp [Threads.step, work, htask, afterFailure, hostGone]
    exact ⟨_, j, tried, .single rfl hstep, rfl, rfl, Function.update_self _ _ _⟩
  | hosting tried offer host =>
    have hstep : s.step R (.worked j (.raised hostGone)) =
        some (s.put j s.pool (untrack s.live host) (.asking tried)) := by
      simp [Threads.step, work, htask, afterFailure, hostGone]
    exact ⟨_, j, tried, .single rfl hstep, rfl, rfl, Function.update_self _ _ _⟩
  | unsubmitted => exact absurd htask hsubmitted
  | done r | failed e | cancelled =>
    rw [htask] at hopen
    cases hopen

/-- Its offers all fail over, until a listing raises. -/
theorem listing_raises {i : Fin R.size} {tried : Nat} (htask : s.tasks i = .asking tried)
    (hrefills : s.pool.refills < R.maxRefills) :
    ∃ t, Quietly R s t ∧ t.main = s.main ∧ i ∈ t.finished ∧ t.tasks i = .failed hostError := by
  obtain ⟨queue, hqueue⟩ : ∃ queue, s.pool.queue = queue := ⟨_, rfl⟩
  induction queue generalizing s tried with
  | nil =>
    have hstep : s.step R (.worked i (.asked (.error hostError))) = some (s.put i
        { s.pool with refills := s.pool.refills + 1 } s.live (.failed hostError)) := by
      simp [Threads.step, work, htask, OfferPool.get, OfferPool.drained, hqueue, hrefills]
    exact ⟨_, .single rfl hstep, rfl, by simp [Threads.put, LegTask.ended],
      Function.update_self _ _ _⟩
  | cons offer rest ih =>
    have hask : s.step R (.worked i (.asked (.ok []))) = some (s.put i
        { s.pool with queue := rest } s.live (.renting (tried + 1) offer)) := by
      simp [Threads.step, work, htask, OfferPool.get, OfferPool.drained, OfferPool.pop, hqueue]
    obtain ⟨s₁, hs₁⟩ : ∃ s₁, s₁ = s.put i { s.pool with queue := rest } s.live
        (.renting (tried + 1) offer) := ⟨_, rfl⟩
    rw [← hs₁] at hask
    have htask₁ : s₁.tasks i = .renting (tried + 1) offer := by
      rw [hs₁]
      exact Function.update_self _ _ _
    have hlose : s₁.step R (.worked i (.raised hostGone)) =
        some (s₁.put i s₁.pool s₁.live (.asking (tried + 1))) := by
      simp [Threads.step, work, htask₁, afterFailure, hostGone]
    obtain ⟨t, hvia, hmain, hmem, hfailed⟩ :=
      ih (s := s₁.put i s₁.pool s₁.live (.asking (tried + 1))) (Function.update_self _ _ _)
        (by rw [hs₁]; exact hrefills) (by rw [hs₁]; rfl)
    refine ⟨t, .trans (.single rfl hask) (.trans (.single rfl hlose) hvia), ?_, hmem, hfailed⟩
    rw [hmain, hs₁]
    rfl

theorem failure_first {k : Nat} {i : Fin R.size} {x : Raised} (h : Orderly R s)
    (hmain : s.main = .submitting k) (hi : i ∈ s.finished) (htask : s.tasks i = .failed x)
    (hQ : Q (.stopped (.raised x))) : ∃ t, Quietly R s t ∧ t.Bound R Q := by
  obtain ⟨t, hvia, htmain, -, -, hfinished, hall⟩ := submits_all h hmain
  have hti : t.tasks i = .failed x := by
    rw [hall, htask]
    rfl
  have hperm : (i :: t.finished.erase i).Perm t.finished :=
    (List.perm_cons_erase (hfinished ▸ hi)).symm
  have hlisten : t.step R (.listened (i :: t.finished.erase i)) = some { t with
      finished := i :: t.finished.erase i, main := .collecting } := by
    simp only [Threads.step, htmain, hperm, and_self, if_true]
  refine ⟨_, hvia.trans (.single rfl hlisten), x, ?_, hQ⟩
  rw [Option.mem_def, Threads.firstFailure, List.findSome?_cons]
  dsimp only
  rw [hti]
  rfl

theorem not_budgetStop {x : Raised} (h : x.exc.kind ≠ .budgetExceeded) :
    ¬ BudgetStop (.stopped (.raised x)) := by
  rintro ⟨y, hy, heq⟩
  cases heq
  exact h hy

theorem reaches_other {i : Fin R.size} {x : Raised} (h : Orderly R s)
    (hi : i ∈ s.finished) (htask : s.tasks i = .failed x) (hfree : s.busy.length < R.slots)
    (hnot : ¬ s.HaltsOnBudget R) : ∃ t, Quietly R s t ∧ t.Bound R (fun o => ¬ BudgetStop o) := by
  unfold Threads.HaltsOnBudget at hnot
  split at hnot
  · rename_i k hmain
    by_cases hall : ∀ j ∈ s.finished, ∀ y, s.tasks j = .failed y → y.exc.kind = .budgetExceeded
    · have hopen : s.pool.refills < R.maxRefills ∧ ∃ j, (s.tasks j).ended = false := by
        by_contra hclosed
        refine hnot ⟨⟨i, hi, x, htask⟩, hall, ?_⟩
        by_cases hrefills : R.maxRefills ≤ s.pool.refills
        · exact .inl hrefills
        · exact .inr (by simpa [lt_of_not_ge hrefills] using hclosed)
      obtain ⟨hrefills, j, hj⟩ := hopen
      obtain ⟨t₁, hvia₁, hmain₁, hpool₁, hbusy₁, -, hall₁⟩ := submits_all h hmain
      have hj₁ : (t₁.tasks j).ended = false ∧ t₁.tasks j ≠ .unsubmitted := by
        rw [hall₁]
        split
        · simp [LegTask.ended]
        · exact ⟨hj, ‹_›⟩
      obtain ⟨t₂, i₂, tried, hvia₂, hmain₂, hpool₂, hasking⟩ :=
        comes_to_ask (j := j) (hbusy₁ ▸ hfree) hj₁.1 hj₁.2
      obtain ⟨t₃, hvia₃, hmain₃, hmem, hfailed⟩ :=
        listing_raises hasking (by rw [hpool₂, hpool₁]; exact hrefills)
      have hvia := hvia₁.trans (hvia₂.trans hvia₃)
      obtain ⟨t, hvia₄, hbound⟩ := failure_first (h.keeps hvia)
        (hmain₃.trans (hmain₂.trans hmain₁)) (Q := fun o => ¬ BudgetStop o) hmem hfailed
        (not_budgetStop (by simp [hostError]))
      exact ⟨t, hvia.trans hvia₄, hbound⟩
    · push Not at hall
      obtain ⟨j, hj, y, hy, hkind⟩ := hall
      exact failure_first h hmain hj hy (not_budgetStop hkind)
  · refine ⟨s, .refl s, ?_⟩
    unfold Threads.Bound at hnot ⊢
    cases hmain : s.main with
    | collecting =>
      rw [hmain] at hnot
      obtain ⟨y, hy⟩ := firstFailure_isSome hi htask
      exact ⟨y, hy, fun hstop => hnot ⟨y, hy, hstop⟩⟩
    | draining z =>
      rw [hmain] at hnot
      intro results hstop
      cases z with
      | some z => exact hnot fun _ => hstop
      | none =>
        obtain ⟨y, -, heq⟩ := hstop
        unfold FleetRun.outcome at heq
        dsimp only at heq
        split at heq <;> cases heq
    | cancelling y k =>
      rw [hmain] at hnot
      exact hnot
    | ended o =>
      rw [hmain] at hnot
      exact hnot
    | submitting k =>
      rename_i hne
      exact absurd hmain (hne k)
    | handling hosts back =>
      have hcalm := h.calm
      rw [hmain] at hcalm
      exact absurd hcalm (base_ne _ hosts back)

theorem raise_leaves {i : Fin R.size} {x : Raised} (hstaffed : Staffed R s')
    (hkind : x.exc.kind = .budgetExceeded) (hraise : s'.step R (.worked i (.raised x)) = some s) :
    i ∈ s.finished ∧ s.tasks i = .failed x ∧ s.busy.length < R.slots := by
  have hfailure : ∀ tried, afterFailure (R.leg i) tried x = .failed x := by
    intro tried
    rw [afterFailure, hkind]
  have hleaves : ∀ pool live, i ∈ s'.busy →
      i ∈ (s'.put i pool live (.failed x)).finished ∧
        (s'.put i pool live (.failed x)).tasks i = .failed x ∧
        (s'.put i pool live (.failed x)).busy.length < R.slots := by
    intro pool live hbusy
    refine ⟨by simp [Threads.put, LegTask.ended], Function.update_self _ _ _, ?_⟩
    show (s'.busy.erase i).length < R.slots
    have hpos := List.length_pos_of_mem hbusy
    have hslots := hstaffed.slots
    rw [List.length_erase_of_mem hbusy]
    omega
  cases thread_step hraise with
  | worked i we pool live task hstep =>
    have hbusy := (hstaffed.busy i).mpr hstep.source
    generalize s'.tasks i = task₀ at hstep
    cases hstep with
    | refused tried offer e =>
      rw [hfailure]
      exact hleaves _ _ hbusy
    | died tried offer host e =>
      rw [hfailure]
      exact hleaves _ _ hbusy

/-- Once a `BudgetExceeded` is raised, in a run that no signal meets: the run ends, no leg that
is not started rents any more and `run` raises a `BudgetExceeded`, whatever happens, if and only
if there is no such leg or no offer for it, and no other failure can be met first. -/
theorem budget_halt_iff (R : FleetRun α) (offers : List Offer) (s' s : Threads R.size)
    (i : Fin R.size) (x : Raised) (hkind : x.exc.kind = .budgetExceeded)
    (hbefore : Quietly R (R.init offers) s')
    (hraise : s'.step R (.worked i (.raised x)) = some s) :
    (¬ Endless (fun e => e.quiet = true) (Threads.step R) s ∧ ∀ t, Quietly R s t →
      (∀ j, (s.tasks j).unstarted = true → j ∉ t.rented) ∧
      (t.Over R → ∃ o, BudgetStop o ∧ t.main = .ended o)) ↔
    (s.NothingLeft R ∨ s.pool.Spent R.maxRefills) ∧ s.HaltsOnBudget R := by
  have hbefore' := run_orderly hbefore
  have horderly : Orderly R s := hbefore'.step rfl hraise
  obtain ⟨hi, htask, hfree⟩ := raise_leaves hbefore'.toStaffed hkind hraise
  have hneed : s.need R = 1 := by
    rw [Threads.need, if_neg]
    intro hblocked
    have := hblocked.1
    omega
  have hspent : s.pool.Spent R.maxRefills ↔ ¬ s.pool.Serves R.maxRefills (s.need R) := by
    rw [hneed, OfferPool.Serves, not_or]
    constructor
    · intro h
      have := h.refills
      rw [h.queue, List.length_nil]
      omega
    · intro h
      have hempty : s.pool.queue.length = 0 := by omega
      exact ⟨List.eq_nil_of_length_eq_zero hempty, by omega⟩
  have hlate := noLateRent_iff horderly.toStaffed (Q := fun e => e.quiet = true)
    (fun e he => by cases e <;> first | rfl | cases he) horderly.calm
  rw [hspent, ← hlate]
  constructor
  · rintro ⟨-, h⟩
    refine ⟨fun t hvia => (h t hvia).1, ?_⟩
    by_contra hnot
    obtain ⟨t₁, hvia₁, hbound⟩ := reaches_other horderly hi htask hfree hnot
    obtain ⟨t, hvia, hover⟩ := (horderly.keeps hvia₁).finishes
    have hend := hvia.keeps (I := fun t => Orderly R t ∧ t.Bound R (fun o => ¬ BudgetStop o))
      (fun he hs h => ⟨h.1.step he hs, h.2.step h.1 he hs⟩) ⟨horderly.keeps hvia₁, hbound⟩
    obtain ⟨o, hstop, hmain⟩ := (h t (hvia₁.trans hvia)).2 hover
    have hother := hend.2
    rw [Threads.Bound, hmain] at hother
    exact hother hstop
  · rintro ⟨hnone, hhalts⟩
    refine ⟨horderly.not_endless, fun t hvia => ⟨hnone t hvia, fun hover => ?_⟩⟩
    have hend := hvia.keeps (I := fun t => Orderly R t ∧ t.HaltsOnBudget R)
      (fun he hs h => ⟨h.1.step he hs, h.2.step h.1 he hs⟩) ⟨horderly, hhalts⟩
    obtain ⟨o, hmain⟩ := hend.1.over hover
    have hstop := hend.2
    simp only [Threads.HaltsOnBudget, Threads.Bound, hmain] at hstop
    exact ⟨o, hstop, hmain⟩

def overBudget : Raised := ⟨⟨.budgetExceeded, none, "cap reached"⟩, "BudgetExceeded"⟩

def refusedFirst : List (ThreadEvent sampleRun.size) :=
  [.submitted, .submitted, .listened [], .took first, .worked first (.asked (.ok []))]

theorem next_leg_rents : ¬ ∀ (R : FleetRun Unit) (offers : List Offer) (s' s : Threads R.size)
    (i : Fin R.size) (x : Raised), x.exc.kind = .budgetExceeded → Quietly R (R.init offers) s' →
    s'.step R (.worked i (.raised x)) = some s →
    ∀ t, Quietly R s t → (∀ j, (s.tasks j).unstarted = true → j ∉ t.rented) ∧
      (t.Over R → ∃ o, BudgetStop o ∧ t.main = .ended o) := by
  intro h
  have hlate := h sampleRun [anyOffer, anyOffer] _ _ first overBudget rfl
    ⟨refusedFirst, by decide, rfl⟩ rfl _ ⟨[.took second, .worked second (.asked (.ok []))],
      by decide, rfl⟩
  exact hlate.1 second (by decide) (by decide)

theorem one_offer_halts : ∃ s, exec (Threads.step sampleRun) (sampleRun.init [anyOffer])
      (refusedFirst ++ [.worked first (.raised overBudget)]) = some s ∧
    ∀ t, Quietly sampleRun s t → second ∉ t.rented ∧
      (t.Over sampleRun → ∃ o, BudgetStop o ∧ t.main = .ended o) := by
  refine ⟨_, rfl, fun t hvia => ?_⟩
  have hhalt := (budget_halt_iff sampleRun [anyOffer] _ _ first overBudget rfl
    ⟨refusedFirst, by decide, rfl⟩ rfl).mpr ⟨.inr ⟨rfl, by decide⟩, overBudget, rfl, _, rfl, rfl⟩
  exact ((hhalt.2 t hvia).imp_left fun h => h second (by decide))

end RunFarm
