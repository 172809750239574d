import Mathlib.Algebra.BigOperators.Group.Finset.Piecewise
import Mathlib.Data.Prod.Lex
import Mathlib.Data.Fintype.BigOperators
import RunFarm.Fleet.Workers

/-! Every call of `run` that no signal meets comes to an end. -/
set_option autoImplicit false

namespace RunFarm
open Files Python Transition

variable {α : Type} {R : FleetRun α} {s s' t : Threads R.size} {e : ThreadEvent R.size}

def ThreadEvent.quiet {n : Nat} : ThreadEvent n → Bool
  | .signalled | .destroyed | .unwound | .chained => false
  | _ => true

abbrev Quietly (R : FleetRun α) : Threads R.size → Threads R.size → Prop :=
  Via (fun e => e.quiet = true) (Threads.step R)

def LegTask.rank : LegTask → Nat
  | .unsubmitted | .renting _ _ => 4
  | .waiting | .hosting _ _ _ => 3
  | .asking _ => 2
  | .done _ | .failed _ | .cancelled => 0

def MainThread.rank (size : Nat) : MainThread → Nat
  | .submitting _ => size + 4
  | .collecting => size + 3
  | .cancelling _ k => size + 2 - k
  | .draining _ => 1
  | .handling _ _ | .ended _ => 0

namespace Threads

def work (R : FleetRun α) (s : Threads R.size) : Nat :=
  (∑ i, (s.tasks i).rank) + s.finished.length + s.main.rank R.size

def rank (R : FleetRun α) (s : Threads R.size) : Nat ×ₗ Nat ×ₗ Nat :=
  toLex ((R.maxRefills - s.pool.refills).toNat, toLex (s.pool.queue.length, s.work R))

end Threads

theorem sum_update {n : Nat} (tasks : Fin n → LegTask) (i : Fin n) (task : LegTask) :
    (∑ j, (Function.update tasks i task j).rank) + (tasks i).rank =
      (∑ j, (tasks j).rank) + task.rank := by
  have hrest : ∑ j ∈ Finset.univ.erase i, (Function.update tasks i task j).rank =
      ∑ j ∈ Finset.univ.erase i, (tasks j).rank := by
    refine Finset.sum_congr rfl fun j hj => ?_
    rw [Function.update_of_ne (Finset.ne_of_mem_erase hj)]
  have hnew := Finset.add_sum_erase Finset.univ (fun j => (Function.update tasks i task j).rank)
    (Finset.mem_univ i)
  have hold := Finset.add_sum_erase Finset.univ (fun j => (tasks j).rank) (Finset.mem_univ i)
  rw [Function.update_self, hrest] at hnew
  omega

theorem rank_of_work (hpool : s'.pool = s.pool) (h : s'.work R < s.work R) :
    s'.rank R < s.rank R := by
  rw [Threads.rank, Threads.rank, hpool, Prod.Lex.toLex_lt_toLex, Prod.Lex.toLex_lt_toLex]
  exact .inr ⟨rfl, .inr ⟨rfl, h⟩⟩

theorem rank_of_pool (h : s.pool.refills < s'.pool.refills ∧ s'.pool.refills ≤ R.maxRefills ∨
    s'.pool.refills = s.pool.refills ∧ s'.pool.queue.length < s.pool.queue.length) :
    s'.rank R < s.rank R := by
  rw [Threads.rank, Threads.rank, Prod.Lex.toLex_lt_toLex, Prod.Lex.toLex_lt_toLex]
  rcases h with ⟨hmore, hmax⟩ | ⟨hsame, hshorter⟩
  · refine .inl ?_
    dsimp only
    omega
  · exact .inr ⟨by rw [hsame], .inl hshorter⟩

theorem put_work (s : Threads R.size) (i : Fin R.size) (pool : OfferPool) (live : List InstanceId)
    (task : LegTask) : (s.put i pool live task).work R + (s.tasks i).rank =
      s.work R + task.rank + if task.ended then 1 else 0 := by
  have hsum := sum_update s.tasks i task
  unfold Threads.work Threads.put
  dsimp only
  split
  · rw [List.length_append, List.length_singleton]
    omega
  · omega

theorem afterFailure_rank (leg : FleetLeg α) (tried : Nat) (e : Raised) :
    (afterFailure leg tried e).rank + (if (afterFailure leg tried e).ended then 1 else 0) ≤ 2 := by
  rcases afterFailure_kinds leg tried e with ⟨h, -⟩ | ⟨-, h | h⟩ <;> rw [h] <;>
    simp [LegTask.rank, LegTask.ended]

theorem WorkStep.lowers {maxRefills : Int} {leg : FleetLeg α} {pool pool' : OfferPool}
    {live live' : List InstanceId} {task₀ task : LegTask} {we : WorkEvent}
    (h : WorkStep maxRefills leg pool live task₀ we pool' live' task) :
    (pool.refills < pool'.refills ∧ pool'.refills ≤ maxRefills ∨
      pool'.refills = pool.refills ∧ pool'.queue.length < pool.queue.length) ∨
      pool' = pool ∧ task.rank + (if task.ended then 1 else 0) < task₀.rank := by
  cases h with
  | offered tried answer pool' offer hgot => exact .inl (OfferPool.get_smaller hgot (by simp))
  | broke tried answer pool' e hgot => exact .inl (OfferPool.get_smaller hgot (by simp))
  | drained tried answer pool' hgot =>
    have hkinds := OfferPool.get_got pool maxRefills answer
    rw [hgot] at hkinds
    cases hkinds with
    | none hspent => exact .inr ⟨rfl, by simp [LegTask.rank, LegTask.ended]⟩
    | empty hdrained => exact .inl (.inl ⟨Nat.lt_succ_self _, hdrained.2⟩)
  | hosted | closed => exact .inr ⟨rfl, by simp [LegTask.rank, LegTask.ended]⟩
  | refused tried offer e =>
    have := afterFailure_rank leg tried e
    exact .inr ⟨rfl, this.trans_lt (by simp [LegTask.rank])⟩
  | died tried offer host e =>
    have := afterFailure_rank leg tried e
    exact .inr ⟨rfl, this.trans_lt (by simp [LegTask.rank])⟩

theorem WorkStep.rank {i : Fin R.size} {we : WorkEvent} {pool : OfferPool}
    {live : List InstanceId} {task : LegTask}
    (h : WorkStep R.maxRefills (R.leg i) s.pool s.live (s.tasks i) we pool live task) :
    (s.put i pool live task).rank R < s.rank R := by
  rcases h.lowers with hsmaller | ⟨hpool, hless⟩
  · exact rank_of_pool hsmaller
  · have hwork := put_work s i pool live task
    refine rank_of_work hpool ?_
    omega

theorem rank_step (hquiet : e.quiet = true) (hs : s.step R e = some s') (hstaffed : Staffed R s) :
    s'.rank R < s.rank R := by
  -- a step of the main thread alone
  have hmain : ∀ {s' : Threads R.size}, s'.pool = s.pool → s'.tasks = s.tasks →
      s'.finished.length + s'.main.rank R.size < s.finished.length + s.main.rank R.size →
      s'.rank R < s.rank R := by
    intro s' hpool htasks hless
    refine rank_of_work hpool ?_
    rw [Threads.work, Threads.work, htasks]
    omega
  cases thread_step hs with
  | submitted k hk hsub =>
    have hsubmitted := hstaffed.submitted
    rw [hsub] at hsubmitted
    have hsum := sum_update s.tasks ⟨k, hk⟩ .waiting
    rw [(hsubmitted.2 ⟨k, hk⟩).mpr le_rfl] at hsum
    refine rank_of_work rfl ?_
    simp only [Threads.work, hsub, MainThread.rank, LegTask.rank] at hsum ⊢
    omega
  | listened order hsub hperm =>
    refine hmain rfl rfl ?_
    simp only [hsub, MainThread.rank, hperm.length_eq]
    omega
  | result i rest r hcollecting hqueue =>
    refine hmain rfl rfl ?_
    simp only [hqueue, List.length_cons]
    omega
  | halted i rest e hcollecting hqueue | broke i rest e hcollecting hqueue =>
    refine hmain rfl rfl ?_
    simp only [hqueue, hcollecting, List.length_cons, MainThread.rank]
    omega
  | cancelled e k hk hcancelling htask =>
    have hsum := sum_update s.tasks ⟨k, hk⟩ .cancelled
    rw [htask] at hsum
    refine rank_of_work rfl ?_
    simp only [Threads.work, hcancelling, MainThread.rank, LegTask.rank] at hsum ⊢
    omega
  | kept e k hk hcancelling =>
    refine hmain rfl rfl ?_
    simp only [hcancelling, MainThread.rank]
    omega
  | swept e hcancelling =>
    refine hmain rfl rfl ?_
    simp only [hcancelling, MainThread.rank]
    omega
  | left hcollecting =>
    refine hmain rfl rfl ?_
    simp only [hcollecting, MainThread.rank]
    omega
  | joined x hdraining =>
    refine hmain rfl rfl ?_
    simp only [hdraining, MainThread.rank]
    omega
  | took i htask =>
    have hsum := sum_update s.tasks i (.asking 0)
    rw [htask] at hsum
    refine rank_of_work rfl ?_
    simp only [Threads.work, LegTask.rank] at hsum ⊢
    omega
  | worked i we pool live task hstep => exact hstep.rank
  | signalled | destroyed | unwound | chained => cases hquiet

def LegTask.over : LegTask → Bool
  | .done _ | .failed _ => true
  | _ => false

theorem over_of_running {t : LegTask} (h : t.running = true) : t.over = false := by
  cases t <;> first | rfl | cases h

theorem ended_of_running {t : LegTask} (h : t.running = true) : t.ended = false := by
  cases t <;> first | rfl | cases h

theorem base_ne (m : MainThread) (hosts : List InstanceId) (back : MainThread) :
    m.base ≠ .handling hosts back := by
  induction m with
  | handling hosts' back' ih => exact ih
  | _ => simp [MainThread.base]

theorem mem_put_finished {i j : Fin R.size} {pool : OfferPool} {live : List InstanceId}
    {task : LegTask} (h : j ∈ (s.put i pool live task).finished) :
    j ∈ s.finished ∨ j = i ∧ task.ended = true := by
  unfold Threads.put at h
  dsimp only at h
  split at h
  · rcases List.mem_append.mp h with h | h
    · exact .inl h
    · exact .inr ⟨List.mem_singleton.mp h, ‹_›⟩
  · exact .inl h

theorem over_stays {i : Fin R.size} (h : Staffed R s) (hs : s.step R e = some s')
    (hover : (s.tasks i).over = true) : s'.tasks i = s.tasks i := by
  have hupdate : ∀ {j : Fin R.size} (task : LegTask), (s.tasks j).over = false →
      Function.update s.tasks j task i = s.tasks i := by
    intro j task hj
    refine Function.update_of_ne (fun heq => ?_) _ _
    rw [heq, hj] at hover
    cases hover
  cases thread_step hs with
  | submitted k hk hsub =>
    have hsubmitted := h.submitted
    rw [hsub] at hsubmitted
    refine hupdate _ ?_
    rw [(hsubmitted.2 ⟨k, hk⟩).mpr le_rfl]
    rfl
  | cancelled e k hk hcancelling htask => exact hupdate _ (by rw [htask]; rfl)
  | took j htask => exact hupdate _ (by rw [htask]; rfl)
  | worked j we pool live task hstep => exact hupdate _ (over_of_running hstep.source)
  | _ => rfl

structure Orderly (R : FleetRun α) (s : Threads R.size) : Prop extends Staffed R s where
  calm : s.main.base = s.main
  futures : ∀ i ∈ s.finished, (s.tasks i).over = true
  sweep : ∀ e k, s.main = .cancelling e k → k ≤ R.size

theorem Orderly.step (h : Orderly R s) (hquiet : e.quiet = true) (hs : s.step R e = some s') :
    Orderly R s' := by
  have hstaffed := h.toStaffed.step hs
  have hold : ∀ j ∈ s.finished, (s'.tasks j).over = true := by
    intro j hj
    rw [over_stays h.toStaffed hs (h.futures j hj)]
    exact h.futures j hj
  cases thread_step hs with
  | submitted => exact ⟨hstaffed, rfl, hold, by simp⟩
  | listened order hsub hperm =>
    exact ⟨hstaffed, rfl, fun j hj => hold j (hperm.mem_iff.mp hj), by simp⟩
  | result i rest r hcollecting hqueue =>
    exact ⟨hstaffed, h.calm, fun j hj => hold j (by rw [hqueue]; exact .tail _ hj), h.sweep⟩
  | halted i rest e hcollecting hqueue =>
    exact ⟨hstaffed, rfl, fun j hj => hold j (by rw [hqueue]; exact .tail _ hj), by simp⟩
  | broke i rest e hcollecting hqueue =>
    exact ⟨hstaffed, rfl, fun j hj => hold j (by rw [hqueue]; exact .tail _ hj), by simp⟩
  | cancelled e k hk | kept e k hk =>
    refine ⟨hstaffed, rfl, hold, fun e' k' heq => ?_⟩
    cases heq
    omega
  | swept | left | joined => exact ⟨hstaffed, rfl, hold, by simp⟩
  | took => exact ⟨hstaffed, h.calm, hold, h.sweep⟩
  | worked i we pool live task hstep =>
    refine ⟨hstaffed, h.calm, fun j hj => ?_, h.sweep⟩
    rcases mem_put_finished hj with hj | ⟨rfl, hended⟩
    · exact hold j hj
    · obtain ⟨-, hstarted⟩ := hstep.target
      rw [show (s.put j pool live task).tasks j = task from Function.update_self _ _ _]
      cases task <;> simp_all [LegTask.over, LegTask.ended, LegTask.unstarted]
  | signalled | destroyed | unwound | chained => cases hquiet

theorem Orderly.start (R : FleetRun α) (offers : List Offer) : Orderly R (R.init offers) := by
  refine ⟨Staffed.start R offers, ?_, by simp [FleetRun.init], fun e k h => ?_⟩ <;>
    unfold FleetRun.init at * <;> dsimp only at * <;> split at *
  · rfl
  · rfl
  · cases h
  · cases h

theorem Orderly.keeps (h : Orderly R s) (hvia : Quietly R s t) : Orderly R t :=
  hvia.keeps (fun he hs h => h.step he hs) h

theorem run_orderly {offers : List Offer} (h : Quietly R (R.init offers) s) : Orderly R s :=
  (Orderly.start R offers).keeps h

def Threads.GoesOn (R : FleetRun α) (s : Threads R.size) : Prop :=
  ∃ e, e.quiet = true ∧ (s.step R e).isSome = true

theorem running_works {i : Fin R.size} (h : (s.tasks i).running = true) :
    ∃ we, (s.step R (.worked i we)).isSome = true := by
  cases htask : s.tasks i with
  | asking tried =>
    refine ⟨.asked (.ok []), ?_⟩
    simp only [Threads.step, work, htask, Option.isSome_map]
    split <;> rfl
  | renting tried offer => exact ⟨.hosted (.text ""), by simp [Threads.step, work, htask]⟩
  | hosting tried offer host => exact ⟨.closed .ok "", by simp [Threads.step, work, htask]⟩
  | _ =>
    rw [htask] at h
    cases h

theorem running_goes_on {i : Fin R.size} (h : (s.tasks i).running = true) : s.GoesOn R := by
  obtain ⟨we, hsome⟩ := running_works h
  exact ⟨.worked i we, rfl, hsome⟩

theorem Staffed.goes_on (h : Staffed R s) {i : Fin R.size} (hopen : (s.tasks i).ended = false)
    (hsubmitted : s.tasks i ≠ .unsubmitted) : s.GoesOn R := by
  by_cases hwaiting : s.tasks i = .waiting
  · by_cases hfree : s.busy.length < R.slots
    · obtain ⟨j, hnext⟩ := exists_next ⟨i, hwaiting⟩
      exact ⟨.took j, rfl, by simp [Threads.step, hnext, hfree]⟩
    · have hslots := slots_pos R
      obtain ⟨j, hj⟩ : ∃ j, j ∈ s.busy := List.exists_mem_of_length_pos (by omega)
      exact running_goes_on ((h.busy j).mp hj)
  · refine running_goes_on (i := i) ?_
    generalize s.tasks i = task at hopen hsubmitted hwaiting
    cases task <;> simp_all [LegTask.ended, LegTask.running]

theorem Orderly.progress (h : Orderly R s) : (∃ o, s.main = .ended o) ∨ s.GoesOn R := by
  have hsubmitted := h.submitted
  rw [h.calm] at hsubmitted
  cases hmain : s.main with
  | submitting k =>
    rw [hmain] at hsubmitted
    refine .inr ?_
    by_cases hk : k < R.size
    · exact ⟨.submitted, rfl, by simp [Threads.step, hmain, hk]⟩
    · have hall : k = R.size := by
        have := hsubmitted.1
        omega
      exact ⟨.listened s.finished, rfl, by simp [Threads.step, hmain, hall]⟩
  | collecting =>
    rw [hmain] at hsubmitted
    refine .inr ?_
    cases hqueue : s.finished with
    | nil =>
      by_cases hall : ∀ i, (s.tasks i).ended = true
      · exact ⟨.left, rfl, by simp [Threads.step, hmain, hqueue, hall]⟩
      · push Not at hall
        obtain ⟨i, hi⟩ := hall
        exact h.goes_on (by simpa using hi) (hsubmitted i)
    | cons i rest =>
      have hover := h.futures i (by rw [hqueue]; exact .head _)
      refine ⟨.collected, rfl, ?_⟩
      simp only [Threads.step, hmain, hqueue, Threads.collect]
      generalize s.tasks i = task at hover
      cases task <;> first | rfl | cases hover
  | cancelling e k =>
    refine .inr ?_
    by_cases hk : k < R.size
    · exact ⟨.cancelled, rfl, by simp [Threads.step, hmain, hk]⟩
    · have hall : k = R.size := by
        have := h.sweep e k hmain
        omega
      exact ⟨.left, rfl, by simp [Threads.step, hmain, hall]⟩
  | draining x =>
    refine .inr ?_
    by_cases hall : ∀ i, (s.tasks i).ended = true ∨ s.tasks i = .unsubmitted
    · exact ⟨.joined, rfl, by simp [Threads.step, hmain, hall]⟩
    · push Not at hall
      obtain ⟨i, hopen, hi⟩ := hall
      exact h.goes_on (by simpa using hopen) hi
  | handling hosts back =>
    have hcalm := h.calm
    rw [hmain] at hcalm
    exact absurd hcalm (base_ne _ hosts back)
  | ended o => exact .inl ⟨o, rfl⟩

def Threads.Over (R : FleetRun α) (s : Threads R.size) : Prop :=
  ∀ e, e.quiet = true → s.step R e = none

theorem over_of_ended {o : Outcome} (hmain : s.main = .ended o)
    (hall : ∀ i, (s.tasks i).ended = true) : s.Over R := by
  intro e hquiet
  cases hs : s.step R e with
  | none => rfl
  | some s' =>
    cases thread_step hs with
    | took i htask =>
      have hi := hall i
      rw [htask] at hi
      cases hi
    | worked i we pool live task hstep =>
      have hi := ended_of_running hstep.source
      rw [hall i] at hi
      cases hi
    | submitted _ _ hm | listened _ hm | result _ _ _ hm | halted _ _ _ hm | broke _ _ _ hm
    | cancelled _ _ _ hm | kept _ _ _ hm | swept _ hm | left hm | joined _ hm =>
      rw [hmain] at hm
      cases hm
    | signalled | destroyed | unwound | chained => cases hquiet

theorem Orderly.over (h : Orderly R s) (hover : s.Over R) : ∃ o, s.main = .ended o := by
  rcases h.progress with hended | ⟨e, hquiet, hs⟩
  · exact hended
  · rw [hover e hquiet] at hs
    cases hs

theorem Orderly.not_endless (h : Orderly R s) :
    ¬ Endless (fun e => e.quiet = true) (Threads.step R) s :=
  Transition.not_endless (I := Orderly R) (fun he hs h => h.step he hs)
    (fun he hs h => rank_step he hs h.toStaffed) h

theorem Orderly.finishes (h : Orderly R s) : ∃ t, Quietly R s t ∧ t.Over R := by
  refine exec_finishes (I := Orderly R) (fun he hs h => h.step he hs)
    (fun he hs h => rank_step he hs h.toStaffed) (fun {s} _ => ?_) h
  by_cases hgo : s.GoesOn R
  · exact .inr hgo
  · refine .inl fun e he => ?_
    by_contra hsome
    exact hgo ⟨e, he, Option.isSome_iff_ne_none.mpr hsome⟩

end RunFarm
