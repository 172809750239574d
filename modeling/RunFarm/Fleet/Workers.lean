import Mathlib.Data.List.Perm.Subperm
import RunFarm.Fleet.Threads

/-! Who works on what: the workers and the tasks through any run. -/
set_option autoImplicit false

namespace RunFarm
open Files Python Transition

variable {α : Type} {R : FleetRun α} {s s' : Threads R.size} {e : ThreadEvent R.size}

/-- What the main thread does, or goes back to from a handler. -/
def MainThread.base : MainThread → MainThread
  | .handling _ back => back.base
  | m => m

/-- `k` legs are submitted, and the rest are if the main thread gets to it. -/
def MainThread.Submitted (m : MainThread) (tasks : Fin R.size → LegTask) : Prop :=
  match m with
  | .submitting k => k ≤ R.size ∧ ∀ j : Fin R.size, tasks j = .unsubmitted ↔ k ≤ j
  | .collecting | .cancelling _ _ | .draining none => ∀ j, tasks j ≠ .unsubmitted
  | _ => True

structure Staffed (R : FleetRun α) (s : Threads R.size) : Prop where
  busy : ∀ i, i ∈ s.busy ↔ (s.tasks i).running = true
  nodup : s.busy.Nodup
  slots : s.busy.length ≤ R.slots
  rented : ∀ i ∈ s.rented, (s.tasks i).unstarted = false
  submitted : s.main.base.Submitted s.tasks

theorem slots_pos (R : FleetRun α) : 0 < R.slots := by
  unfold FleetRun.slots
  omega

theorem exists_next (h : ∃ i, s.tasks i = .waiting) : ∃ i, s.Next i := by
  obtain ⟨i, hi, hleast⟩ := wellFounded_lt.has_min {i | s.tasks i = .waiting} h
  exact ⟨i, hi, fun j hj hwaiting => hleast j hwaiting hj⟩

theorem WorkStep.source {maxRefills : Int} {leg : FleetLeg α} {pool pool' : OfferPool}
    {live live' : List InstanceId} {t t' : LegTask} {we : WorkEvent}
    (h : WorkStep maxRefills leg pool live t we pool' live' t') : t.running = true := by
  cases h <;> rfl

theorem afterFailure_kinds (leg : FleetLeg α) (tried : Nat) (e : Raised) :
    afterFailure leg tried e = .failed e ∧ e.exc.kind = .budgetExceeded ∨
      e.exc.kind ≠ .budgetExceeded ∧ (afterFailure leg tried e = .asking tried ∨
        afterFailure leg tried e = .done (failure leg e)) := by
  unfold afterFailure
  split <;> simp_all

theorem WorkStep.target {maxRefills : Int} {leg : FleetLeg α} {pool pool' : OfferPool}
    {live live' : List InstanceId} {t t' : LegTask} {we : WorkEvent}
    (h : WorkStep maxRefills leg pool live t we pool' live' t') :
    t'.running = !t'.ended ∧ t'.unstarted = false := by
  have hfailure : ∀ tried e, (afterFailure leg tried e).running =
      !(afterFailure leg tried e).ended ∧ (afterFailure leg tried e).unstarted = false := by
    intro tried e
    rcases afterFailure_kinds leg tried e with ⟨h, -⟩ | ⟨-, h | h⟩ <;> rw [h] <;> exact ⟨rfl, rfl⟩
  cases h with
  | refused tried offer e => exact hfailure tried e
  | died tried offer host e => exact hfailure tried e
  | _ => exact ⟨rfl, rfl⟩

theorem unstarted_of_running {t : LegTask} (h : t.running = true) : t.unstarted = false := by
  cases t <;> first | rfl | cases h

theorem running_of_unstarted {t : LegTask} (h : t.unstarted = true) : t.running = false := by
  cases t <;> first | rfl | cases h

theorem Submitted.of_tasks {m : MainThread} {tasks tasks' : Fin R.size → LegTask}
    (h : m.Submitted tasks) (hsame : ∀ j, tasks' j = .unsubmitted ↔ tasks j = .unsubmitted) :
    m.Submitted tasks' := by
  cases m with
  | submitting k => exact ⟨h.1, fun j => (hsame j).trans (h.2 j)⟩
  | draining x =>
    cases x with
    | none => exact fun j hj => h j ((hsame j).mp hj)
    | some x => trivial
  | collecting => exact fun j hj => h j ((hsame j).mp hj)
  | cancelling e k => exact fun j hj => h j ((hsame j).mp hj)
  | _ => trivial

theorem Staffed.start (R : FleetRun α) (offers : List Offer) : Staffed R (R.init offers) := by
  refine ⟨fun i => by simp [FleetRun.init, LegTask.running], List.nodup_nil, Nat.zero_le _,
    by simp [FleetRun.init], ?_⟩
  unfold FleetRun.init
  dsimp only
  split
  · trivial
  · exact ⟨Nat.zero_le _, by simp⟩

theorem busy_update {i : Fin R.size} {t : LegTask}
    (h : ∀ j, j ∈ s.busy ↔ (s.tasks j).running = true) (hi : (s.tasks i).running = false)
    (ht : t.running = false) (j : Fin R.size) :
    j ∈ s.busy ↔ (Function.update s.tasks i t j).running = true := by
  by_cases hj : j = i
  · subst hj
    rw [h, hi, Function.update_self, ht]
  · rw [h, Function.update_of_ne hj]

theorem rented_update {i : Fin R.size} {t : LegTask}
    (h : ∀ j ∈ s.rented, (s.tasks j).unstarted = false) (hi : (s.tasks i).unstarted = true)
    (j : Fin R.size) (hj : j ∈ s.rented) : (Function.update s.tasks i t j).unstarted = false := by
  by_cases heq : j = i
  · subst heq
    have := h j hj
    rw [hi] at this
    cases this
  · rw [Function.update_of_ne heq]
    exact h j hj

theorem Staffed.of_main (h : Staffed R s) {s' : Threads R.size} (hbusy : s'.busy = s.busy)
    (htasks : s'.tasks = s.tasks) (hrented : s'.rented = s.rented)
    (hmain : s'.main.base.Submitted s.tasks) : Staffed R s' := by
  refine ⟨?_, hbusy ▸ h.nodup, hbusy ▸ h.slots, ?_, htasks ▸ hmain⟩
  · rw [hbusy, htasks]
    exact h.busy
  · rw [hrented, htasks]
    exact h.rented

theorem Staffed.took (h : Staffed R s) {i : Fin R.size} (htask : s.tasks i = .waiting)
    (hfree : s.busy.length < R.slots) : Staffed R { s with
      tasks := Function.update s.tasks i (.asking 0), busy := s.busy ++ [i] } := by
  have hnew : i ∉ s.busy := fun hmem => by
    rw [h.busy, htask] at hmem
    cases hmem
  refine ⟨fun j => ?_, ?_, ?_, ?_, ?_⟩
  · dsimp only
    rw [List.mem_append, List.mem_singleton]
    by_cases hj : j = i
    · subst hj
      simp [LegTask.running]
    · rw [Function.update_of_ne hj, h.busy]
      simp [hj]
  · rw [List.nodup_append]
    exact ⟨h.nodup, List.nodup_singleton i, fun a ha b hb hab => hnew (by simp_all)⟩
  · rw [List.length_append, List.length_singleton]
    omega
  · exact rented_update h.rented (by rw [htask]; rfl)
  · refine Submitted.of_tasks h.submitted fun j => ?_
    dsimp only
    by_cases hj : j = i
    · subst hj
      simp [htask]
    · rw [Function.update_of_ne hj]

theorem Staffed.worked (h : Staffed R s) {i : Fin R.size} {we : WorkEvent} {pool : OfferPool}
    {live : List InstanceId} {t : LegTask}
    (hstep : WorkStep R.maxRefills (R.leg i) s.pool s.live (s.tasks i) we pool live t) :
    Staffed R (s.put i pool live t) := by
  have hsource := hstep.source
  obtain ⟨htarget, hstarted⟩ := hstep.target
  have hbusy : i ∈ s.busy := (h.busy i).mpr hsource
  have hrented : ∀ j ∈ s.rented ++ [i], (Function.update s.tasks i t j).unstarted = false := by
    intro j hj
    rw [List.mem_append, List.mem_singleton] at hj
    by_cases hji : j = i
    · subst hji
      rwa [Function.update_self]
    · rw [Function.update_of_ne hji]
      exact h.rented j (hj.resolve_right hji)
  unfold Threads.put
  refine ⟨fun j => ?_, ?_, ?_, ?_, ?_⟩
  · by_cases hji : j = i
    · subst hji
      dsimp only
      rw [Function.update_self, htarget]
      cases t.ended <;> simp [hbusy, h.nodup.mem_erase_iff]
    · dsimp only
      rw [Function.update_of_ne hji, ← h.busy]
      split
      · rw [h.nodup.mem_erase_iff]
        simp [hji]
      · rfl
  · dsimp only
    split
    · exact h.nodup.erase i
    · exact h.nodup
  · dsimp only
    split
    · exact (List.length_erase_le (a := i)).trans h.slots
    · exact h.slots
  · intro j hj
    dsimp only at hj
    split at hj
    · exact hrented j hj
    · exact hrented j (List.mem_append_left _ hj)
  · refine Submitted.of_tasks h.submitted fun j => ?_
    dsimp only
    by_cases hji : j = i
    · subst hji
      rw [Function.update_self]
      constructor
      · intro heq
        rw [heq] at hstarted
        cases hstarted
      · intro heq
        rw [heq] at hsource
        cases hsource
    · rw [Function.update_of_ne hji]

theorem Staffed.submits (h : Staffed R s) {k : Nat} (hk : k < R.size)
    (hmain : s.main = .submitting k) : Staffed R { s with
      tasks := Function.update s.tasks ⟨k, hk⟩ .waiting, main := .submitting (k + 1) } := by
  have hsub := h.submitted
  rw [hmain] at hsub
  have htask : s.tasks ⟨k, hk⟩ = .unsubmitted := (hsub.2 ⟨k, hk⟩).mpr le_rfl
  refine ⟨busy_update h.busy (by rw [htask]; rfl) rfl, h.nodup, h.slots,
    rented_update h.rented (by rw [htask]; rfl), ⟨hk, fun j => ?_⟩⟩
  dsimp only
  by_cases hj : j = ⟨k, hk⟩
  · subst hj
    simp
  · rw [Function.update_of_ne hj, hsub.2]
    have hne : (j : Nat) ≠ k := fun heq => hj (Fin.ext heq)
    omega

theorem Staffed.cancels (h : Staffed R s) {e : Raised} {k : Nat} (hk : k < R.size)
    (hmain : s.main = .cancelling e k) (htask : s.tasks ⟨k, hk⟩ = .waiting) : Staffed R { s with
      tasks := Function.update s.tasks ⟨k, hk⟩ .cancelled, main := .cancelling e (k + 1) } := by
  have hsub := h.submitted
  rw [hmain] at hsub
  refine ⟨busy_update h.busy (by rw [htask]; rfl) rfl, h.nodup, h.slots,
    rented_update h.rented (by rw [htask]; rfl), fun j => ?_⟩
  dsimp only
  by_cases hj : j = ⟨k, hk⟩
  · subst hj
    simp
  · rw [Function.update_of_ne hj]
    exact hsub j

theorem Staffed.step (h : Staffed R s) (hs : s.step R e = some s') : Staffed R s' := by
  have hsub := h.submitted
  cases thread_step hs with
  | submitted k hk hmain => exact h.submits hk hmain
  | listened order hmain hperm =>
    rw [hmain] at hsub
    refine h.of_main rfl rfl rfl fun j hj => ?_
    have := (hsub.2 j).mp hj
    omega
  | result i rest r hmain => exact h.of_main rfl rfl rfl hsub
  | halted i rest e hmain =>
    rw [hmain] at hsub
    exact h.of_main rfl rfl rfl hsub
  | broke => exact h.of_main rfl rfl rfl trivial
  | cancelled e k hk hmain htask => exact h.cancels hk hmain htask
  | kept e k hk hmain =>
    rw [hmain] at hsub
    exact h.of_main rfl rfl rfl hsub
  | swept => exact h.of_main rfl rfl rfl trivial
  | left hmain =>
    rw [hmain] at hsub
    exact h.of_main rfl rfl rfl hsub
  | joined => exact h.of_main rfl rfl rfl trivial
  | took i htask hfree => exact h.took htask hfree
  | worked i we pool live t hstep => exact h.worked hstep
  | signalled hguarded => exact h.of_main rfl rfl rfl hsub
  | destroyed host hosts back hmain =>
    rw [hmain] at hsub
    exact h.of_main rfl rfl rfl hsub
  | unwound => exact h.of_main rfl rfl rfl trivial
  | chained back hmain =>
    rw [hmain] at hsub
    exact h.of_main rfl rfl rfl hsub

theorem run_staffed {offers : List Offer} {events : List (ThreadEvent R.size)}
    (h : exec (Threads.step R) (R.init offers) events = some s) : Staffed R s :=
  exec_keeps (fun hs h => h.step hs) h (Staffed.start R offers)

/-- Every host in `_live` is one that a leg is on. -/
def Threads.Tracked (s : Threads R.size) : Prop :=
  ∀ host ∈ s.live, ∃ i tried offer, s.tasks i = .hosting tried offer host

theorem mem_track {live : List InstanceId} {host h : InstanceId} :
    h ∈ track live host ↔ h ∈ live ∨ h = host := by
  unfold track
  split
  · rename_i hmem
    exact ⟨.inl, fun hh => hh.elim id fun heq => heq ▸ hmem⟩
  · simp

theorem Threads.Tracked.update (h : s.Tracked) {i : Fin R.size} (t : LegTask) {host : InstanceId}
    (hmem : host ∈ s.live) (hi : ∀ tried offer, s.tasks i ≠ .hosting tried offer host) :
    ∃ j tried offer, Function.update s.tasks i t j = .hosting tried offer host := by
  obtain ⟨j, tried, offer, hj⟩ := h host hmem
  refine ⟨j, tried, offer, ?_⟩
  rw [Function.update_of_ne]
  · exact hj
  · exact fun heq => hi tried offer (heq ▸ hj)

theorem Threads.Tracked.worked (h : s.Tracked) {i : Fin R.size} {we : WorkEvent}
    {pool : OfferPool} {live : List InstanceId} {t : LegTask}
    (hstep : WorkStep R.maxRefills (R.leg i) s.pool s.live (s.tasks i) we pool live t) :
    (s.put i pool live t).Tracked := by
  intro host hmem
  change host ∈ live at hmem
  show ∃ j tried offer, Function.update s.tasks i t j = .hosting tried offer host
  generalize htask : s.tasks i = t₀ at hstep
  cases hstep with
  | hosted tried offer host' =>
    rcases mem_track.mp hmem with hmem | rfl
    · exact h.update _ hmem (by simp [htask])
    · exact ⟨i, tried, offer, Function.update_self _ _ _⟩
  | closed tried offer host' status detail | died tried offer host' e =>
    simp only [untrack, List.mem_filter, decide_eq_true_eq] at hmem
    refine h.update _ hmem.1 fun tried' offer' heq => hmem.2 ?_
    rw [htask] at heq
    cases heq
    rfl
  | offered | drained | broke | refused => exact h.update _ hmem (by simp [htask])

theorem Threads.Tracked.step (h : s.Tracked) (hstaffed : Staffed R s)
    (hs : s.step R e = some s') : s'.Tracked := by
  cases thread_step hs with
  | submitted k hk hmain =>
    have hsub := hstaffed.submitted
    rw [hmain] at hsub
    exact fun host hmem => h.update _ hmem (by simp [(hsub.2 ⟨k, hk⟩).mpr le_rfl])
  | cancelled e k hk hmain htask => exact fun host hmem => h.update _ hmem (by simp [htask])
  | took i htask => exact fun host hmem => h.update _ hmem (by simp [htask])
  | worked i we pool live t hstep => exact h.worked hstep
  | _ => exact h

end RunFarm
