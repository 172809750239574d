import RunFarm.Fleet.Unwinding

/-! `_live`, the registry of the rentals in flight: what is in it at any time, what a signal handler
has destroyed when it is over, and what `_reconcile_stranded` finds. -/
set_option autoImplicit false

namespace RunFarm
open Files Python Transition

variable {α : Type} {R : FleetRun α} {s s' t : Threads R.size} {e : ThreadEvent R.size}

def LegTask.host : LegTask → Option InstanceId
  | .hosting _ _ host => some host
  | _ => none

/-- `rent` hands out no host that a leg is on. -/
def FreshHost (s : Threads R.size) : ThreadEvent R.size → Prop
  | .worked _ (.hosted host) => ∀ i, (s.tasks i).host ≠ some host
  | _ => True

instance (s : Threads R.size) (e : ThreadEvent R.size) : Decidable (FreshHost s e) := by
  unfold FreshHost
  split <;> infer_instance

/-- The registry has every host that a leg is on, once, and no other. -/
structure Registers {n : Nat} (tasks : Fin n → LegTask) (live : List InstanceId) : Prop where
  mem : ∀ host, host ∈ live ↔ ∃ i, (tasks i).host = some host
  apart : ∀ i j host, (tasks i).host = some host → (tasks j).host = some host → i = j
  nodup : live.Nodup

section
variable {n : Nat} {tasks : Fin n → LegTask} {live : List InstanceId} {i : Fin n} {task : LegTask}

theorem Registers.idle (h : Registers tasks live) (hold : (tasks i).host = none)
    (hnew : task.host = none) : Registers (Function.update tasks i task) live := by
  have hsame : ∀ j, (Function.update tasks i task j).host = (tasks j).host := by
    intro j
    by_cases hj : j = i
    · subst hj
      rw [Function.update_self, hold, hnew]
    · rw [Function.update_of_ne hj]
  refine ⟨fun host => ?_, fun j k host => ?_, h.nodup⟩
  · simp only [hsame]
    exact h.mem host
  · rw [hsame, hsame]
    exact h.apart j k host

theorem Registers.track (h : Registers tasks live) (hold : (tasks i).host = none)
    {host : InstanceId} (hfresh : ∀ j, (tasks j).host ≠ some host) (hnew : task.host = some host) :
    Registers (Function.update tasks i task) (track live host) := by
  have hout : host ∉ live := fun hmem => by
    obtain ⟨j, hj⟩ := (h.mem host).mp hmem
    exact hfresh j hj
  refine ⟨fun other => ?_, fun j k other hj hk => ?_, ?_⟩
  · rw [mem_track, h.mem]
    constructor
    · rintro (⟨j, hj⟩ | rfl)
      · have hne : j ≠ i := fun heq => by simp [heq, hold] at hj
        exact ⟨j, by rw [Function.update_of_ne hne, hj]⟩
      · exact ⟨i, by rw [Function.update_self, hnew]⟩
    · rintro ⟨j, hj⟩
      by_cases hji : j = i
      · rw [hji, Function.update_self, hnew] at hj
        exact .inr (Option.some.inj hj).symm
      · rw [Function.update_of_ne hji] at hj
        exact .inl ⟨j, hj⟩
  · by_cases hji : j = i <;> by_cases hki : k = i
    · rw [hji, hki]
    · rw [hji, Function.update_self, hnew] at hj
      rw [Function.update_of_ne hki] at hk
      exact absurd (hk.trans hj.symm) (hfresh k)
    · rw [hki, Function.update_self, hnew] at hk
      rw [Function.update_of_ne hji] at hj
      exact absurd (hj.trans hk.symm) (hfresh j)
    · rw [Function.update_of_ne hji] at hj
      rw [Function.update_of_ne hki] at hk
      exact h.apart j k other hj hk
  · rw [RunFarm.track, if_neg hout]
    exact List.nodup_append.mpr ⟨h.nodup, List.nodup_singleton host,
      fun a ha b hb hab => hout (List.mem_singleton.mp hb ▸ hab ▸ ha)⟩

theorem Registers.untrack (h : Registers tasks live) {host : InstanceId}
    (hold : (tasks i).host = some host) (hnew : task.host = none) :
    Registers (Function.update tasks i task) (untrack live host) := by
  refine ⟨fun other => ?_, fun j k other hj hk => ?_, h.nodup.filter _⟩
  · rw [RunFarm.untrack, List.mem_filter, decide_eq_true_eq, h.mem]
    constructor
    · rintro ⟨⟨j, hj⟩, hne⟩
      have hji : j ≠ i := fun heq => by
        rw [heq, hold] at hj
        exact hne (Option.some.inj hj).symm
      exact ⟨j, by rw [Function.update_of_ne hji, hj]⟩
    · rintro ⟨j, hj⟩
      have hji : j ≠ i := fun heq => by simp [heq, hnew] at hj
      rw [Function.update_of_ne hji] at hj
      refine ⟨⟨j, hj⟩, fun heq => hji ?_⟩
      exact h.apart j i host (heq ▸ hj) hold
  · have hji : j ≠ i := fun heq => by simp [heq, hnew] at hj
    have hki : k ≠ i := fun heq => by simp [heq, hnew] at hk
    rw [Function.update_of_ne hji] at hj
    rw [Function.update_of_ne hki] at hk
    exact h.apart j k other hj hk

end

theorem host_afterFailure (leg : FleetLeg α) (tried : Nat) (e : Raised) :
    (afterFailure leg tried e).host = none := by
  rcases afterFailure_kinds leg tried e with ⟨h, -⟩ | ⟨-, h | h⟩ <;> rw [h] <;> rfl

theorem Registers.worked {i : Fin R.size} {we : WorkEvent} {pool : OfferPool}
    {live : List InstanceId} {task : LegTask} (h : Registers s.tasks s.live)
    (hfresh : FreshHost s (.worked i we))
    (hstep : WorkStep R.maxRefills (R.leg i) s.pool s.live (s.tasks i) we pool live task) :
    Registers (Function.update s.tasks i task) live := by
  generalize htask : s.tasks i = old at hstep
  have hold : (s.tasks i).host = old.host := congrArg LegTask.host htask
  cases hstep with
  | hosted tried offer host => exact h.track hold hfresh rfl
  | closed tried offer host status detail => exact h.untrack hold rfl
  | died tried offer host e => exact h.untrack hold (host_afterFailure _ tried e)
  | refused tried offer e => exact h.idle hold (host_afterFailure _ tried e)
  | offered | drained | broke => exact h.idle hold rfl

theorem Registers.step (h : Registers s.tasks s.live) (hstaffed : Staffed R s)
    (hfresh : FreshHost s e) (hs : s.step R e = some s') : Registers s'.tasks s'.live := by
  cases thread_step hs with
  | submitted k hk hmain =>
    have hsub := hstaffed.submitted
    rw [hmain] at hsub
    exact h.idle (by rw [(hsub.2 ⟨k, hk⟩).mpr le_rfl]; rfl) rfl
  | cancelled e k hk hmain htask => exact h.idle (by rw [htask]; rfl) rfl
  | took i htask => exact h.idle (by rw [htask]; rfl) rfl
  | worked i we pool live task hstep => exact h.worked hfresh hstep
  | _ => exact h

end RunFarm
