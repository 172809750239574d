import RunFarm.Fleet.Workers

/-! Which legs that are not started yet can still come to rent. -/
set_option autoImplicit false

namespace RunFarm
open Files Python Transition

variable {α : Type} {R : FleetRun α} {s s' t : Threads R.size} {e : ThreadEvent R.size}

def LegTask.isAsking : LegTask → Bool
  | .asking _ => true
  | _ => false

theorem exists_asking {t : LegTask} (h : t.isAsking = true) : ∃ tried, t = .asking tried := by
  cases t <;> simp_all [LegTask.isAsking]

theorem holds_offer {t : LegTask} (h : t.running = true) (hnot : t.isAsking = false) :
    (∃ tried offer, t = .renting tried offer) ∨
      ∃ tried offer host, t = .hosting tried offer host := by
  cases t <;> simp_all [LegTask.running, LegTask.isAsking]

theorem running_of_asking {t : LegTask} (h : t.isAsking = true) : t.running = true := by
  cases t <;> simp_all [LegTask.running, LegTask.isAsking]

namespace Threads

def Blocked (R : FleetRun α) (s : Threads R.size) : Prop :=
  R.slots ≤ s.busy.length ∧ ∀ i ∈ s.busy, (s.tasks i).isAsking = true

instance (R : FleetRun α) (s : Threads R.size) : Decidable (s.Blocked R) :=
  inferInstanceAs (Decidable (_ ∧ _))

/-- The offers it takes until one is for a leg that waits: a blocked worker asks first. -/
def need (R : FleetRun α) (s : Threads R.size) : Nat := if s.Blocked R then 2 else 1

structure NothingLeft (R : FleetRun α) (s : Threads R.size) : Prop where
  waiting : ∀ i, s.tasks i ≠ .waiting
  submitted : ∀ k, s.main.base = .submitting k → k = R.size

end Threads

/-- Whatever happens from here on, a leg that is not started does not rent. `Q` are the events
that may happen. -/
def NoLateRent (R : FleetRun α) (Q : ThreadEvent R.size → Prop) (s : Threads R.size) : Prop :=
  ∀ t, Via Q (Threads.step R) s t → ∀ i, (s.tasks i).unstarted = true → i ∉ t.rented

/-- The legs in `late` have not rented, and there is no offer that they could come to. -/
structure Starved (R : FleetRun α) (late : Set (Fin R.size)) (s : Threads R.size) : Prop where
  out : ∀ i ∈ late, i ∉ s.rented
  pool : s.pool.Spent R.maxRefills ∨ R.maxRefills ≤ s.pool.refills ∧
    s.pool.queue.length ≤ 1 ∧ s.Blocked R ∧ ∀ i ∈ late, (s.tasks i).running = false

variable {late : Set (Fin R.size)} {i : Fin R.size} {we : WorkEvent} {pool : OfferPool}
  {live : List InstanceId} {task : LegTask}

theorem put_rented : (s.put i pool live task).rented = s.rented ∨
    (s.put i pool live task).rented = s.rented ++ [i] := by
  unfold Threads.put
  cases task <;> simp

theorem WorkStep.not_asking (h : WorkStep R.maxRefills (R.leg i) s.pool s.live (s.tasks i) we pool
    live task) (hasking : (s.tasks i).isAsking = false) :
    pool = s.pool ∧ (s.put i pool live task).rented = s.rented := by
  have hfailure : ∀ tried e, (s.put i s.pool live (afterFailure (R.leg i) tried e)).rented =
      s.rented := by
    intro tried e
    rcases afterFailure_kinds (R.leg i) tried e with ⟨h, -⟩ | ⟨-, h | h⟩ <;> rw [h] <;> rfl
  generalize s.tasks i = t₀ at h hasking
  cases h with
  | offered | drained | broke => cases hasking
  | hosted | closed => exact ⟨rfl, rfl⟩
  | refused tried offer e => exact ⟨rfl, hfailure tried e⟩
  | died tried offer host e => exact ⟨rfl, hfailure tried e⟩

theorem WorkStep.spent (h : WorkStep R.maxRefills (R.leg i) s.pool s.live (s.tasks i) we pool live
    task) (hspent : s.pool.Spent R.maxRefills) :
    pool = s.pool ∧ (s.put i pool live task).rented = s.rented := by
  by_cases hasking : (s.tasks i).isAsking = true
  · generalize s.tasks i = t₀ at h hasking
    cases h with
    | offered tried answer pool' offer hgot =>
      rw [hspent.get] at hgot
      cases hgot
    | drained tried answer pool' hgot =>
      rw [hspent.get] at hgot
      cases hgot
      exact ⟨rfl, rfl⟩
    | broke tried answer pool' e hgot =>
      rw [hspent.get] at hgot
      cases hgot
    | _ => cases hasking
  · exact h.not_asking (by simpa using hasking)

theorem Starved.worked (h : Starved R late s) (hstaffed : Staffed R s)
    (hstep : WorkStep R.maxRefills (R.leg i) s.pool s.live (s.tasks i) we pool live task) :
    Starved R late (s.put i pool live task) := by
  rcases h.pool with hspent | ⟨hrefills, hqueue, hblocked, hlate⟩
  · obtain ⟨hpool, hrented⟩ := hstep.spent hspent
    refine ⟨by rw [hrented]; exact h.out, .inl ?_⟩
    rw [show (s.put i pool live task).pool = pool from rfl, hpool]
    exact hspent
  · have hbusy : i ∈ s.busy := (hstaffed.busy i).mpr hstep.source
    have hasking := hblocked.2 i hbusy
    have hnew : i ∉ late := fun hmem => by
      have := hlate i hmem
      rw [hstep.source] at this
      cases this
    refine ⟨fun j hj hmem => ?_, .inl ?_⟩
    · rcases put_rented (s := s) (i := i) with hrented | hrented <;> rw [hrented] at hmem
      · exact h.out j hj hmem
      · rcases List.mem_append.mp hmem with hmem | hmem
        · exact h.out j hj hmem
        · rw [List.mem_singleton] at hmem
          exact hnew (hmem ▸ hj)
    · -- the only leg that can ask takes the last offer
      show pool.Spent R.maxRefills
      generalize s.tasks i = t₀ at hstep hasking
      cases hstep with
      | offered tried answer pool' offer hgot => exact OfferPool.spent_of_last hrefills hqueue hgot
      | drained tried answer pool' hgot => exact OfferPool.spent_of_last hrefills hqueue hgot
      | broke tried answer pool' e hgot => exact OfferPool.spent_of_last hrefills hqueue hgot
      | _ => cases hasking

theorem Starved.of_main (h : Starved R late s) {s' : Threads R.size} (hpool : s'.pool = s.pool)
    (hbusy : s'.busy = s.busy) (hrented : s'.rented = s.rented)
    (htasks : ∀ i, s'.tasks i = s.tasks i ∨ (s.tasks i).running = false ∧
      (s'.tasks i).running = false) : Starved R late s' := by
  have hsame : ∀ i, (s'.tasks i).running = true ∨ (s.tasks i).running = true →
      s'.tasks i = s.tasks i := by
    intro i hi
    rcases htasks i with heq | ⟨hold, hnew⟩
    · exact heq
    · rw [hold, hnew] at hi
      simp at hi
  refine ⟨by rw [hrented]; exact h.out, ?_⟩
  rw [hpool]
  refine h.pool.imp_right fun ⟨hrefills, hqueue, hblocked, hlate⟩ => ⟨hrefills, hqueue, ?_, ?_⟩
  · refine ⟨hbusy ▸ hblocked.1, fun i hi => ?_⟩
    rw [hbusy] at hi
    have hasking := hblocked.2 i hi
    rwa [hsame i (.inr (running_of_asking hasking))]
  · intro i hi
    rcases htasks i with heq | ⟨-, hnew⟩
    · rw [heq]
      exact hlate i hi
    · exact hnew

theorem update_or (tasks : Fin R.size → LegTask) {i : Fin R.size}
    (htask : (tasks i).running = false) {task : LegTask} (hnew : task.running = false)
    (j : Fin R.size) :
    Function.update tasks i task j = tasks j ∨
      (tasks j).running = false ∧ (Function.update tasks i task j).running = false := by
  by_cases hj : j = i
  · subst hj
    rw [Function.update_self]
    exact .inr ⟨htask, hnew⟩
  · exact .inl (Function.update_of_ne hj _ _)

theorem Starved.step (h : Starved R late s) (hstaffed : Staffed R s)
    (hs : s.step R e = some s') : Starved R late s' := by
  have hmain : ∀ {s' : Threads R.size}, s'.pool = s.pool → s'.busy = s.busy →
      s'.rented = s.rented → s'.tasks = s.tasks → Starved R late s' :=
    fun hpool hbusy hrented htasks =>
      h.of_main hpool hbusy hrented fun i => .inl (congrFun htasks i)
  cases thread_step hs with
  | submitted k hk hsub =>
    have hsubmitted := hstaffed.submitted
    rw [hsub] at hsubmitted
    have htask : s.tasks ⟨k, hk⟩ = .unsubmitted := (hsubmitted.2 ⟨k, hk⟩).mpr le_rfl
    exact h.of_main rfl rfl rfl (update_or s.tasks (by rw [htask]; rfl) rfl)
  | cancelled e k hk hc htask =>
    exact h.of_main rfl rfl rfl (update_or s.tasks (by rw [htask]; rfl) rfl)
  | took i htask hfree =>
    refine ⟨h.out, .inl (h.pool.resolve_right fun hother => ?_)⟩
    have := hother.2.2.1.1
    omega
  | worked i we pool live task hstep => exact h.worked hstaffed hstep
  | listened | result | halted | broke | kept | swept | left | joined | signalled | destroyed
  | unwound | chained => exact hmain rfl rfl rfl rfl

theorem Threads.NothingLeft.step (h : s.NothingLeft R) (hs : s.step R e = some s') :
    s'.NothingLeft R ∧ ∀ i, (s.tasks i).unstarted = true → (s'.tasks i).unstarted = true := by
  cases thread_step hs with
  | submitted k hk hmain =>
    have := h.submitted k (by rw [hmain]; rfl)
    omega
  | cancelled e k hk hmain htask => exact absurd htask (h.waiting _)
  | took i htask => exact absurd htask (h.waiting i)
  | worked i we pool live task hstep =>
    have hsource := hstep.source
    obtain ⟨-, hstarted⟩ := hstep.target
    refine ⟨⟨fun j hj => ?_, h.submitted⟩, fun j hj => ?_⟩
    · unfold Threads.put at hj
      dsimp only at hj
      by_cases hji : j = i
      · subst hji
        rw [Function.update_self] at hj
        rw [hj] at hstarted
        cases hstarted
      · rw [Function.update_of_ne hji] at hj
        exact h.waiting j hj
    · have hji : j ≠ i := fun heq => by
        rw [heq, unstarted_of_running hsource] at hj
        cases hj
      unfold Threads.put
      dsimp only
      rwa [Function.update_of_ne hji]
  | listened | halted | broke | kept | swept | left | joined | unwound =>
    exact ⟨⟨h.waiting, fun k hk => by cases hk⟩, fun _ hi => hi⟩
  | result | signalled => exact ⟨⟨h.waiting, h.submitted⟩, fun _ hi => hi⟩
  | destroyed host hosts back hmain | chained back hmain =>
    have hsubmitted := h.submitted
    rw [hmain] at hsubmitted
    exact ⟨⟨h.waiting, hsubmitted⟩, fun _ hi => hi⟩

theorem noLateRent_of_nothingLeft (hstaffed : Staffed R s) (h : s.NothingLeft R)
    (Q : ThreadEvent R.size → Prop) : NoLateRent R Q s := by
  intro t hvia i hi hmem
  have hkept := hvia.keeps (I := fun t => Staffed R t ∧ t.NothingLeft R ∧
      (t.tasks i).unstarted = true)
    (fun _ hs ⟨h₁, h₂, h₃⟩ => ⟨h₁.step hs, (h₂.step hs).1, (h₂.step hs).2 i h₃⟩)
    ⟨hstaffed, h, hi⟩
  have hstarted := hkept.1.rented i hmem
  rw [hkept.2.2] at hstarted
  cases hstarted

theorem noLateRent_of_not_serves (hstaffed : Staffed R s)
    (h : ¬ s.pool.Serves R.maxRefills (s.need R)) (Q : ThreadEvent R.size → Prop) :
    NoLateRent R Q s := by
  intro t hvia i hi
  rw [OfferPool.Serves, not_or] at h
  have hstart : Starved R {i | (s.tasks i).unstarted = true} s := by
    refine ⟨fun j hj hmem => ?_, ?_⟩
    · have hstarted := hstaffed.rented j hmem
      rw [Set.mem_ofPred_eq] at hj
      rw [hj] at hstarted
      cases hstarted
    · unfold Threads.need at h
      by_cases hblocked : s.Blocked R
      · rw [if_pos hblocked] at h
        exact .inr ⟨by omega, by omega, hblocked, fun j hj => running_of_unstarted hj⟩
      · rw [if_neg hblocked] at h
        have hempty : s.pool.queue.length = 0 := by omega
        exact .inl ⟨List.eq_nil_of_length_eq_zero hempty, by omega⟩
  exact (hvia.keeps (I := fun t => Staffed R t ∧ Starved R {i | (s.tasks i).unstarted = true} t)
    (fun _ hs h => ⟨h.1.step hs, h.2.step h.1 hs⟩) ⟨hstaffed, hstart⟩).2.out i hi

/-- No signal, and no listing that raises. -/
def ThreadEvent.calm {n : Nat} : ThreadEvent n → Bool
  | .worked _ (.asked (.error _)) => false
  | .signalled | .destroyed | .unwound | .chained => false
  | _ => true

abbrev Calmly (R : FleetRun α) : Threads R.size → Threads R.size → Prop :=
  Via (fun e => e.calm = true) (Threads.step R)

def hostError : Raised := ⟨⟨.other "OSError", none, ""⟩, "OSError"⟩

theorem host_lost (hon : (∃ tried offer, s.tasks i = .renting tried offer) ∨
    ∃ tried offer host, s.tasks i = .hosting tried offer host) :
    ∃ live, s.step R (.worked i (.raised hostError)) =
      some (s.put i s.pool live (.done (failure (R.leg i) hostError))) := by
  rcases hon with ⟨tried, offer, htask⟩ | ⟨tried, offer, host, htask⟩
  · exact ⟨s.live, by simp [Threads.step, work, htask, afterFailure, hostError]⟩
  · exact ⟨untrack s.live host, by simp [Threads.step, work, htask, afterFailure, hostError]⟩

def anyOffer : Offer := ⟨"", 0, "", none, some "", ""⟩

theorem asking_rents {n tried : Nat} (htask : s.tasks i = .asking tried)
    (hserves : s.pool.Serves R.maxRefills (n + 1)) : ∃ pool offer,
      s.step R (.worked i (.asked (.ok (List.replicate (n + 1) anyOffer)))) =
        some (s.put i pool s.live (.renting (tried + 1) offer)) ∧
      pool.Serves R.maxRefills n := by
  have hlen : (List.replicate (n + 1) anyOffer).length = n + 1 := List.length_replicate
  obtain ⟨pool, offer, hget, hrest⟩ := hserves.get hlen
  exact ⟨pool, offer, by simp [Threads.step, work, htask, hget], hrest⟩

theorem comes_free (hstaffed : Staffed R s) (hserves : s.pool.Serves R.maxRefills (s.need R)) :
    ∃ t, Calmly R s t ∧ t.busy.length < R.slots ∧ t.pool.Serves R.maxRefills 1 ∧
      ∀ i, t.tasks i = s.tasks i ∨ (s.tasks i).running = true ∧ (t.tasks i).ended = true := by
  have hslots := slots_pos R
  -- the worker of `j` comes free with the loss of its host
  have hlost : ∀ {s : Threads R.size} {j : Fin R.size}, j ∈ s.busy → s.busy.length ≤ R.slots →
      ((∃ tried offer, s.tasks j = .renting tried offer) ∨
        ∃ tried offer host, s.tasks j = .hosting tried offer host) →
      ∃ t, Calmly R s t ∧ t.busy.length < R.slots ∧ t.pool = s.pool ∧
        (t.tasks j).ended = true ∧ ∀ i, i ≠ j → t.tasks i = s.tasks i := by
    intro s j hj hlen hon
    obtain ⟨live, hstep⟩ := host_lost (R := R) hon
    refine ⟨_, .single rfl hstep, ?_, rfl, congrArg _ (Function.update_self _ _ _),
      fun i hi => Function.update_of_ne hi _ _⟩
    show (s.busy.erase j).length < R.slots
    rw [List.length_erase_of_mem hj]
    have := List.length_pos_of_mem hj
    omega
  by_cases hfree : s.busy.length < R.slots
  · have hneed : s.need R = 1 := by
      rw [Threads.need, if_neg]
      exact fun hblocked => by
        have := hblocked.1
        omega
    rw [hneed] at hserves
    exact ⟨s, .refl s, hfree, hserves, fun _ => .inl rfl⟩
  · by_cases hblocked : s.Blocked R
    · rw [Threads.need, if_pos hblocked] at hserves
      obtain ⟨j, hj⟩ : ∃ j, j ∈ s.busy := List.exists_mem_of_length_pos (by omega)
      obtain ⟨tried, htask⟩ := exists_asking (hblocked.2 j hj)
      obtain ⟨pool, offer, hstep, hrest⟩ := asking_rents (n := 1) htask hserves
      have hmem : j ∈ (s.put j pool s.live (.renting (tried + 1) offer)).busy := hj
      obtain ⟨t, hcalm, hlen, hpool, hended, hothers⟩ := hlost hmem hstaffed.slots
        (.inl ⟨tried + 1, offer, Function.update_self _ _ _⟩)
      refine ⟨t, .trans (.single rfl hstep) hcalm, hlen, hpool ▸ hrest, fun i => ?_⟩
      by_cases hij : i = j
      · rw [hij, htask]
        exact .inr ⟨rfl, hended⟩
      · rw [hothers i hij]
        exact .inl (Function.update_of_ne hij _ _)
    · rw [Threads.need, if_neg hblocked] at hserves
      obtain ⟨j, hj, hnot⟩ : ∃ j ∈ s.busy, (s.tasks j).isAsking = false := by
        rw [Threads.Blocked, not_and] at hblocked
        have hsome := hblocked (by omega)
        push Not at hsome
        simpa using hsome
      have hrunning := (hstaffed.busy j).mp hj
      obtain ⟨t, hcalm, hlen, hpool, hended, hothers⟩ :=
        hlost hj hstaffed.slots (holds_offer hrunning hnot)
      refine ⟨t, hcalm, hlen, hpool ▸ hserves, fun i => ?_⟩
      by_cases hij : i = j
      · rw [hij]
        exact .inr ⟨hrunning, hended⟩
      · exact .inl (hothers i hij)

theorem next_rents (hstaffed : Staffed R s) (hnext : s.Next i)
    (hserves : s.pool.Serves R.maxRefills (s.need R)) : ∃ t, Calmly R s t ∧ i ∈ t.rented := by
  obtain ⟨t, hcalm, hfree, hserves', hsame⟩ := comes_free hstaffed hserves
  have hwaiting : ∀ j, t.tasks j = .waiting ↔ s.tasks j = .waiting := by
    intro j
    rcases hsame j with heq | ⟨hrunning, hended⟩
    · rw [heq]
    · refine ⟨fun heq => ?_, fun heq => ?_⟩
      · rw [heq] at hended
        cases hended
      · rw [heq] at hrunning
        cases hrunning
  have hnext' : t.Next i := ⟨(hwaiting i).mpr hnext.1, fun j hj heq =>
    hnext.2 j hj ((hwaiting j).mp heq)⟩
  have htook : t.step R (.took i) = some { t with
      tasks := Function.update t.tasks i (.asking 0), busy := t.busy ++ [i] } :=
    if_pos ⟨hnext', hfree⟩
  obtain ⟨pool, offer, hstep, -⟩ := asking_rents (n := 0) (s := { t with
    tasks := Function.update t.tasks i (.asking 0), busy := t.busy ++ [i] })
    (Function.update_self _ _ _) hserves'
  exact ⟨_, hcalm.trans (.trans (.single rfl htook) (.single rfl hstep)), by simp [Threads.put]⟩

theorem need_congr {s s' : Threads R.size} (hbusy : s'.busy = s.busy)
    (htasks : ∀ i ∈ s.busy, s'.tasks i = s.tasks i) : s'.need R = s.need R := by
  have hblocked : s'.Blocked R ↔ s.Blocked R := by
    rw [Threads.Blocked, Threads.Blocked, hbusy]
    refine and_congr_right fun _ => forall₂_congr fun i hi => ?_
    rw [htasks i hi]
  rw [Threads.need, Threads.need]
  exact if_congr hblocked rfl rfl

/-- Outside a handler, whatever the calm events are that may happen: a leg that is not started
can come to rent exactly as long as one is left and an offer is. -/
theorem noLateRent_iff (hstaffed : Staffed R s) {Q : ThreadEvent R.size → Prop}
    (hQ : ∀ e : ThreadEvent R.size, e.calm = true → Q e) (hmain : s.main.base = s.main) :
    NoLateRent R Q s ↔ s.NothingLeft R ∨ ¬ s.pool.Serves R.maxRefills (s.need R) := by
  refine ⟨fun h => ?_, fun h => h.elim (noLateRent_of_nothingLeft hstaffed · Q)
    (noLateRent_of_not_serves hstaffed · Q)⟩
  by_contra hnot
  rw [not_or, not_not] at hnot
  obtain ⟨hleft, hserves⟩ := hnot
  have hlate : ∀ i, (s.tasks i).unstarted = true → ∀ t, Calmly R s t → i ∉ t.rented :=
    fun i hi t hcalm => h t (hcalm.mono hQ) i hi
  by_cases hwaiting : ∃ i, s.tasks i = .waiting
  · obtain ⟨i, hnext⟩ := exists_next hwaiting
    obtain ⟨t, hcalm, hrented⟩ := next_rents hstaffed hnext hserves
    exact hlate i (by rw [hnext.1]; rfl) t hcalm hrented
  · -- the next leg is submitted first
    rw [not_exists] at hwaiting
    have hsub : ∃ k, s.main = .submitting k ∧ k ≠ R.size := by
      by_contra hnone
      push Not at hnone
      exact hleft ⟨hwaiting, fun k hk => hnone k (hmain ▸ hk)⟩
    obtain ⟨k, hsub, hk⟩ := hsub
    have hsubmitted := hstaffed.submitted
    rw [hsub] at hsubmitted
    have hk : k < R.size := Nat.lt_of_le_of_ne hsubmitted.1 hk
    have htask : s.tasks ⟨k, hk⟩ = .unsubmitted := (hsubmitted.2 ⟨k, hk⟩).mpr le_rfl
    have hstep : s.step R .submitted = some { s with
        tasks := Function.update s.tasks ⟨k, hk⟩ .waiting, main := .submitting (k + 1) } := by
      simp [Threads.step, hsub, hk]
    have hserves' : s.pool.Serves R.maxRefills (Threads.need R { s with
        tasks := Function.update s.tasks ⟨k, hk⟩ .waiting, main := .submitting (k + 1) }) := by
      have hneed : Threads.need R { s with
          tasks := Function.update s.tasks ⟨k, hk⟩ .waiting, main := .submitting (k + 1) } =
          s.need R := by
        refine need_congr rfl fun j hj => Function.update_of_ne (fun heq => ?_) _ _
        rw [hstaffed.busy, heq, htask] at hj
        cases hj
      rw [hneed]
      exact hserves
    obtain ⟨t, hcalm, hrented⟩ := next_rents (i := ⟨k, hk⟩) (hstaffed.step hstep)
      ⟨Function.update_self _ _ _, fun j hj heq =>
        hwaiting j ((Function.update_of_ne hj.ne _ _).symm.trans heq)⟩ hserves'
    exact hlate ⟨k, hk⟩ (by rw [htask]; rfl) t (.trans (.single rfl hstep) hcalm) hrented

end RunFarm
