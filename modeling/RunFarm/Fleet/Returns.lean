import RunFarm.Fleet.BudgetHalt

/-! What `run` returns: one result for each leg, in the order of the legs. -/
set_option autoImplicit false

namespace RunFarm
open Files Python Transition

variable {α : Type} {R : FleetRun α} {s s' t : Threads R.size} {e : ThreadEvent R.size}

/-- No signal, and no `BudgetExceeded` from `rent`. -/
def ThreadEvent.ordinary {n : Nat} : ThreadEvent n → Bool
  | .worked _ (.raised x) => x.exc.kind ≠ .budgetExceeded
  | e => e.quiet

/-- The provider's `offers` does not raise where the pool calls it. -/
def Answers (R : FleetRun α) (s : Threads R.size) : ThreadEvent R.size → Prop
  | .worked _ (.asked (.error _)) => ¬ s.pool.drained R.maxRefills
  | _ => True

instance (R : FleetRun α) (s : Threads R.size) :
    (e : ThreadEvent R.size) → Decidable (Answers R s e)
  | .worked _ (.asked (.error _)) => inferInstanceAs (Decidable (¬ _))
  | .worked _ (.asked (.ok _)) | .worked _ (.hosted _) | .worked _ (.closed _ _)
  | .worked _ (.raised _) | .submitted | .listened _ | .collected | .cancelled | .left | .joined
  | .took _ | .signalled | .destroyed | .unwound | .chained => inferInstanceAs (Decidable True)

theorem quiet_of_ordinary (h : e.ordinary = true) : e.quiet = true := by
  cases e <;> first | rfl | exact h

theorem label_inj {a b : FleetLeg α} (ha : a ∈ R.legs) (hb : b ∈ R.legs)
    (h : a.label = b.label) : a = b :=
  List.inj_on_of_nodup_map R.unique ha hb h

theorem leg_pending (i : Fin R.size) : R.leg i ∈ R.legs ∧ R.skips (R.leg i) = false := by
  have hmem : R.leg i ∈ R.pending := List.get_mem _ _
  simpa [FleetRun.pending] using hmem

theorem leg_inj {i j : Fin R.size} (h : (R.leg i).label = (R.leg j).label) : i = j := by
  have hnodup : R.pending.Nodup := (List.Nodup.of_map _ R.unique).sublist List.filter_sublist
  exact List.nodup_iff_injective_get.mp hnodup
    (label_inj (leg_pending i).1 (leg_pending j).1 h)

theorem exists_leg {leg : FleetLeg α} (h : leg ∈ R.legs) (hskip : R.skips leg = false) :
    ∃ i, R.leg i = leg := by
  have hmem : leg ∈ R.pending := by simpa [FleetRun.pending] using ⟨h, hskip⟩
  obtain ⟨i, hi⟩ := List.get_of_mem hmem
  exact ⟨i, hi⟩

theorem skipped_get {leg : FleetLeg α} (h : leg ∈ R.legs) (hskip : R.skips leg = true) :
    R.skipped.get leg.label = some (skipResult leg) := by
  have hspec := Dict.latest_spec (fun leg : FleetLeg α => some (leg.label, skipResult leg))
    (R.legs.filter R.skips) leg.label
  cases hget : R.skipped.get leg.label with
  | none => exact absurd rfl (hspec.2.mp hget leg (List.mem_filter.mpr ⟨h, hskip⟩) _)
  | some r =>
    obtain ⟨leg', hmem, heq⟩ := hspec.1 r hget
    simp only [Option.some.injEq, Prod.mk.injEq] at heq
    rw [← heq.2, label_inj (List.mem_filter.mp hmem).1 h heq.1]

theorem WorkStep.label {maxRefills : Int} {leg : FleetLeg α} {pool pool' : OfferPool}
    {live live' : List InstanceId} {task task' : LegTask} {we : WorkEvent} {r : LegResult}
    (h : WorkStep maxRefills leg pool live task we pool' live' task') (htask : task' = .done r) :
    r.label = leg.label := by
  have hfailure : ∀ tried e, afterFailure leg tried e = .done r → r.label = leg.label := by
    intro tried e heq
    rcases afterFailure_kinds leg tried e with ⟨h, -⟩ | ⟨-, h | h⟩ <;> rw [h] at heq <;>
      cases heq
    rfl
  cases h with
  | drained | closed =>
    cases htask
    rfl
  | refused tried offer e => exact hfailure tried e htask
  | died tried offer host e => exact hfailure tried e htask
  | _ => cases htask

/-- No leg has failed: every result waits for the main thread, or is in `results`. -/
structure Filed (R : FleetRun α) (s : Threads R.size) : Prop where
  skips : ∀ leg ∈ R.legs, R.skips leg = true → s.results.get leg.label = some (skipResult leg)
  labels : ∀ i r, s.tasks i = .done r → r.label = (R.leg i).label
  collected : ∀ i r, s.tasks i = .done r →
    i ∈ s.finished ∨ s.results.get (R.leg i).label = some r
  unfailed : ∀ i, s.tasks i ≠ .cancelled ∧ ∀ x, s.tasks i ≠ .failed x
  main : match s.main with
    | .submitting _ | .collecting => True
    | .draining x => x = none ∧ s.finished = [] ∧ ∀ i, (s.tasks i).ended = true
    | .ended o => o = R.outcome s.results none ∧ s.finished = [] ∧ ∀ i, (s.tasks i).ended = true
    | _ => False

theorem Filed.start (R : FleetRun α) (offers : List Offer) : Filed R (R.init offers) := by
  refine ⟨fun leg hmem hskip => skipped_get hmem hskip, by simp [FleetRun.init],
    by simp [FleetRun.init], by simp [FleetRun.init], ?_⟩
  unfold FleetRun.init
  dsimp only
  by_cases hsize : R.size = 0
  · rw [if_pos hsize]
    refine ⟨rfl, rfl, fun i => ?_⟩
    have := i.isLt
    omega
  · rw [if_neg hsize]
    trivial

theorem Filed.of_tasks (h : Filed R s) {s' : Threads R.size} (hresults : s'.results = s.results)
    (hfinished : ∀ i ∈ s.finished, i ∈ s'.finished)
    (htasks : ∀ i, s'.tasks i = s.tasks i ∨ (s'.tasks i).ended = false ∨
      ∃ r, s'.tasks i = .done r ∧ r.label = (R.leg i).label ∧ i ∈ s'.finished)
    (hmain : s'.main = .collecting ∨ ∃ k, s'.main = .submitting k) : Filed R s' := by
  refine ⟨hresults ▸ h.skips, fun i r hr => ?_, fun i r hr => ?_, fun i => ?_, ?_⟩
  · rcases htasks i with heq | hopen | ⟨r', heq, hlabel, -⟩
    · exact h.labels i r (heq.symm.trans hr)
    · rw [hr] at hopen
      cases hopen
    · rw [heq] at hr
      cases hr
      exact hlabel
  · rw [hresults]
    rcases htasks i with heq | hopen | ⟨r', heq, -, hmem⟩
    · exact (h.collected i r (heq.symm.trans hr)).imp_left (hfinished i)
    · rw [hr] at hopen
      cases hopen
    · exact .inl hmem
  · rcases htasks i with heq | hopen | ⟨r', heq, -, -⟩
    · rw [heq]
      exact h.unfailed i
    · refine ⟨fun heq => ?_, fun x heq => ?_⟩ <;> rw [heq] at hopen <;> cases hopen
    · rw [heq]
      simp
  · rcases hmain with hmain | ⟨k, hmain⟩ <;> rw [hmain] <;> trivial

theorem Filed.collects (h : Filed R s) {i : Fin R.size} {rest : List (Fin R.size)} {r : LegResult}
    (hmain : s.main = .collecting) (hqueue : s.finished = i :: rest) (htask : s.tasks i = .done r) :
    Filed R { s with finished := rest, results := s.results.set r.label r } := by
  have hlabel := h.labels i r htask
  refine ⟨fun leg hmem hskip => ?_, h.labels, fun j r' hr' => ?_, h.unfailed, ?_⟩
  · -- the leg that is met is none of those that were skipped
    have hne : leg.label ≠ r.label := by
      intro heq
      rw [label_inj hmem (leg_pending i).1 (heq.trans hlabel), (leg_pending i).2] at hskip
      cases hskip
    rw [Dict.get_set, if_neg hne]
    exact h.skips leg hmem hskip
  · dsimp only
    rw [Dict.get_set, hlabel]
    by_cases hj : j = i
    · subst hj
      rw [htask] at hr'
      cases hr'
      exact .inr (if_pos rfl)
    · rw [if_neg fun heq => hj (leg_inj heq)]
      refine (h.collected j r' hr').imp_left fun hmem => ?_
      rw [hqueue] at hmem
      exact (List.mem_cons.mp hmem).resolve_left hj
  · dsimp only
    rw [hmain]
    trivial

theorem Filed.open (h : Filed R s) {i : Fin R.size} (hi : (s.tasks i).ended = false) :
    s.main = .collecting ∨ ∃ k, s.main = .submitting k := by
  have hmain := h.main
  cases hm : s.main with
  | submitting k => exact .inr ⟨k, rfl⟩
  | collecting => exact .inl rfl
  | draining x | ended o =>
    rw [hm] at hmain
    rw [hmain.2.2 i] at hi
    cases hi
  | cancelling | handling =>
    rw [hm] at hmain
    exact hmain.elim

theorem Filed.step (h : Filed R s) (hordinary : e.ordinary = true) (hanswers : Answers R s e)
    (hs : s.step R e = some s') : Filed R s' := by
  have hmain := h.main
  have hupdate : ∀ {i : Fin R.size} {task : LegTask}, task.ended = false → ∀ j,
      Function.update s.tasks i task j = s.tasks j ∨
        (Function.update s.tasks i task j).ended = false := by
    intro i task htask j
    by_cases hj : j = i
    · subst hj
      rw [Function.update_self]
      exact .inr htask
    · exact .inl (Function.update_of_ne hj _ _)
  cases thread_step hs with
  | submitted k hk =>
    exact h.of_tasks rfl (fun i hi => hi) (fun i => (hupdate rfl i).imp_right .inl)
      (.inr ⟨k + 1, rfl⟩)
  | listened order hsub hperm =>
    exact h.of_tasks rfl (fun i hi => hperm.mem_iff.mpr hi) (fun i => .inl rfl) (.inl rfl)
  | result i rest r hm hqueue htask => exact h.collects hm hqueue htask
  | halted i rest x hm hqueue htask => exact absurd htask ((h.unfailed i).2 x)
  | broke i rest x hm hqueue htask => exact absurd htask ((h.unfailed i).2 x)
  | cancelled x k hk hm | kept x k hk hm =>
    rw [hm] at hmain
    exact hmain.elim
  | swept x hm =>
    rw [hm] at hmain
    exact hmain.elim
  | left hm hqueue hall =>
    exact ⟨h.skips, h.labels, h.collected, h.unfailed, rfl, hqueue, hall⟩
  | joined x hm hall =>
    rw [hm] at hmain
    obtain ⟨rfl, hqueue, hended⟩ := hmain
    exact ⟨h.skips, h.labels, h.collected, h.unfailed, rfl, hqueue, hended⟩
  | took i htask =>
    exact h.of_tasks rfl (fun i hi => hi) (fun j => (hupdate rfl j).imp_right .inl)
      (h.open (i := i) (by rw [htask]; rfl))
  | worked i we pool live task hstep =>
    refine h.of_tasks rfl (fun j hj => ?_) (fun j => ?_)
      (h.open (ended_of_running hstep.source))
    · obtain ⟨more, hmore⟩ := put_finished s i pool live task
      rw [hmore]
      exact List.mem_append_left more hj
    · by_cases hj : j = i
      · subst hj
        rw [show (s.put j pool live task).tasks j = task from Function.update_self _ _ _]
        refine .inr ?_
        obtain ⟨-, hstarted⟩ := hstep.target
        cases htask : task with
        | done r =>
          refine .inr ⟨r, rfl, hstep.label htask, ?_⟩
          simp [Threads.put, LegTask.ended]
        | failed x =>
          -- neither the provider's `rent` nor its `offers`
          rcases hstep.failed htask with ⟨hkind, rfl⟩ | ⟨hdrained, rfl⟩
          · simp [ThreadEvent.ordinary, hkind] at hordinary
          · exact absurd hdrained hanswers
        | unsubmitted | waiting | cancelled =>
          rw [htask] at hstarted
          cases hstarted
        | asking | renting | hosting => exact .inl rfl
      · exact .inl (Function.update_of_ne hj _ _)
  | signalled | destroyed | unwound | chained => cases hordinary

theorem mapM_labels (legs : List (FleetLeg α)) (find : FleetLeg α → Option LegResult)
    (h : ∀ leg ∈ legs, ∃ r, find leg = some r ∧ r.label = leg.label) :
    ∃ rs, legs.mapM find = some rs ∧ rs.map LegResult.label = legs.map FleetLeg.label ∧
      ∀ leg ∈ legs, ∀ r, find leg = some r → r ∈ rs := by
  induction legs with
  | nil => exact ⟨[], rfl, rfl, by simp⟩
  | cons leg legs ih =>
    obtain ⟨r, hr, hlabel⟩ := h leg (.head _)
    obtain ⟨rs, hrs, hlabels, hmem⟩ := ih fun leg' hleg' => h leg' (.tail _ hleg')
    refine ⟨r :: rs, by simp [hr, hrs], by rw [List.map_cons, List.map_cons, hlabel, hlabels], ?_⟩
    intro leg' hleg' r' hr'
    rcases List.mem_cons.mp hleg' with rfl | hleg'
    · rw [hr] at hr'
      cases hr'
      exact .head _
    · exact .tail _ (hmem leg' hleg' r' hr')

theorem Filed.returns (h : Filed R s) {o : Outcome} (hmain : s.main = .ended o) :
    ∃ rs, o = .returned rs ∧ rs.map LegResult.label = R.legs.map FleetLeg.label ∧
      ∀ i, ∃ r ∈ rs, s.tasks i = .done r := by
  have hended := h.main
  rw [hmain] at hended
  obtain ⟨hout, hqueue, hall⟩ := hended
  have hdone : ∀ i, ∃ r, s.tasks i = .done r ∧ s.results.get (R.leg i).label = some r := by
    intro i
    have hi := hall i
    obtain ⟨hcancelled, hfailed⟩ := h.unfailed i
    cases htask : s.tasks i with
    | done r =>
      refine ⟨r, rfl, (h.collected i r htask).resolve_left ?_⟩
      rw [hqueue]
      exact List.not_mem_nil
    | failed x => exact absurd htask (hfailed x)
    | cancelled => exact absurd htask hcancelled
    | _ =>
      rw [htask] at hi
      cases hi
  have hfind : ∀ leg ∈ R.legs, ∃ r, s.results.get leg.label = some r ∧ r.label = leg.label := by
    intro leg hleg
    cases hskip : R.skips leg with
    | true => exact ⟨skipResult leg, h.skips leg hleg hskip, rfl⟩
    | false =>
      obtain ⟨i, rfl⟩ := exists_leg hleg hskip
      obtain ⟨r, htask, hget⟩ := hdone i
      exact ⟨r, hget, h.labels i r htask⟩
  obtain ⟨rs, hrs, hlabels, hmem⟩ := mapM_labels R.legs (fun leg => s.results.get leg.label) hfind
  refine ⟨rs, ?_, hlabels, fun i => ?_⟩
  · rw [hout, FleetRun.outcome, hrs]
  · obtain ⟨r, htask, hget⟩ := hdone i
    exact ⟨r, hmem (R.leg i) (leg_pending i).1 r hget, htask⟩

def Outcome.isStopped : Outcome → Bool
  | .stopped _ => true
  | _ => false

def Threads.Doomed (R : FleetRun α) (s : Threads R.size) : Prop :=
  match s.main with
  | .submitting _ => ∃ i ∈ s.finished, ∃ x, s.tasks i = .failed x
  | _ => s.Bound R fun o => o.isStopped = true

theorem Threads.Doomed.step (h : s.Doomed R) (horderly : Orderly R s) (hquiet : e.quiet = true)
    (hs : s.step R e = some s') : s'.Doomed R := by
  unfold Threads.Doomed at h
  split at h
  · rename_i k hmain
    obtain ⟨i, hi, x, hx⟩ := h
    have hi' := finished_stays hmain hquiet hs hi
    have hx' := (over_stays horderly.toStaffed hs (horderly.futures i hi)).trans hx
    unfold Threads.Doomed
    split
    · exact ⟨i, hi', x, hx'⟩
    · rename_i hnot
      have hcollecting : s'.main = .collecting := by
        cases thread_step hs with
        | submitted k' => exact absurd rfl (hnot _)
        | listened => rfl
        | took | worked => exact absurd hmain (hnot k)
        | result _ _ _ hm | halted _ _ _ hm | broke _ _ _ hm | cancelled _ _ _ hm
        | kept _ _ _ hm | swept _ hm | left hm | joined _ hm =>
          rw [hmain] at hm
          cases hm
        | signalled | destroyed | unwound | chained => cases hquiet
      rw [Threads.Bound, hcollecting]
      obtain ⟨y, hy⟩ := firstFailure_isSome hi' hx'
      exact ⟨y, hy, rfl⟩
  · have hbound := Threads.Bound.step h horderly hquiet hs
    unfold Threads.Doomed
    split
    · rename_i hmain
      rw [Threads.Bound, hmain] at hbound
      exact hbound.elim
    · exact hbound

theorem Filed.dooms (h : Filed R s) (hs : s.step R e = some s') (hnot : ¬ Answers R s e) :
    s'.Doomed R := by
  cases thread_step hs with
  | worked i we pool live task hstep =>
    have hopen := h.open (ended_of_running hstep.source)
    obtain ⟨x, rfl, hdrained⟩ : ∃ x, we = .asked (.error x) ∧ s.pool.drained R.maxRefills := by
      unfold Answers at hnot
      split at hnot
      · rename_i x heq
        cases heq
        exact ⟨x, rfl, not_not.mp hnot⟩
      · exact absurd trivial hnot
    have hfailed : ∃ y, task = .failed y := by
      generalize s.tasks i = task₀ at hstep
      cases hstep with
      | offered tried answer pool' offer hgot | drained tried answer pool' hgot =>
        rw [OfferPool.get, if_pos hdrained] at hgot
        cases hgot
      | broke tried answer pool' y hgot => exact ⟨y, rfl⟩
    obtain ⟨y, rfl⟩ := hfailed
    have hmem : i ∈ (s.put i pool live (.failed y)).finished := by
      simp [Threads.put, LegTask.ended]
    have htask : (s.put i pool live (.failed y)).tasks i = .failed y := Function.update_self _ _ _
    unfold Threads.Doomed Threads.Bound
    rw [show (s.put i pool live (.failed y)).main = s.main from rfl]
    rcases hopen with hmain | ⟨k, hmain⟩ <;> rw [hmain]
    · obtain ⟨z, hz⟩ := firstFailure_isSome hmem htask
      exact ⟨z, hz, rfl⟩
    · exact ⟨i, hmem, y, htask⟩
  | _ => exact absurd trivial hnot

/-- In every run that no signal and no `BudgetExceeded` meets, the call ends; it returns one
result for each leg, in their order, if and only if no listing raises. -/
theorem all_returned_iff (R : FleetRun α) (offers : List Offer)
    (events : List (ThreadEvent R.size)) (t : Threads R.size)
    (hordinary : ∀ e ∈ events, e.ordinary = true)
    (hrun : exec (Threads.step R) (R.init offers) events = some t) (hover : t.Over R) :
    ¬ Endless (fun e => e.ordinary = true) (Threads.step R) (R.init offers) ∧
    ((∃ rs, t.main = .ended (.returned rs) ∧
        rs.map LegResult.label = R.legs.map FleetLeg.label ∧ ∀ i, ∃ r ∈ rs, t.tasks i = .done r) ↔
      Along (Answers R) (Threads.step R) (R.init offers) events) := by
  have hstart := Orderly.start R offers
  have hquiet : ∀ e ∈ events, e.quiet = true := fun e he => quiet_of_ordinary (hordinary e he)
  obtain ⟨o, hmain⟩ := (hstart.keeps ⟨events, hquiet, hrun⟩).over hover
  refine ⟨?_, ?_, ?_⟩
  · rintro ⟨states, seq, hzero, hsteps⟩
    exact hstart.not_endless
      ⟨states, seq, hzero, fun k => ⟨quiet_of_ordinary (hsteps k).1, (hsteps k).2⟩⟩
  · rintro ⟨rs, hreturned, -⟩
    by_contra hnot
    obtain ⟨before, e, behind, s, s', rfl, halong, hbefore, hs, hbehind, hbreak⟩ :=
      exists_break hrun hnot
    rw [List.forall_mem_append, List.forall_mem_cons] at hordinary hquiet
    have hfiled := exec_keeps_along (I := Filed R) (fun hG hs h => h.step hG.2 hG.1 hs)
      (halong.and_mem hordinary.1) hbefore (Filed.start R offers)
    have horderly := hstart.keeps ⟨before, hquiet.1, hbefore⟩
    have hdoomed := exec_keeps_mem (I := fun s => Orderly R s ∧ s.Doomed R)
      (fun he hs ⟨h₁, h₂⟩ => ⟨h₁.step he hs, h₂.step h₁ he hs⟩) hquiet.2.2 hbehind
      ⟨horderly.step hquiet.2.1 hs, hfiled.dooms hs hbreak⟩
    have hstopped := hdoomed.2
    simp only [Threads.Doomed, Threads.Bound, hreturned] at hstopped
    cases hstopped
  · intro halong
    have hfiled := exec_keeps_along (I := Filed R) (fun hG hs h => h.step hG.2 hG.1 hs)
      (halong.and_mem hordinary) hrun (Filed.start R offers)
    obtain ⟨rs, rfl, hlabels, hdone⟩ := hfiled.returns hmain
    exact ⟨rs, hmain, hlabels, hdone⟩

def firstDone : List (ThreadEvent sampleRun.size) :=
  [.submitted, .submitted, .listened [], .took first, .worked first (.asked (.ok [])),
    .worked first (.hosted (.text "h1")), .worked first (.closed .ok ""), .took second]

def listingRaised : List (ThreadEvent sampleRun.size) :=
  firstDone ++ [.worked second (.asked (.error hostError)), .collected, .collected, .joined]

theorem result_lost : ¬ ∀ (R : FleetRun Unit) (offers : List Offer)
    (events : List (ThreadEvent R.size)) (t : Threads R.size),
    (∀ e ∈ events, e.ordinary = true) →
    exec (Threads.step R) (R.init offers) events = some t → t.Over R →
    ∃ rs, t.main = .ended (.returned rs) ∧
      rs.map LegResult.label = R.legs.map FleetLeg.label ∧ ∀ i, ∃ r ∈ rs, t.tasks i = .done r := by
  intro h
  have hordinary : ∀ e ∈ listingRaised, e.ordinary = true := by decide
  obtain ⟨rs, hreturned, -⟩ := h { sampleRun with maxRefills := 1 } [anyOffer] listingRaised _
    hordinary rfl (over_of_ended rfl (by decide))
  cases hreturned

/-- The second leg's `rent` raises. -/
def rentRaised : List (ThreadEvent sampleRun.size) :=
  firstDone ++ [.worked second (.asked (.ok [])), .worked second (.raised hostError), .collected,
    .collected, .left, .joined]

theorem error_returned : ∃ t,
    exec (Threads.step sampleRun) (sampleRun.init [anyOffer, anyOffer]) rentRaised = some t ∧
    ∃ rs, t.main = .ended (.returned rs) ∧ rs.map LegResult.label = ["L1", "L2"] ∧
      ∀ i, ∃ r ∈ rs, t.tasks i = .done r := by
  refine ⟨_, rfl, ?_⟩
  exact (all_returned_iff sampleRun [anyOffer, anyOffer] rentRaised _ (by decide) rfl
    (over_of_ended rfl (by decide))).2.mpr (by decide)

end RunFarm
