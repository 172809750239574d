import RunFarm.Fleet.LateRents

/-! The legs of a campaign, step by step, are what the tasks on the workers abstract. -/
set_option autoImplicit false

namespace RunFarm
open Files Transition Relation

variable {α : Type} {ex : Executor α} {leg : FleetLeg α} {s s' : LegState α} {e : LegEvent α}
  {t : LegTask}

def Phase.onHost : Phase α → Bool
  | .renting => false
  | p => p.onOffer

def LegTask.Shows (leg : FleetLeg α) (t : LegTask) (s : LegState α) : Prop :=
  match t with
  | .asking tried => s.phase = .queued ∧ s.tried = tried
  | .renting tried _ => s.phase = .renting ∧ s.tried = tried
  | .hosting tried _ _ => s.phase.onHost = true ∧ s.tried = tried ∧
      ∀ r, s.phase = .closing r → r.label = leg.label
  | .done r => s.phase = .settled r
  | .failed _ => s.phase = .halted
  | .unsubmitted | .waiting | .cancelled => False

def Works (leg : FleetLeg α) (t t' : LegTask) : Prop :=
  ∃ maxRefills pool live we pool' live',
    work maxRefills leg pool live t we = some (pool', live', t')

theorem shows_queued (h : t.Shows leg s) (hphase : s.phase = .queued) :
    t = .asking s.tried := by
  cases t <;> simp_all [LegTask.Shows, Phase.onHost, Phase.onOffer]

theorem shows_renting (h : t.Shows leg s) (hphase : s.phase = .renting) :
    ∃ offer, t = .renting s.tried offer := by
  cases t <;> simp_all [LegTask.Shows, Phase.onHost]

theorem shows_hosting (h : t.Shows leg s) (hphase : s.phase.onHost = true) :
    ∃ offer host, t = .hosting s.tried offer host := by
  cases t <;> simp_all [LegTask.Shows, Phase.onHost, Phase.onOffer]

theorem verdictResult_label (leg : FleetLeg α) (d : Disk α) :
    (verdictResult leg d).label = leg.label := by
  unfold verdictResult
  split <;> rfl

theorem afterValidation_shown (leg : FleetLeg α) (report : ArrivalReport) :
    (afterValidation leg report).onHost = true ∧
      ∀ r, afterValidation leg report = .closing r → r.label = leg.label := by
  unfold afterValidation
  split
  · exact ⟨rfl, fun r hr => by cases hr⟩
  · refine ⟨rfl, fun r hr => ?_⟩
    cases hr
    rfl

theorem afterFetch_shown (ex : Executor α) (leg : FleetLeg α) (d : Disk α) :
    (afterFetch ex leg d).onHost = true ∧
      ∀ r, afterFetch ex leg d = .closing r → r.label = leg.label := by
  unfold afterFetch
  split
  · split
    · split
      · exact afterValidation_shown leg _
      · exact ⟨rfl, fun r hr => by cases hr⟩
    · exact ⟨rfl, fun r hr => by cases hr⟩
  · refine ⟨rfl, fun r hr => ?_⟩
    cases hr
    rfl

theorem afterFailure_shown {x : Raised} (hphase : s'.phase = afterRaise leg x)
    (htried : s'.tried = s.tried) : (afterFailure leg s.tried x).Shows leg s' := by
  unfold afterRaise at hphase
  unfold afterFailure
  split at hphase <;> simp_all [LegTask.Shows]

theorem leg_shown (hs : s.step ex leg e = some s') (h : t.Shows leg s) :
    ∃ t', t'.Shows leg s' ∧ (t' = t ∨ Works leg t t') := by
  -- a step on the host
  have hstay : ∀ {s' : LegState α}, s.phase.onHost = true → s'.tried = s.tried →
      s'.phase.onHost = true → (∀ r, s'.phase = .closing r → r.label = leg.label) →
      ∃ t', t'.Shows leg s' ∧ (t' = t ∨ Works leg t t') := by
    intro s' hon htried hon' hlabel
    obtain ⟨offer, host, rfl⟩ := shows_hosting h hon
    exact ⟨.hosting s.tried offer host, ⟨hon', htried, hlabel⟩, .inl rfl⟩
  have hno : ∀ {p : Phase α}, (∀ r, p ≠ .closing r) → ∀ r, p = .closing r → r.label = leg.label :=
    fun hp r hr => absurd hr (hp r)
  cases leg_step hs with
  | offered hphase =>
    obtain rfl := shows_queued h hphase
    exact ⟨.renting (s.tried + 1) anyOffer, ⟨rfl, rfl⟩,
      .inr ⟨0, ⟨[anyOffer], 0⟩, [], .asked (.ok []), ⟨[], 0⟩, [], rfl⟩⟩
  | drained hphase =>
    obtain rfl := shows_queued h hphase
    exact ⟨.done (noOffers leg s.tried), rfl,
      .inr ⟨0, ⟨[], 0⟩, [], .asked (.ok []), ⟨[], 0⟩, [], rfl⟩⟩
  | broke hphase =>
    obtain rfl := shows_queued h hphase
    exact ⟨.failed hostError, rfl,
      .inr ⟨1, ⟨[], 0⟩, [], .asked (.error hostError), ⟨[], 1⟩, [], rfl⟩⟩
  | started hphase =>
    obtain ⟨offer, rfl⟩ := shows_renting h hphase
    exact ⟨.hosting s.tried offer (.text ""), ⟨rfl, rfl, fun r hr => by cases hr⟩,
      .inr ⟨0, ⟨[], 0⟩, [], .hosted (.text ""), ⟨[], 0⟩, _, rfl⟩⟩
  | closed r hphase =>
    obtain ⟨offer, host, rfl⟩ := shows_hosting h (by rw [hphase]; rfl)
    refine ⟨.done r, rfl,
      .inr ⟨0, ⟨[], 0⟩, [], .closed r.status r.detail, ⟨[], 0⟩, untrack [] host, ?_⟩⟩
    rw [work, ← h.2.2 r hphase]
  | raised x hphase =>
    by_cases hrenting : s.phase = .renting
    · obtain ⟨offer, rfl⟩ := shows_renting h hrenting
      exact ⟨afterFailure leg s.tried x, afterFailure_shown rfl rfl,
        .inr ⟨0, ⟨[], 0⟩, [], .raised x, ⟨[], 0⟩, [], rfl⟩⟩
    · obtain ⟨offer, host, rfl⟩ := shows_hosting h <| by
        generalize s.phase = p at hphase hrenting
        cases p <;> first | exact hphase | exact absurd rfl hrenting
      exact ⟨afterFailure leg s.tried x, afterFailure_shown rfl rfl,
        .inr ⟨0, ⟨[], 0⟩, [], .raised x, ⟨[], 0⟩, _, rfl⟩⟩
  | streamed log d hphase =>
    exact hstay (by rw [hphase]; rfl) rfl (by dsimp only; rw [hphase]; rfl)
      (hno (by simp [hphase]))
  | failed rc out hphase =>
    refine hstay (by rw [hphase]; rfl) rfl rfl fun r hr => ?_
    cases hr
    rfl
  | nothing rc out hphase => exact hstay (by rw [hphase]; rfl) rfl rfl (hno (by simp))
  | exited rc out d hphase => exact hstay (by rw [hphase]; rfl) rfl rfl (hno (by simp))
  | copied landed hphase => exact hstay (by rw [hphase]; rfl) rfl rfl (hno (by simp))
  | moved op ops d hphase => exact hstay (by rw [hphase]; rfl) rfl rfl (hno (by simp))
  | published hphase => exact hstay (by rw [hphase]; rfl) rfl rfl (hno (by simp))
  | checked hphase =>
    have hshown := afterFetch_shown ex leg s.disk
    exact hstay (by rw [hphase]; rfl) rfl hshown.1 hshown.2
  | scanned p paths report hphase => exact hstay (by rw [hphase]; rfl) rfl rfl (hno (by simp))
  | validated report hphase =>
    have hshown := afterValidation_shown leg (closeReport report)
    exact hstay (by rw [hphase]; rfl) rfl hshown.1 hshown.2
  | judged hphase =>
    refine hstay (by rw [hphase]; rfl) rfl rfl fun r hr => ?_
    cases hr
    exact verdictResult_label leg s.disk
  | pull => exact ⟨t, h, .inl rfl⟩

theorem run_shown {events : List (LegEvent α)} (hcomplete : complete leg s.disk = false)
    (h : exec (LegState.step ex leg) (s.launch leg) events = some s') :
    ∃ t, ReflTransGen (Works leg) (.asking 0) t ∧ t.Shows leg s' := by
  refine exec_keeps (I := fun s => ∃ t, ReflTransGen (Works leg) (.asking 0) t ∧ t.Shows leg s)
    (fun hs ⟨t, hworks, hshows⟩ => ?_) h ⟨.asking 0, .refl, ?_⟩
  · obtain ⟨t', hshows', rfl | hstep⟩ := leg_shown hs hshows
    · exact ⟨t', hworks, hshows'⟩
    · exact ⟨t', hworks.tail hstep, hshows'⟩
  · rw [LegState.launch, if_neg (by simp [hcomplete])]
    exact ⟨rfl, rfl⟩

end RunFarm
