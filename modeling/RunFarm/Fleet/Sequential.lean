import RunFarm.Fleet.Campaign
import RunFarm.Fleet.Fetch

/-! With nobody else at work on the leg directory, the steps of a leg after its command come
to what `_run_leg` computes in one go. -/
set_option autoImplicit false

namespace RunFarm
open Files Transition

variable {α : Type} {ex : Executor α} {leg : FleetLeg α} {s : LegState α}

theorem moves_run {ops : List (Op α)} {d : Disk α} (hphase : s.phase = .publishing ops)
    (h : run s.disk ops = some d) : ∃ s', exec (LegState.step ex leg) s
      (List.replicate ops.length .moved) = some s' ∧ s'.phase = .publishing [] ∧ s'.disk = d := by
  induction ops generalizing s with
  | nil =>
    cases h
    exact ⟨s, rfl, hphase, rfl⟩
  | cons op ops ih =>
    obtain ⟨d₁, hexec, hrun⟩ := run_cons_some h
    let s₁ : LegState α := { s with
      disk := d₁, phase := .publishing ops, kept := s.kept ++ movedFile op }
    have hstep : s.step ex leg .moved = some s₁ := by simp [LegState.step, hphase, hexec, s₁]
    obtain ⟨s', hrest, hend⟩ := @ih s₁ rfl hrun
    refine ⟨s', ?_, hend⟩
    rw [List.length_cons, List.replicate_succ, exec_cons_of hstep, hrest]

theorem scans_report {paths : List Path} {report : ArrivalReport}
    (hphase : s.phase = .validating paths report) : ∃ s', exec (LegState.step ex leg) s
      (List.replicate (paths.length + 1) .scanned) = some s' ∧ s'.disk = s.disk ∧
      s'.phase = afterValidation leg
        (closeReport (paths.foldl (scanPath ex.formats s.disk) report)) := by
  induction paths generalizing s report with
  | nil =>
    refine ⟨{ s with phase := afterValidation leg (closeReport report) }, ?_, rfl, rfl⟩
    simp [exec, LegState.step, hphase]
  | cons p paths ih =>
    let s₁ : LegState α := { s with
      phase := .validating paths (scanPath ex.formats s.disk report p)
      kept := s.kept ++ readFile s.disk p }
    have hstep : s.step ex leg .scanned = some s₁ := by simp [LegState.step, hphase, s₁]
    obtain ⟨s', hrest, hend⟩ := @ih s₁ _ rfl
    refine ⟨s', ?_, hend⟩
    rw [List.length_cons, List.replicate_succ, exec_cons_of hstep, hrest]

theorem verdict_judges {report : ArrivalReport} (hphase : s.phase = afterValidation leg report) :
    ∃ events s', exec (LegState.step ex leg) s events = some s' ∧ s'.disk = s.disk ∧
      s'.phase = .closing (judgeArtifacts leg s.disk (refusal report)) := by
  unfold afterValidation at hphase
  cases hr : refusal report with
  | some bad =>
    rw [hr] at hphase
    exact ⟨[], s, rfl, rfl, hphase⟩
  | none =>
    rw [hr] at hphase
    refine ⟨[.judged], { s with phase := .closing (verdictResult leg s.disk) }, ?_, rfl, rfl⟩
    simp [exec, LegState.step, hphase]

theorem checking_judges (hphase : s.phase = .checking) :
    ∃ events s', exec (LegState.step ex leg) s events = some s' ∧ s'.disk = s.disk ∧
      s'.phase = .closing (judge ex leg s.disk) := by
  let s₁ : LegState α := { s with phase := afterFetch ex leg s.disk }
  have hstep : s.step ex leg .checked = some s₁ := by simp [LegState.step, hphase, s₁]
  have hrest : ∃ events s', exec (LegState.step ex leg) s₁ events = some s' ∧
      s'.disk = s.disk ∧ s'.phase = .closing (judge ex leg s.disk) := by
    cases hdone : done leg s.disk with
    | false =>
      refine ⟨[], s₁, rfl, rfl, ?_⟩
      simp [s₁, afterFetch, judge, hdone]
    | true =>
      cases hvalid : ex.validates leg with
      | false =>
        have hphase₁ : s₁.phase = .judging := by simp [s₁, afterFetch, hdone, hvalid]
        refine ⟨[.judged], { s₁ with phase := .closing (verdictResult leg s₁.disk) }, ?_, rfl, ?_⟩
        · simp [exec, LegState.step, hphase₁]
        · simp [judge, judgeArtifacts, Executor.validate, hdone, hvalid, s₁]
      | true =>
        cases hlist : listRoot s.disk (target leg s.disk) with
        | error report =>
          have hphase₁ : s₁.phase = afterValidation leg report := by
            simp [s₁, afterFetch, hdone, hvalid, hlist]
          obtain ⟨events, s', hexec, hdisk, hend⟩ := @verdict_judges _ ex _ _ _ hphase₁
          refine ⟨events, s', hexec, hdisk, ?_⟩
          simp [hend, judge, Executor.validate, verifyReport, hdone, hvalid, hlist, s₁]
        | ok paths =>
          have hphase₁ : s₁.phase = .validating paths { root := target leg s.disk } := by
            simp [s₁, afterFetch, hdone, hvalid, hlist]
          obtain ⟨s₂, hscan, hdisk₂, hphase₂⟩ := @scans_report _ ex leg _ _ _ hphase₁
          obtain ⟨events, s', hexec, hdisk, hend⟩ := @verdict_judges _ ex _ _ _ hphase₂
          refine ⟨List.replicate (paths.length + 1) .scanned ++ events, s', ?_,
            hdisk.trans hdisk₂, ?_⟩
          · rw [exec_append, hscan, Option.bind_some, hexec]
          · simp [hend, judge, Executor.validate, verifyReport, hdone, hvalid, hlist, hdisk₂, s₁]
  obtain ⟨events, s', hexec, hend⟩ := hrest
  exact ⟨.checked :: events, s', by rw [exec_cons_of hstep, hexec], hend⟩

theorem fetch_delivers {copy : CopyDown α} (hphase : s.phase = .running) (hfetch : leg.fetch ≠ "")
    (hpub : (publish copy.landed leg.marker s.disk).2 = true) (out : String) :
    ∃ events s', exec (LegState.step ex leg) s (.exited 0 out :: events) = some s' ∧
      s'.disk = (publish copy.landed leg.marker s.disk).1 ∧ s'.phase = .checking := by
  obtain ⟨hraises, hrun⟩ := publish_run hpub
  have hsteps : publishSteps copy.landed leg.marker =
      publishOps copy.landed (parts leg.marker) := by simp [publishSteps, hraises]
  obtain ⟨rest, hhead⟩ := publishSteps_head copy.landed leg.marker
  obtain ⟨d₀, hmade, hrest⟩ := run_cons_some (hhead ▸ hsteps ▸ hrun)
  let s₁ : LegState α := { s with
    pullers := s.pullers.map Puller.signal, disk := d₀, phase := .copying }
  have hstep₁ : s.step ex leg (.exited 0 out) = some s₁ := by
    simp [LegState.step, hphase, hfetch, hmade, s₁]
  let s₂ : LegState α := { s₁ with
    phase := .publishing (publishSteps copy.landed leg.marker), final := copy.landed.files }
  have hstep₂ : s₁.step ex leg (.copied copy.landed) = some s₂ := by
    simp [LegState.step, s₁, s₂]
  -- the directory is made once more before anything is moved
  have hrun₂ : run s₂.disk (publishSteps copy.landed leg.marker) =
      some (publish copy.landed leg.marker s.disk).1 := by
    rw [hhead, run_cons, mkdir_root hmade, Option.bind_some, hrest]
  obtain ⟨s₃, hmoves, hphase₃, hdisk₃⟩ := @moves_run _ ex leg s₂ _ _ rfl hrun₂
  let s₄ : LegState α := { s₃ with phase := .checking }
  have hstep₄ : s₃.step ex leg .moved = some s₄ := by
    simp [LegState.step, hphase₃, hraises, s₄]
  refine ⟨.copied copy.landed :: (List.replicate
    (publishSteps copy.landed leg.marker).length .moved ++ [.moved]), s₄, ?_, hdisk₃, rfl⟩
  rw [exec_cons_of hstep₁, exec_cons_of hstep₂, exec_append, hmoves, Option.bind_some,
    exec_cons_of hstep₄]
  rfl

theorem afterCommand_steps {copy : CopyDown α} {r : LegResult} (hphase : s.phase = .running)
    (h : (afterCommand ex leg copy s.disk).1 = some r) (out : String) :
    ∃ events s', exec (LegState.step ex leg) s (.exited 0 out :: events) = some s' ∧
      s'.disk = (afterCommand ex leg copy s.disk).2 ∧ s'.phase = .closing r := by
  by_cases hfetch : leg.fetch = ""
  · let s₁ : LegState α := { s with
      pullers := s.pullers.map Puller.signal, phase := .checking, final := [] }
    have hstep : s.step ex leg (.exited 0 out) = some s₁ := by
      simp [LegState.step, hphase, hfetch, s₁]
    obtain ⟨events, s', hexec, hdisk, hend⟩ := @checking_judges _ ex leg s₁ rfl
    simp only [afterCommand, hfetch, if_true, Option.some.injEq] at h
    refine ⟨events, s', by rw [exec_cons_of hstep, hexec], ?_, ?_⟩
    · simpa [afterCommand, hfetch] using hdisk
    · rw [hend, ← h]
  · have hdisk₀ := afterCommand_disk ex hfetch copy s.disk
    unfold afterCommand at h
    rw [if_neg hfetch, fetch_eq] at h
    cases hpub : (publish copy.landed leg.marker s.disk).2 with
    | false => simp [hpub] at h
    | true =>
      simp only [hpub, if_true, Option.some.injEq] at h
      obtain ⟨events, s₁, hfirst, hdisk₁, hphase₁⟩ := fetch_delivers hphase hfetch hpub out
      obtain ⟨later, s', hexec, hdisk, hend⟩ := @checking_judges _ ex leg s₁ hphase₁
      refine ⟨events ++ later, s', ?_, ?_, ?_⟩
      · rw [← List.cons_append, exec_append, hfirst, Option.bind_some, hexec]
      · rw [hdisk, hdisk₁, hdisk₀]
      · rw [hend, hdisk₁, h]

end RunFarm
