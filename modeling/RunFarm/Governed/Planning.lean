import RunFarm.Governed.Effect

/-! What `plan` and `gate_launch` leave: a planned row for each leg, and a config or a drop. -/
set_option autoImplicit false

namespace RunFarm
open Python

variable {S : Setting} {P : Policy} {c c' : FarmCampaign} {ok ok' : List RunConfig} {leg : Leg}
  {legs : List Leg}

theorem planLeg_spec (h : c.planLeg S P leg ok = (c', .ok ok')) :
    ∃ v : List String,
      c' = (c.enter leg.rid).mark leg.rid .planned v.isEmpty (joined v) ∧
      (v.isEmpty = true ∧ (∃ config, P.configFactory leg S.gtag S.requiredShas = .ok config ∧
          ok' = ok ++ [config]) ∨
        v.isEmpty = false ∧ ok' = ok) := by
  unfold FarmCampaign.planLeg at h
  dsimp only at h
  split at h
  · cases h
  · cases h
  · rename_i pre staged _ _
    refine ⟨pre ++ staged, ?_⟩
    split at h
    · rename_i hv
      split at h
      · cases h
      · rename_i config hconfig
        cases h
        exact ⟨rfl, .inl ⟨hv, config, hconfig, rfl⟩⟩
    · rename_i hv
      cases h
      exact ⟨rfl, .inr ⟨by simpa using hv, rfl⟩⟩

theorem planLeg_others (h : c.planLeg S P leg ok = (c', .ok ok')) {rid : String}
    (hne : rid ≠ leg.rid) : c'.cf.view rid = c.cf.view rid := by
  obtain ⟨v, rfl, _⟩ := planLeg_spec h
  rw [FarmCampaign.mark, view_mark_of_ne hne, FarmCampaign.enter, view_enter_of_ne hne]

theorem planLeg_self (h : c.planLeg S P leg ok = (c', .ok ok')) :
    (c'.cf.view leg.rid).Planned := by
  obtain ⟨v, rfl, _⟩ := planLeg_spec h
  rw [FarmCampaign.mark, view_mark_self, FarmCampaign.enter, view_enter_self]
  refine ⟨mark_row_isSome _ _ _ _, ?_, ?_⟩
  · rw [mark_stage_self]
    rfl
  · rw [mark_reason_of_ne _ _ _ (by decide), entered_reason]
    simp

theorem planLeg_configs (h : c.planLeg S P leg ok = (c', .ok ok')) : ok <+: ok' := by
  obtain ⟨v, _, ⟨_, config, _, rfl⟩ | ⟨_, rfl⟩⟩ := planLeg_spec h
  · exact ⟨[config], rfl⟩
  · exact List.prefix_rfl

theorem planLegs_all {I : String → FarmCampaign → List RunConfig → Prop}
    (hself : ∀ (leg : Leg) (c : FarmCampaign) (ok : List RunConfig) c' ok',
      c.planLeg S P leg ok = (c', .ok ok') → I leg.rid c' ok')
    (hothers : ∀ (leg : Leg) (c : FarmCampaign) (ok : List RunConfig) c' ok' rid,
      c.planLeg S P leg ok = (c', .ok ok') → rid ≠ leg.rid → I rid c ok → I rid c' ok')
    (h : c.planLegs S P legs ok = (c', .ok ok')) {rid : String}
    (hrid : rid ∈ legs.map Leg.rid ∨ I rid c ok) : I rid c' ok' := by
  induction legs generalizing c ok with
  | nil =>
    cases h
    simpa using hrid
  | cons leg legs ih =>
    unfold FarmCampaign.planLegs at h
    cases hleg : c.planLeg S P leg ok with
    | mk c₁ ok₁ =>
      rw [hleg] at h
      cases ok₁ with
      | error e => cases h
      | ok ok₁ =>
        refine ih h ?_
        by_cases heq : rid = leg.rid
        · rw [heq]
          exact .inr (hself leg c ok c₁ ok₁ hleg)
        · refine hrid.imp (fun hmem => ?_) (hothers leg c ok c₁ ok₁ rid hleg heq)
          rw [List.map_cons, List.mem_cons] at hmem
          exact hmem.resolve_left heq

theorem plan_legs {counts : FarmCampaign.Planned} (h : c.plan S P legs = (c', .ok counts)) :
    ∃ c₁, FarmCampaign.planLegs S P legs { c with gated := false } [] = (c₁, .ok c'.configs) ∧
      c'.cf = c₁.cf := by
  unfold FarmCampaign.plan at h
  dsimp only at h
  split at h
  · cases h
  · cases hlegs : FarmCampaign.planLegs S P legs { c with gated := false } [] with
    | mk c₁ ok =>
      rw [hlegs] at h
      cases ok with
      | error e => cases h
      | ok ok =>
        cases h
        exact ⟨c₁, rfl, rfl⟩

theorem plan_planned {counts : FarmCampaign.Planned} (h : c.plan S P legs = (c', .ok counts))
    (hleg : leg ∈ legs) : (c'.cf.view leg.rid).Planned := by
  obtain ⟨c₁, hlegs, hcf⟩ := plan_legs h
  rw [hcf]
  refine planLegs_all (I := fun rid c _ => (c.cf.view rid).Planned)
    (fun _ _ _ _ _ h => planLeg_self h) (fun _ _ _ _ _ _ h hne hrid => ?_) hlegs
    (.inl (List.mem_map_of_mem hleg))
  rwa [planLeg_others h hne]

theorem plan_listed {counts : FarmCampaign.Planned} (h : c.plan S P legs = (c', .ok counts))
    (hfactory : ∀ leg gtag shas config, P.configFactory leg gtag shas = .ok config →
      config.rid = leg.rid) (hleg : leg ∈ legs) :
    (c'.cf.view leg.rid).Accounted ∨ leg.rid ∈ c'.configs.map RunConfig.rid := by
  obtain ⟨c₁, hlegs, hcf⟩ := plan_legs h
  rw [hcf]
  refine planLegs_all (I := fun rid c ok => (c.cf.view rid).Accounted ∨ rid ∈ ok.map RunConfig.rid)
    (fun leg c ok c' ok' h => ?_) (fun _ _ _ _ _ _ h hne hrid => ?_) hlegs
    (.inl (List.mem_map_of_mem hleg))
  · obtain ⟨v, rfl, ⟨_, config, hconfig, rfl⟩ | ⟨hv, rfl⟩⟩ := planLeg_spec h
    · refine .inr ?_
      rw [List.map_append, List.mem_append, ← hfactory _ _ _ _ hconfig]
      exact .inr (List.mem_singleton_self _)
    · rw [FarmCampaign.mark, view_mark_self, hv]
      exact .inl (mark_false_accounted _ .planned _)
  · rw [planLeg_others h hne]
    exact hrid.imp_right fun hmem => ((planLeg_configs h).map _).subset hmem

theorem plan_made {Q : RunConfig → Prop} {counts : FarmCampaign.Planned}
    (h : c.plan S P legs = (c', .ok counts))
    (hfactory : ∀ leg gtag shas config, P.configFactory leg gtag shas = .ok config → Q config) :
    ∀ config ∈ c'.configs, Q config := by
  obtain ⟨c₁, hlegs, -⟩ := plan_legs h
  have hmade : ∀ {legs : List Leg} {c c' : FarmCampaign} {ok ok' : List RunConfig},
      c.planLegs S P legs ok = (c', .ok ok') → (∀ config ∈ ok, Q config) →
        ∀ config ∈ ok', Q config := by
    intro legs
    induction legs with
    | nil =>
      intro c c' ok ok' h hok
      cases h
      exact hok
    | cons leg legs ih =>
      intro c c' ok ok' h hok
      unfold FarmCampaign.planLegs at h
      cases hleg : c.planLeg S P leg ok with
      | mk c₁ ok₁ =>
        rw [hleg] at h
        cases ok₁ with
        | error e => cases h
        | ok ok₁ =>
          refine ih h ?_
          obtain ⟨v, _, ⟨_, config, hconfig, rfl⟩ | ⟨_, rfl⟩⟩ := planLeg_spec hleg
          · rw [List.forall_mem_append]
            exact ⟨hok, by simpa using hfactory _ _ _ _ hconfig⟩
          · exact hok
  exact hmade hlegs (by simp)

theorem markGate_views (v : List String) (configs : List RunConfig) (c : FarmCampaign)
    (rid : String) :
    (rid ∉ configs.map RunConfig.rid →
      (configs.foldl (FarmCampaign.markGate v) c).cf.view rid = c.cf.view rid) ∧
    ((c.cf.view rid).Planned →
      ((configs.foldl (FarmCampaign.markGate v) c).cf.view rid).Planned) := by
  induction configs generalizing c with
  | nil => exact ⟨fun _ => rfl, id⟩
  | cons config configs ih =>
    obtain ⟨hothers, hplanned⟩ := ih (FarmCampaign.markGate v c config)
    have hplain : (⟨.launchGate, v.isEmpty, joined v⟩ : Mark).Plain := ⟨nofun, nofun⟩
    rw [List.foldl_cons]
    refine ⟨fun hnot => ?_, fun h => hplanned ?_⟩
    · rw [List.map_cons, List.mem_cons, not_or] at hnot
      rw [hothers hnot.2, FarmCampaign.markGate, FarmCampaign.mark, view_mark_of_ne hnot.1]
    · rw [FarmCampaign.markGate, FarmCampaign.mark, view_mark]
      split
      · rename_i heq
        exact hplain.planned (heq ▸ h)
      · exact h

theorem dictBy_isOk {α : Type} {key : RunConfig → Except Exc String} {value : RunConfig → α}
    {configs : List RunConfig} {d : Dict String α} :
    (∃ d', dictBy key value configs d = .ok d') ↔ ∀ config ∈ configs, ∃ k, key config = .ok k := by
  induction configs generalizing d with
  | nil => simp [dictBy]
  | cons config configs ih =>
    rw [dictBy, List.forall_mem_cons]
    cases key config with
    | error e => simp
    | ok k =>
      dsimp only
      rw [ih]
      simp

theorem ridsByHash_isOk {configs : List LaunchedConfig} {d : Dict String Key} :
    (∃ d', ridsByHash configs d = .ok d') ↔
      ∀ config ∈ configs, (∃ hash, config.configHash = .ok hash) ∧
        ∃ rid, config.rid = .ok rid := by
  induction configs generalizing d with
  | nil => simp [ridsByHash]
  | cons config configs ih =>
    rw [ridsByHash, List.forall_mem_cons]
    cases config.configHash with
    | error e => simp
    | ok hash =>
      cases config.rid with
      | error e => simp
      | ok rid =>
        dsimp only
        rw [ih]
        simp

theorem legsAtLaunch_nil (I : Interp) (which : String) (rids : List Key) :
    legsAtLaunch I which rids = .ok [] ↔ rids = [] := by
  unfold legsAtLaunch
  split
  · simp [*]
  · cases sortedRids I rids <;> simp [Except.map, *]

theorem launchGate_nil {I : Interp} {planned : List RunConfig} {launched : List LaunchedConfig} :
    launchGate I planned launched = .ok [] ↔ ∃ p q,
      ridsByHash (planned.map RunConfig.launched) Dict.empty = .ok p ∧
        ridsByHash launched Dict.empty = .ok q ∧ ridsOnlyIn p q = [] ∧ ridsOnlyIn q p = [] := by
  unfold launchGate
  cases hp : ridsByHash (planned.map RunConfig.launched) Dict.empty with
  | error e => simp [bind, Except.bind]
  | ok p =>
    cases hq : ridsByHash launched Dict.empty with
    | error e => simp [bind, Except.bind]
    | ok q =>
      have hmissing := legsAtLaunch_nil I "MISSING" (ridsOnlyIn p q)
      have hunplanned := legsAtLaunch_nil I "UNPLANNED" (ridsOnlyIn q p)
      have hboth : (∃ p' q' : Dict String Key, (Except.ok p : Except Exc _) = .ok p' ∧
          (Except.ok q : Except Exc _) = .ok q' ∧ ridsOnlyIn p' q' = [] ∧ ridsOnlyIn q' p' = []) ↔
            ridsOnlyIn p q = [] ∧ ridsOnlyIn q p = [] := by
        simp
      rw [hboth, ← hmissing, ← hunplanned]
      cases hv : legsAtLaunch I "MISSING" (ridsOnlyIn p q) with
      | error e => simp [bind, Except.bind, hv]
      | ok v =>
        cases hw : legsAtLaunch I "UNPLANNED" (ridsOnlyIn q p) with
        | error e => simp [bind, Except.bind, hv, hw]
        | ok w => simp [bind, Except.bind, pure, Except.pure, hv, hw]

structure Passed (c c' : FarmCampaign) : Prop where
  gated : c'.gated = true
  configs : c'.configs = c.configs
  hashes : ∀ config ∈ c.configs, ∃ hash, config.configHash = .ok hash
  others : ∀ rid, rid ∉ c.configs.map RunConfig.rid → c'.cf.view rid = c.cf.view rid
  planned : ∀ rid, (c.cf.view rid).Planned → (c'.cf.view rid).Planned

theorem gateLaunch_passed {launched : List LaunchedConfig}
    (h : (c.gateLaunch S launched).2 = .ok []) : Passed c (c.gateLaunch S launched).1 := by
  have hsame := markGate_same [] c.configs c
  have hviews := markGate_views [] c.configs c
  unfold FarmCampaign.gateLaunch at h ⊢
  cases hgate : launchGate S.I c.configs launched with
  | error e =>
    rw [hgate] at h
    cases h
  | ok v =>
    rw [hgate] at h
    cases h
    refine ⟨rfl, hsame.configs, ?_, fun rid => (hviews rid).1, fun rid => (hviews rid).2⟩
    obtain ⟨p, q, hp, -⟩ := launchGate_nil.mp hgate
    exact fun config hmem => (ridsByHash_isOk.mp ⟨p, hp⟩ _ (List.mem_map_of_mem hmem)).1

end RunFarm
