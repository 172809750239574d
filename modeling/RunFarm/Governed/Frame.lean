import RunFarm.Governed.Attrition

/-! Which rows of the cut-flow a record of the dispatch touches: its own leg's, and the row under
which it is booked. -/
set_option autoImplicit false

namespace RunFarm
open Python

variable {S : Setting} {P : Policy} {byName : Dict String RunConfig} {r : Record × Answer}
  {c c' c₀ : FarmCampaign} {out out' : Dict String FarmResult} {legs : List Leg} {key : String}

inductive Books (S : Setting) (byName : Dict String RunConfig) (r : Record × Answer)
    (c : FarmCampaign) (out : Dict String FarmResult) : String → Prop where
  | stray (run : configFor byName r.1.run = none) :
      Books S byName r c out (c.violationKey S out r.1.run)
  | again (config : RunConfig) (run : configFor byName r.1.run = some config)
      (known : (out.get config.rid).isSome) : Books S byName r c out (config.rid ++ ".dup")
  | conflict (config : RunConfig) (run : configFor byName r.1.run = some config)
      (new : out.get config.rid = none) (differs : Conflicts S c config.rid r.1.result) :
      Books S byName r c out (config.rid ++ ".conflict")

/-- The record leaves the rows and the reasons of all legs but the one that it is for. -/
def LeavesOthers (byName : Dict String RunConfig) (legs : List Leg) (r : Record × Answer)
    (c c' : FarmCampaign) : Prop :=
  ∀ leg ∈ legs, (∀ config, configFor byName r.1.run = some config → leg.rid ≠ config.rid) →
    c'.cf.view leg.rid = c.cf.view leg.rid

/-- No leg of the plan has a key under which the round books. -/
def Clear (S : Setting) (byName : Dict String RunConfig) (legs : List Leg) (r : Record × Answer)
    (c : FarmCampaign) (out : Dict String FarmResult) : Prop :=
  ∀ key, Books S byName r c out key → key ∉ legs.map Leg.rid

/-- The loop of `execute_fleet` comes to the record `r` in this state. -/
structure LoopAt (S : Setting) (c₀ : FarmCampaign) (dispatch : Dispatch)
    (byName : Dict String RunConfig) (r : Record × Answer) (c : FarmCampaign)
    (out : Dict String FarmResult) : Prop where
  names : dictBy RunConfig.runName id c₀.configs Dict.empty = .ok byName
  run : ∃ before rest, dispatch.records = before ++ r :: rest ∧
    c₀.recordSteps S byName before Dict.empty = (c, .ok out)

theorem settle_view {rec : Record} {ans : Answer} {rid leg : String} (hne : leg ≠ rid)
    (hconflict : Conflicts S c rid rec.result → leg ≠ rid ++ ".conflict") :
    (c.settle S rec ans rid).1.cf.view leg = c.cf.view leg := by
  have heffect : Effect rid (Conflicts S c rid rec.result)
      (∃ res, (c.settle S rec ans rid).2 = .ok res) (c.entered rid)
      (c.settle S rec ans rid).1 := settle_effect
  rw [heffect.others hne hconflict, view_entered_cf, if_neg hne]

theorem recordStep_settle {config : RunConfig} (hrun : configFor byName r.1.run = some config)
    (hnew : out.get config.rid = none) :
    (c.recordStep S byName r.1 r.2 out).1 = (c.settle S r.1 r.2 config.rid).1 := by
  unfold FarmCampaign.recordStep
  rw [hrun]
  dsimp only
  rw [hnew, if_neg (by simp)]
  cases c.settle S r.1 r.2 config.rid with
  | mk c' res => cases res <;> rfl

theorem recordStep_again {config : RunConfig} (hrun : configFor byName r.1.run = some config)
    (hknown : (out.get config.rid).isSome) :
    (c.recordStep S byName r.1 r.2 out).1 =
      c.book (config.rid ++ ".dup") FarmCampaign.duplicateReason := by
  unfold FarmCampaign.recordStep
  rw [hrun]
  dsimp only
  rw [if_pos hknown]

theorem recordStep_stray (hrun : configFor byName r.1.run = none) :
    (c.recordStep S byName r.1 r.2 out).1 =
      c.book (c.violationKey S out r.1.run) FarmCampaign.unplannedReason := by
  unfold FarmCampaign.recordStep
  rw [hrun]

theorem round_frame {leg : String} (hbooks : ¬ Books S byName r c out leg)
    (hown : ∀ config, configFor byName r.1.run = some config → leg ≠ config.rid) :
    (c.recordStep S byName r.1 r.2 out).1.cf.view leg = c.cf.view leg := by
  cases hrun : configFor byName r.1.run with
  | none =>
    have hne : leg ≠ c.violationKey S out r.1.run := fun heq => hbooks (by
      rw [heq]
      exact .stray hrun)
    rw [recordStep_stray hrun, view_book_of_ne hne]
  | some config =>
    cases hget : out.get config.rid with
    | some res =>
      have hknown : (out.get config.rid).isSome := by rw [hget]; rfl
      have hne : leg ≠ config.rid ++ ".dup" := fun heq => hbooks (by
        rw [heq]
        exact .again config hrun hknown)
      rw [recordStep_again hrun hknown, view_book_of_ne hne]
    | none =>
      rw [recordStep_settle hrun hget]
      exact settle_view (hown config hrun) fun hc heq =>
        hbooks (heq ▸ .conflict config hrun hget hc)

theorem book_changes {reason : String} (h : (c.cf.view key).Planned) :
    (c.book key reason).cf.view key ≠ c.cf.view key := fun heq => by
  have hplanned := h.planned
  rw [← heq, view_book_self, mark_stage_before _ _ _ (by decide)] at hplanned
  cases hplanned

theorem round_changes (hbooks : Books S byName r c out key) (h : (c.cf.view key).Planned) :
    (∀ config, configFor byName r.1.run = some config → key ≠ config.rid) ∧
      (c.recordStep S byName r.1 r.2 out).1.cf.view key ≠ c.cf.view key := by
  cases hbooks with
  | stray hrun =>
    rw [recordStep_stray hrun]
    refine ⟨fun config hconfig => ?_, book_changes h⟩
    rw [hrun] at hconfig
    cases hconfig
  | again config hrun hknown =>
    rw [recordStep_again hrun hknown]
    refine ⟨fun config' hconfig => ?_, book_changes h⟩
    rw [hrun] at hconfig
    cases hconfig
    exact suffix_ne _ (by decide)
  | conflict config hrun hnew hdiffers =>
    rw [recordStep_settle hrun hnew]
    have heffect : Effect config.rid (Conflicts S c config.rid r.1.result)
        (∃ res, (c.settle S r.1 r.2 config.rid).2 = .ok res) (c.entered config.rid)
        (c.settle S r.1 r.2 config.rid).1 := settle_effect
    refine ⟨fun config' hconfig => ?_, fun heq => ?_⟩
    · rw [hrun] at hconfig
      cases hconfig
      exact conflictKey_ne _
    · have hreason := heffect.conflictLeg hdiffers
      rw [heq] at hreason
      exact h.reason hreason

theorem round_planned (hclear : Clear S byName legs r c out)
    (h : ∀ leg ∈ legs, (c.cf.view leg.rid).Planned) :
    ∀ leg ∈ legs, ((c.recordStep S byName r.1 r.2 out).1.cf.view leg.rid).Planned := by
  intro leg hleg
  have hbooks : ¬ Books S byName r c out leg.rid := fun hb =>
    hclear leg.rid hb (List.mem_map_of_mem hleg)
  by_cases hown : ∀ config, configFor byName r.1.run = some config → leg.rid ≠ config.rid
  · rw [round_frame hbooks hown]
    exact h leg hleg
  · push Not at hown
    obtain ⟨config, hrun, heq⟩ := hown
    cases hget : out.get config.rid with
    | some res =>
      have hknown : (out.get config.rid).isSome := by rw [hget]; rfl
      rw [recordStep_again hrun hknown, view_book_of_ne fun hdup =>
        suffix_ne config.rid (by decide) (hdup.symm.trans heq)]
      exact h leg hleg
    | none =>
      have heffect : Effect config.rid (Conflicts S c config.rid r.1.result)
          (∃ res, (c.settle S r.1 r.2 config.rid).2 = .ok res) (c.entered config.rid)
          (c.settle S r.1 r.2 config.rid).1 := settle_effect
      rw [recordStep_settle hrun hget, heq]
      refine heffect.planned ?_
      have hplanned := h leg hleg
      rw [heq] at hplanned
      rw [view_entered_cf, if_pos rfl, LegView.entered, if_pos hplanned.row]
      exact hplanned

theorem recordSteps_snoc {before : List (Record × Answer)}
    (h : c.recordSteps S byName (before ++ [r]) out = (c', .ok out')) :
    ∃ c₁ out₁, c.recordSteps S byName before out = (c₁, .ok out₁) ∧
      c₁.recordStep S byName r.1 r.2 out₁ = (c', .ok out') := by
  rw [recordSteps_append] at h
  cases hbefore : c.recordSteps S byName before out with
  | mk c₁ out₁ =>
    rw [hbefore] at h
    cases out₁ with
    | error e => cases h
    | ok out₁ =>
      refine ⟨c₁, out₁, rfl, ?_⟩
      unfold FarmCampaign.recordSteps at h
      dsimp only at h
      cases hstep : c₁.recordStep S byName r.1 r.2 out₁ with
      | mk c₂ out₂ =>
        rw [hstep] at h
        cases out₂ with
        | error e => cases h
        | ok out₂ => exact h

theorem clear_of_leaves (h : ∀ leg ∈ legs, (c.cf.view leg.rid).Planned)
    (hleaves : LeavesOthers byName legs r c (c.recordStep S byName r.1 r.2 out).1) :
    Clear S byName legs r c out := by
  intro key hbooks hmem
  obtain ⟨leg, hleg, rfl⟩ := List.mem_map.mp hmem
  obtain ⟨hown, hchanged⟩ := round_changes hbooks (h leg hleg)
  exact hchanged (hleaves leg hleg hown)

/-- As long as the rounds leave the other legs, every leg of the plan stays planned: the first
round that is not clear is one that does not leave them. -/
theorem planned_of_leaves {dispatch : Dispatch}
    (hnames : dictBy RunConfig.runName id c₀.configs Dict.empty = .ok byName)
    (hstart : ∀ leg ∈ legs, (c₀.cf.view leg.rid).Planned)
    (hleaves : ∀ r c out, LoopAt S c₀ dispatch byName r c out →
      LeavesOthers byName legs r c (c.recordStep S byName r.1 r.2 out).1)
    {before rest : List (Record × Answer)} (hrecords : dispatch.records = before ++ rest)
    (hrun : c₀.recordSteps S byName before Dict.empty = (c, .ok out)) :
    ∀ leg ∈ legs, (c.cf.view leg.rid).Planned := by
  induction before using List.reverseRecOn generalizing c out rest with
  | nil =>
    cases hrun
    exact hstart
  | append_singleton before r ih =>
    rw [List.append_assoc, List.singleton_append] at hrecords
    obtain ⟨c₁, out₁, hbefore, hstep⟩ := recordSteps_snoc hrun
    have hplanned := ih hrecords hbefore
    have hclear := clear_of_leaves hplanned
      (hleaves r c₁ out₁ ⟨hnames, before, rest, hrecords, hbefore⟩)
    have hnext := round_planned hclear hplanned
    rwa [hstep] at hnext

/-- After a plan and a passing gate, from any campaign: the records of the dispatch leave all
other legs of the plan alone if and only if no round books under the rid of a leg of the plan. -/
theorem record_frame_iff (S : Setting) (P : Policy) (legs : List Leg)
    (launched : List LaunchedConfig) (dispatch : Dispatch) (c c₁ : FarmCampaign)
    (counts : FarmCampaign.Planned)
    (hplan : c.plan S P legs = (c₁, .ok counts)) (hgate : (c₁.gateLaunch S launched).2 = .ok []) :
    (∀ byName r c' out, LoopAt S (c₁.gateLaunch S launched).1 dispatch byName r c' out →
      LeavesOthers byName legs r c' (c'.recordStep S byName r.1 r.2 out).1) ↔
    ∀ byName r c' out, LoopAt S (c₁.gateLaunch S launched).1 dispatch byName r c' out →
      Clear S byName legs r c' out := by
  have hstart : ∀ leg ∈ legs, ((c₁.gateLaunch S launched).1.cf.view leg.rid).Planned :=
    fun leg hleg => (gateLaunch_passed hgate).planned leg.rid (plan_planned hplan hleg)
  constructor
  · intro hleaves byName r c' out hat
    obtain ⟨before, rest, hrecords, hrun⟩ := hat.run
    exact clear_of_leaves (planned_of_leaves hat.names hstart (hleaves byName) hrecords hrun)
      (hleaves byName r c' out hat)
  · intro hclear byName r c' out hat leg hleg hown
    exact round_frame (fun hbooks => hclear byName r c' out hat leg.rid hbooks
      (List.mem_map_of_mem hleg)) hown

/-- The campaign of `sampleLegs` after its gate: `a` is planned and `b` dropped. -/
def sampleGated : FarmCampaign :=
  (samplePlanned.gateLaunch sampleSetting sampleLaunched).1

def sampleNames : Dict String RunConfig :=
  Dict.empty.set "farm_ab12" ⟨"a", .ok "ab12", .ok "farm_ab12"⟩

theorem samplePlan : FarmCampaign.plan sampleSetting (defaultPolicy sampleSetting (fun _ => "ab12")
    samplePreflight fun _ _ => .ok []) sampleLegs {} = (samplePlanned, .ok ⟨2, 1⟩) :=
  Prod.ext rfl rfl

def strayDispatch : Dispatch :=
  { records := [({ run := some (.str "farm_ab12") }, {}), ({ run := some (.str "farm_ab12") }, {}),
      ({ run := some (.str "farm_zz99") }, {})] }

theorem length_le_freeKey (taken : List String) (key : String) :
    key.length ≤ (freeKey taken key).length := by
  induction key using freeKey.induct taken with
  | case1 key hmem ih =>
    rw [String.length_append] at ih
    rw [freeKey, if_pos hmem]
    omega
  | case2 key hfree => rw [freeKey, if_neg hfree]

theorem not_conflicts {rid : String} : ¬ Conflicts S c rid .none := by
  rintro ⟨known, new, -, haccepted, -⟩
  cases haccepted.verified

theorem strayDispatch_clear {c' : FarmCampaign} (hr : r ∈ strayDispatch.records) :
    Clear sampleSetting sampleNames sampleLegs r c' out := by
  intro key hbooks hkey
  simp only [strayDispatch, List.mem_cons, List.not_mem_nil, or_false] at hr
  obtain rfl | rfl | rfl := hr
  case inr.inr =>
    cases hbooks with
    | stray hrun =>
      have hlong := length_le_freeKey (c'.configs.map RunConfig.rid ++ out.items.map Prod.fst)
        "farm_zz99"
      have hshort : ∀ key ∈ sampleLegs.map Leg.rid, key.length < "farm_zz99".length := by decide
      exact absurd (hshort _ hkey) (Nat.not_lt.mpr hlong)
    | again config hrun hknown => cases hrun
    | conflict config hrun hnew hdiffers => cases hrun
  all_goals
    cases hbooks with
    | stray hrun => cases hrun
    | again config hrun hknown =>
      cases hrun
      exact absurd hkey (by decide)
    | conflict config hrun hnew hdiffers => exact not_conflicts hdiffers

theorem strayDispatch_leaves : (∃ r c' out,
    LoopAt sampleSetting sampleGated strayDispatch sampleNames r c' out ∧
      Books sampleSetting sampleNames r c' out "a.dup") ∧ ∀ byName r c' out,
    LoopAt sampleSetting sampleGated strayDispatch byName r c' out →
      LeavesOthers byName sampleLegs r c' (c'.recordStep sampleSetting byName r.1 r.2 out).1 := by
  have hagain : LoopAt sampleSetting sampleGated strayDispatch sampleNames
      ({ run := some (.str "farm_ab12") }, {}) _ _ :=
    ⟨rfl, [({ run := some (.str "farm_ab12") }, {})], _, rfl, rfl⟩
  refine ⟨⟨_, _, _, hagain, .again ⟨"a", .ok "ab12", .ok "farm_ab12"⟩ rfl rfl⟩,
    (record_frame_iff sampleSetting _ sampleLegs sampleLaunched strayDispatch {}
      samplePlanned ⟨2, 1⟩ samplePlan rfl).mpr ?_⟩
  rintro byName r c' out ⟨hnames, before, rest, hrecords, -⟩
  have hbyName : byName = sampleNames := (Except.ok.inj (hnames.symm.trans rfl)).trans rfl
  rw [hbyName]
  refine strayDispatch_clear ?_
  rw [hrecords]
  exact List.mem_append_right before (List.mem_cons_self ..)

def ghostDispatch : Dispatch := { records := [({ run := some (.str "b") }, {})] }

theorem droppedLeg_reset : ¬ ∀ (S : Setting) (P : Policy) (legs : List Leg)
    (launched : List LaunchedConfig) (dispatch : Dispatch) (c c₁ : FarmCampaign)
    (counts : FarmCampaign.Planned), c.plan S P legs = (c₁, .ok counts) →
    (c₁.gateLaunch S launched).2 = .ok [] → ∀ byName r c' out,
      LoopAt S (c₁.gateLaunch S launched).1 dispatch byName r c' out →
      LeavesOthers byName legs r c' (c'.recordStep S byName r.1 r.2 out).1 := by
  intro h
  have hleaves := h sampleSetting _ sampleLegs sampleLaunched ghostDispatch {} samplePlanned
    ⟨2, 1⟩ samplePlan rfl sampleNames ({ run := some (.str "b") }, {}) sampleGated Dict.empty
    ⟨rfl, [], [], rfl, rfl⟩
  have hplanned : ∀ leg ∈ sampleLegs, (sampleGated.cf.view leg.rid).Planned := fun leg hleg =>
    (gateLaunch_passed rfl).planned leg.rid (plan_planned samplePlan hleg)
  have hkey : sampleGated.violationKey sampleSetting Dict.empty (some (.str "b")) = "b" := by
    have htaken : sampleGated.configs.map RunConfig.rid ++
      (Dict.empty : Dict String FarmResult).items.map Prod.fst = ["a"] := rfl
    have htext : runText sampleSetting.I (some (.str "b")) = "b" := rfl
    rw [FarmCampaign.violationKey, htaken, htext, freeKey, if_neg (by decide)]
  have hbooks : Books sampleSetting sampleNames ({ run := some (.str "b") }, {}) sampleGated
      Dict.empty (sampleGated.violationKey sampleSetting Dict.empty (some (.str "b"))) := .stray rfl
  rw [hkey] at hbooks
  exact clear_of_leaves hplanned hleaves "b" hbooks (by decide)

end RunFarm
