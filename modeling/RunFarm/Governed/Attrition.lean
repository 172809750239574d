import Mathlib.Data.Set.Insert
import RunFarm.Governed.Planning
import RunFarm.Governed.Reconcile

/-! Every leg of a plan that ran is registered, or a drop of it is recorded. -/
set_option autoImplicit false

namespace RunFarm
open Python

/-- `leg_params`; no other key of the leg may be one of its own. -/
def legParams (leg : Leg) (gtag : String) (requiredShas : Dict String String)
    (reserved : List String) : List (Key × Value) :=
  [(.str "rid", .str leg.rid), (.str "cfg", .dict leg.cfg), (.str "plan", .list leg.plan)] ++
    leg.more.filter (fun e => (["rid", "cfg", "plan", "gtag", "required_shas"] ++ reserved).all
      fun k => e.1 ≠ .str k) ++
    [(.str "gtag", .str gtag),
      (.str "required_shas", .dict (requiredShas.items.map fun e => (.str e.1, .str e.2)))]

/-- `leg.get(key, default)`. -/
def Leg.get (leg : Leg) (key default : String) : Value :=
  (dictGet leg.more (.str key)).getD (.str default)

/-- `config_hash` of a config whose name and dtype may be of any type. -/
def looseHash (I : Interp) (sha256 : Json → String) (name dtype : Value)
    (params : List (Key × Value)) : Except Exc String :=
  let v := Value.dict [(.str "name", asdict name), (.str "dtype", asdict dtype),
    (.str "params", asdict (.dict params))]
  match dumps I { sortKeys := true } v with
  | some j => .ok (String.ofList ((sha256 j).toList.take 12))
  | none => .error { kind := .typeError, code := none, text := I.error v }

def simpleLegToConfig (I : Interp) (sha256 : Json → String) (leg : Leg) (gtag : String)
    (requiredShas : Dict String String) : RunConfig :=
  let name := leg.get "name" "farm"
  let hash := looseHash I sha256 name (leg.get "dtype" "float32")
    (legParams leg gtag requiredShas ["name", "dtype"])
  { rid := leg.rid, configHash := hash, runName := hash.map (fun h => I.str name ++ "_" ++ h) }

theorem simpleLegToConfig_eq (I : Interp) (sha256 : Json → String) (leg : Leg) (gtag : String)
    (requiredShas : Dict String String) {name dtype : String}
    (hname : leg.get "name" "farm" = .str name) (hdtype : leg.get "dtype" "float32" = .str dtype) :
    (simpleLegToConfig I sha256 leg gtag requiredShas).configHash.toOption =
      (SimpleRunConfig.mk name dtype
        (legParams leg gtag requiredShas ["name", "dtype"])).configHash I sha256 := by
  simp only [simpleLegToConfig, looseHash, hname, hdtype, SimpleRunConfig.configHash,
    SimpleRunConfig.toJson, SimpleRunConfig.value, asdict]
  split
  · rename_i j hj
    rw [hj]
    rfl
  · rename_i hj
    rw [hj]
    rfl

theorem looseHash_name {I : Interp} {sha256 : Json → String} {leg : Leg} {gtag : String}
    {requiredShas : Dict String String} {hash : String}
    (h : (simpleLegToConfig I sha256 leg gtag requiredShas).configHash = .ok hash) :
    ∃ name, (simpleLegToConfig I sha256 leg gtag requiredShas).runName = .ok name := by
  have hhash : looseHash I sha256 (leg.get "name" "farm") (leg.get "dtype" "float32")
    (legParams leg gtag requiredShas ["name", "dtype"]) = .ok hash := h
  rw [simpleLegToConfig, hhash]
  exact ⟨_, rfl⟩

variable {S : Setting} {c c' : FarmCampaign} {rid key reason : String} {ans : Answer}
  {rec : Record} {r : Record × Answer} {byName : Dict String RunConfig}
  {out out' : Dict String FarmResult}

/-- The leg `key` is accounted for, and no leg has lost its account. -/
structure Lands (key : String) (c c' : FarmCampaign) : Prop where
  configs : c'.configs = c.configs
  here : (c'.cf.view key).Accounted
  others : ∀ leg, (c.cf.view leg).Accounted → (c'.cf.view leg).Accounted

theorem book_lands (c : FarmCampaign) (key reason : String) :
    Lands key c (c.book key reason) := by
  have hhere : ((c.book key reason).cf.view key).Accounted := by
    rw [view_book_self]
    exact mark_false_accounted _ .completed reason
  refine ⟨(FarmCampaign.book_same c key reason).configs, hhere, fun leg hleg => ?_⟩
  by_cases heq : leg = key
  · rwa [heq]
  · rwa [view_book_of_ne heq]

theorem settle_lands (h : ∃ res, (c.settle S rec ans rid).2 = .ok res) :
    Lands rid c (c.settle S rec ans rid).1 := by
  have heffect : Effect rid (Conflicts S c rid rec.result)
      (∃ res, (c.settle S rec ans rid).2 = .ok res) (c.entered rid)
      (c.settle S rec ans rid).1 := settle_effect
  have hconfigs : Elsewhere rid c (c.settle S rec ans rid).1 := settle_elsewhere
  refine ⟨hconfigs.configs, heffect.accounted h, fun leg hleg => ?_⟩
  by_cases heq : leg = rid
  · rw [heq]
    exact heffect.accounted h
  · by_cases hconflict : Conflicts S c rid rec.result ∧ leg = rid ++ ".conflict"
    · rw [hconflict.2]
      exact .inr ⟨_, by rw [heffect.conflictLeg hconflict.1, Option.isSome_some]⟩
    · rw [heffect.others heq fun hc hleg => hconflict ⟨hc, hleg⟩, view_entered_cf, if_neg heq]
      exact hleg

theorem recordStep_lands (h : c.recordStep S byName r.1 r.2 out = (c', .ok out')) :
    ∃ key, Lands key c c' ∧ ∀ k, (out'.get k).isSome → (out.get k).isSome ∨ k = key := by
  have hset : ∀ key res k, ((out.set key res).get k).isSome → (out.get k).isSome ∨ k = key := by
    intro key res k hk
    rw [Dict.get_set] at hk
    split at hk
    · rename_i heq
      exact .inr heq
    · exact .inl hk
  unfold FarmCampaign.recordStep at h
  cases hfor : configFor byName r.1.run with
  | none =>
    rw [hfor] at h
    cases h
    exact ⟨_, book_lands c _ _, hset _ _⟩
  | some config =>
    rw [hfor] at h
    dsimp only at h
    split at h
    · cases h
      exact ⟨_, book_lands c _ _, fun k hk => .inl hk⟩
    · have hlands : (∃ res, (c.settle S r.1 r.2 config.rid).2 = .ok res) →
          Lands config.rid c (c.settle S r.1 r.2 config.rid).1 := settle_lands
      cases hsettle : c.settle S r.1 r.2 config.rid with
      | mk c₁ res =>
        rw [hsettle] at h hlands
        cases res with
        | error e => cases h
        | ok res =>
          cases h
          exact ⟨_, hlands ⟨res, rfl⟩, hset _ _⟩

/-- The legs `rids` and those in the map are accounted for. -/
structure Kept (c₀ : FarmCampaign) (rids : Set String) (c : FarmCampaign)
    (out : Dict String FarmResult) : Prop where
  configs : c.configs = c₀.configs
  legs : ∀ rid ∈ rids, (c.cf.view rid).Accounted
  known : ∀ key, (out.get key).isSome → (c.cf.view key).Accounted

variable {c₀ : FarmCampaign} {rids : Set String}

theorem Kept.round (h : Kept c₀ rids c out)
    (hround : c.recordStep S byName r.1 r.2 out = (c', .ok out')) : Kept c₀ rids c' out' := by
  obtain ⟨key, hlands, hkeys⟩ := recordStep_lands hround
  refine ⟨hlands.configs.trans h.configs, fun rid hrid => hlands.others rid (h.legs rid hrid),
    fun k hk => ?_⟩
  rcases hkeys k hk with hk | rfl
  · exact hlands.others k (h.known k hk)
  · exact hlands.here

theorem reconcileOne_kept (config : RunConfig) (h : Kept c₀ rids c out) :
    Kept c₀ (insert config.rid rids) (FarmCampaign.reconcileOne (c, out) config).1
      (FarmCampaign.reconcileOne (c, out) config).2 := by
  unfold FarmCampaign.reconcileOne
  split
  · rename_i hknown
    exact ⟨h.configs, Set.forall_mem_insert.mpr ⟨h.known _ hknown, h.legs⟩, h.known⟩
  · have hview : ∀ leg, (c.cf.view leg).Accounted ∨ leg = config.rid →
        ((c.mark config.rid .completed false FarmCampaign.droppedReason).cf.view
          leg).Accounted := by
      intro leg hleg
      rw [FarmCampaign.mark, view_mark]
      split
      · exact mark_false_accounted _ .completed _
      · rename_i hne
        exact hleg.resolve_right hne
    refine ⟨h.configs, Set.forall_mem_insert.mpr ⟨hview _ (.inr rfl), fun rid hrid =>
      hview rid (.inl (h.legs rid hrid))⟩, fun key hkey => ?_⟩
    rw [Dict.get_set] at hkey
    split at hkey
    · rename_i heq
      exact hview key (.inr heq)
    · exact hview key (.inl (h.known key hkey))

theorem reconcile_kept (configs : List RunConfig) (h : Kept c₀ rids c out) :
    Kept c₀ {rid | rid ∈ configs.map RunConfig.rid ∨ rid ∈ rids}
      (configs.foldl FarmCampaign.reconcileOne (c, out)).1
      (configs.foldl FarmCampaign.reconcileOne (c, out)).2 := by
  induction configs generalizing c out rids with
  | nil => simpa using h
  | cons config configs ih =>
    have hall := ih (reconcileOne_kept config h)
    rw [List.foldl_cons]
    refine ⟨hall.configs, fun rid hrid => hall.legs rid ?_, hall.known⟩
    simp only [List.map_cons, List.mem_cons, Set.mem_ofPred_eq, Set.mem_insert_iff] at hrid ⊢
    tauto

def defaultPolicy (S : Setting) (sha256 : Json → String)
    (preflight : List (Key × Value) → Except Exc (List String))
    (stageValidate : List Value → List (Key × Value) → Except Exc (List String)) : Policy where
  preflight := preflight
  stageValidate := stageValidate
  configFactory leg gtag requiredShas := .ok (simpleLegToConfig S.I sha256 leg gtag requiredShas)

theorem executeFleet_accounts {dispatch : Dispatch} (hgated : c.gated = true)
    (hnames : ∀ config ∈ c.configs, ∃ name, config.runName = .ok name)
    (hraises : dispatch.raises = none) (hquiet : ∀ r ∈ dispatch.records, r.2.Quiet) :
    (∃ out, (c.executeFleet S dispatch).2 = .ok out) ∧
    ∀ rid, (c.cf.view rid).Accounted ∨ rid ∈ c.configs.map RunConfig.rid →
      ((c.executeFleet S dispatch).1.cf.view rid).Accounted := by
  obtain ⟨byName, hbyName⟩ : ∃ byName,
      dictBy RunConfig.runName id c.configs Dict.empty = .ok byName := dictBy_isOk.mpr hnames
  obtain ⟨c', out, hrun⟩ : ∃ c' out, c.recordSteps S byName dispatch.records Dict.empty =
      (c', .ok out) := recordSteps_returns hquiet
  have hfleet := executeFleet_eq (S := S) hgated hbyName dispatch
  rw [hrun, hraises] at hfleet
  rw [hfleet]
  have hstart : Kept c {rid | (c.cf.view rid).Accounted} c Dict.empty :=
    ⟨rfl, fun _ hrid => hrid, by simp⟩
  have hkept := recordSteps_keep
    (I := fun _ c' out => Kept c {rid | (c.cf.view rid).Accounted} c' out)
    (fun _ _ _ _ _ _ h hround => h.round hround) [] hstart hrun
  refine ⟨⟨_, rfl⟩, fun rid hrid => (reconcile_kept c'.configs hkept).legs rid ?_⟩
  rw [hkept.configs]
  exact hrid.symm

/-- After a plan, a passing gate and a dispatch with quiet answers, from any campaign: each leg of
the plan is registered or a drop of it is recorded. -/
theorem no_silent_attrition (S : Setting) (sha256 : Json → String)
    (preflight : List (Key × Value) → Except Exc (List String))
    (stageValidate : List Value → List (Key × Value) → Except Exc (List String))
    (legs : List Leg) (launched : List LaunchedConfig) (dispatch : Dispatch) (c c₁ : FarmCampaign)
    (counts : FarmCampaign.Planned)
    (hplan : c.plan S (defaultPolicy S sha256 preflight stageValidate) legs = (c₁, .ok counts))
    (hgate : (c₁.gateLaunch S launched).2 = .ok [])
    (hraises : dispatch.raises = none) (hquiet : ∀ r ∈ dispatch.records, r.2.Quiet) :
    (∃ out, ((c₁.gateLaunch S launched).1.executeFleet S dispatch).2 = .ok out) ∧
    ∀ leg ∈ legs,
      (((c₁.gateLaunch S launched).1.executeFleet S dispatch).1.cf.view leg.rid).Accounted := by
  have hpassed := gateLaunch_passed hgate
  have hnames : ∀ config ∈ (c₁.gateLaunch S launched).1.configs,
      ∃ name, config.runName = .ok name := by
    rw [hpassed.configs]
    refine fun config hmem => plan_made (Q := fun config =>
      (∃ hash, config.configHash = .ok hash) → ∃ name, config.runName = .ok name) hplan ?_
      config hmem (hpassed.hashes config hmem)
    rintro leg gtag shas config hconfig ⟨hash, hhash⟩
    cases hconfig
    exact looseHash_name hhash
  have hlisted : ∀ leg ∈ legs, (c₁.cf.view leg.rid).Accounted ∨
      leg.rid ∈ c₁.configs.map RunConfig.rid :=
    fun leg hleg => plan_listed hplan (fun _ _ _ _ h => by cases h; rfl) hleg
  obtain ⟨hreturns, haccounts⟩ :=
    executeFleet_accounts (S := S) hpassed.gated hnames hraises hquiet
  refine ⟨hreturns, fun leg hleg => haccounts leg.rid ?_⟩
  rw [hpassed.configs]
  by_cases hmem : leg.rid ∈ c₁.configs.map RunConfig.rid
  · exact .inr hmem
  · rw [hpassed.others leg.rid hmem]
    exact hlisted leg hleg

def sampleLegs : List Leg :=
  [{ rid := "a", cfg := [] }, { rid := "b", cfg := [(.str "steps", .int 0)] }]

def samplePreflight (cfg : List (Key × Value)) : Except Exc (List String) :=
  .ok (if cfg.isEmpty then [] else ["steps"])

def samplePlanned : FarmCampaign :=
  (FarmCampaign.plan sampleSetting (defaultPolicy sampleSetting (fun _ => "ab12") samplePreflight
    fun _ _ => .ok []) sampleLegs {}).1

def sampleLaunched : List LaunchedConfig := samplePlanned.configs.map RunConfig.launched

def lostRecord : Dispatch := { records := [({ run := some (.str "farm_ab12") }, {})] }

theorem sampleLegs_accounted :
    (∃ out, ((samplePlanned.gateLaunch sampleSetting sampleLaunched).1.executeFleet
      sampleSetting lostRecord).2 = .ok out) ∧
    ∀ leg ∈ sampleLegs, (((samplePlanned.gateLaunch sampleSetting sampleLaunched).1.executeFleet
      sampleSetting lostRecord).1.cf.view leg.rid).Accounted := by
  refine no_silent_attrition sampleSetting (fun _ => "ab12") samplePreflight (fun _ _ => .ok [])
    sampleLegs sampleLaunched lostRecord {} samplePlanned ⟨2, 1⟩ ?_ ?_ rfl ?_
  · exact Prod.ext rfl rfl
  · rfl
  · simp only [lostRecord, List.mem_singleton, forall_eq]
    exact ⟨rfl, nofun⟩

end RunFarm
