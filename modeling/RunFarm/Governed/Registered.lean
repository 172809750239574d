import RunFarm.Governed.Frame

/-! A leg whose content is in the corpus, and what its row says of it through the calls that
follow. -/
set_option autoImplicit false

namespace RunFarm
open Python
open Transition (Along)

inductive Turn where
  | gate (violations : List String) (config : RunConfig)
  | gated (passes : Bool)
  | leg (config : RunConfig) (runner : Runner) (ans : Answer)
  | record (byName : Dict String RunConfig) (r : Record × Answer) (out : Dict String FarmResult)
  | missing (config : RunConfig)

def Turn.after (S : Setting) (c : FarmCampaign) : Turn → FarmCampaign
  | .gate v config => c.markGate v config
  | .gated passes => { c with gated := passes }
  | .leg config runner ans => (c.executeLeg S config runner ans).1
  | .record byName r out => (c.recordStep S byName r.1 r.2 out).1
  | .missing config => c.mark config.rid .completed false FarmCampaign.droppedReason

def runTurns (S : Setting) (c : FarmCampaign) (ts : List Turn) : FarmCampaign :=
  ts.foldl (Turn.after S) c

def recordTurns (S : Setting) (byName : Dict String RunConfig) :
    List (Record × Answer) → FarmCampaign → Dict String FarmResult → List Turn
  | [], _, _ => []
  | r :: rs, c, out =>
    .record byName r out ::
      match c.recordStep S byName r.1 r.2 out with
      | (_, .error _) => []
      | (c, .ok out) => recordTurns S byName rs c out

def missingTurns : List RunConfig → Dict String FarmResult → List Turn
  | [], _ => []
  | config :: configs, out =>
    if (out.get config.rid).isSome then missingTurns configs out
    else .missing config :: missingTurns configs
      (out.set config.rid ⟨config.rid, .lost FarmCampaign.droppedReason⟩)

def fleetTurns (S : Setting) (dispatch : Dispatch) (c : FarmCampaign) : List Turn :=
  if c.gated then
    match dictBy RunConfig.runName id c.configs Dict.empty with
    | .error _ => []
    | .ok byName =>
      recordTurns S byName dispatch.records c Dict.empty ++
        match c.recordSteps S byName dispatch.records Dict.empty, dispatch.raises with
        | (c, .ok out), none => missingTurns c.configs out
        | _, _ => []
  else []

def FarmCall.turns (S : Setting) (c : FarmCampaign) : FarmCall → List Turn
  | .plan _ _ => []
  | .gateLaunch launched =>
    match launchGate S.I c.configs launched with
    | .error _ => []
    | .ok v => c.configs.map (.gate v) ++ [.gated v.isEmpty]
  | .executeLeg config runner ans => [.leg config runner ans]
  | .executeFleet dispatch => fleetTurns S dispatch c

def turnsOf (S : Setting) : FarmCampaign → List FarmCall → List Turn
  | _, [] => []
  | c, call :: calls => call.turns S c ++ turnsOf S (call.after S c) calls

def FarmCall.isPlan : FarmCall → Bool
  | .plan _ _ => true
  | _ => false

variable {S : Setting} {c c' : FarmCampaign} {rid leg : String} {ans : Answer} {v : Value}
  {byName : Dict String RunConfig} {r : Record × Answer} {out : Dict String FarmResult}
  {config : RunConfig} {runner : Runner}

theorem runTurns_append (c : FarmCampaign) (ts ts' : List Turn) :
    runTurns S c (ts ++ ts') = runTurns S (runTurns S c ts) ts' := by
  simp [runTurns]

theorem runTurns_records (records : List (Record × Answer)) (c : FarmCampaign)
    (out : Dict String FarmResult) :
    runTurns S c (recordTurns S byName records c out) =
      (c.recordSteps S byName records out).1 := by
  induction records generalizing c out with
  | nil => rfl
  | cons r records ih =>
    unfold recordTurns FarmCampaign.recordSteps
    have hturn : (Turn.record byName r out).after S c = (c.recordStep S byName r.1 r.2 out).1 := rfl
    rw [runTurns, List.foldl_cons, hturn]
    cases c.recordStep S byName r.1 r.2 out with
    | mk c' out' =>
      cases out' with
      | error e => rfl
      | ok out' => exact ih c' out'

theorem runTurns_missing (configs : List RunConfig) (c : FarmCampaign)
    (out : Dict String FarmResult) :
    runTurns S c (missingTurns configs out) =
      (configs.foldl FarmCampaign.reconcileOne (c, out)).1 := by
  induction configs generalizing c out with
  | nil => rfl
  | cons config configs ih =>
    unfold missingTurns
    rw [List.foldl_cons, FarmCampaign.reconcileOne]
    split
    · exact ih c out
    · exact ih _ _

theorem runTurns_gates (violations : List String) (configs : List RunConfig) (c : FarmCampaign) :
    runTurns S c (configs.map (.gate violations)) =
      configs.foldl (FarmCampaign.markGate violations) c := by
  rw [runTurns, List.foldl_map]
  rfl

theorem runTurns_call {call : FarmCall} (h : call.isPlan = false) :
    runTurns S c (call.turns S c) = call.after S c := by
  cases call with
  | plan P legs => cases h
  | gateLaunch launched =>
    simp only [FarmCall.turns, FarmCall.after, FarmCampaign.gateLaunch]
    cases launchGate S.I c.configs launched with
    | error e => rfl
    | ok violations =>
      dsimp only
      rw [runTurns_append, runTurns_gates]
      rfl
  | executeLeg config runner ans => rfl
  | executeFleet dispatch =>
    simp only [FarmCall.turns, FarmCall.after, fleetTurns, FarmCampaign.executeFleet]
    split
    · cases dictBy RunConfig.runName id c.configs Dict.empty with
      | error e => rfl
      | ok byName =>
        have hrun : runTurns S c (recordTurns S byName dispatch.records c Dict.empty) =
          (c.recordSteps S byName dispatch.records Dict.empty).1 := runTurns_records _ _ _
        dsimp only
        rw [runTurns_append, hrun]
        cases c.recordSteps S byName dispatch.records Dict.empty with
        | mk c' out =>
          cases out with
          | error e => rfl
          | ok out =>
            cases dispatch.raises with
            | some e => rfl
            | none => exact runTurns_missing c'.configs c' out
    · rfl

theorem runTurns_calls {calls : List FarmCall} (h : ∀ call ∈ calls, call.isPlan = false) :
    runTurns S c (turnsOf S c calls) = runCalls S c calls := by
  induction calls generalizing c with
  | nil => rfl
  | cons call calls ih =>
    rw [List.forall_mem_cons] at h
    rw [turnsOf, runTurns_append, runTurns_call h.1, ih h.2]
    rfl

def Registered (rid : String) (c : FarmCampaign) : Prop :=
  (c.cf.view rid).stage Stage.registered.idx = some true

def Shown (rid : String) (c : FarmCampaign) : Prop :=
  (c.ingested.get rid).isSome → Registered rid c

def Runner.Fails (S : Setting) : Runner → Prop
  | .raised _ => True
  | .returned v => isNone v = false ∧ ∀ h, ¬ Accepted S v h

def Record.Fails (S : Setting) (rec : Record) : Prop :=
  (isNone rec.result = true → rec.skipped = false) ∧ ∀ h, ¬ Accepted S rec.result h

/-- What takes `registered` from a leg that the corpus has. -/
def Turn.Unregisters (S : Setting) (rid : String) (c : FarmCampaign) : Turn → Prop
  | .gate v config => config.rid = rid ∧ v ≠ []
  | .gated _ => False
  | .leg config runner _ =>
    (config.rid = rid ∧ runner.Fails S) ∨
      (config.rid ++ ".conflict" = rid ∧
        ∃ v, runner = .returned v ∧ Conflicts S c config.rid v)
  | .record byName r out =>
    Books S byName r c out rid ∨
      ∃ config, configFor byName r.1.run = some config ∧ config.rid = rid ∧
        out.get rid = none ∧ r.1.Fails S
  | .missing config => config.rid = rid

theorem mark_self_registered (c : FarmCampaign) (rid : String) (s : Stage) (ok : Bool)
    (reason : String) (hs : s = .registered ∨ ok = false) :
    Registered rid (c.mark rid s ok reason) ↔ ok = true := by
  rw [Registered, FarmCampaign.mark, view_mark_self]
  rcases hs with rfl | rfl
  · rw [mark_stage_self, Option.some.injEq]
  · by_cases hs : s = .registered
    · rw [hs, mark_stage_self, Option.some.injEq]
    · have hlater : s.idx < Stage.registered.idx := by
        cases s <;> first | decide | contradiction
      rw [mark_false_after _ _ hlater]
      simp

theorem not_registered_book (c : FarmCampaign) (rid reason : String) :
    ¬ Registered rid (c.book rid reason) := fun h => by
  rw [FarmCampaign.book] at h
  exact absurd ((mark_self_registered _ rid .completed false reason (.inr rfl)).mp h) (by decide)

theorem not_registered_conflict (c : FarmCampaign) (rid : String) :
    ¬ Registered rid (c.enterConflict rid) := fun h => by
  rw [FarmCampaign.enterConflict] at h
  exact absurd ((mark_self_registered _ rid .registered false _ (.inl rfl)).mp h) (by decide)

theorem registered_of_view (h : c'.cf.view rid = c.cf.view rid) :
    Registered rid c' ↔ Registered rid c := by
  rw [Registered, Registered, h]

theorem pass_registered (c : FarmCampaign) (rid : String) (stages : List Stage) :
    Registered rid (c.pass rid (stages ++ [.registered])) := by
  rw [FarmCampaign.pass, List.foldl_append]
  exact (mark_self_registered _ rid .registered true "" (.inl rfl)).mpr rfl

theorem ingest_registered {es : List (Key × Value)} (hes : WellShaped es)
    (hverified : verifyShipment S.I S.sha256 S.requiredShas (.dict es) = [])
    (hknown : (c.ingested.get rid).isSome) :
    Registered rid (c.ingest S ans rid (part es "products")).1 ↔
      ∃ h, Accepted S (.dict es) h := by
  have hcontent : content S.I S.sha256 (.dict es) =
      some (sha256Json S.I S.sha256 (.dict (part es "products"))) := by
    rw [RunFarm.content, hes.products, Option.map_some]
  obtain ⟨known, hknown⟩ := Option.isSome_iff_exists.mp hknown
  unfold FarmCampaign.ingest
  cases hsha : sha256Json S.I S.sha256 (.dict (part es "products")) with
  | error e =>
    have hno : ∀ h, ¬ Accepted S (.dict es) h := fun h hacc => by
      have hnew := hacc.content
      rw [hcontent, hsha] at hnew
      cases hnew
    have hdrop := mark_self_registered c rid .registered false ("unhashable products: " ++ e)
      (.inl rfl)
    simp [hdrop, hno]
  | ok new =>
    have hacc : Accepted S (.dict es) new := ⟨hverified, by rw [hcontent, hsha]⟩
    have hmark := (mark_self_registered c rid .registered true "" (.inl rfl)).mpr rfl
    simp only [hknown]
    split
    · exact iff_of_true hmark ⟨new, hacc⟩
    · refine iff_of_true ?_ ⟨new, hacc⟩
      rw [registered_of_view (view_enterConflict_of_ne (conflictKey_ne rid).symm)]
      exact hmark

theorem govern_registered (hknown : (c.ingested.get rid).isSome) :
    Registered rid (c.govern S ans rid v).1 ↔ ∃ h, Accepted S v h := by
  unfold FarmCampaign.govern
  cases hshape : FarmCampaign.shape v with
  | error bad =>
    have hno : ∀ h, ¬ Accepted S v h := fun h => not_accepted_of_shape hshape
    have hdrop :=
      mark_self_registered (c.mark rid .completed true) rid .shipped false bad (.inr rfl)
    simp [hdrop, hno]
  | ok es =>
    obtain rfl := shape_ok hshape
    dsimp only
    split
    · rename_i hempty
      have hnil := List.isEmpty_iff.mp hempty
      exact ingest_registered (verify_eq_nil.mp hnil).1 hnil hknown
    · rename_i hsome
      have hno : ∀ h, ¬ Accepted S (.dict es) h := fun h hacc => hsome (by rw [hacc.verified]; rfl)
      have hfalse := Bool.eq_false_iff.mpr hsome
      rw [hfalse]
      have hdrop := mark_self_registered ((c.mark rid .completed true).mark rid .shipped true) rid
        .verified false (joined (verifyShipment S.I S.sha256 S.requiredShas (.dict es))) (.inr rfl)
      simp [hdrop, hno]

theorem onSkip_registered (hknown : (c.ingested.get rid).isSome) :
    Registered rid (c.onSkip S ans rid).1 := by
  rw [FarmCampaign.onSkip, if_pos hknown]
  exact pass_registered c rid [.completed, .shipped, .verified]

theorem isNone_iff : isNone v = true ↔ v = .none := by
  cases v <;> simp [isNone]

theorem executeLeg_returned : c.executeLeg S config (.returned v) ans =
    c.settle S { run := none, result := v, skipped := true } ans config.rid := rfl

theorem runner_fails_iff : (Runner.returned v).Fails S ↔
    Record.Fails S { run := none, result := v, skipped := true } := by
  simp only [Runner.Fails, Record.Fails, ← Bool.not_eq_true]
  simp

theorem settle_registered {rec : Record} (hknown : (c.ingested.get rid).isSome) :
    Registered rid (c.settle S rec ans rid).1 ↔ ¬ rec.Fails S := by
  have hentered : ((c.entered rid).ingested.get rid).isSome := by
    rwa [(FarmCampaign.entered_same c rid).ingested]
  unfold FarmCampaign.settle Record.Fails
  dsimp only
  split
  · rename_i hnone
    obtain hnone' := isNone_iff.mp hnone
    have hno : ∀ h, ¬ Accepted S rec.result h := fun h => hnone' ▸ not_accepted_none
    split
    · rename_i hskip
      simp [onSkip_registered hentered, hnone, hskip]
    · rename_i hskip
      have hlost := mark_self_registered (c.entered rid) rid .completed false
        "no result (host lost)" (.inr rfl)
      simp [FarmCampaign.lose, hlost, hno, hskip]
  · rename_i hsome
    rw [govern_registered hentered]
    simp [hsome]

theorem ingest_accepts {products : List (Key × Value)} (hnew : c.ingested.get rid = none)
    (h : ((c.ingest S ans rid products).1.ingested.get rid).isSome) :
    Registered rid (c.ingest S ans rid products).1 := by
  unfold FarmCampaign.ingest at h ⊢
  cases hsha : sha256Json S.I S.sha256 (.dict products) with
  | error e =>
    simp [hsha, FarmCampaign.mark, hnew] at h
  | ok content =>
    have hhand : ∀ record, (c.hand S rid record).ingested = c.ingested := by
      intro record
      unfold FarmCampaign.hand
      split <;> rfl
    simp only [hsha, hnew] at h ⊢
    split at h
    · simp [hhand, hnew] at h
    · exact (mark_self_registered _ rid .registered true "" (.inl rfl)).mpr rfl

theorem govern_accepts (hnew : c.ingested.get rid = none)
    (h : ((c.govern S ans rid v).1.ingested.get rid).isSome) :
    Registered rid (c.govern S ans rid v).1 := by
  unfold FarmCampaign.govern at h ⊢
  cases hshape : FarmCampaign.shape v with
  | error bad =>
    simp [hshape, FarmCampaign.mark, hnew] at h
  | ok es =>
    simp only [hshape] at h ⊢
    split at h
    · rename_i hempty
      rw [if_pos hempty]
      exact ingest_accepts hnew h
    · simp [FarmCampaign.mark, hnew] at h

theorem settle_accepts {rec : Record} (hnew : c.ingested.get rid = none)
    (h : ((c.settle S rec ans rid).1.ingested.get rid).isSome) :
    Registered rid (c.settle S rec ans rid).1 := by
  have hentered : (c.entered rid).ingested.get rid = none := by
    rwa [(FarmCampaign.entered_same c rid).ingested]
  unfold FarmCampaign.settle at h ⊢
  generalize c.entered rid = c at *
  dsimp only at h ⊢
  split at h
  · rename_i hnone
    rw [if_pos hnone]
    split at h
    · rename_i hskip
      rw [if_pos hskip]
      unfold FarmCampaign.onSkip at h ⊢
      simp only [hentered, Option.isSome_none, Bool.false_eq_true, if_false] at h ⊢
      cases hdone : ans.done with
      | missing => simp [hdone, FarmCampaign.lose, FarmCampaign.mark, hentered] at h
      | read v =>
        simp only [hdone] at h ⊢
        exact govern_accepts hentered h
      | raises e => simp [hdone, hentered] at h
    · simp [FarmCampaign.lose, FarmCampaign.mark, hentered] at h
  · rename_i hsome
    rw [if_neg hsome]
    exact govern_accepts hentered h

theorem settle_conflict {rec : Record} (h : Conflicts S c rid rec.result) :
    ¬ Registered (rid ++ ".conflict") (c.settle S rec ans rid).1 := by
  have heffect : Effect rid (Conflicts S c rid rec.result)
      (∃ res, (c.settle S rec ans rid).2 = .ok res) (c.entered rid)
      (c.settle S rec ans rid).1 := settle_effect
  cases heffect with
  | own ms plain closed no cf => exact absurd h no
  | beside ms plain closed yes c₁ marked cf =>
    rw [Registered, cf]
    exact not_registered_conflict c₁ _

theorem books_unregisters (h : Books S byName r c out rid) :
    ¬ Registered rid (c.recordStep S byName r.1 r.2 out).1 := by
  cases h with
  | stray hrun =>
    rw [recordStep_stray hrun]
    exact not_registered_book _ _ _
  | again config hrun hknown =>
    rw [recordStep_again hrun hknown]
    exact not_registered_book _ _ _
  | conflict config hrun hnew hdiffers =>
    rw [recordStep_settle hrun hnew]
    exact settle_conflict hdiffers

theorem record_registered (hknown : (c.ingested.get rid).isSome) (hreg : Registered rid c) :
    Registered rid (c.recordStep S byName r.1 r.2 out).1 ↔
      ¬ (Turn.record byName r out).Unregisters S rid c := by
  by_cases hbooks : Books S byName r c out rid
  · exact iff_of_false (books_unregisters hbooks) fun h => h (.inl hbooks)
  · by_cases hown : ∀ config, configFor byName r.1.run = some config → rid ≠ config.rid
    · rw [registered_of_view (round_frame hbooks hown)]
      refine iff_of_true hreg fun h => h.elim hbooks ?_
      rintro ⟨config, hrun, heq, -⟩
      exact hown config hrun heq.symm
    · push Not at hown
      obtain ⟨config, hrun, rfl⟩ := hown
      cases hget : out.get config.rid with
      | some res =>
        have hsome : (out.get config.rid).isSome := by rw [hget]; rfl
        rw [recordStep_again hrun hsome, registered_of_view (view_book_of_ne
          (suffix_ne config.rid (by decide)).symm)]
        refine iff_of_true hreg fun h => h.elim hbooks ?_
        rintro ⟨_, -, -, hnone, -⟩
        rw [hget] at hnone
        cases hnone
      | none =>
        rw [recordStep_settle hrun hget, settle_registered hknown, not_iff_not]
        constructor
        · exact fun hfails => .inr ⟨config, hrun, rfl, hget, hfails⟩
        · rintro (h | ⟨_, _, _, _, hfails⟩)
          · exact absurd h hbooks
          · exact hfails

theorem leg_registered (hknown : (c.ingested.get rid).isSome) (hreg : Registered rid c) :
    Registered rid (c.executeLeg S config runner ans).1 ↔
      ¬ (Turn.leg config runner ans).Unregisters S rid c := by
  cases runner with
  | raised e =>
    by_cases hrid : config.rid = rid
    · subst hrid
      have hlost := mark_self_registered (c.entered config.rid) config.rid .completed false
        ("HOST_LOST: " ++ e) (.inr rfl)
      simp [FarmCampaign.executeLeg, Turn.Unregisters, Runner.Fails, hlost]
    · have hview : (c.executeLeg S config (.raised e) ans).1.cf.view rid = c.cf.view rid := by
        rw [FarmCampaign.executeLeg, FarmCampaign.mark, view_mark_of_ne (Ne.symm hrid),
          view_entered_cf, if_neg (Ne.symm hrid)]
      rw [registered_of_view hview]
      exact iff_of_true hreg (by simp [Turn.Unregisters, hrid])
  | returned v =>
    rw [executeLeg_returned]
    by_cases hrid : config.rid = rid
    · subst hrid
      have hne := conflictKey_ne config.rid
      rw [settle_registered hknown, ← runner_fails_iff]
      simp [Turn.Unregisters, hne]
    · by_cases hconflict : config.rid ++ ".conflict" = rid ∧ Conflicts S c config.rid v
      · obtain ⟨rfl, hdiffers⟩ := hconflict
        exact iff_of_false (settle_conflict hdiffers) fun h => h (.inr ⟨rfl, v, rfl, hdiffers⟩)
      · have hview : (c.settle S { run := none, result := v, skipped := true } ans
            config.rid).1.cf.view rid = c.cf.view rid :=
          settle_view (Ne.symm hrid) fun hdiffers heq => hconflict ⟨heq.symm, hdiffers⟩
        rw [registered_of_view hview]
        refine iff_of_true hreg ?_
        rintro (⟨heq, -⟩ | ⟨heq, v', hv, hdiffers⟩)
        · exact hrid heq
        · cases hv
          exact hconflict ⟨heq, hdiffers⟩

theorem gate_registered {violations : List String} (hreg : Registered rid c) :
    Registered rid (c.markGate violations config) ↔
      ¬ (Turn.gate violations config).Unregisters S rid c := by
  by_cases hrid : config.rid = rid
  · subst hrid
    cases violations with
    | nil =>
      refine iff_of_true ?_ fun h => h.2 rfl
      rw [Registered, FarmCampaign.markGate, FarmCampaign.mark, view_mark_self]
      exact mark_true_keeps _ _ hreg
    | cons x xs =>
      have hdrop := mark_self_registered c config.rid .launchGate false (joined (x :: xs))
        (.inr rfl)
      refine iff_of_false ?_ fun h => h ⟨rfl, by simp⟩
      exact fun h => absurd (hdrop.mp h) (by decide)
  · have hview : (c.markGate violations config).cf.view rid = c.cf.view rid :=
      view_mark_of_ne (Ne.symm hrid)
    rw [registered_of_view hview]
    exact iff_of_true hreg fun h => hrid h.1

theorem Turn.registered_iff (t : Turn) (hknown : (c.ingested.get rid).isSome)
    (hreg : Registered rid c) : Registered rid (t.after S c) ↔ ¬ t.Unregisters S rid c := by
  cases t with
  | gate v config => exact gate_registered hreg
  | gated passes => exact iff_of_true hreg id
  | leg config runner ans => exact leg_registered hknown hreg
  | record byName r out => exact record_registered hknown hreg
  | missing config =>
    by_cases hrid : config.rid = rid
    · subst hrid
      have hdrop := mark_self_registered c config.rid .completed false
        FarmCampaign.droppedReason (.inr rfl)
      refine iff_of_false (fun h => absurd (hdrop.mp h) (by decide)) fun h => h rfl
    · have hview : ((Turn.missing config).after S c).cf.view rid = c.cf.view rid :=
        view_mark_of_ne (Ne.symm hrid)
      rw [registered_of_view hview]
      exact iff_of_true hreg hrid

theorem settle_known {rec : Record} (ans : Answer) (hknown : (c.ingested.get rid).isSome) :
    c.settle S rec ans rid = c.settle S rec {} rid := by
  obtain ⟨known, hknown⟩ := Option.isSome_iff_exists.mp hknown
  have hingest : ∀ c' : FarmCampaign, c'.ingested = c.ingested → ∀ products,
      c'.ingest S ans rid products = c'.ingest S {} rid products := by
    intro c' hsame products
    simp only [FarmCampaign.ingest, hsame, hknown]
  have hgovern : ∀ v, (c.entered rid).govern S ans rid v = (c.entered rid).govern S {} rid v := by
    intro v
    have hsame := (FarmCampaign.entered_same c rid).ingested
    unfold FarmCampaign.govern
    cases FarmCampaign.shape v with
    | error bad => rfl
    | ok es =>
      dsimp only
      split
      · have hmarked : ((((c.entered rid).mark rid .completed true).mark rid .shipped true).mark
            rid .verified (verifyShipment S.I S.sha256 S.requiredShas (.dict es)).isEmpty
            (joined (verifyShipment S.I S.sha256 S.requiredShas (.dict es)))).ingested =
            c.ingested := hsame
        exact hingest _ hmarked _
      · rfl
  unfold FarmCampaign.settle FarmCampaign.onSkip
  simp only [hgovern, (FarmCampaign.entered_same c rid).ingested, hknown, Option.isSome_some,
    if_true]

theorem settle_keeps {rec : Record} (hknown : (c.ingested.get rid).isSome) :
    ((c.settle S rec ans leg).1.ingested.get rid).isSome := by
  by_cases hleg : rid = leg
  · subst hleg
    obtain ⟨d, hd⟩ := Option.isSome_iff_exists.mp hknown
    have hstep : CorpusStep S _ rid c (c.settle S rec {} rid).1 := settle_corpus rfl
    rw [settle_known ans hknown, Grows.keeps ⟨rid, hstep⟩ hd]
    rfl
  · rwa [settle_elsewhere.ingested rid hleg]

theorem executeLeg_raised {e : String} :
    (c.executeLeg S config (.raised e) ans).1.ingested = c.ingested :=
  (FarmCampaign.entered_same c config.rid).ingested

theorem recordStep_ingested (h : configFor byName r.1.run = none ∨
      ∃ config, configFor byName r.1.run = some config ∧ (out.get config.rid).isSome) :
    (c.recordStep S byName r.1 r.2 out).1.ingested = c.ingested := by
  rcases h with hrun | ⟨config, hrun, hknown⟩
  · rw [recordStep_stray hrun, (FarmCampaign.book_same c _ _).ingested]
  · rw [recordStep_again hrun hknown, (FarmCampaign.book_same c _ _).ingested]

theorem Turn.ingested_cases (t : Turn) (c : FarmCampaign) :
    (t.after S c).ingested = c.ingested ∨
      ∃ rec ans leg, t.after S c = (c.settle S rec ans leg).1 := by
  cases t with
  | gate v config => exact .inl rfl
  | gated passes => exact .inl rfl
  | leg config runner ans =>
    cases runner with
    | raised e => exact .inl executeLeg_raised
    | returned v =>
      exact .inr ⟨{ run := none, result := v, skipped := true }, ans, config.rid, rfl⟩
  | record byName r out =>
    cases hrun : configFor byName r.1.run with
    | none => exact .inl (recordStep_ingested (.inl hrun))
    | some config =>
      cases hget : out.get config.rid with
      | some res => exact .inl (recordStep_ingested (.inr ⟨config, hrun, by rw [hget]; rfl⟩))
      | none => exact .inr ⟨r.1, r.2, config.rid, recordStep_settle hrun hget⟩
  | missing config => exact .inl rfl

theorem Turn.keeps (t : Turn) (hknown : (c.ingested.get rid).isSome) :
    ((t.after S c).ingested.get rid).isSome := by
  rcases t.ingested_cases (S := S) c with hsame | ⟨rec, ans, leg, hsettle⟩
  · rwa [hsame]
  · rw [hsettle]
    exact settle_keeps hknown

theorem Turn.accepts (t : Turn) (hnew : c.ingested.get rid = none)
    (h : ((t.after S c).ingested.get rid).isSome) : Registered rid (t.after S c) := by
  rcases t.ingested_cases (S := S) c with hsame | ⟨rec, ans, leg, hsettle⟩
  · simp [hsame, hnew] at h
  · rw [hsettle] at h ⊢
    by_cases hleg : rid = leg
    · subst hleg
      exact settle_accepts hnew h
    · simp [settle_elsewhere.ingested rid hleg, hnew] at h

theorem Turn.shown_iff (t : Turn) (hshown : Shown rid c) :
    Shown rid (t.after S c) ↔ ((c.ingested.get rid).isSome → ¬ t.Unregisters S rid c) := by
  constructor
  · exact fun h hknown => (t.registered_iff hknown (hshown hknown)).mp (h (t.keeps hknown))
  · intro h hafter
    by_cases hknown : (c.ingested.get rid).isSome
    · exact (t.registered_iff hknown (hshown hknown)).mpr (h hknown)
    · exact t.accepts (by simpa using hknown) hafter

def turnStep (S : Setting) (c : FarmCampaign) (t : Turn) : Option FarmCampaign :=
  some (t.after S c)

/-- No turn takes `registered` from the leg while the corpus has it. -/
def RowSpared (S : Setting) (rid : String) : FarmCampaign → List Turn → Prop :=
  Along (fun c t => (c.ingested.get rid).isSome → ¬ t.Unregisters S rid c) (turnStep S)

theorem rowSpared_cons {t : Turn} {ts : List Turn} : RowSpared S rid c (t :: ts) ↔
    ((c.ingested.get rid).isSome → ¬ t.Unregisters S rid c) ∧ RowSpared S rid (t.after S c) ts := by
  simp [RowSpared, Along, turnStep]

theorem turns_shown_iff {ts : List Turn} (hshown : Shown rid c) :
    (∀ before behind, ts = before ++ behind → Shown rid (runTurns S c before)) ↔
      RowSpared S rid c ts := by
  induction ts generalizing c with
  | nil =>
    refine iff_of_true (fun before behind hsplit => ?_) trivial
    rw [(List.append_eq_nil_iff.mp hsplit.symm).1]
    exact hshown
  | cons t ts ih =>
    rw [rowSpared_cons, ← t.shown_iff hshown]
    constructor
    · intro h
      have hfirst : Shown rid (t.after S c) := h [t] ts rfl
      refine ⟨hfirst, (ih hfirst).mp fun before behind hsplit => ?_⟩
      exact h (t :: before) behind (by rw [hsplit, List.cons_append])
    · rintro ⟨hfirst, hspared⟩ before behind hsplit
      cases before with
      | nil => exact hshown
      | cons t' before =>
        obtain ⟨rfl, hrest⟩ := List.cons.inj hsplit
        exact (ih hfirst).mpr hspared before behind hrest

theorem turnsOf_append (c : FarmCampaign) (calls calls' : List FarmCall) :
    turnsOf S c (calls ++ calls') = turnsOf S c calls ++ turnsOf S (runCalls S c calls) calls' := by
  induction calls generalizing c with
  | nil => rfl
  | cons call calls ih =>
    rw [List.cons_append, turnsOf, ih, turnsOf, List.append_assoc]
    rfl

/-- Through any calls that run the legs of a plan, from a campaign where a leg is registered if
the corpus has it: it stays so in every campaign passed through exactly when, once the corpus
has it, no attempt of it is lost, dropped or rejected, no gate fails, and nothing is booked
under its rid. -/
theorem registered_kept_iff (S : Setting) (c : FarmCampaign) (rid : String)
    (calls : List FarmCall) (hcalls : ∀ call ∈ calls, call.isPlan = false)
    (hshown : Shown rid c) :
    ((∀ before behind, turnsOf S c calls = before ++ behind →
      Shown rid (runTurns S c before)) ↔ RowSpared S rid c (turnsOf S c calls)) ∧
    (RowSpared S rid c (turnsOf S c calls) →
      ∀ before behind, calls = before ++ behind → Shown rid (runCalls S c before)) := by
  have hturns : (∀ before behind, turnsOf S c calls = before ++ behind →
      Shown rid (runTurns S c before)) ↔ RowSpared S rid c (turnsOf S c calls) :=
    turns_shown_iff hshown
  refine ⟨hturns, fun hspared before behind hsplit => ?_⟩
  subst hsplit
  have hbefore : ∀ call ∈ before, call.isPlan = false :=
    fun call hcall => hcalls call (List.mem_append_left _ hcall)
  rw [← runTurns_calls hbefore]
  exact hturns.mpr hspared _ _ (turnsOf_append c before behind)

/-- An attempt of the leg `a`, which `sampleLegs` plans. -/
def legAttempt (runner : Runner) : FarmCall :=
  .executeLeg ⟨"a", .ok "ab12", .ok "farm_ab12"⟩ runner {}

def bothShipped : Runner := .returned (.dict (sampleShipment bothProducts))

theorem shippedTwice_registered :
    Registered "a" (runCalls sampleSetting samplePlanned
      [legAttempt bothShipped, legAttempt bothShipped]) := by
  have hspared : RowSpared sampleSetting "a" samplePlanned
      (turnsOf sampleSetting samplePlanned [legAttempt bothShipped, legAttempt bothShipped]) := by
    have hturns : turnsOf sampleSetting samplePlanned
        [legAttempt bothShipped, legAttempt bothShipped] =
        [.leg ⟨"a", .ok "ab12", .ok "farm_ab12"⟩ bothShipped {},
          .leg ⟨"a", .ok "ab12", .ok "farm_ab12"⟩ bothShipped {}] := rfl
    rw [hturns, rowSpared_cons, rowSpared_cons]
    refine ⟨fun hknown => (by cases hknown), fun _ hun => ?_, trivial⟩
    rcases hun with ⟨-, -, hfails⟩ | ⟨hkey, -⟩
    · exact hfails twoDigest ⟨rfl, rfl⟩
    · exact suffix_ne "a" (by decide) hkey
  refine (registered_kept_iff sampleSetting samplePlanned "a"
    [legAttempt bothShipped, legAttempt bothShipped] ?_ (fun h => by cases h)).2 hspared
    [legAttempt bothShipped, legAttempt bothShipped] [] rfl rfl
  intro call hcall
  simp only [List.mem_cons, List.not_mem_nil, or_false] at hcall
  rcases hcall with rfl | rfl <;> rfl

/-- The host of the second attempt is lost: the waterfall drops a leg that the corpus has. -/
theorem lostAgain_unregistered : ¬ ∀ (S : Setting) (P : Policy) (legs : List Leg)
    (c c₁ : FarmCampaign) (counts : FarmCampaign.Planned) (calls : List FarmCall),
    c.plan S P legs = (c₁, .ok counts) → (∀ call ∈ calls, call.isPlan = false) →
    ∀ leg ∈ legs, ∀ before behind, calls = before ++ behind →
      ((runCalls S c₁ before).ingested.get leg.rid).isSome →
      Registered leg.rid (runCalls S c₁ before) → Registered leg.rid (runCalls S c₁ calls) := by
  intro h
  have hkept := h sampleSetting _ sampleLegs {} samplePlanned ⟨2, 1⟩
    [legAttempt bothShipped, legAttempt (.raised "boom")] samplePlan
    (by simp [legAttempt, FarmCall.isPlan]) ⟨"a", [], [], []⟩ (by simp [sampleLegs])
    [legAttempt bothShipped] [legAttempt (.raised "boom")] rfl rfl rfl
  cases hkept

end RunFarm
