import Mathlib.Logic.Relation
import RunFarm.Governed.FarmCampaign
import RunFarm.Transition

/-! The corpus through any calls on one campaign: what is in it stays, was verified, and was
handed to the ingest callback once. -/
set_option autoImplicit false

namespace RunFarm
open Python
open Relation (ReflTransGen)

/-- A call of one of the four methods, with what the world answers to it. -/
inductive FarmCall where
  | plan (P : Policy) (legs : List Leg)
  | gateLaunch (launched : List LaunchedConfig)
  | executeLeg (config : RunConfig) (runner : Runner) (ans : Answer)
  | executeFleet (dispatch : Dispatch)

def FarmCall.after (S : Setting) (c : FarmCampaign) : FarmCall → FarmCampaign
  | .plan P legs => (c.plan S P legs).1
  | .gateLaunch launched => (c.gateLaunch S launched).1
  | .executeLeg config runner ans => (c.executeLeg S config runner ans).1
  | .executeFleet dispatch => (c.executeFleet S dispatch).1

def runCalls (S : Setting) (c : FarmCampaign) (calls : List FarmCall) : FarmCampaign :=
  calls.foldl (FarmCall.after S) c

def Answer.shipments (ans : Answer) : List Value :=
  match ans.done with
  | .read v => [v]
  | _ => []

def FarmCall.shipments : FarmCall → List Value
  | .executeLeg _ (.returned v) ans => v :: ans.shipments
  | .executeFleet dispatch =>
    dispatch.records.flatMap (fun r => r.1.result :: r.2.shipments)
  | _ => []

def FarmCall.answers : FarmCall → List Answer
  | .executeLeg _ _ ans => [ans]
  | .executeFleet dispatch => dispatch.records.map Prod.snd
  | _ => []

/-- The ingest callback does not raise during the call. -/
def FarmCall.IngestReturns (call : FarmCall) : Prop :=
  ∀ ans ∈ call.answers, ans.ingestRaises = none

/-- The shipment verifies and its products have this hash. -/
structure Accepted (S : Setting) (shipment : Value) (h : Digest) : Prop where
  verified : verifyShipment S.I S.sha256 S.requiredShas shipment = []
  content : content S.I S.sha256 shipment = some (.ok h)

/-- What governing a shipment of the leg `rid` can do to the corpus. -/
inductive CorpusStep (S : Setting) (seen : List Value) (rid : String) (c c' : FarmCampaign) :
    Prop where
  | same (ingested : c'.ingested = c.ingested) (handed : c'.handed = c.handed)
  | added (h : Digest) (shipment record : Value) (mem : shipment ∈ seen)
      (accepted : Accepted S shipment h) (free : c.ingested.get rid = none)
      (ingested : c'.ingested = c.ingested.set rid h)
      (handed : c'.handed = c.handed ++ if S.ingests then [(rid, record)] else [])

def Grows (S : Setting) (seen : List Value) (c c' : FarmCampaign) : Prop :=
  ∃ rid, CorpusStep S seen rid c c'

variable {S : Setting} {seen seen' : List Value} {c c' : FarmCampaign} {ans : Answer}
  {rid : String}

theorem CorpusStep.mono (h : CorpusStep S seen rid c c') (hsub : ∀ v ∈ seen, v ∈ seen') :
    CorpusStep S seen' rid c c' := by
  cases h with
  | same ingested handed => exact .same ingested handed
  | added h shipment record mem accepted free ingested handed =>
    exact .added h shipment record (hsub _ mem) accepted free ingested handed

theorem Grows.mono (h : Grows S seen c c') (hsub : ∀ v ∈ seen, v ∈ seen') :
    Grows S seen' c c' :=
  h.imp fun _ hs => hs.mono hsub

theorem CorpusStep.of_same (h : FarmCampaign.SameButCf c c') : CorpusStep S seen rid c c' :=
  .same h.ingested h.handed

theorem Grows.of_same (h : FarmCampaign.SameButCf c c') : Grows S seen c c' := ⟨"", .of_same h⟩

theorem CorpusStep.after_marks {c₀ : FarmCampaign} (h : CorpusStep S seen rid c c')
    (hsame : FarmCampaign.SameButCf c₀ c) : CorpusStep S seen rid c₀ c' := by
  cases h with
  | same ingested handed =>
    exact .same (ingested.trans hsame.ingested) (handed.trans hsame.handed)
  | added h shipment record mem accepted free ingested handed =>
    exact .added h shipment record mem accepted (hsame.ingested ▸ free)
      (hsame.ingested ▸ ingested) (hsame.handed ▸ handed)

theorem register_corpus {shipment record : Value} {h : Digest} (hacc : Accepted S shipment h)
    (hfree : c.ingested.get rid = none) :
    CorpusStep S [shipment] rid c ((c.hand S rid record).register rid h) := by
  refine .added h shipment record (by simp) hacc hfree ?_ ?_
  · simp only [FarmCampaign.register, FarmCampaign.mark, FarmCampaign.hand]
    split <;> rfl
  · simp only [FarmCampaign.register, FarmCampaign.mark, FarmCampaign.hand]
    split <;> simp

theorem ingest_corpus {es : List (Key × Value)}
    (hes : WellShaped es) (hverified : verifyShipment S.I S.sha256 S.requiredShas (.dict es) = [])
    (hans : ans.ingestRaises = none) :
    CorpusStep S [.dict es] rid c (c.ingest S ans rid (part es "products")).1 := by
  unfold FarmCampaign.ingest
  cases hsha : sha256Json S.I S.sha256 (.dict (part es "products")) with
  | error e => exact .of_same (FarmCampaign.mark_same c rid _ _ _)
  | ok content =>
    cases hknown : c.ingested.get rid with
    | some h =>
      dsimp only
      split
      · exact .of_same (FarmCampaign.mark_same c rid _ _ _)
      · exact .of_same ((FarmCampaign.mark_same c rid _ _ _).trans
          (FarmCampaign.enterConflict_same _ _))
    | none =>
      have hacc : Accepted S (.dict es) content :=
        ⟨hverified, by rw [RunFarm.content, hes.products, Option.map_some, hsha]⟩
      simp only [hans, ite_self]
      exact register_corpus hacc hknown

theorem shape_ok {v : Value} {es : List (Key × Value)} (h : FarmCampaign.shape v = .ok es) :
    v = .dict es := by
  unfold FarmCampaign.shape at h
  split at h
  · split at h
    · split at h
      · cases h
      · cases h
        rfl
    · cases h
  · cases h

theorem govern_corpus {v : Value} (hans : ans.ingestRaises = none) :
    CorpusStep S [v] rid c (c.govern S ans rid v).1 := by
  unfold FarmCampaign.govern
  cases hshape : FarmCampaign.shape v with
  | error bad => exact .of_same ((FarmCampaign.mark_same c rid .completed true "").trans
      (FarmCampaign.mark_same _ rid _ _ _))
  | ok es =>
    obtain rfl := shape_ok hshape
    have hverified := FarmCampaign.verified_same c rid
      (verifyShipment S.I S.sha256 S.requiredShas (.dict es)).isEmpty
      (joined (verifyShipment S.I S.sha256 S.requiredShas (.dict es)))
    dsimp only
    split
    · rename_i hv
      have hnil := List.isEmpty_iff.mp hv
      exact (ingest_corpus (verify_eq_nil.mp hnil).1 hnil hans).after_marks hverified
    · exact .of_same hverified

theorem onSkip_corpus (hans : ans.ingestRaises = none) :
    CorpusStep S ans.shipments rid c (c.onSkip S ans rid).1 := by
  unfold FarmCampaign.onSkip
  split
  · exact .of_same (FarmCampaign.pass_same c rid _)
  · unfold Answer.shipments
    cases ans.done with
    | missing => exact .of_same (FarmCampaign.mark_same c rid _ _ _)
    | read v => exact govern_corpus hans
    | raises e => exact .of_same (.refl c)

theorem executeLeg_corpus {config : RunConfig} {runner : Runner}
    (hans : ans.ingestRaises = none) :
    CorpusStep S (FarmCall.executeLeg config runner ans).shipments config.rid c
      (c.executeLeg S config runner ans).1 := by
  have hentered := FarmCampaign.entered_same c config.rid
  unfold FarmCampaign.executeLeg
  cases runner with
  | raised e => exact .of_same (hentered.trans (FarmCampaign.mark_same _ _ _ _ _))
  | returned v =>
    dsimp only
    split
    · exact ((onSkip_corpus hans).after_marks hentered).mono
        fun v hv => by simp [FarmCall.shipments, hv]
    · exact ((govern_corpus hans).after_marks hentered).mono (by simp [FarmCall.shipments])

theorem settle_corpus {rec : Record} (hans : ans.ingestRaises = none) :
    CorpusStep S (rec.result :: ans.shipments) rid c (c.settle S rec ans rid).1 := by
  have hentered := FarmCampaign.entered_same c rid
  unfold FarmCampaign.settle
  dsimp only
  split
  · split
    · exact ((onSkip_corpus hans).after_marks hentered).mono fun v hv => by simp [hv]
    · exact .of_same (hentered.trans (FarmCampaign.mark_same _ _ _ _ _))
  · exact ((govern_corpus hans).after_marks hentered).mono (by simp)

theorem recordStep_corpus {byName : Dict String RunConfig} {rec : Record}
    {out : Dict String FarmResult} (hans : ans.ingestRaises = none) :
    Grows S (rec.result :: ans.shipments) c (c.recordStep S byName rec ans out).1 := by
  unfold FarmCampaign.recordStep
  cases configFor byName rec.run with
  | none => exact .of_same (FarmCampaign.book_same c _ _)
  | some config =>
    dsimp only
    split
    · exact .of_same (FarmCampaign.book_same c _ _)
    · have hstep : Grows S (rec.result :: ans.shipments) c
          (c.settle S rec ans config.rid).1 := ⟨config.rid, settle_corpus hans⟩
      cases hsettle : c.settle S rec ans config.rid with
      | mk c' r =>
        rw [hsettle] at hstep
        cases r <;> exact hstep

theorem recordSteps_corpus {byName : Dict String RunConfig} {records : List (Record × Answer)}
    {out : Dict String FarmResult} (hans : ∀ r ∈ records, r.2.ingestRaises = none)
    (hseen : ∀ r ∈ records, ∀ v ∈ r.1.result :: r.2.shipments, v ∈ seen) :
    ReflTransGen (Grows S seen) c (c.recordSteps S byName records out).1 := by
  induction records generalizing c out with
  | nil => exact .refl
  | cons r records ih =>
    rw [List.forall_mem_cons] at hans hseen
    have hstep : Grows S seen c (c.recordStep S byName r.1 r.2 out).1 :=
      (recordStep_corpus hans.1).mono hseen.1
    unfold FarmCampaign.recordSteps
    cases hround : c.recordStep S byName r.1 r.2 out with
    | mk c' out' =>
      rw [hround] at hstep
      cases out' with
      | error e => exact .single hstep
      | ok out' => exact .head hstep (ih hans.2 hseen.2)

theorem reconcile_same (configs : List RunConfig) (c : FarmCampaign)
    (out : Dict String FarmResult) :
    FarmCampaign.SameButCf c (configs.foldl FarmCampaign.reconcileOne (c, out)).1 := by
  induction configs generalizing c out with
  | nil => exact .refl c
  | cons config configs ih =>
    rw [List.foldl_cons, FarmCampaign.reconcileOne]
    split
    · exact ih c out
    · exact (FarmCampaign.mark_same c _ _ _ _).trans (ih _ _)

theorem executeFleet_corpus {dispatch : Dispatch}
    (hans : ∀ r ∈ dispatch.records, r.2.ingestRaises = none) :
    ReflTransGen (Grows S (FarmCall.executeFleet dispatch).shipments) c
      (c.executeFleet S dispatch).1 := by
  unfold FarmCampaign.executeFleet
  split
  · cases dictBy RunConfig.runName id c.configs Dict.empty with
    | error e => exact .refl
    | ok byName =>
      have hrun : ReflTransGen (Grows S (FarmCall.executeFleet dispatch).shipments) c
          (c.recordSteps S byName dispatch.records Dict.empty).1 :=
        recordSteps_corpus hans fun r hr v hv => List.mem_flatMap.mpr ⟨r, hr, hv⟩
      dsimp only
      cases hsteps : c.recordSteps S byName dispatch.records Dict.empty with
      | mk c' out =>
        rw [hsteps] at hrun
        cases out with
        | error e => exact hrun
        | ok out =>
          cases dispatch.raises with
          | some e => exact hrun
          | none => exact hrun.tail (.of_same (reconcile_same c'.configs c' out))
  · exact .refl

theorem planLeg_corpus {P : Policy} {leg : Leg} {ok : List RunConfig} :
    FarmCampaign.SameButCf c (c.planLeg S P leg ok).1 := by
  have hentered := FarmCampaign.enter_same c leg.rid
  unfold FarmCampaign.planLeg
  dsimp only
  split
  · exact hentered
  · exact hentered
  · rename_i pre staged _ _
    have hmarked := hentered.trans (FarmCampaign.mark_same (c.enter leg.rid) leg.rid .planned
      (pre ++ staged).isEmpty (joined (pre ++ staged)))
    split
    · split <;> exact hmarked
    · exact hmarked

theorem planLegs_corpus {P : Policy} {legs : List Leg} {ok : List RunConfig} :
    FarmCampaign.SameButCf c (c.planLegs S P legs ok).1 := by
  induction legs generalizing c ok with
  | nil => exact .refl c
  | cons leg legs ih =>
    have hleg : FarmCampaign.SameButCf c (c.planLeg S P leg ok).1 := planLeg_corpus
    unfold FarmCampaign.planLegs
    cases hround : c.planLeg S P leg ok with
    | mk c' ok' =>
      rw [hround] at hleg
      cases ok' with
      | error e => exact hleg
      | ok ok' => exact hleg.trans ih

theorem plan_corpus {P : Policy} {legs : List Leg} :
    Grows S seen c (c.plan S P legs).1 := by
  unfold FarmCampaign.plan
  dsimp only
  split
  · exact ⟨"", .same rfl rfl⟩
  · have hlegs : FarmCampaign.SameButCf { c with gated := false }
        (FarmCampaign.planLegs S P legs { c with gated := false } []).1 := planLegs_corpus
    cases hround : FarmCampaign.planLegs S P legs { c with gated := false } [] with
    | mk c' ok =>
      rw [hround] at hlegs
      cases ok <;> exact ⟨"", .same hlegs.ingested hlegs.handed⟩

theorem markGate_same (v : List String) (configs : List RunConfig) (c : FarmCampaign) :
    FarmCampaign.SameButCf c (configs.foldl (FarmCampaign.markGate v) c) := by
  induction configs generalizing c with
  | nil => exact .refl c
  | cons config configs ih => exact (FarmCampaign.mark_same c _ _ _ _).trans (ih _)

theorem gateLaunch_corpus {launched : List LaunchedConfig} :
    Grows S seen c (c.gateLaunch S launched).1 := by
  unfold FarmCampaign.gateLaunch
  cases launchGate S.I c.configs launched with
  | error e => exact .of_same (.refl c)
  | ok v =>
    have hmarks := markGate_same v c.configs c
    exact ⟨"", .same hmarks.ingested hmarks.handed⟩

theorem call_corpus {call : FarmCall} (h : call.IngestReturns) :
    ReflTransGen (Grows S call.shipments) c (call.after S c) := by
  cases call with
  | plan P legs => exact .single plan_corpus
  | gateLaunch launched => exact .single gateLaunch_corpus
  | executeLeg config runner ans =>
    have hans : ans.ingestRaises = none := h ans (by simp [FarmCall.answers])
    exact .single ⟨config.rid, executeLeg_corpus hans⟩
  | executeFleet dispatch =>
    exact executeFleet_corpus fun r hr => h r.2 (List.mem_map_of_mem hr)

theorem calls_corpus {calls : List FarmCall} (h : ∀ call ∈ calls, call.IngestReturns) :
    ReflTransGen (Grows S (calls.flatMap FarmCall.shipments)) c (runCalls S c calls) := by
  induction calls generalizing c with
  | nil => exact .refl
  | cons call calls ih =>
    rw [List.forall_mem_cons] at h
    have hsub : ∀ v ∈ call.shipments, v ∈ (call :: calls).flatMap FarmCall.shipments :=
      fun v hv => List.mem_flatMap.mpr ⟨call, by simp, hv⟩
    have hfirst := Transition.run_mono (fun hs => Grows.mono hs hsub)
      (call_corpus (S := S) (c := c) h.1)
    refine hfirst.trans (Transition.run_mono (fun hs => Grows.mono hs ?_) (ih h.2))
    exact fun v hv => by simp_all

structure SoundCorpus (S : Setting) (seen : List Value) (c : FarmCampaign) : Prop where
  once : (c.handed.map Prod.fst).Nodup
  kept : ∀ e ∈ c.handed, (c.ingested.get e.1).isSome
  verified : ∀ rid h, c.ingested.get rid = some h →
    ∃ shipment ∈ seen, Accepted S shipment h

theorem Grows.sound (h : Grows S seen c c') (hc : SoundCorpus S seen c) :
    SoundCorpus S seen c' := by
  obtain ⟨rid, h⟩ := h
  cases h with
  | same ingested handed =>
    exact ⟨handed ▸ hc.once, by rw [handed, ingested]; exact hc.kept,
      by rw [ingested]; exact hc.verified⟩
  | added h shipment record mem accepted free ingested handed =>
    have hnew : rid ∉ c.handed.map Prod.fst := fun hmem => by
      obtain ⟨e, he, rfl⟩ := List.mem_map.mp hmem
      simpa [free] using hc.kept e he
    refine ⟨?_, ?_, ?_⟩
    · rw [handed]
      split
      · rw [List.map_append, List.nodup_append]
        exact ⟨hc.once, by simp, fun a ha b hb hab => hnew (by simp_all)⟩
      · simpa using hc.once
    · rw [handed, ingested]
      intro e he
      rw [Dict.get_set]
      split
      · rfl
      · rename_i hne
        rcases List.mem_append.mp he with he | he
        · exact hc.kept e he
        · split at he <;> simp_all
    · rw [ingested]
      intro rid' h' hget
      rw [Dict.get_set] at hget
      split at hget
      · cases hget
        exact ⟨shipment, mem, accepted⟩
      · exact hc.verified rid' h' hget

theorem Grows.keeps (h : Grows S seen c c') {d : Digest}
    (hc : c.ingested.get rid = some d) : c'.ingested.get rid = some d := by
  obtain ⟨rid', h⟩ := h
  cases h with
  | same ingested _ => rwa [ingested]
  | added h' shipment record mem accepted free ingested handed =>
    rw [ingested, Dict.get_set]
    split
    · rename_i heq
      subst heq
      rw [free] at hc
      cases hc
    · exact hc

/-- Through any calls on one campaign whose ingest callback returns: an entry of the corpus
stays as it is, no rid is handed to the callback twice, and every entry is the hash of the
products of a shipment that verified. -/
theorem corpus_integrity (S : Setting) (before behind : List FarmCall)
    (h : ∀ call ∈ before ++ behind, call.IngestReturns) :
    (∀ rid d, (runCalls S {} before).ingested.get rid = some d →
      (runCalls S {} (before ++ behind)).ingested.get rid = some d) ∧
    ((runCalls S {} before).handed.map Prod.fst).Nodup ∧
    ∀ rid d, (runCalls S {} before).ingested.get rid = some d →
      ∃ call ∈ before, ∃ shipment ∈ call.shipments, Accepted S shipment d := by
  rw [List.forall_mem_append] at h
  have hsound : SoundCorpus S (before.flatMap FarmCall.shipments) (runCalls S {} before) :=
    Transition.run_keeps Grows.sound (calls_corpus h.1)
      ⟨List.nodup_nil, by simp, by simp⟩
  refine ⟨fun rid d hd => ?_, hsound.once, fun rid d hd => ?_⟩
  · rw [runCalls, List.foldl_append]
    exact Transition.run_keeps (I := fun c => c.ingested.get rid = some d)
      (fun hs hc => Grows.keeps hs hc) (calls_corpus h.2) hd
  · obtain ⟨shipment, hmem, hacc⟩ := hsound.verified rid d hd
    obtain ⟨call, hcall, hship⟩ := List.mem_flatMap.mp hmem
    exact ⟨call, hcall, shipment, hship, hacc⟩

def sampleSetting : Setting where
  I := sampleInterp
  sha256 := sampleSha
  gtag := "v1"
  requiredShas := Dict.empty
  ingests := true

def sampleLeg (products : List (Key × Value)) : FarmCall :=
  .executeLeg ⟨"leg_0", .ok "ab12", .ok "farm_ab12"⟩
    (.returned (.dict (sampleShipment products))) {}

theorem sampleLegs_kept :
    (runCalls sampleSetting {} [sampleLeg bothProducts, sampleLeg oneProduct]).ingested.get "leg_0"
      = some twoDigest := by
  refine (corpus_integrity sampleSetting [sampleLeg bothProducts] [sampleLeg oneProduct] ?_).1
    "leg_0" twoDigest rfl
  intro call hcall ans hans
  simp only [List.cons_append, List.nil_append, List.mem_cons, List.not_mem_nil, or_false] at hcall
  rcases hcall with rfl | rfl <;> cases hans <;> first | rfl | contradiction

end RunFarm
