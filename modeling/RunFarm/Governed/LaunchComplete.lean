import RunFarm.Governed.Planning

/-! Launch completeness: what `execute_fleet` dispatches was given to the last `gate_launch` since
the last `plan`, unless a gate has raised while an earlier pass stood. -/
set_option autoImplicit false

namespace RunFarm
open Python

namespace FarmCampaign

/-- What `execute_fleet` hands to `dispatch`, if it comes to that. -/
def dispatched (c : FarmCampaign) : Option (List RunConfig) :=
  if c.gated then
    match dictBy RunConfig.runName id c.configs Dict.empty with
    | .error _ => none
    | .ok _ => some c.configs
  else none

/-- What `execute_fleet` reads before it dispatches. -/
def gatePart (c : FarmCampaign) : List RunConfig × Bool := (c.configs, c.gated)

end FarmCampaign

structure SameHashes (configs : List RunConfig) (launched : List LaunchedConfig) : Prop where
  dispatched : ∀ config ∈ configs, ∃ hash, config.configHash = .ok hash
  given : ∀ config ∈ launched, ∃ hash, config.configHash = .ok hash
  same : ∀ hash, (∃ config ∈ configs, config.configHash = .ok hash) ↔
    ∃ config ∈ launched, config.configHash = .ok hash

/-- The list that a call leaves as the one most recently given to `gate_launch` since a `plan`. -/
def FarmCall.lastGate (last : Option (List LaunchedConfig)) :
    FarmCall → Option (List LaunchedConfig)
  | .plan _ _ => none
  | .gateLaunch launched => some launched
  | _ => last

def lastGate (calls : List FarmCall) : Option (List LaunchedConfig) :=
  calls.foldl FarmCall.lastGate none

/-- An `execute_fleet` after these calls dispatches what the last gate was given, or raises and
changes nothing. -/
structure LaunchComplete (S : Setting) (calls : List FarmCall) : Prop where
  gate : ∀ configs, (runCalls S {} calls).dispatched = some configs →
    ∃ launched, lastGate calls = some launched ∧ SameHashes configs launched
  refuses : (runCalls S {} calls).dispatched = none → ∃ e, ∀ dispatch,
    (runCalls S {} calls).executeFleet S dispatch = (runCalls S {} calls, .error e)

variable {S : Setting} {c c' : FarmCampaign} {rid leg : String} {ans : Answer} {v : Value}
  {byName : Dict String RunConfig} {configs : List RunConfig}
  {launched : List LaunchedConfig} {calls : List FarmCall}

theorem gatePart_of_same (h : FarmCampaign.SameButCf c c') : c'.gatePart = c.gatePart := by
  simp [FarmCampaign.gatePart, h.configs, h.gated]

@[simp] theorem gatePart_mark (c : FarmCampaign) (leg : String) (s : Stage) (ok : Bool)
    (reason : String) : (c.mark leg s ok reason).gatePart = c.gatePart := rfl

@[simp] theorem gatePart_pass (c : FarmCampaign) (leg : String) (stages : List Stage) :
    (c.pass leg stages).gatePart = c.gatePart := gatePart_of_same (c.pass_same leg stages)

@[simp] theorem gatePart_entered (c : FarmCampaign) (leg : String) :
    (c.entered leg).gatePart = c.gatePart := gatePart_of_same (c.entered_same leg)

@[simp] theorem gatePart_enterConflict (c : FarmCampaign) (leg : String) :
    (c.enterConflict leg).gatePart = c.gatePart := gatePart_of_same (c.enterConflict_same leg)

@[simp] theorem gatePart_hand (c : FarmCampaign) (S : Setting) (rid : String) (record : Value) :
    (c.hand S rid record).gatePart = c.gatePart := by
  unfold FarmCampaign.hand
  split <;> rfl

@[simp] theorem gatePart_register (c : FarmCampaign) (rid : String) (content : Digest) :
    (c.register rid content).gatePart = c.gatePart := rfl

theorem ingest_gatePart (products : List (Key × Value)) (c : FarmCampaign) :
    (c.ingest S ans rid products).1.gatePart = c.gatePart := by
  unfold FarmCampaign.ingest
  split
  · simp
  · split
    · split <;> simp
    · dsimp only
      split <;> simp

theorem govern_gatePart (v : Value) (c : FarmCampaign) :
    (c.govern S ans rid v).1.gatePart = c.gatePart := by
  unfold FarmCampaign.govern
  split
  · simp
  · dsimp only
    split
    · simp [ingest_gatePart]
    · simp

theorem onSkip_gatePart (c : FarmCampaign) : (c.onSkip S ans rid).1.gatePart = c.gatePart := by
  unfold FarmCampaign.onSkip
  split
  · simp
  · split
    · rfl
    · exact govern_gatePart _ c
    · rfl

theorem executeLeg_gatePart (config : RunConfig) (runner : Runner) (c : FarmCampaign) :
    (c.executeLeg S config runner ans).1.gatePart = c.gatePart := by
  unfold FarmCampaign.executeLeg
  cases runner with
  | raised e => simp
  | returned v =>
    dsimp only
    split
    · simp [onSkip_gatePart]
    · simp [govern_gatePart]

theorem settle_gatePart (rec : Record) (c : FarmCampaign) :
    (c.settle S rec ans rid).1.gatePart = c.gatePart := by
  unfold FarmCampaign.settle
  dsimp only
  split
  · split
    · simp [onSkip_gatePart]
    · simp [FarmCampaign.lose]
  · simp [govern_gatePart]

theorem recordStep_gatePart (rec : Record) (out : Dict String FarmResult) (c : FarmCampaign) :
    (c.recordStep S byName rec ans out).1.gatePart = c.gatePart := by
  unfold FarmCampaign.recordStep
  cases configFor byName rec.run with
  | none => exact gatePart_of_same (c.book_same _ _)
  | some config =>
    dsimp only
    split
    · exact gatePart_of_same (c.book_same _ _)
    · have hsettle : (c.settle S rec ans config.rid).1.gatePart = c.gatePart :=
        settle_gatePart rec c
      cases hround : c.settle S rec ans config.rid with
      | mk c' r =>
        rw [hround] at hsettle
        cases r <;> exact hsettle

theorem recordSteps_gatePart (records : List (Record × Answer)) (c : FarmCampaign)
    (out : Dict String FarmResult) :
    (c.recordSteps S byName records out).1.gatePart = c.gatePart := by
  induction records generalizing c out with
  | nil => rfl
  | cons r records ih =>
    have hstep : (c.recordStep S byName r.1 r.2 out).1.gatePart = c.gatePart :=
      recordStep_gatePart r.1 out c
    unfold FarmCampaign.recordSteps
    cases hround : c.recordStep S byName r.1 r.2 out with
    | mk c' out' =>
      rw [hround] at hstep
      cases out' with
      | error e => exact hstep
      | ok out' => rw [ih, hstep]

theorem executeFleet_gatePart (dispatch : Dispatch) (c : FarmCampaign) :
    (c.executeFleet S dispatch).1.gatePart = c.gatePart := by
  unfold FarmCampaign.executeFleet
  split
  · split
    · rfl
    · rename_i byName _
      have hsteps : (c.recordSteps S byName dispatch.records Dict.empty).1.gatePart = c.gatePart :=
        recordSteps_gatePart dispatch.records c Dict.empty
      cases hround : c.recordSteps S byName dispatch.records Dict.empty with
      | mk c' out =>
        rw [hround] at hsteps
        cases out with
        | error e => exact hsteps
        | ok out =>
          cases dispatch.raises with
          | some e => exact hsteps
          | none => rw [gatePart_of_same (reconcile_same _ c' out), hsteps]
  · rfl

theorem ridsByHash_keys {d d' : Dict String Key} (h : ridsByHash launched d = .ok d')
    (k : String) :
    (d'.get k).isSome ↔ (d.get k).isSome ∨ ∃ config ∈ launched, config.configHash = .ok k := by
  induction launched generalizing d with
  | nil =>
    cases h
    simp
  | cons config launched ih =>
    rw [ridsByHash] at h
    split at h
    · cases h
    · cases h
    · rename_i hash rid hhash hrid
      rw [ih h, Dict.get_set, List.exists_mem_cons_iff, hhash, Except.ok.injEq]
      by_cases hk : k = hash
      · simp [hk]
      · have hne : hash ≠ k := fun heq => hk heq.symm
        simp [hk, hne]

theorem ridsOnlyIn_nil {p q : Dict String Key} :
    ridsOnlyIn p q = [] ↔ ∀ hash, (p.get hash).isSome → (q.get hash).isSome := by
  simp only [ridsOnlyIn, List.map_eq_nil_iff, List.filter_eq_nil_iff, Prod.forall]
  constructor
  · intro h hash hp
    obtain ⟨rid, hrid⟩ := Option.isSome_iff_exists.mp hp
    simpa [Option.isSome_iff_ne_none] using h hash rid (Dict.mem_items.mpr hrid)
  · intro h hash rid hmem
    simpa [Option.isSome_iff_ne_none] using
      h hash (Option.isSome_iff_exists.mpr ⟨rid, Dict.mem_items.mp hmem⟩)

theorem planned_keys {p : Dict String Key}
    (h : ridsByHash (configs.map RunConfig.launched) Dict.empty = .ok p) (hash : String) :
    (p.get hash).isSome ↔ ∃ config ∈ configs, config.configHash = .ok hash := by
  simpa [RunConfig.launched] using ridsByHash_keys h hash

theorem launchGate_passes {I : Interp} (h : launchGate I configs launched = .ok []) :
    SameHashes configs launched := by
  obtain ⟨p, q, hp, hq, hmissing, hunplanned⟩ := launchGate_nil.mp h
  have hgiven := ridsByHash_isOk.mp ⟨q, hq⟩
  have hplanned := ridsByHash_isOk.mp ⟨p, hp⟩
  have hqkeys : ∀ hash, (q.get hash).isSome ↔
      ∃ config ∈ launched, config.configHash = .ok hash := by
    simpa using ridsByHash_keys hq
  refine ⟨fun config hmem => (hplanned _ (List.mem_map_of_mem hmem)).1,
    fun config hmem => (hgiven config hmem).1, fun hash => ?_⟩
  rw [← planned_keys hp, ← hqkeys]
  exact ⟨ridsOnlyIn_nil.mp hmissing hash, ridsOnlyIn_nil.mp hunplanned hash⟩

theorem plan_gated (P : Policy) (legs : List Leg) (c : FarmCampaign) :
    (c.plan S P legs).1.gated = false := by
  unfold FarmCampaign.plan
  dsimp only
  split
  · rfl
  · have hlegs : FarmCampaign.SameButCf { c with gated := false }
        (FarmCampaign.planLegs S P legs { c with gated := false } []).1 := planLegs_corpus
    cases hround : FarmCampaign.planLegs S P legs { c with gated := false } [] with
    | mk c' ok =>
      rw [hround] at hlegs
      cases ok <;> exact hlegs.gated

theorem dispatched_some (h : c.dispatched = some configs) :
    c.gated = true ∧ c.configs = configs := by
  unfold FarmCampaign.dispatched at h
  split at h
  · split at h
    · cases h
    · cases h
      exact ⟨‹_›, rfl⟩
  · cases h

theorem dispatched_of_gatePart (h : c'.gatePart = c.gatePart) : c'.dispatched = c.dispatched := by
  obtain ⟨hconfigs, hgated⟩ := Prod.mk.inj h
  rw [FarmCampaign.dispatched, hconfigs, hgated, FarmCampaign.dispatched]

theorem executeFleet_refuses (S : Setting) (h : c.dispatched = none) :
    ∃ e, ∀ dispatch, c.executeFleet S dispatch = (c, .error e) := by
  unfold FarmCampaign.dispatched at h
  unfold FarmCampaign.executeFleet
  cases hgated : c.gated with
  | false => exact ⟨_, fun _ => rfl⟩
  | true =>
    rw [hgated, if_pos rfl] at h
    cases hbyName : dictBy RunConfig.runName id c.configs Dict.empty with
    | error e => exact ⟨e, fun _ => rfl⟩
    | ok byName =>
      rw [hbyName] at h
      cases h

theorem runCalls_append (calls : List FarmCall) (call : FarmCall) :
    runCalls S c (calls ++ [call]) = call.after S (runCalls S c calls) := by
  simp [runCalls]

theorem lastGate_append (calls : List FarmCall) (call : FarmCall) :
    lastGate (calls ++ [call]) = call.lastGate (lastGate calls) := by
  simp [lastGate]

theorem gateLaunch_raises {e : Exc} (h : launchGate S.I c.configs launched = .error e) :
    (c.gateLaunch S launched).1 = c := by
  rw [FarmCampaign.gateLaunch, h]

theorem gateLaunch_dispatches {v : List String} (hgate : launchGate S.I c.configs launched = .ok v)
    (h : (c.gateLaunch S launched).1.dispatched = some configs) : SameHashes configs launched := by
  unfold FarmCampaign.gateLaunch at h
  rw [hgate] at h
  obtain ⟨hgated, hconfigs⟩ := dispatched_some h
  have hempty : v = [] := List.isEmpty_iff.mp hgated
  rw [(markGate_same v c.configs c).configs] at hconfigs
  rw [← hconfigs]
  exact launchGate_passes (hempty ▸ hgate)

/-- The gate answers, or the list has the hashes of the planned configs all the same. -/
def FarmCampaign.GateHolds (S : Setting) (c : FarmCampaign) (launched : List LaunchedConfig) :
    Prop :=
  (∃ v, launchGate S.I c.configs launched = .ok v) ∨ SameHashes c.configs launched

theorem launchComplete_after {call : FarmCall} (h : LaunchComplete S calls)
    (hcall : ∀ launched, call = .gateLaunch launched →
      (runCalls S {} calls).dispatched.isSome → (runCalls S {} calls).GateHolds S launched) :
    LaunchComplete S (calls ++ [call]) := by
  refine ⟨fun configs hd => ?_, fun hd => executeFleet_refuses S hd⟩
  rw [runCalls_append] at hd
  rw [lastGate_append]
  generalize hc : runCalls S {} calls = c at hd hcall
  have hgate := h.gate
  rw [hc] at hgate
  cases call with
  | plan P legs =>
    have hplan := plan_gated (S := S) P legs c
    have hgated := (dispatched_some hd).1
    rw [FarmCall.after, hplan] at hgated
    cases hgated
  | executeLeg config runner ans =>
    rw [FarmCall.after, dispatched_of_gatePart (executeLeg_gatePart config runner c)] at hd
    exact hgate configs hd
  | executeFleet dispatch =>
    rw [FarmCall.after, dispatched_of_gatePart (executeFleet_gatePart dispatch c)] at hd
    exact hgate configs hd
  | gateLaunch launched =>
    refine ⟨launched, rfl, ?_⟩
    cases hv : launchGate S.I c.configs launched with
    | ok v => exact gateLaunch_dispatches hv hd
    | error e =>
      -- the pass of an earlier gate stands
      rw [FarmCall.after, gateLaunch_raises hv] at hd
      rcases hcall launched rfl (by rw [hd]; rfl) with ⟨v, hanswers⟩ | hsame
      · rw [hv] at hanswers
        cases hanswers
      · rwa [← (dispatched_some hd).2]

theorem launchComplete_nil (S : Setting) : LaunchComplete S [] :=
  ⟨fun configs h => (Option.some_ne_none configs h.symm).elim, fun h => executeFleet_refuses S h⟩

/-- Every dispatch of a run is complete exactly when no `gate_launch` raises while a pass stands,
unless over a list with the right hashes. -/
theorem launch_complete_iff (S : Setting) (calls : List FarmCall) :
    (∀ before behind, calls = before ++ behind → LaunchComplete S before) ↔
      ∀ before launched behind, calls = before ++ .gateLaunch launched :: behind →
        (runCalls S {} before).dispatched.isSome →
          (runCalls S {} before).GateHolds S launched := by
  constructor
  · intro h before launched behind hsplit hsome
    cases hv : launchGate S.I (runCalls S {} before).configs launched with
    | ok v => exact .inl ⟨v, hv⟩
    | error e =>
      obtain ⟨configs, hd⟩ := Option.isSome_iff_exists.mp hsome
      have hafter := h (before ++ [.gateLaunch launched]) behind (by simp [hsplit])
      obtain ⟨given, hgiven, hsame⟩ := hafter.gate configs (by
        rw [runCalls_append, FarmCall.after, gateLaunch_raises hv, hd])
      rw [lastGate_append, FarmCall.lastGate, Option.some.injEq] at hgiven
      rw [FarmCampaign.GateHolds, (dispatched_some hd).2, hgiven]
      exact .inr hsame
  · intro h before behind hsplit
    induction before using List.reverseRecOn generalizing behind with
    | nil => exact launchComplete_nil S
    | append_singleton before call ih =>
      refine launchComplete_after (ih (call :: behind) (by simp [hsplit])) ?_
      rintro launched rfl
      exact h before launched behind (by simp [hsplit])

def oneConfigPolicy : Policy where
  preflight _ := .ok []
  stageValidate _ _ := .ok []
  configFactory leg _ _ := .ok ⟨leg.rid, .ok "ab12", .ok "farm_ab12"⟩

/-- A pass, then a gate over two configs of other plans, one of which has no rid. -/
def staleGate : List FarmCall :=
  [.plan oneConfigPolicy [⟨"leg", [], [], []⟩],
    .gateLaunch [⟨.ok (.str "leg"), .ok "ab12"⟩],
    .gateLaunch [⟨.ok (.str "other"), .ok "cd34"⟩,
      ⟨.error ⟨.keyError, none, "'rid'"⟩, .ok "ef56"⟩]]

theorem staleGate_dispatches :
    ¬ ∀ (S : Setting) (calls : List FarmCall), LaunchComplete S calls := by
  intro h
  obtain ⟨given, hgiven, hsame⟩ := (h sampleSetting staleGate).gate
    [⟨"leg", .ok "ab12", .ok "farm_ab12"⟩] rfl
  cases hgiven
  obtain ⟨config, hmem, hhash⟩ := (hsame.same "cd34").mpr ⟨_, .head _, rfl⟩
  rw [List.mem_singleton.mp hmem] at hhash
  simp at hhash

end RunFarm
