import Mathlib.Tactic.IntervalCases
import RunFarm.Protocols
import RunFarm.Python.Floats
import RunFarm.Python.Padded
import RunFarm.Registry.Equivalent
import RunFarm.Registry.Restart

/-! `run_campaign` over the local executor and an object store: campaigns that are refused by the
admission, interrupted in any task, and launched again. -/
set_option autoImplicit false

namespace RunFarm
open Files Python
open RunNamed (runName)

structure HostReport where
  hasGpu : Bool
  deviceName : String
  freeMemGb : Flt
  outboundMbps : Flt
  probeOk : Bool
  deriving DecidableEq, Repr

/-- What jax says of its first device; `gpu` has the `bytes_limit` and the `bytes_in_use`. -/
inductive DeviceQuery where
  | raised (text : String)
  | other (platform : String)
  | gpu (kind : String) (limit used : Int)

structure ProbeAdmission where
  minMemGb : Flt := .fin 4
  minMbps : Flt := .fin 1
  requireGpu : Bool := true

namespace ProbeAdmission

/-- `_device`: no limit is an unknown one, and a query that raises is reported. -/
def device : DeviceQuery → Bool × String × Flt × Bool
  | .raised text => (false, "probe-failed: " ++ text, .fin 0, false)
  | .other platform => (false, platform, .fin 0, true)
  | .gpu kind limit used =>
    (true, kind, if limit = 0 then .inf else .fin (max (limit - used) 0 / 10 ^ 9 : ℚ), true)

def outboundMbps : Flt := .inf

def probe (q : DeviceQuery) : HostReport :=
  let (hasGpu, name, freeGb, probeOk) := device q
  { hasGpu, deviceName := name, freeMemGb := freeGb, outboundMbps, probeOk }

def floatText (places : Nat) : Flt → String
  | .fin q => fixed places q
  | .negZero => "-" ++ fixed places 0
  | .inf => "inf"
  | .negInf => "-inf"
  | .nan _ => "nan"

/-- `text` is the `repr` of a float. -/
def guard (A : ProbeAdmission) (text : Flt → String) (r : HostReport) : Except Exc HostReport :=
  let refused (why : String) : Except Exc HostReport :=
    .error ⟨.other "AdmissionError", none, why⟩
  if !r.probeOk then refused ("device probe failed (" ++ r.deviceName ++ ")")
  else if A.requireGpu && !r.hasGpu then refused ("no GPU on host (" ++ r.deviceName ++ ")")
  else if r.hasGpu && A.minMemGb.gt r.freeMemGb then
    refused ("insufficient device memory: " ++ floatText 1 r.freeMemGb ++ " < " ++
      text A.minMemGb ++ " GB")
  else if A.minMbps.gt r.outboundMbps then
    refused ("host cannot ship results: " ++ floatText 2 r.outboundMbps ++ " < " ++
      text A.minMbps ++ " Mbps outbound (the standing failure mode)")
  else .ok r

structure Admits (A : ProbeAdmission) (r : HostReport) : Prop where
  probed : r.probeOk = true
  gpu : A.requireGpu = true → r.hasGpu = true
  memory : r.hasGpu = true → A.minMemGb.gt r.freeMemGb = false
  outbound : A.minMbps.gt r.outboundMbps = false

theorem guard_ok {A : ProbeAdmission} {text : Flt → String} {r : HostReport} :
    (∃ r', A.guard text r = .ok r') ↔ A.Admits r := by
  unfold guard
  dsimp only
  split_ifs with hprobe hgpu hmem hmbps
  · exact iff_of_false nofun fun h => by simp [h.probed] at hprobe
  · refine iff_of_false nofun fun h => ?_
    rw [Bool.and_eq_true] at hgpu
    simp [h.gpu hgpu.1] at hgpu
  · refine iff_of_false nofun fun h => ?_
    rw [Bool.and_eq_true] at hmem
    exact absurd (h.memory hmem.1) (by simp [hmem.2])
  · exact iff_of_false nofun fun h => absurd h.outbound (by simp [hmbps])
  · refine iff_of_true ⟨r, rfl⟩
      ⟨by simpa using hprobe, fun h => ?_, fun h => ?_, by simpa using hmbps⟩
    · simpa [h] using hgpu
    · simpa [h] using hmem

end ProbeAdmission

variable {C S D : Type}

/-- The tasks of a campaign, each with the place where it is interrupted, and what the probe of
the machine says. -/
structure Launch (C : Type) where
  query : DeviceQuery
  tasks : List (C × Option Nat)

/-- The loop of `LocalExecutor.run`; `none` is an exception. -/
def runTasks (reg : RunRegistry C S D) (sink : EventSink C D) (fn : C → RunFn S) :
    List (C × Option Nat) → D → Option Unit × D
  | [], d => (some (), d)
  | (c, cut) :: rest, d =>
    match executeConfig reg sink (fn c) c cut d with
    | (none, d) => (none, d)
    | (some _, d) => runTasks reg sink fn rest d

def runCampaign (reg : RunRegistry C S D) (sink : EventSink C D) (fn : C → RunFn S)
    (A : ProbeAdmission) (text : Flt → String) (l : Launch C) (d : D) : Option Unit × D :=
  match A.guard text (ProbeAdmission.probe l.query) with
  | .error _ => (none, d)
  | .ok _ => runTasks reg sink fn l.tasks d

/-- The store after campaigns that are launched one after the other. -/
def afterLaunches (reg : RunRegistry C S D) (sink : EventSink C D) (fn : C → RunFn S)
    (A : ProbeAdmission) (text : Flt → String) (launches : List (Launch C)) (d : D) : D :=
  launches.foldl (fun d l => (runCampaign reg sink fn A text l d).2) d

theorem runCampaign_admitted {reg : RunRegistry C S D} {sink : EventSink C D} {fn : C → RunFn S}
    {A : ProbeAdmission} {l : Launch C} (text : Flt → String) (d : D)
    (h : A.Admits (ProbeAdmission.probe l.query)) :
    runCampaign reg sink fn A text l d = runTasks reg sink fn l.tasks d := by
  obtain ⟨r, hr⟩ : ∃ r, A.guard text (ProbeAdmission.probe l.query) = .ok r :=
    ProbeAdmission.guard_ok.mpr h
  simp only [runCampaign, hr]

theorem runCampaign_refused {reg : RunRegistry C S D} {sink : EventSink C D} {fn : C → RunFn S}
    {A : ProbeAdmission} {text : Flt → String} {l : Launch C} (d : D)
    (h : ¬ A.Admits (ProbeAdmission.probe l.query)) :
    runCampaign reg sink fn A text l d = (none, d) := by
  cases hr : A.guard text (ProbeAdmission.probe l.query) with
  | error e => simp only [runCampaign, hr]
  | ok r => exact absurd (ProbeAdmission.guard_ok.mp ⟨r, hr⟩) h

variable [RunNamed C] {o : ObjectStoreRunRegistry} {F : RunFormats S} {c c' : C}
  {w w' : BlobStore C S} {stamp : BlobStore C S → String} {name k : String}

structure ForeignKey (o : ObjectStoreRunRegistry) (name k : String) : Prop where
  manifest : k ≠ o.manifestKey name
  part : ∀ part, k ≠ o.key name part

omit [RunNamed C] in
theorem ForeignKey.of_name {other part : String} (hother : Plain other) (hpart : Plain part)
    (hne : other ≠ name) (hman : other ≠ "_manifest") : ForeignKey o name (o.key other part) where
  manifest heq := by
    rw [ObjectStoreRunRegistry.manifestKey_eq,
      ObjectStoreRunRegistry.key_eq_iff hother hpart] at heq
    exact hman heq.1
  part _ := ObjectStoreRunRegistry.key_ne_of_name hother hpart hne

theorem run_frame (hk : ForeignKey o (runName c) k) (steps : RunSteps S) (cut : Option Nat)
    (w : BlobStore C S) :
    (steps.run (o.registry F) (objectSink o F stamp) (o.handle c) cut w).2.get k = w.get k := by
  induction steps generalizing cut w with
  | returns result => rfl
  | works rest ih =>
    rw [RunSteps.run]
    split
    · rfl
    · exact ih _ w
  | checkpoint state step rest ih =>
    rw [RunSteps.run]
    split
    · rfl
    · have hsave : (o.registry F).save (o.handle c) state step w = (some (),
        w.set (o.key (runName c) "checkpoint.npz") (.checkpoint state c step)) := rfl
      rw [hsave]
      dsimp only
      rw [ih, Dict.get_set, if_neg (hk.part _)]
  | emit record rest ih =>
    rw [RunSteps.run]
    split
    · rfl
    · cases hjson : F.json record with
      | none => simp only [objectSink, hjson]
      | some j =>
        simp only [objectSink, hjson]
        refine (ih _ _).trans ?_
        rw [Dict.get_set]
        exact if_neg (hk.part _)

theorem register_frame (hk : ForeignKey o (runName c) k) (w : BlobStore C S) :
    (o.register c w).2.get k = w.get k := by
  by_cases hconf : (w.get (o.key (runName c) "config.json")).isSome = true
  · rw [o.register_configured hconf]
  · rw [o.register_new hconf, Dict.get_set, if_neg hk.manifest, Dict.get_set, if_neg (hk.part _)]

theorem register_handle (o : ObjectStoreRunRegistry) (c : C) (w : BlobStore C S) :
    (o.register c w).1 = some (o.handle c) := by
  by_cases hconf : (w.get (o.key (runName c) "config.json")).isSome = true
  · rw [o.register_configured hconf]
  · rw [o.register_new hconf]

theorem finishRun_frame (hk : ForeignKey o (runName c) k) (out : Option Value × BlobStore C S) :
    (finishRun (o.registry F) (o.handle c) out).2.get k = out.2.get k := by
  obtain ⟨result, w⟩ := out
  cases result with
  | none => rfl
  | some v =>
    cases hjson : F.json v with
    | none => simp only [finishRun, ObjectStoreRunRegistry.registry, ObjectStoreRunRegistry.finish,
        hjson]
    | some j =>
      simp only [finishRun, ObjectStoreRunRegistry.registry, ObjectStoreRunRegistry.finish, hjson]
      rw [Dict.get_set]
      exact if_neg (hk.part _)

theorem executeConfig_frame (F : RunFormats S) (stamp : BlobStore C S → String)
    (hk : ForeignKey o (runName c) k) (fn : RunFn S) (cut : Option Nat) (w : BlobStore C S) :
    (executeConfig (o.registry F) (objectSink o F stamp) fn c cut w).2.get k = w.get k := by
  have hframe := register_frame (o := o) hk w
  have hhandle := register_handle o c w
  cases hreg : o.register c w with
  | mk h w₁ =>
    rw [hreg] at hframe hhandle
    obtain rfl : h = some (o.handle c) := hhandle
    have hregister : (o.registry F).register c w = (some (o.handle c), w₁) := hreg
    rw [executeConfig, hregister]
    dsimp only
    split
    · exact hframe
    · cases (o.registry F).load (o.handle c) w₁ with
      | none => exact hframe
      | some resume => exact (finishRun_frame hk _).trans ((run_frame hk _ cut w₁).trans hframe)

theorem executeConfig_marked {fn : RunFn S} {cut : Option Nat} {v : Value}
    (h : executeConfig (o.registry F) (objectSink o F stamp) fn c cut w = (some (some v), w')) :
    ∃ j, F.json v = some j ∧ w'.get (o.key (runName c) "DONE.json") = some (.done j) := by
  have hhandle := register_handle o c w
  cases hreg : o.register c w with
  | mk r w₁ =>
    rw [hreg] at hhandle
    obtain rfl : r = some (o.handle c) := hhandle
    have hregister : (o.registry F).register c w = (some (o.handle c), w₁) := hreg
    rw [executeConfig, hregister] at h
    dsimp only at h
    split at h
    · cases h
    · cases hload : (o.registry F).load (o.handle c) w₁ with
      | none =>
        rw [hload] at h
        cases h
      | some resume =>
        rw [hload] at h
        dsimp only at h
        cases hrun : (fn (resume.map Prod.fst) (resume.map Prod.snd)).run (o.registry F)
            (objectSink o F stamp) (o.handle c) cut w₁ with
        | mk result w₂ =>
          rw [hrun] at h
          cases result with
          | none => cases h
          | some v' =>
            cases hjson : F.json v' with
            | none =>
              simp only [finishRun, ObjectStoreRunRegistry.registry,
                ObjectStoreRunRegistry.finish, hjson] at h
              cases h
            | some j =>
              simp only [finishRun, ObjectStoreRunRegistry.registry,
                ObjectStoreRunRegistry.finish, hjson] at h
              cases h
              refine ⟨j, hjson, ?_⟩
              rw [Dict.get_set]
              exact if_pos rfl

structure Finished (o : ObjectStoreRunRegistry) (F : RunFormats S) (P : Counting S)
    (name : String) (w : BlobStore C S) : Prop where
  config : (w.get (o.key name "config.json")).isSome = true
  done : ∃ j, F.json P.whole = some j ∧ w.get (o.key name "DONE.json") = some (.done j)

def Progress (o : ObjectStoreRunRegistry) (F : RunFormats S) (P : Counting S) (name : String)
    (w : BlobStore C S) : Prop :=
  Underway o P name w ∨ Finished o F P name w

/-- The names of the runs, each one component of a key, and none that of the manifest. -/
structure SeparateRuns (C : Type) [RunNamed C] : Prop where
  distinct : ∀ c c' : C, runName c = runName c' → c = c'
  plain : ∀ c : C, Plain (runName c)
  manifest : ∀ c : C, runName c ≠ "_manifest"

variable {P : C → Counting S} {tasks : List (C × Option Nat)} {cut : Option Nat}

omit [RunNamed C] in
theorem Finished.complete {P : Counting S} (h : Finished o F P name w) : Complete o name w := by
  obtain ⟨j, -, hdone⟩ := h.done
  exact ⟨h.config, by rw [hdone]; rfl⟩

omit [RunNamed C] in
theorem Progress.of_get {P : Counting S} (h : Progress o F P name w)
    (hsame : ∀ part, Plain part → w'.get (o.key name part) = w.get (o.key name part)) :
    Progress o F P name w' := by
  rcases h with h | h
  · refine .inl ⟨?_, ?_⟩
    · rw [hsame _ (by decide)]
      exact h.unmarked
    · rw [hsame _ (by decide)]
      exact h.stored
  · refine .inr ⟨?_, ?_⟩
    · rw [hsame _ (by decide)]
      exact h.config
    · rw [hsame _ (by decide)]
      exact h.done

omit [RunNamed C] in
theorem Underway.restores {P : Counting S} (h : Underway o P name w)
    (hexact : ∀ k ≤ P.steps, F.restore (P.state k) = P.state k) : Restores o F name w := by
  intro s c k hsome
  rcases h.stored with hnone | ⟨c', n, hn, hstored⟩
  · rw [hnone] at hsome
    cases hsome
  · rw [hstored] at hsome
    cases hsome
    exact hexact n hn

theorem executeConfig_progress (stamp : BlobStore C S → String) (cut : Option Nat)
    (hjson : (F.json (P c).whole).isSome = true)
    (hexact : ∀ k ≤ (P c).steps, F.restore ((P c).state k) = (P c).state k)
    (h : Progress o F (P c) (runName c) w) :
    ∃ r w', executeConfig (o.registry F) (objectSink o F stamp) (P c).runFn c cut w = (r, w') ∧
      Progress o F (P c) (runName c) w' ∧
      (r ≠ none → Finished o F (P c) (runName c) w') ∧
      (cut = none → (∀ step s, (F.json ((P c).record step s)).isSome = true) → r ≠ none) := by
  rcases h with h | h
  · have hcalled : Called o F (P c) c cut
        (executeConfig (o.registry F) (objectSink o F stamp) (P c).runFn c cut w) :=
      executeConfig_underway hjson h (h.restores hexact)
    cases hcall : executeConfig (o.registry F) (objectSink o F stamp) (P c).runFn c cut w with
    | mk r w' =>
      rw [hcall] at hcalled
      refine ⟨r, w', rfl, ?_, fun hr => ?_, hcalled.uncut⟩
      · cases r with
        | none => exact .inl (hcalled.raised rfl)
        | some result =>
          obtain ⟨hwhole, hcomplete⟩ := hcalled.returned nofun
          rw [show some result = some (some (P c).whole) from hwhole] at hcall
          exact .inr ⟨hcomplete.config, executeConfig_marked hcall⟩
      · obtain ⟨hwhole, hcomplete⟩ := hcalled.returned hr
        rw [show r = some (some (P c).whole) from hwhole] at hcall
        exact ⟨hcomplete.config, executeConfig_marked hcall⟩
  · exact ⟨some none, w, executeConfig_complete h.complete, .inr h, fun _ => h, fun _ _ => nofun⟩

def Underways (o : ObjectStoreRunRegistry) (F : RunFormats S) (P : C → Counting S)
    (w : BlobStore C S) : Prop :=
  ∀ c, Progress o F (P c) (runName c) w

/-- What the campaign needs of its runs: results that are JSON, and states that are read back as
they were saved. -/
structure Restartable (F : RunFormats S) (P : C → Counting S) : Prop where
  result : ∀ c, (F.json (P c).whole).isSome = true
  exact : ∀ c, ∀ k ≤ (P c).steps, F.restore ((P c).state k) = (P c).state k

theorem task_progress (stamp : BlobStore C S → String) (hnames : SeparateRuns C)
    (hP : Restartable F P) (h : Underways o F P w) (c : C) (cut : Option Nat) :
    ∃ r w', executeConfig (o.registry F) (objectSink o F stamp) (P c).runFn c cut w = (r, w') ∧
      Underways o F P w' ∧ (r ≠ none → Finished o F (P c) (runName c) w') ∧
      (∀ c', Finished o F (P c') (runName c') w → Finished o F (P c') (runName c') w') ∧
      (cut = none → (∀ step s, (F.json ((P c).record step s)).isSome = true) → r ≠ none) := by
  obtain ⟨r, w', hcall, hown, hfinished, huncut⟩ :=
    executeConfig_progress stamp cut (hP.result c) (hP.exact c) (h c)
  have hother : ∀ c', c' ≠ c → ∀ part, Plain part →
      w'.get (o.key (runName c') part) = w.get (o.key (runName c') part) := by
    intro c' hne part hpart
    have hforeign : ForeignKey o (runName c) (o.key (runName c') part) :=
      .of_name (hnames.plain c') hpart (fun heq => hne (hnames.distinct c' c heq))
        (hnames.manifest c')
    have hframe := executeConfig_frame F stamp hforeign (P c).runFn cut w
    rw [hcall] at hframe
    exact hframe
  refine ⟨r, w', hcall, fun c' => ?_, hfinished, fun c' hc' => ?_, huncut⟩
  · by_cases hne : c' = c
    · exact hne ▸ hown
    · exact (h c').of_get (hother c' hne)
  · by_cases hne : c' = c
    · subst hne
      rw [executeConfig_complete hc'.complete] at hcall
      cases hcall
      exact hc'
    · refine ⟨?_, ?_⟩
      · rw [hother c' hne _ (by decide)]
        exact hc'.config
      · rw [hother c' hne _ (by decide)]
        exact hc'.done

structure TasksRun (o : ObjectStoreRunRegistry) (F : RunFormats S) (P : C → Counting S)
    (tasks : List (C × Option Nat)) (w : BlobStore C S) (out : Option Unit × BlobStore C S) :
    Prop where
  progress : Underways o F P out.2
  kept : ∀ c, Finished o F (P c) (runName c) w → Finished o F (P c) (runName c) out.2
  finished : out.1 ≠ none → ∀ t ∈ tasks, Finished o F (P t.1) (runName t.1) out.2
  uncut : (∀ t ∈ tasks, t.2 = none) →
    (∀ t ∈ tasks, ∀ step s, (F.json ((P t.1).record step s)).isSome = true) → out.1 ≠ none

theorem runTasks_progress (stamp : BlobStore C S → String) (tasks : List (C × Option Nat))
    (hnames : SeparateRuns C) (hP : Restartable F P) (h : Underways o F P w) :
    TasksRun o F P tasks w
      (runTasks (o.registry F) (objectSink o F stamp) (fun c => (P c).runFn) tasks w) := by
  induction tasks generalizing w with
  | nil => exact ⟨h, fun _ hc => hc, fun _ => by simp, fun _ _ => nofun⟩
  | cons t tasks ih =>
    obtain ⟨c, cut⟩ := t
    obtain ⟨r, w₁, hcall, h₁, hown, hkept, huncut⟩ := 
      task_progress stamp hnames hP h c cut
    rw [runTasks, hcall]
    cases r with
    | none =>
      refine ⟨h₁, hkept, fun hno => absurd rfl hno, fun hcuts hrecords => ?_⟩
      exact absurd rfl (huncut (hcuts _ (.head _)) (hrecords _ (.head _)))
    | some result =>
      have hrest := ih h₁
      refine ⟨hrest.progress, fun c' hc' => hrest.kept c' (hkept c' hc'), fun hret => ?_,
        fun hcuts hrecords => ?_⟩
      · exact List.forall_mem_cons.mpr ⟨hrest.kept c (hown nofun), hrest.finished hret⟩
      · exact hrest.uncut (fun t ht => hcuts t (.tail _ ht)) fun t ht => hrecords t (.tail _ ht)

theorem runTasks_finished {fn : C → RunFn S}
    (h : ∀ t ∈ tasks, Finished o F (P t.1) (runName t.1) w) (hfn : ∀ c, fn c = (P c).runFn) :
    runTasks (o.registry F) (objectSink o F stamp) fn tasks w = (some (), w) := by
  induction tasks with
  | nil => rfl
  | cons t tasks ih =>
    rw [runTasks, hfn, executeConfig_complete (h t (.head _)).complete]
    exact ih fun t' ht' => h t' (.tail _ ht')

variable {A : ProbeAdmission} {text : Flt → String} {l : Launch C}

variable (A text l) in
theorem runCampaign_progress (hnames : SeparateRuns C) (hP : Restartable F P)
    (h : Underways o F P w) :
    Underways o F P (runCampaign (o.registry F) (objectSink o F stamp)
      (fun c => (P c).runFn) A text l w).2 ∧
    ∀ c, Finished o F (P c) (runName c) w → Finished o F (P c) (runName c)
      (runCampaign (o.registry F) (objectSink o F stamp) (fun c => (P c).runFn) A text l w).2 := by
  by_cases hadmits : A.Admits (ProbeAdmission.probe l.query)
  · rw [runCampaign_admitted text w hadmits]
    have hrun := runTasks_progress stamp l.tasks hnames hP h
    exact ⟨hrun.progress, hrun.kept⟩
  · rw [runCampaign_refused w hadmits]
    exact ⟨h, fun _ hc => hc⟩

theorem afterLaunches_progress (hnames : SeparateRuns C) (hP : Restartable F P)
    (launches : List (Launch C)) (h : Underways o F P w) :
    Underways o F P (afterLaunches (o.registry F) (objectSink o F stamp) (fun c => (P c).runFn)
      A text launches w) ∧
    ∀ c, Finished o F (P c) (runName c) w → Finished o F (P c) (runName c)
      (afterLaunches (o.registry F) (objectSink o F stamp) (fun c => (P c).runFn) A text
        launches w) := by
  induction launches generalizing w with
  | nil => exact ⟨h, fun _ hc => hc⟩
  | cons l launches ih =>
    obtain ⟨hnext, hkept⟩ := runCampaign_progress A text l hnames hP h
    obtain ⟨hlast, hlater⟩ := ih hnext
    exact ⟨hlast, fun c hc => hlater c (hkept c hc)⟩

/-- The marker of the run holds the result of an uninterrupted run. -/
def MarkedWhole (o : ObjectStoreRunRegistry) (F : RunFormats S) (P : C → Counting S) (c : C)
    (w : BlobStore C S) : Prop :=
  ∃ j, F.json (P c).whole = some j ∧ w.get (o.key (runName c) "DONE.json") = some (.done j)

/-- Campaigns over one store, each of any of the runs, refused by the admission or interrupted in
any task: no marker ever holds anything but the result of an uninterrupted run. A campaign that
returns has marked all of its runs for good, and whatever campaigns follow, one of these runs
changes nothing; one that is admitted and not interrupted returns. -/
theorem campaign_restart (o : ObjectStoreRunRegistry) (F : RunFormats S) (P : C → Counting S)
    (stamp : BlobStore C S → String) (A : ProbeAdmission) (text : Flt → String)
    (launches : List (Launch C)) (l : Launch C) {w w' : BlobStore C S}
    {out : Option Unit × BlobStore C S} (hnames : SeparateRuns C) (hP : Restartable F P)
    (hfresh : ∀ c : C, w.get (o.key (runName c) "DONE.json") = none ∧
      w.get (o.key (runName c) "checkpoint.npz") = none)
    (hbefore : afterLaunches (o.registry F) (objectSink o F stamp) (fun c => (P c).runFn) A text
      launches w = w')
    (hout : runCampaign (o.registry F) (objectSink o F stamp) (fun c => (P c).runFn) A text l w' =
      out) :
    (∀ c, out.2.get (o.key (runName c) "DONE.json") = none ∨ MarkedWhole o F P c out.2) ∧
    (out.1 ≠ none → ∀ later, ∀ w₁ : BlobStore C S,
      afterLaunches (o.registry F) (objectSink o F stamp) (fun c => (P c).runFn) A text later
        out.2 = w₁ → (∀ t ∈ l.tasks, MarkedWhole o F P t.1 w₁) ∧
      ∀ l' : Launch C, (∀ t ∈ l'.tasks, t.1 ∈ l.tasks.map Prod.fst) →
        (runCampaign (o.registry F) (objectSink o F stamp) (fun c => (P c).runFn) A text l'
          w₁).2 = w₁) ∧
    (A.Admits (ProbeAdmission.probe l.query) → (∀ t ∈ l.tasks, t.2 = none) →
      (∀ t ∈ l.tasks, ∀ step s, (F.json ((P t.1).record step s)).isSome = true) →
      out.1 ≠ none) := by
  have hstart : Underways o F P w := fun c => .inl ⟨(hfresh c).1, .inl (hfresh c).2⟩
  have hw' : Underways o F P w' := hbefore ▸ (afterLaunches_progress hnames hP launches hstart).1
  have hprogress : Underways o F P out.2 := hout ▸ (runCampaign_progress _ _ _ hnames hP hw').1
  refine ⟨fun c => (hprogress c).imp Underway.unmarked Finished.done,
    fun hreturned later w₁ hw₁ => ?_, fun hadmits hcuts hrecords => ?_⟩
  · have hadmits : A.Admits (ProbeAdmission.probe l.query) := by
      by_contra hno
      rw [← hout, runCampaign_refused w' hno] at hreturned
      exact hreturned rfl
    have hrun := runTasks_progress stamp l.tasks hnames hP hw'
    rw [← runCampaign_admitted text w' hadmits, hout] at hrun
    have hall : ∀ t ∈ l.tasks, Finished o F (P t.1) (runName t.1) w₁ := fun t ht =>
      hw₁ ▸ (afterLaunches_progress hnames hP later hprogress).2 t.1 (hrun.finished hreturned t ht)
    refine ⟨fun t ht => (hall t ht).done, fun l' hl' => ?_⟩
    by_cases hadmits' : A.Admits (ProbeAdmission.probe l'.query)
    · rw [runCampaign_admitted text w₁ hadmits', runTasks_finished (P := P) _ fun _ => rfl]
      intro t ht
      obtain ⟨t', ht', heq⟩ := List.mem_map.mp (hl' t ht)
      exact heq ▸ hall t' ht'
    · rw [runCampaign_refused w₁ hadmits']
  · have hrun := runTasks_progress stamp l.tasks hnames hP hw'
    rw [← runCampaign_admitted text w' hadmits, hout] at hrun
    exact hrun.uncut hcuts hrecords

inductive TwoRuns where
  | low | high
  deriving DecidableEq, Repr

instance : RunNamed TwoRuns where
  runName
    | .low => "low"
    | .high => "high"

def twoCounters : TwoRuns → Counting CountArray
  | .low => counter .float32 0
  | .high => counter .float32 10

theorem twoRuns_separate : SeparateRuns TwoRuns where
  distinct c c' h := by cases c <;> cases c' <;> first | rfl | exact absurd h (by decide)
  plain c := by cases c <;> decide
  manifest c := by cases c <;> decide

theorem twoCounters_restartable : Restartable (countFormats false) twoCounters where
  result c := by cases c <;> rfl
  exact c k hk := by
    have hk' : k ≤ 2 := by cases c <;> exact hk
    interval_cases k <;> cases c <;> rfl

def laptop : ProbeAdmission := { requireGpu := false }

def twoStamp (w : BlobStore TwoRuns CountArray) : String :=
  String.ofList (List.replicate w.items.length '0')

def twoLaunches : List (Launch TwoRuns) :=
  [⟨.raised "no device", [(.low, none)]⟩, ⟨.other "cpu", [(.low, none), (.high, some 4)]⟩]

def lastLaunch : Launch TwoRuns := ⟨.other "cpu", [(.low, none), (.high, none)]⟩

theorem laptop_admits : laptop.Admits (ProbeAdmission.probe lastLaunch.query) where
  probed := rfl
  gpu := nofun
  memory := nofun
  outbound := rfl

def afterLast : BlobStore TwoRuns CountArray :=
  afterLaunches ((plainObjects "runs").registry (countFormats false))
    (objectSink (plainObjects "runs") (countFormats false) twoStamp)
    (fun c => (twoCounters c).runFn) laptop (fun _ => "") (twoLaunches ++ lastLaunch :: twoLaunches)
    Dict.empty

theorem twoRuns_marked :
    MarkedWhole (plainObjects "runs") (countFormats false) twoCounters .low afterLast ∧
      MarkedWhole (plainObjects "runs") (countFormats false) twoCounters .high afterLast := by
  have h := campaign_restart (plainObjects "runs") (countFormats false) twoCounters twoStamp laptop
    (fun _ => "") twoLaunches lastLaunch twoRuns_separate twoCounters_restartable
    (w := Dict.empty) (fun _ => ⟨rfl, rfl⟩) rfl rfl
  have hreturned := h.2.2 laptop_admits (by decide) fun t _ _ _ => by
    cases t.1 <;> rfl
  have hall := (h.2.1 hreturned twoLaunches afterLast rfl).1
  exact ⟨hall (.low, none) (by simp [lastLaunch]), hall (.high, none) (by simp [lastLaunch])⟩

end RunFarm
