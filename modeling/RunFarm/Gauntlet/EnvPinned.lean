import RunFarm.Executors.RemoteCall
import RunFarm.Gauntlet.Launch

/-! The launch check of the environment that an executor ships, beside the processes that its
commands start. -/
set_option autoImplicit false

namespace RunFarm
open Python Shell

def pinnedName : String := "remote-env-pinned"

def pinnedProves : String :=
  "the executor is configured to ship these variables to the worker, " ++
  "with these values. Does NOT prove the box honours them, that the " ++
  "values are correct for this engine, or that they suffice for " ++
  "reproducibility -- only that what you meant to send is set to send."

/-- `sorted`. -/
def sortedTexts (texts : List String) : List String := texts.mergeSort fun a b => decide (a ≤ b)

variable (required actual : Dict String String)

def missingVars : List String :=
  (required.items.filter fun kv => actual.get kv.1 = none).map Prod.fst

def wrongVars : List (String × String × String) :=
  required.items.filterMap fun kv => match actual.get kv.1 with
    | none => none
    | some v => if v ≠ kv.2 then some (kv.1, v, kv.2) else none

/-- The check; `repr` is how a text is quoted in the report. -/
def remoteEnvPinned (repr : String → String) (fatal : Bool) : CheckResult :=
  let missing := missingVars required actual
  let wrong := (wrongVars required actual).map fun kv =>
    kv.1 ++ "=" ++ repr kv.2.1 ++ " (wanted " ++ repr kv.2.2 ++ ")"
  if missing = [] ∧ wrong = [] then
    { name := pinnedName, ok := true, proves := pinnedProves
      detail := "remote_env pins " ++
        ", ".intercalate (sortedTexts (required.items.map Prod.fst)) }
  else
    let bits :=
      (if missing = [] then [] else
        ["missing: " ++ ", ".intercalate (sortedTexts missing)]) ++
      (if wrong = [] then [] else ["wrong: " ++ "; ".intercalate (sortedTexts wrong)])
    { name := pinnedName, ok := false, proves := pinnedProves, fatal
      detail := " | ".intercalate bits ++ " -- pass remote_env=\x7b...\x7d to the executor" }

variable {required actual}

def Pinned (required actual : Dict String String) : Prop :=
  ∀ k v, required.get k = some v → actual.get k = some v

theorem remoteEnvPinned_ok {repr : String → String} {fatal : Bool} :
    (remoteEnvPinned required actual repr fatal).ok = true ↔ Pinned required actual := by
  have hok : (remoteEnvPinned required actual repr fatal).ok = true ↔
      missingVars required actual = [] ∧ wrongVars required actual = [] := by
    unfold remoteEnvPinned
    by_cases hmissing : missingVars required actual = [] <;>
      by_cases hwrong : wrongVars required actual = [] <;> simp [hmissing, hwrong]
  rw [hok, missingVars, List.map_eq_nil_iff, List.filter_eq_nil_iff, wrongVars,
    List.filterMap_eq_nil_iff]
  constructor
  · rintro ⟨hmissing, hwrong⟩ k v hv
    have hmem := Dict.mem_items.mpr hv
    have hset := hmissing (k, v) hmem
    have hsame := hwrong (k, v) hmem
    cases hget : actual.get k with
    | none => simp [hget] at hset
    | some v' => simpa [hget] using hsame
  · intro hpinned
    refine ⟨fun kv hkv => ?_, fun kv hkv => ?_⟩
    · simp [hpinned kv.1 kv.2 (Dict.mem_items.mp hkv)]
    · simp [hpinned kv.1 kv.2 (Dict.mem_items.mp hkv)]

def pinnedCheck {σ : Type} (W : WorkerSettings) (required : Dict String String)
    (repr : String → String) (fatal : Bool) : Check σ where
  name := pinnedName
  call w := (.ok (remoteEnvPinned required W.remoteEnv repr fatal), w)

/-- A process that the host starts for a command finds the variables. -/
def Inherits (required : Dict String String) (e : Environ) (cmd : List Char) : Prop :=
  ∃ e' words, started e cmd = some (e', words) ∧ ∀ k v, required.get k = some v → e' k = some v

variable {W : WorkerSettings}

theorem environ_pinned (h : Pinned required W.remoteEnv) (e : Environ) {k v : String}
    (hv : required.get k = some v) : W.environ e k = some v := by
  rw [WorkerSettings.environ, h k v hv, Option.some_or]

theorem pinned_of_environ
    (h : ∀ k v, required.get k = some v → W.environ (fun _ => none) k = some v) :
    Pinned required W.remoteEnv := by
  intro k v hv
  simpa [WorkerSettings.environ] using h k v hv

theorem inherits_workerCmd (hW : W.Readable) {configJson : String} {ref : ConfigClassRef}
    (hjson : '\x00' ∉ configJson.toList) (href : '\x00' ∉ ref.toList) {e : Environ} :
    Inherits required e (W.workerCmd configJson ref) ↔
      ∀ k v, required.get k = some v → W.environ e k = some v := by
  rw [Inherits, WorkerSettings.started_workerCmd hW hjson href e]
  simp

theorem inherits_readyCheck (hW : W.Readable) {e : Environ} :
    Inherits required e W.readyCheck ↔
      ∀ k v, required.get k = some v → W.environ e k = some v := by
  rw [Inherits, WorkerSettings.started_readyCheck hW e]
  simp

/-- The check passes exactly when on every host, whatever is set in the session there, every worker
finds the variables with their values; the import that the executor waits for has found them
before. Among checks that let a launch go on, one that is fatal and not skipped has passed. -/
theorem pinned_reaches {σ : Type} (W : WorkerSettings) (hW : W.Readable)
    (required : Dict String String) (repr : String → String) (fatal : Bool) :
    ((remoteEnvPinned required W.remoteEnv repr fatal).ok = true ↔
      ∀ e configJson ref, '\x00' ∉ configJson.toList → '\x00' ∉ ref.toList →
        Inherits required e W.readyCheck ∧ Inherits required e (W.workerCmd configJson ref)) ∧
    ∀ log skip (before after : List (Check σ)) p results, pinnedName ∉ skip →
      (requireGauntlet log skip (before ++ pinnedCheck W required repr true :: after) p).1 =
        .ok results →
      ∀ e configJson ref, '\x00' ∉ configJson.toList → '\x00' ∉ ref.toList →
        Inherits required e (W.workerCmd configJson ref) := by
  have hreach (h : Pinned required W.remoteEnv) (e : Environ) (configJson : String)
      (ref : ConfigClassRef) (hjson : '\x00' ∉ configJson.toList) (href : '\x00' ∉ ref.toList) :
      Inherits required e W.readyCheck ∧ Inherits required e (W.workerCmd configJson ref) :=
    ⟨(inherits_readyCheck hW).mpr fun _ _ => environ_pinned h e,
      (inherits_workerCmd hW hjson href).mpr fun _ _ => environ_pinned h e⟩
  refine ⟨?_, fun log skip before after p results hskip hran e configJson ref hjson href => ?_⟩
  · rw [remoteEnvPinned_ok]
    refine ⟨fun h e configJson ref hjson href => hreach h e configJson ref hjson href, ?_⟩
    intro h
    refine pinned_of_environ ((inherits_readyCheck hW).mp ?_)
    exact (h (fun _ => none) "" "" (by decide) (by decide)).1
  · have hcleared := requireGauntlet_ok.mp ⟨results, hran⟩
    obtain hin | ⟨r, hcall, hclear⟩ := (cleared_iff log p).mp hcleared before _ after rfl
    · exact absurd hin hskip
    cases hcall
    have hok : (remoteEnvPinned required W.remoteEnv repr true).ok = true := by
      by_contra hnot
      have hfatal : (remoteEnvPinned required W.remoteEnv repr true).fatal = true := by
        unfold remoteEnvPinned
        dsimp only
        split <;> rfl
      simp [CheckResult.blocking, hfatal, hnot] at hclear
    exact (hreach (remoteEnvPinned_ok.mp hok) e configJson ref hjson href).2

theorem wireSettings_pinned :
    Inherits (Dict.empty.set "XLA_FLAGS" "--xla_dump_to=/tmp $HOME") (fun _ => none)
      (wireSettings.workerCmd "1" "engine.config:GridConfig") :=
  ((pinned_reaches (σ := Unit) wireSettings wireSettings_readable
    (Dict.empty.set "XLA_FLAGS" "--xla_dump_to=/tmp $HOME") id true).1.mp (by decide)
    (fun _ => none) "1" "engine.config:GridConfig" (by decide) (by decide)).2

end RunFarm
