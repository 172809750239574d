import RunFarm.Config
import RunFarm.Registry.Execute

/-! The class a worker rebuilds a config with. `run_one` takes it by name, and `SimpleRunConfig`
when no name is given: this machine and Modal give none, a rented host gives the config's own. -/
set_option autoImplicit false

namespace RunFarm
open Files Python
open RunNamed (runName)

/-- The fields of a `SimpleRunConfig`. The class does not check their types. -/
structure SimpleFields where
  name : Value := .str "run"
  dtype : Value := .str "float32"
  params : Value := .dict []

namespace SimpleFields

def toJson (I : Interp) (f : SimpleFields) : Option Json :=
  dumps I { sortKeys := true } (.dict [(.str "name", asdict f.name), (.str "dtype", asdict f.dtype),
    (.str "params", asdict f.params)])

/-- One keyword argument of `cls(**json.loads(s))`; a name that is no field is a `TypeError`. -/
def withArgument (f : SimpleFields) : Key × Value → Option SimpleFields
  | (.str "name", v) => some { f with name := v }
  | (.str "dtype", v) => some { f with dtype := v }
  | (.str "params", v) => some { f with params := v }
  | _ => none

def fromJson (j : Json) : Option SimpleFields :=
  match loads j with
  | .dict es => es.foldlM withArgument {}
  | _ => none

def runName (I : Interp) (sha256 : Json → String) (f : SimpleFields) : Option String :=
  (f.toJson I).map fun j => I.str f.name ++ "_" ++ String.ofList ((sha256 j).toList.take 12)

def of (c : SimpleRunConfig) : SimpleFields := ⟨.str c.name, .str c.dtype, .dict c.params⟩

theorem toJson_of (I : Interp) (c : SimpleRunConfig) : (of c).toJson I = c.toJson I := by
  simp [toJson, of, SimpleRunConfig.toJson, SimpleRunConfig.value, asdict]

theorem withArgument_of {c c' : SimpleRunConfig} {e : Key × Value}
    (h : c.withArgument e = some c') : (of c).withArgument e = some (of c') := by
  unfold SimpleRunConfig.withArgument at h
  split at h <;> cases h <;> rfl

theorem fromJson_of {j : Json} {c : SimpleRunConfig} (h : SimpleRunConfig.fromJson j = some c) :
    fromJson j = some (of c) := by
  have hfold (es : List (Key × Value)) (start : SimpleRunConfig)
      (h : es.foldlM SimpleRunConfig.withArgument start = some c) :
      es.foldlM withArgument (of start) = some (of c) := by
    induction es generalizing start with
    | nil =>
      cases h
      rfl
    | cons e es ih =>
      rw [List.foldlM_cons] at h ⊢
      obtain ⟨next, hnext, hrest⟩ := Option.bind_eq_some_iff.mp h
      exact Option.bind_eq_some_iff.mpr ⟨of next, withArgument_of hnext, ih next hrest⟩
  unfold SimpleRunConfig.fromJson at h
  unfold fromJson
  cases hes : loads j with
  | dict es =>
    rw [hes] at h
    exact hfold es {} h
  | _ =>
    rw [hes] at h
    cases h

end SimpleFields

abbrev ConfigClassRef := String

abbrev RunFnRef := String

def defaultConfigClass : ConfigClassRef := "run_farm.config:SimpleRunConfig"

/-- A class besides `SimpleRunConfig` that satisfies `RunConfig`, the interpreter and `sha256`.
`qualname` is the class by its module and name, `names` are the refs it can be imported under. -/
structure ConfigClass (E : Type) where
  I : Interp
  sha256 : Json → String
  qualname : ConfigClassRef
  names : List ConfigClassRef
  dtype : E → String
  toJson : E → Json
  fromJson : Json → Option E
  runName : E → String
  roundTrip : ∀ e, fromJson (toJson e) = some e

variable {E S : Type}

/-- A config: an instance of one class or of the other. -/
inductive AnyConfig (K : ConfigClass E) where
  | simple (f : SimpleFields)
  | own (e : E)

namespace AnyConfig

variable {K : ConfigClass E}

def toJson : AnyConfig K → Option Json
  | .simple f => f.toJson K.I
  | .own e => some (K.toJson e)

def float64 : AnyConfig K → Bool
  | .simple f => match f.dtype with
    | .str s => s = "float64"
    | _ => false
  | .own e => K.dtype e = "float64"

def isSimple : AnyConfig K → Bool
  | .simple _ => true
  | .own _ => false

def RoundTrips : AnyConfig K → Prop
  | .simple f => ∃ j, f.toJson K.I = some j ∧ SimpleFields.fromJson j = some f
  | .own _ => True

def qualname : AnyConfig K → ConfigClassRef
  | .simple _ => defaultConfigClass
  | .own _ => K.qualname

end AnyConfig

instance (K : ConfigClass E) : RunNamed (AnyConfig K) where
  runName
    | .simple f => (f.runName K.I K.sha256).getD ""
    | .own e => K.runName e

/-- `load_config_class`, down to the class's `from_json`. -/
def loadConfigClass (K : ConfigClass E) (ref : ConfigClassRef) :
    Option (Json → Option (AnyConfig K)) :=
  if ref = defaultConfigClass then some fun j => (SimpleFields.fromJson j).map .simple
  else if ref ∈ K.names then some fun j => (K.fromJson j).map .own
  else none

/-- The lines of an `events.jsonl`. -/
def eventLines {C : Type} (d : Tree C S) (p : Path) : List Json :=
  match d p with
  | some (.file (.event (.arr js))) => js
  | _ => []

/-- `JsonlEventSink`. The file is opened before the record is written out. -/
def jsonlSink {C : Type} (F : RunFormats S) : EventSink C (Tree C S) where
  emit h record d :=
    let p := h.dir ++ ["events.jsonl"]
    match attempt [.replace p (.event (.arr (eventLines d p)))] d with
    | (none, d) => (none, d)
    | (some (), d) =>
      match F.json record with
      | none => (none, d)
      | some j => attempt [.replace p (.event (.arr (eventLines d p ++ [j])))] d

/-- A `RunFn` of a config, by the float width it meets, and the effect it raises at, if any. -/
abbrev Physics (K : ConfigClass E) (S : Type) := AnyConfig K → Bool → Option Nat × RunFn S

/-- What the processes on a machine share: the registry at the `work_dir`, its formats and what
`load_run_fn` finds. -/
structure Site (K : ConfigClass E) (S : Type) where
  files : FileRunRegistry
  restore : S → S
  runFns : RunFnRef → Option (Physics K S)

structure Machine (K : ConfigClass E) (S : Type) where
  tree : Tree (AnyConfig K) S
  x64 : Bool

/-- `volumeCommit` is the note of a Modal worker whose commit failed. -/
structure RunRecord where
  run : String
  result : Option Value
  skipped : Bool
  volumeCommit : Option String := none

section
variable {K : ConfigClass E}

def Site.formats (site : Site K S) : RunFormats S := ⟨K.I, site.restore⟩

/-- What `execute_config` gives for this config. -/
def executed (site : Site K S) (fn : Physics K S) (c : AnyConfig K) (m : Machine K S) :
    Option (Option Value) × Tree (AnyConfig K) S :=
  executeConfig (site.files.registry site.formats) (jsonlSink site.formats) (fn c m.x64).2 c
    (fn c m.x64).1 m.tree

/-- `run_one`, once it has the config. -/
def runConfig (site : Site K S) (fnRef : RunFnRef) (c : AnyConfig K) (m : Machine K S) :
    Option RunRecord × Machine K S :=
  let m := if c.float64 then { m with x64 := true } else m
  match site.runFns fnRef with
  | none => (none, m)
  | some fn =>
    match executed site fn c m with
    | (none, tree) => (none, { m with tree })
    | (some result, tree) => (some ⟨runName c, result, result.isNone, none⟩, { m with tree })

def runOne (site : Site K S) (fnRef : RunFnRef) (j : Json) (m : Machine K S)
    (configClass : ConfigClassRef := defaultConfigClass) : Option RunRecord × Machine K S :=
  match loadConfigClass K configClass with
  | none => (none, m)
  | some fromJson =>
    match fromJson j with
    | none => (none, m)
    | some c => runConfig site fnRef c m

def andRest {R M : Type} (first : Option R × M) (rest : M → Option (List R) × M) :
    Option (List R) × M :=
  match first with
  | (none, m) => (none, m)
  | (some r, m) =>
    match rest m with
    | (none, m) => (none, m)
    | (some rs, m) => (some (r :: rs), m)

/-- `InProcessExecutor.run`. -/
def inProcessRun (site : Site K S) (fnRef : RunFnRef) :
    List (AnyConfig K) → Machine K S → Option (List RunRecord) × Machine K S
  | [], m => (some [], m)
  | c :: configs, m =>
    match c.toJson with
    | none => (none, m)
    | some j => andRest (runOne site fnRef j m) (inProcessRun site fnRef configs)

structure Volume (K : ConfigClass E) (S : Type) where
  reload : Tree (AnyConfig K) S → Tree (AnyConfig K) S
  commit : Tree (AnyConfig K) S → Option String

def Volume.committed (vol : Volume K S) :
    Option RunRecord × Machine K S → Option RunRecord × Machine K S
  | (none, m) => (none, m)
  | (some out, m) => (some { out with
      volumeCommit := (vol.commit m.tree).map ("failed: " ++ ·) }, m)

def modalWorker (site : Site K S) (vol : Volume K S) (fnRef : RunFnRef) (j : Json)
    (m : Machine K S) : Option RunRecord × Machine K S :=
  vol.committed (runOne site fnRef j { m with tree := vol.reload m.tree })

/-- `_config_class_ref`; `configClass` is the executor's own, if it has one. -/
def configClassRef (configClass : Option ConfigClassRef) (c : AnyConfig K) : ConfigClassRef :=
  match configClass with
  | some ref => if ref = "" then c.qualname else ref
  | none => c.qualname

def workerCommand (site : Site K S) (fnRef : RunFnRef) (configClass : Option ConfigClassRef)
    (c : AnyConfig K) (m : Machine K S) : Option RunRecord × Machine K S :=
  match c.toJson with
  | none => (none, m)
  | some j => runOne site fnRef j m (configClassRef configClass c)

/-- In every process that this machine or Modal starts for it, the config runs as itself:
its own name, and what `execute_config` gives for it. -/
def RunsAsItself (c : AnyConfig K) : Prop :=
  ∀ (S : Type) (site : Site K S) (fnRef : RunFnRef) (m : Machine K S),
    (∀ rest, inProcessRun site fnRef (c :: rest) m =
      andRest (runConfig site fnRef c m) (inProcessRun site fnRef rest)) ∧
    ∀ (vol : Volume K S) (j : Json), c.toJson = some j → modalWorker site vol fnRef j m =
      vol.committed (runConfig site fnRef c { m with tree := vol.reload m.tree })

/-- A ref under which the worker can import the config's class. -/
def Importable (K : ConfigClass E) (ref : ConfigClassRef) : AnyConfig K → Prop
  | .simple _ => ref = defaultConfigClass
  | .own _ => ref ≠ defaultConfigClass ∧ ref ∈ K.names

theorem runOne_named {c : AnyConfig K} (h : c.RoundTrips) {j : Json} (hj : c.toJson = some j)
    {ref : ConfigClassRef} (href : Importable K ref c) (site : Site K S) (fnRef : RunFnRef)
    (m : Machine K S) : runOne site fnRef j m ref = runConfig site fnRef c m := by
  cases c with
  | simple f =>
    obtain ⟨j', hj', hback⟩ := h
    obtain rfl : j' = j := Option.some.inj (hj'.symm.trans hj)
    cases href
    simp [runOne, loadConfigClass, hback]
  | own e =>
    obtain ⟨hother, hnamed⟩ := href
    cases hj
    simp [runOne, loadConfigClass, hother, hnamed, K.roundTrip]

theorem toJson_isSome {c : AnyConfig K} (h : c.RoundTrips) : ∃ j, c.toJson = some j := by
  cases c with
  | simple f =>
    obtain ⟨j, hj, _⟩ := h
    exact ⟨j, hj⟩
  | own e => exact ⟨K.toJson e, rfl⟩

theorem workerCommand_runs {c : AnyConfig K} (h : c.RoundTrips)
    {configClass : Option ConfigClassRef} (href : Importable K (configClassRef configClass c) c)
    (site : Site K S) (fnRef : RunFnRef) (m : Machine K S) :
    workerCommand site fnRef configClass c m = runConfig site fnRef c m := by
  obtain ⟨j, hj⟩ := toJson_isSome h
  rw [workerCommand, hj]
  exact runOne_named h hj href site fnRef m

def tellApart (K : ConfigClass E) : Physics K Unit := fun c _ =>
  (none, fun _ _ => .returns (.int (if c.isSimple then 0 else 1)))

def tellingSite (K : ConfigClass E) : Site K Unit where
  files := ⟨[], fun _ => ["run"]⟩
  restore := id
  runFns _ := some (tellApart K)

theorem executed_told {c : AnyConfig K} {m : Machine K Unit} {v : Value}
    (h : (executed (tellingSite K) (tellApart K) c m).1 = some (some v)) :
    v = .int (if c.isSimple then 0 else 1) := by
  unfold executed executeConfig at h
  split at h
  · cases h
  · split at h
    · cases h
    · split at h
      · cases h
      · simp only [tellApart, RunSteps.run, finishRun] at h
        split at h
        · cases h
        · simpa using h.symm

theorem runConfig_own (e : E) : ∃ r, (runConfig (tellingSite K) "" (.own e)
    ⟨Dict.empty, false⟩).1 = some r ∧ r.result = some (.int 1) := by
  unfold runConfig
  cases (AnyConfig.own e : AnyConfig K).float64 with
  | true => exact ⟨_, rfl, rfl⟩
  | false => exact ⟨_, rfl, rfl⟩

theorem runConfig_simple {f : SimpleFields} {m : Machine K Unit} {r : RunRecord}
    (h : (runConfig (tellingSite K) "" (.simple f) m).1 = some r) :
    r.result ≠ some (.int 1) := by
  intro hresult
  unfold runConfig at h
  simp only [tellingSite] at h
  split at h
  · cases h
  · rename_i result tree hexecuted
    cases h
    obtain rfl : result = some (.int 1) := hresult
    cases executed_told (congrArg Prod.fst hexecuted)

theorem own_not_itself (e : E) : ¬ RunsAsItself (.own e : AnyConfig K) := by
  intro hitself
  obtain ⟨hrun, -⟩ := hitself Unit (tellingSite K) "" ⟨Dict.empty, false⟩
  have hone := congrArg Prod.fst (hrun [])
  obtain ⟨r, hr, hresult⟩ := runConfig_own (K := K) e
  obtain ⟨m', hown⟩ : ∃ m', runConfig (tellingSite K) "" (.own e) ⟨Dict.empty, false⟩ =
      (some r, m') := ⟨_, Prod.ext hr rfl⟩
  rw [hown] at hone
  cases hback : SimpleFields.fromJson (K.toJson e) with
  | none => simp [inProcessRun, AnyConfig.toJson, runOne, loadConfigClass, hback, andRest] at hone
  | some f =>
    simp only [inProcessRun, AnyConfig.toJson, runOne, loadConfigClass, if_true, hback,
      Option.map_some] at hone
    cases hsimple : runConfig (tellingSite K) "" (.simple f) ⟨Dict.empty, false⟩ with
    | mk out m =>
      cases out with
      | none => simp [hsimple, andRest] at hone
      | some r' =>
        simp only [hsimple, andRest, Option.some.injEq, List.cons.injEq, and_true] at hone
        subst hone
        exact runConfig_simple (congrArg Prod.fst hsimple) hresult

theorem simple_itself {c : AnyConfig K} (h : c.RoundTrips) (hsimple : c.isSimple = true) :
    RunsAsItself c := by
  intro S site fnRef m
  have hdefault : Importable K defaultConfigClass c := by
    cases c with
    | simple f => rfl
    | own e => cases hsimple
  have hone (j : Json) (hj : c.toJson = some j) (m : Machine K S) :
      runOne site fnRef j m = runConfig site fnRef c m := runOne_named h hj hdefault site fnRef m
  refine ⟨fun rest => ?_, fun vol j hj => ?_⟩
  · obtain ⟨j, hj⟩ := toJson_isSome h
    simp only [inProcessRun, hj, hone j hj]
  · rw [modalWorker, hone j hj]

/-- The executors agree on a config: the worker command of a rented host always runs it as itself,
this machine and Modal exactly when it is a `SimpleRunConfig`. -/
theorem executors_agree_iff (c : AnyConfig K) (h : c.RoundTrips) :
    (∀ (S : Type) (site : Site K S) (fnRef : RunFnRef) (configClass : Option ConfigClassRef)
      (m : Machine K S), Importable K (configClassRef configClass c) c →
        workerCommand site fnRef configClass c m = runConfig site fnRef c m) ∧
    (RunsAsItself c ↔ c.isSimple = true) := by
  refine ⟨fun S site fnRef configClass m href => workerCommand_runs h href site fnRef m, ?_⟩
  constructor
  · intro hitself
    cases c with
    | simple f => rfl
    | own e => exact absurd hitself (own_not_itself e)
  · exact simple_itself h

theorem runConfig_record {site : Site K S} {fnRef : RunFnRef} {c : AnyConfig K} {m : Machine K S}
    {r : RunRecord} (h : (runConfig site fnRef c m).1 = some r) :
    r.run = runName c ∧ (r.skipped ↔ r.result = none) ∧ ∃ fn, site.runFns fnRef = some fn ∧
      (executed site fn c (if c.float64 then { m with x64 := true } else m)).1 =
        some r.result := by
  unfold runConfig at h
  dsimp only at h
  split at h
  · cases h
  · rename_i fn hfn
    split at h
    · cases h
    · rename_i result tree hexecuted
      cases h
      exact ⟨rfl, by simp, fn, hfn, congrArg Prod.fst hexecuted⟩

end

structure GridConfig where
  model : String
  n : Int
  dtype : String := "float32"

def gridClass : ConfigClass GridConfig where
  I := sampleInterp
  sha256 _ := ""
  qualname := "engine.config:GridConfig"
  names := ["engine.config:GridConfig"]
  dtype := GridConfig.dtype
  toJson c := .obj [("N", .int c.n), ("dtype", .str c.dtype), ("model", .str c.model)]
  fromJson
    | .obj [("N", .int n), ("dtype", .str dtype), ("model", .str model)] => some ⟨model, n, dtype⟩
    | _ => none
  runName c := c.model ++ "_" ++ toString c.n
  roundTrip _ := rfl

theorem twoSteps_itself : RunsAsItself (.simple { params := .dict [(.str "steps", .int 2)] } :
    AnyConfig gridClass) :=
  (executors_agree_iff (.simple { params := .dict [(.str "steps", .int 2)] })
    ⟨_, rfl, rfl⟩).2.mpr rfl

/-- The default class has no field for the `N` of a grid. -/
theorem gridConfig_rejected :
    SimpleFields.fromJson (gridClass.toJson ⟨"wave", 64, "float64"⟩) = none ∧
      ¬ RunsAsItself (.own ⟨"wave", 64, "float64"⟩ : AnyConfig gridClass) :=
  ⟨rfl, own_not_itself _⟩

end RunFarm
