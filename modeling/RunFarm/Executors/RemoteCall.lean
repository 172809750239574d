import RunFarm.Executors.ResultLine
import RunFarm.Python.Dict
import RunFarm.Python.ShellQuote

/-! A config's way to the worker on a rented host and back. The command is one text, which the
shell of the host splits again; `env`, the interpreter and the worker's own parser each take their
part of it. -/
set_option autoImplicit false

namespace RunFarm
open Files Python Shell
open RunNamed (runName)

/-- What a `ProviderExecutor` writes its commands from. -/
structure WorkerSettings where
  remotePython : String
  runFnRef : RunFnRef
  configClass : Option ConfigClassRef := none
  remoteWorkDir : String := "/workspace/runs"
  engineModule : String
  remoteEnv : Dict String String := Dict.empty

namespace WorkerSettings

variable (W : WorkerSettings)

/-- `sorted(self.remote_env.items())`. No key is there twice, so the values are never compared. -/
def sortedEnv : List (String × String) :=
  W.remoteEnv.items.mergeSort fun a b => decide (a.1 ≤ b.1)

/-- `f"{k}={shlex.quote(v)}"`. -/
def assignmentText (kv : String × String) : List Char := kv.1.toList ++ '=' :: shlexQuote kv.2

def envify (cmd : List Char) : List Char :=
  if W.remoteEnv.items = [] then cmd
  else "env ".toList ++ [' '].intercalate (W.sortedEnv.map assignmentText) ++ ' ' :: cmd

/-- The check of `_wait_engine_ready`. -/
def readyCheck : List Char :=
  W.envify (W.remotePython.toList ++ " -c 'import ".toList ++ W.engineModule.toList ++ ['\x27'])

/-- The command of `_run_config`. -/
def workerCmd (configJson : String) (ref : ConfigClassRef) : List Char :=
  W.envify (W.remotePython.toList ++ " -m run_farm.worker ".toList ++
    "--config-json ".toList ++ shlexQuote configJson ++ [' '] ++
    "--run-fn ".toList ++ shlexQuote W.runFnRef ++ [' '] ++
    "--config-class ".toList ++ shlexQuote ref ++ [' '] ++
    "--work-dir ".toList ++ shlexQuote W.remoteWorkDir)

end WorkerSettings

/-- What the parser of `worker.main` has read so far, over its defaults. -/
structure WorkerArgs where
  configJson : Option String := none
  runFn : Option RunFnRef := none
  configClass : ConfigClassRef := defaultConfigClass
  workDir : String := "runs"

namespace WorkerArgs

def take (a : WorkerArgs) (option value : String) : Option WorkerArgs :=
  if option = "--config-json" then some { a with configJson := some value }
  else if option = "--run-fn" then some { a with runFn := some value }
  else if option = "--config-class" then some { a with configClass := value }
  else if option = "--work-dir" then some { a with workDir := value }
  else none

/-- `ap.parse_args`, of options by their whole names, each before its value. A value with a dash
in front is taken for an option. -/
def parse (a : WorkerArgs) : List String → Option WorkerArgs
  | [] => some a
  | [_] => none
  | option :: value :: rest =>
    if startsDash value then none else (a.take option value).bind fun a => a.parse rest

end WorkerArgs

variable {E S : Type} {K : ConfigClass E}

/-- A rented host: its interpreter, the environment of a session over ssh, and what a process in an
environment has at a work dir. -/
structure WorkerHost (K : ConfigClass E) (S : Type) where
  python : String
  environ : Environ
  site : Environ → String → Site K S

namespace WorkerHost

variable (B : WorkerHost K S) (R : FloatReader K.I)

/-- `worker.main`, down to the record that it prints. -/
def workerMain (e : Environ) (args : List String) (m : Machine K S) :
    Option RunRecord × Machine K S :=
  match WorkerArgs.parse {} args with
  | some ⟨some configJson, some runFn, configClass, workDir⟩ =>
    match readText R configJson.toList with
    | none => (none, m)
    | some j => runOne (B.site e workDir) runFn j m configClass
  | _ => (none, m)

def overSsh (cmd : List Char) (m : Machine K S) : Option RunRecord × Machine K S :=
  match started B.environ cmd with
  | some (e, python :: "-m" :: "run_farm.worker" :: args) =>
    if python = B.python then B.workerMain R e args m else (none, m)
  | _ => (none, m)

end WorkerHost

namespace WorkerSettings

/-- A value that the worker's parser takes for a value. -/
structure IsValue (s : String) : Prop where
  noNul : '\x00' ∉ s.toList
  noDash : startsDash s = false

structure IsName (s : String) : Prop where
  nonempty : s ≠ ""
  plain : s.toList.all isPlain = true
  noEquals : '=' ∉ s.toList
  noDash : startsDash s = false

/-- What the settings must be for the host to read the commands as they are meant. Only what is
quoted may be any text. -/
structure Readable (W : WorkerSettings) : Prop where
  python : isProgram W.remotePython = true
  notEnv : W.remotePython ≠ "env"
  plain : W.remotePython.toList.all isPlain = true
  engineModule : ∀ c ∈ W.engineModule.toList, c ≠ '\x00' ∧ c ≠ apostrophe
  names : ∀ kv ∈ W.remoteEnv.items, IsName kv.1
  values : ∀ kv ∈ W.remoteEnv.items, '\x00' ∉ kv.2.toList
  runFnRef : IsValue W.runFnRef
  remoteWorkDir : IsValue W.remoteWorkDir

variable {W : WorkerSettings}

/-- The environment of a worker: the variables that are set, over those of the session. -/
def environ (W : WorkerSettings) (e : Environ) : Environ :=
  fun name => (W.remoteEnv.get name).or (e name)

theorem sortedEnv_perm : W.sortedEnv.Perm W.remoteEnv.items := List.mergeSort_perm _ _

theorem assigned_sortedEnv (e : Environ) : assigned e W.sortedEnv = W.environ e := by
  have hnodup : (W.sortedEnv.map Prod.fst).Nodup :=
    (sortedEnv_perm.map Prod.fst).nodup_iff.mpr W.remoteEnv.nodup
  funext name
  rw [assigned_lookup hnodup]
  exact congrArg (·.or (e name)) (Dict.get_of_perm (d := ⟨W.sortedEnv, hnodup⟩) sortedEnv_perm name)

def assignmentWord (kv : String × String) : String :=
  String.ofList (kv.1.toList ++ '=' :: kv.2.toList)

theorem spells_assignment {kv : String × String} (hname : IsName kv.1)
    (hvalue : '\x00' ∉ kv.2.toList) :
    Spells (assignmentText kv) (kv.1.toList ++ '=' :: kv.2.toList) := by
  have hne : kv.1.toList ≠ [] := fun h => hname.nonempty (String.toList_eq_nil_iff.mp h)
  exact (spells_plain hne hname.plain).append
    ((spells_char (by decide : isPlain '=' = true)).append (spells_shlexQuote hvalue))

theorem startsDash_append {s : String} (hne : s ≠ "") (h : startsDash s = false) (cs : List Char) :
    startsDash (String.ofList (s.toList ++ cs)) = false := by
  have hne : s.toList ≠ [] := fun hnil => hne (String.toList_eq_nil_iff.mp hnil)
  rw [startsDash, String.toList_ofList, List.head?_append_of_ne_nil _ hne]
  exact h

theorem reads_assignment {kv : String × String} (hname : IsName kv.1) :
    startsDash (assignmentWord kv) = false ∧ assignment (assignmentWord kv) = some kv := by
  refine ⟨startsDash_append hname.nonempty hname.noDash _, ?_⟩
  rw [assignmentWord, assignment_eq hname.noEquals, String.ofList_toList, String.ofList_toList]

theorem env_line {texts : List (List Char)} (h : texts ≠ []) (text : List Char)
    (texts' : List (List Char)) :
    "env ".toList ++ [' '].intercalate texts ++ ' ' :: line (text :: texts') =
      line ("env".toList :: (texts ++ text :: texts')) := by
  rw [← List.cons_append, line_append (List.cons_ne_nil _ _) (List.cons_ne_nil _ _)]
  obtain ⟨first, rest, rfl⟩ := List.exists_cons_of_ne_nil h
  rw [line, line, List.intercalate_cons_cons]
  rfl

theorem started_envify (hW : W.Readable) {texts spelled : List (List Char)}
    (h : List.Forall₂ Spells texts spelled) (e : Environ) :
    started e (W.envify (line (W.remotePython.toList :: texts))) =
      some (W.environ e, W.remotePython :: spelled.map String.ofList) := by
  have hpython : Spells W.remotePython.toList W.remotePython.toList := by
    refine spells_plain (fun hnil => ?_) hW.plain
    have hprogram := hW.python
    simp [isProgram, String.toList_eq_nil_iff.mp hnil] at hprogram
  have hcmd := List.Forall₂.cons hpython h
  by_cases hnone : W.remoteEnv.items = []
  · have hsame : W.environ e = e := by
      funext name
      simp [environ, Dict.get, hnone]
    rw [envify, if_pos hnone, started, words_line hcmd, hsame]
    simp [hW.python, hW.notEnv]
  · have hsorted : W.sortedEnv.map assignmentText ≠ [] := by
      rw [Ne, List.map_eq_nil_iff]
      exact fun hnil => hnone (hnil ▸ sortedEnv_perm (W := W)).nil_eq.symm
    have hmem (kv : String × String) (hkv : kv ∈ W.sortedEnv) : kv ∈ W.remoteEnv.items :=
      sortedEnv_perm.mem_iff.mp hkv
    have hassignments : List.Forall₂ Spells (W.sortedEnv.map assignmentText)
        (W.sortedEnv.map fun kv => kv.1.toList ++ '=' :: kv.2.toList) := by
      rw [List.forall₂_map_left_iff, List.forall₂_map_right_iff, List.forall₂_same]
      exact fun kv hkv => spells_assignment (hW.names kv (hmem kv hkv)) (hW.values kv (hmem kv hkv))
    have hreads : List.Forall₂ (fun w a => startsDash w = false ∧ assignment w = some a)
        (W.sortedEnv.map assignmentWord) W.sortedEnv := by
      rw [List.forall₂_map_left_iff, List.forall₂_same]
      exact fun kv hkv => reads_assignment (hW.names kv (hmem kv hkv))
    have henv : Spells "env".toList "env".toList := spells_plain (by decide) (by decide)
    rw [envify, if_neg hnone, env_line hsorted, started,
      words_line (.cons henv (List.rel_append hassignments hcmd)), Option.bind_some]
    simp only [List.map_cons, List.map_append, String.ofList_toList, List.map_map]
    rw [if_neg (by decide), if_pos trivial, ← assigned_sortedEnv]
    exact env_assignments hreads hW.python _ e

theorem started_readyCheck (hW : W.Readable) (e : Environ) :
    started e W.readyCheck =
      some (W.environ e, [W.remotePython, "-c", "import " ++ W.engineModule]) := by
  have hmodule : ∀ c ∈ "import ".toList ++ W.engineModule.toList, c ≠ '\x00' ∧ c ≠ apostrophe := by
    intro c hc
    rcases List.mem_append.mp hc with hc | hc
    · exact (forall_chars (by decide) : ∀ c ∈ "import ".toList, c ≠ '\x00' ∧ c ≠ apostrophe) c hc
    · exact hW.engineModule c hc
  have hline : W.readyCheck = W.envify (line [W.remotePython.toList, "-c".toList,
      apostrophe :: ("import ".toList ++ W.engineModule.toList ++ [apostrophe])]) := by
    simp [readyCheck, line, List.intercalate_cons_cons, apostrophe]
  have hoption : Spells "-c".toList "-c".toList := spells_plain (by decide) (by decide)
  rw [hline, started_envify hW (.cons hoption (.cons (spellsQuoted_self hmodule).closed .nil)),
    List.map_cons, List.map_cons, ← String.toList_append, String.ofList_toList,
    String.ofList_toList, List.map_nil]

theorem started_workerCmd (hW : W.Readable) {configJson : String} {ref : ConfigClassRef}
    (hjson : '\x00' ∉ configJson.toList) (href : '\x00' ∉ ref.toList) (e : Environ) :
    started e (W.workerCmd configJson ref) =
      some (W.environ e, [W.remotePython, "-m", "run_farm.worker", "--config-json", configJson,
        "--run-fn", W.runFnRef, "--config-class", ref, "--work-dir", W.remoteWorkDir]) := by
  have hline : W.workerCmd configJson ref = W.envify (line [W.remotePython.toList, "-m".toList,
      "run_farm.worker".toList, "--config-json".toList, shlexQuote configJson, "--run-fn".toList,
      shlexQuote W.runFnRef, "--config-class".toList, shlexQuote ref, "--work-dir".toList,
      shlexQuote W.remoteWorkDir]) := by
    have hmodule : " -m run_farm.worker ".toList =
        [' '] ++ "-m".toList ++ [' '] ++ "run_farm.worker".toList ++ [' '] := rfl
    have hjson : "--config-json ".toList = "--config-json".toList ++ [' '] := rfl
    have hfn : "--run-fn ".toList = "--run-fn".toList ++ [' '] := rfl
    have hclass : "--config-class ".toList = "--config-class".toList ++ [' '] := rfl
    have hdir : "--work-dir ".toList = "--work-dir".toList ++ [' '] := rfl
    simp only [workerCmd, hmodule, hjson, hfn, hclass, hdir, line, List.intercalate_cons_cons,
      List.intercalate_singleton, List.append_assoc]
  have hoption (s : String) (h : (s.toList ≠ []) ∧ s.toList.all isPlain = true) :
      Spells s.toList s.toList := spells_plain h.1 h.2
  rw [hline, started_envify hW
    (.cons (hoption "-m" (by decide)) <| .cons (hoption "run_farm.worker" (by decide)) <|
      .cons (hoption "--config-json" (by decide)) <| .cons (spells_shlexQuote hjson) <|
      .cons (hoption "--run-fn" (by decide)) <| .cons (spells_shlexQuote hW.runFnRef.noNul) <|
      .cons (hoption "--config-class" (by decide)) <| .cons (spells_shlexQuote href) <|
      .cons (hoption "--work-dir" (by decide)) <|
      .cons (spells_shlexQuote hW.remoteWorkDir.noNul) .nil)]
  simp only [List.map_cons, List.map_nil, String.ofList_toList]

end WorkerSettings

theorem parse_options {configJson runFn configClass workDir : String}
    (hjson : startsDash configJson = false) (hfn : startsDash runFn = false)
    (hclass : startsDash configClass = false) (hdir : startsDash workDir = false) :
    WorkerArgs.parse {} ["--config-json", configJson, "--run-fn", runFn, "--config-class",
      configClass, "--work-dir", workDir] =
      some ⟨some configJson, some runFn, configClass, workDir⟩ := by
  have htakes (a : WorkerArgs) (value : String) :
      a.take "--config-json" value = some { a with configJson := some value } ∧
        a.take "--run-fn" value = some { a with runFn := some value } ∧
        a.take "--config-class" value = some { a with configClass := value } ∧
        a.take "--work-dir" value = some { a with workDir := value } := ⟨rfl, rfl, rfl, rfl⟩
  simp only [WorkerArgs.parse, hjson, hfn, hclass, hdir, htakes, Bool.false_eq_true, if_false,
    Option.bind_some]

theorem simple_noDash {I : Interp} {f : SimpleFields} {j : Json} (h : f.toJson I = some j) :
    startsDash (String.ofList (j.text I)) = false := by
  obtain ⟨_, rfl⟩ := dumps_dict.mp h
  rw [startsDash, String.toList_ofList]
  rfl

theorem noNul_text {I : Interp} {R : FloatReader I} {j : Json} (h : j.known R) :
    '\x00' ∉ (String.ofList (j.text I)).toList := by
  intro hmem
  rw [String.toList_ofList] at hmem
  exact absurd (printable_text h _ hmem).1 (by decide)

/-- Of a class of the engine's own, the text of a config may begin with a dash: a negative number
does. -/
def TextNoDash : AnyConfig K → Prop
  | .simple _ => True
  | .own e => startsDash (String.ofList ((K.toJson e).text K.I)) = false

theorem overSsh_workerCmd (B : WorkerHost K S) (R : FloatReader K.I) {W : WorkerSettings}
    (hpython : W.remotePython = B.python) (hW : W.Readable) {configJson : String}
    (hjson : WorkerSettings.IsValue configJson) {ref : ConfigClassRef}
    (href : WorkerSettings.IsValue ref) (m : Machine K S) :
    B.overSsh R (W.workerCmd configJson ref) m =
      match readText R configJson.toList with
      | none => (none, m)
      | some j => runOne (B.site (W.environ B.environ) W.remoteWorkDir) W.runFnRef j m ref := by
  rw [WorkerHost.overSsh, WorkerSettings.started_workerCmd hW hjson.noNul href.noNul]
  simp only [hpython, if_true, WorkerHost.workerMain, parse_options hjson.noDash
    hW.runFnRef.noDash href.noDash hW.remoteWorkDir.noDash]

/-- A config that is run over ssh is run as it is: the host reads the command back to the config,
the run function and the work dir it was written from, in the environment that was set, which is
the one the readiness check was made in. The record comes back as the run made it, unless the run
itself wrote into its line. -/
theorem remote_call (B : WorkerHost K S) (R : FloatReader K.I) (W : WorkerSettings)
    (hpython : W.remotePython = B.python) (hW : W.Readable) (c : AnyConfig K) (hc : c.RoundTrips)
    (himport : Importable K (configClassRef W.configClass c) c)
    (href : WorkerSettings.IsValue (configClassRef W.configClass c)) (hdash : TextNoDash c)
    (m : Machine K S) :
    started B.environ W.readyCheck = some (W.environ B.environ,
      [W.remotePython, "-c", "import " ++ W.engineModule]) ∧
    ∀ j, c.toJson = some j → j.known R →
      let ran := runConfig (B.site (W.environ B.environ) W.remoteWorkDir) W.runFnRef c m
      B.overSsh R (W.workerCmd (String.ofList (j.text K.I)) (configClassRef W.configClass c)) m =
        ran ∧
      ∀ r, ran.1 = some r → r = ranRecord (runName c) r.result ∧
        ∀ (ex : ProviderExecutor (AnyConfig K)) message rc written err record,
          dumps K.I {} r.value = some record → record.known R → KeepsClear written →
          (ex.reading R message).parseRecord c rc (combined K.I written record err) =
            loads record := by
  refine ⟨WorkerSettings.started_readyCheck hW B.environ, fun j hj hknown => ?_⟩
  have hnoDash : startsDash (String.ofList (j.text K.I)) = false := by
    cases c with
    | simple f => exact simple_noDash hj
    | own e =>
      cases hj
      exact hdash
  have hjson : WorkerSettings.IsValue (String.ofList (j.text K.I)) := ⟨noNul_text hknown, hnoDash⟩
  have hcall := overSsh_workerCmd B R hpython hW hjson href m
  rw [String.toList_ofList, readText_text hknown] at hcall
  refine ⟨hcall.trans (runOne_named hc hj himport _ W.runFnRef m), fun r hr => ⟨?_, ?_⟩⟩
  · exact (runConfig_record hr).1 ▸ runConfig_ranRecord hr
  · exact fun ex message rc written err record _ hrecord hclear =>
      parseRecord_clear hrecord hclear c rc err

def wireClass : ConfigClass GridConfig := { gridClass with I := wholeInterp }

def wireSettings : WorkerSettings where
  remotePython := "/workspace/jaxenv/bin/python"
  runFnRef := "engine.run:sweep"
  remoteWorkDir := "/workspace/it's mine"
  engineModule := "engine.run"
  remoteEnv := (Dict.empty.set "XLA_FLAGS" "--xla_dump_to=/tmp $HOME").set "JAX_PLATFORMS" "cuda"

theorem wireSettings_readable : wireSettings.Readable where
  python := by decide
  notEnv := by decide
  plain := by decide
  engineModule := forall_chars (by decide)
  names kv hkv := by
    have hname : kv.1 ∈ ["XLA_FLAGS", "JAX_PLATFORMS"] := List.mem_map_of_mem hkv
    rcases List.mem_cons.mp hname with heq | hname
    · exact heq ▸ ⟨by decide, by decide, by decide, by decide⟩
    · exact List.mem_singleton.mp hname ▸ ⟨by decide, by decide, by decide, by decide⟩
  values kv hkv := by
    have hvalue : kv.2 ∈ ["--xla_dump_to=/tmp $HOME", "cuda"] := List.mem_map_of_mem hkv
    rcases List.mem_cons.mp hvalue with heq | hvalue
    · rw [heq]
      decide
    · rw [List.mem_singleton.mp hvalue]
      decide
  runFnRef := ⟨by decide, by decide⟩
  remoteWorkDir := ⟨by decide, by decide⟩

def wireHost : WorkerHost wireClass Unit where
  python := "/workspace/jaxenv/bin/python"
  environ _ := none
  site _ dir := { tellingSite wireClass with files := ⟨[dir], fun run => [run]⟩ }

def wireMachine : Machine wireClass Unit := ⟨Dict.empty, false⟩

theorem wire_call : wireHost.overSsh wholeReader
    (wireSettings.workerCmd (String.ofList ((wireClass.toJson ⟨"wave's", 64, "float64"⟩).text
      wholeInterp)) "engine.config:GridConfig") wireMachine =
    runConfig (wireHost.site (wireSettings.environ fun _ => none) "/workspace/it's mine")
      "engine.run:sweep" (.own ⟨"wave's", 64, "float64"⟩) wireMachine :=
  ((remote_call wireHost wholeReader wireSettings rfl wireSettings_readable
    (.own ⟨"wave's", 64, "float64"⟩) trivial ⟨by decide, by decide⟩ ⟨by decide, by decide⟩
    rfl wireMachine).2 _ rfl (by decide)).1

end RunFarm
