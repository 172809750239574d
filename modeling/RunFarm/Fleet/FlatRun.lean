import RunFarm.Fleet.Payload
import RunFarm.Python.Lines

/-! The local check of a payload, from the flat copy on: what is run there, and when nothing is
reported. -/
set_option autoImplicit false

namespace RunFarm
open Python

variable {α : Type}

structure CompletedProcess where
  rc : Int
  stdout : String
  stderr : String

structure PayloadSpec where
  files : List String
  imports : List String := []
  startup : Option String := none
  expect : Option String := none
  env : List (String × String) := []

structure Problem where
  kind : String
  detail : String
  deriving DecidableEq, Repr

def Problem.str (p : Problem) : String := "[" ++ p.kind ++ "] " ++ p.detail

def FlatProblem.problem (p : FlatProblem) : Problem :=
  match p.kind with
  | .missingFile => ⟨"missing_file", p.detail⟩
  | .nameCollision => ⟨"name_collision", p.detail⟩

/-- How the probe of the imports ended: `silent` without its line; otherwise with what did not
import, and where the rest came from. -/
inductive Probed where
  | silent (r : CompletedProcess)
  | reported (errors : List (String × String × String)) (imported : List (String × String))

/-- `tmp` is the flat directory, and its entries are the first argument of what runs there. -/
structure FlatMachine (α : Type) extends LocalMachine α where
  tmp : String
  repr : String → String
  probe : List (String × Files.Node α) → List (String × String) → List String →
    Except Raised Probed
  start : List (String × Files.Node α) → List (String × String) → String →
    Except Raised CompletedProcess

/-- `s.strip()`. -/
def stripped (s : String) : String := String.ofList (strip s.toList)

/-- `r.stderr or r.stdout`, stripped. -/
def CompletedProcess.said (r : CompletedProcess) : String :=
  stripped (if r.stderr ≠ "" then r.stderr else r.stdout)

def CompletedProcess.lastLine (r : CompletedProcess) : String :=
  stripped (((splitlines (stripped r.stdout)).filter (stripped · ≠ "")).getLast?.getD "")

namespace FlatMachine

variable (M : FlatMachine α)

def inside (path : String) : Bool := path = "<builtin>" || startsWith path M.tmp

def importProblems : Probed → List Problem
  | .silent r =>
    [⟨"import", "probe did not report (rc=" ++ toString r.rc ++ "): " ++ cutTo 400 r.said⟩]
  | .reported errors imported =>
    errors.map (fun e => ⟨"import", e.1 ++ ": " ++ e.2.1 ++ ": " ++ e.2.2⟩) ++
      (imported.filter fun i => !M.inside i.2).map fun i =>
        ⟨"import", i.1 ++ " imported from " ++ i.2 ++ ", OUTSIDE the flat dir -- " ++
          "it resolved via the ambient environment, so this check " ++
          "proved nothing about the payload"⟩

def startupProblems (expect : Option String) (r : CompletedProcess) : List Problem :=
  if r.rc ≠ 0 then
    let lines := splitlines r.said
    [⟨"startup", "rc=" ++ toString r.rc ++ ": " ++
      " | ".intercalate (lines.drop (lines.length - 6))⟩]
  else
    match expect with
    | none => []
    | some expect =>
      if r.lastLine ≠ stripped expect then
        [⟨"mismatch", "startup printed " ++ M.repr r.lastLine ++ ", expected " ++
          M.repr (stripped expect)⟩]
      else []

def checkImports (spec : PayloadSpec) (entries : List (String × Files.Node α)) :
    Except Raised (List Problem) :=
  if spec.imports = [] then .ok []
  else (M.probe entries spec.env spec.imports).map M.importProblems

def checkStartup (spec : PayloadSpec) (entries : List (String × Files.Node α)) :
    Except Raised (List Problem) :=
  match spec.startup with
  | none => .ok []
  | some source =>
    if source = "" then .ok []
    else (M.start entries spec.env source).map (M.startupProblems spec.expect)

def validateFlat (spec : PayloadSpec) : Except Raised (List Problem) :=
  match M.stage spec.files with
  | .error e => .error ⟨e, e.kind.className⟩
  | .ok (.error problems) => .ok (problems.map FlatProblem.problem)
  | .ok (.ok entries) => do
    let imports ← M.checkImports spec entries
    let startup ← M.checkStartup spec entries
    pure (imports ++ startup)

def Imports (spec : PayloadSpec) (entries : List (String × Files.Node α)) : Prop :=
  spec.imports ≠ [] → ∃ imported, M.probe entries spec.env spec.imports =
    .ok (.reported [] imported) ∧ ∀ i ∈ imported, M.inside i.2 = true

/-- The entrypoint starts there, and prints what is expected. -/
def Starts (spec : PayloadSpec) (entries : List (String × Files.Node α)) : Prop :=
  ∀ source, spec.startup = some source → source ≠ "" →
    ∃ r, M.start entries spec.env source = .ok r ∧ r.rc = 0 ∧
      ∀ expect, spec.expect = some expect → r.lastLine = stripped expect

def RunsFlat (spec : PayloadSpec) : Prop :=
  ∃ entries, M.stage spec.files = .ok (.ok entries) ∧ M.Imports spec entries ∧
    M.Starts spec entries

theorem stage_problems {files : List String} {problems : List FlatProblem}
    (h : M.stage files = .ok (.error problems)) : problems ≠ [] := by
  simp only [LocalMachine.stage, bind_eq_ok] at h
  obtain ⟨found, -, h⟩ := h
  split at h
  · rename_i hfound
    cases h
    exact hfound
  · obtain ⟨entries, -, h⟩ := bind_eq_ok.mp h
    cases h

theorem importProblems_nil {probed : Probed} : M.importProblems probed = [] ↔
    ∃ imported, probed = .reported [] imported ∧ ∀ i ∈ imported, M.inside i.2 = true := by
  cases probed with
  | silent r => simp [importProblems]
  | reported errors imported => simp [importProblems, List.filter_eq_nil_iff]

theorem startupProblems_nil {expect : Option String} {r : CompletedProcess} :
    M.startupProblems expect r = [] ↔
      r.rc = 0 ∧ ∀ e, expect = some e → r.lastLine = stripped e := by
  unfold startupProblems
  by_cases hrc : r.rc = 0
  · cases expect with
    | none => simp [hrc]
    | some e => simp [hrc]
  · simp [hrc]

theorem map_eq_ok {ε β γ : Type} {x : Except ε β} {f : β → γ} {c : γ} :
    x.map f = .ok c ↔ ∃ b, x = .ok b ∧ f b = c := by
  cases x <;> simp [Except.map]

theorem checkImports_nil {spec : PayloadSpec} {entries : List (String × Files.Node α)} :
    M.checkImports spec entries = .ok [] ↔ M.Imports spec entries := by
  by_cases himp : spec.imports = []
  · simp [checkImports, Imports, himp]
  · simp [checkImports, Imports, himp, map_eq_ok, importProblems_nil]

theorem checkStartup_nil {spec : PayloadSpec} {entries : List (String × Files.Node α)} :
    M.checkStartup spec entries = .ok [] ↔ M.Starts spec entries := by
  cases hstart : spec.startup with
  | none => simp [checkStartup, Starts, hstart]
  | some source =>
    by_cases hempty : source = ""
    · simp [checkStartup, Starts, hstart, hempty]
    · simp [checkStartup, Starts, hstart, hempty, map_eq_ok, startupProblems_nil]

theorem validateFlat_nil (spec : PayloadSpec) : M.validateFlat spec = .ok [] ↔ M.RunsFlat spec := by
  rw [validateFlat, RunsFlat]
  cases hstage : M.stage spec.files with
  | error e => simp
  | ok staged =>
    cases staged with
    | error problems => simpa using M.stage_problems hstage
    | ok entries =>
      simp only [bind_eq_ok, pure_eq_ok, List.append_eq_nil_iff, Except.ok.injEq,
        exists_eq_left', ← checkImports_nil, ← checkStartup_nil]
      constructor
      · rintro ⟨imports, himports, startup, hstartup, rfl, rfl⟩
        exact ⟨himports, hstartup⟩
      · rintro ⟨himports, hstartup⟩
        exact ⟨[], himports, [], hstartup, rfl, rfl⟩

/-- Where the copies over ssh take up the files that are at the paths, a payload without a report is
one whose entries were run flat as they will land on the host. -/
theorem flat_ships (spec : PayloadSpec) (hostId : String)
    (hscp : ∀ f ∈ spec.files, ∀ c, M.find (M.path f) = some (.file c) → M.scp f = .ok (.file c)) :
    M.validateFlat spec = .ok [] ↔ ∃ staged landed, M.stage spec.files = .ok (.ok staged) ∧
      M.Imports spec staged ∧ M.Starts spec staged ∧ M.ship hostId spec.files = .ok landed ∧
      ∀ e, e ∈ staged ↔ e ∈ landed := by
  rw [validateFlat_nil]
  constructor
  · rintro ⟨staged, hstage, himports, hstarts⟩
    have hexpands := LocalMachine.stage_expands hstage
    obtain ⟨-, problems, hproblems⟩ | ⟨-, hcopies⟩ := LocalMachine.stage_eq hexpands
    · rw [hstage] at hproblems
      cases hproblems
    rw [hstage] at hcopies
    obtain ⟨staged', hcopied, heq⟩ := map_eq_ok.mp hcopies.symm
    cases heq
    have hplain : ∀ f ∈ spec.files, M.Plain f := fun f hf => by
      obtain ⟨_, hfile⟩ := mapM_ok.mp ⟨staged, hcopied⟩ (M.path f) (List.mem_map_of_mem hf)
      obtain ⟨c, hfound, -⟩ := LocalMachine.copy2_ok.mp hfile
      exact ⟨c, hfound, hscp f hf c hfound⟩
    obtain ⟨staged', landed, hcopied', hlanded, hsame⟩ :=
      LocalMachine.builds_of_plain hostId hexpands hplain
    rw [hcopied] at hcopied'
    cases hcopied'
    exact ⟨staged, landed, hstage, himports, hstarts, hlanded, hsame⟩
  · rintro ⟨staged, landed, hstage, himports, hstarts, -⟩
    exact ⟨staged, hstage, himports, hstarts⟩

def driverAlone : FlatMachine String where
  expanduser f := .ok f
  find p := if p = "run.py" then some (.file "x = 1") else none
  resolve p := p
  scp p := if p = "run.py" then .ok (.file "x = 1") else .error "No such file"
  same p q h := by rw [h]
  last f p c h _ := by
    cases h
    rfl
  tmp := "/tmp/flat"
  repr s := s
  probe _ _ imports := .ok (.reported [] (imports.map fun i => (i, "/tmp/flat/" ++ i ++ ".py")))
  start _ _ _ := .ok ⟨0, "ready\n", ""⟩

theorem driverAlone_ships : ∃ staged landed,
    driverAlone.stage ["run.py"] = .ok (.ok staged) ∧
    driverAlone.Imports { files := ["run.py"], imports := ["run"], startup := some "run" } staged ∧
    driverAlone.Starts { files := ["run.py"], imports := ["run"], startup := some "run" } staged ∧
    driverAlone.ship "7" ["run.py"] = .ok landed ∧ ∀ e, e ∈ staged ↔ e ∈ landed := by
  refine (driverAlone.flat_ships
    { files := ["run.py"], imports := ["run"], startup := some "run" } "7" ?_).mp (by decide)
  intro f hf c hc
  rw [List.mem_singleton.mp hf] at hc ⊢
  cases hc
  rfl

end FlatMachine

end RunFarm
