import RunFarm.Registry.Calls

/-! The directory tree follows the log of the calls, while no run has the name of the manifest. -/
set_option autoImplicit false

namespace RunFarm
open Files Python
open RunNamed (runName)

variable {C S : Type} [RunNamed C]

def manifestName : String := "MANIFEST.jsonl"

def HoldsCheckpoint (saved : Option (S × Int)) (found : Option (Entry (Stored C S))) : Prop :=
  match saved with
  | none => found = none
  | some (state, step) => ∃ c, found = some (.file (.checkpoint state c step))

structure FileFollows (d : Tree C S) (l : RunLog S) : Prop where
  root : ∀ stored, d [] ≠ some (.file stored)
  manifest : d [manifestName] ≠ some .dir
  unnamed : manifestName ∉ l.registered
  dir : ∀ n ≠ manifestName, d [n] = if n ∈ l.registered then some .dir else none
  config : ∀ n, (d [n, "config.json"]).isSome = true ↔ n ∈ l.registered
  ckpt : ∀ n, HoldsCheckpoint (l.saved n) (d [n, "checkpoint.npz"])
  done : ∀ n, (d [n, "DONE.json"]).isSome = true ↔ n ∈ l.finished
  notDir : ∀ n, d [n, "DONE.json"] ≠ some .dir

variable {d d' : Tree C S} {l : RunLog S} {c : C} {n : String} {F : RunFormats S}

theorem prefix_single {q : Path} {n : String} : q <+: [n] ↔ q = [] ∨ q = [n] := by
  rw [List.prefix_cons_iff]
  constructor
  · rintro (h | ⟨t, rfl, ht⟩)
    · exact .inl h
    · rw [List.prefix_nil.mp ht]
      exact .inr rfl
  · rintro (h | rfl)
    · exact .inl h
    · exact .inr ⟨[], rfl, List.prefix_rfl⟩

omit [RunNamed C] in
theorem mkdir_single (hroot : ∀ stored, d [] ≠ some (.file stored))
    (hname : ∀ stored, d [n] ≠ some (.file stored)) : ∃ d', (Op.mkdir [n]).exec d = some d' := by
  have hprep : Prepared (fun _ => False) [(Op.mkdir [n] : Op (Stored C S))] := trivial
  refine exec_fits hprep nofun ⟨fun p hp q hq => ?_, nofun⟩
  obtain rfl : p = [n] := by simpa using hp
  rcases prefix_single.mp hq with rfl | rfl
  · exact hroot
  · exact hname

omit [RunNamed C] in
theorem replace_ok {p : Path} {stored : Stored C S} (hparent : d p.dropLast = some .dir)
    (hfree : d p ≠ some .dir) : ∃ d', (Op.replace p stored).exec d = some d' := by
  have hprep : Prepared (fun q => q = p.dropLast) [Op.replace p stored] := ⟨rfl, trivial⟩
  refine exec_fits hprep (fun q hq => hq ▸ hparent) ⟨nofun, fun p' stored' hp => ?_⟩
  obtain ⟨rfl, -⟩ : p' = p ∧ stored' = stored := by simpa using hp
  exact hfree

namespace FileFollows

omit [RunNamed C] in
theorem mkdir (h : FileFollows d l) (hne : n ≠ manifestName) :
    ∃ d', (Op.mkdir [n]).exec d = some d' ∧
      ∀ q, d' q = if q = [] ∨ q = [n] then some .dir else d q := by
  obtain ⟨d', hexec⟩ := mkdir_single h.root (n := n) fun stored hfile => by
    rw [h.dir n hne] at hfile
    split at hfile <;> cases hfile
  refine ⟨d', hexec, fun q => ?_⟩
  rw [exec_mkdir hexec]
  simp only [prefix_single]

omit [RunNamed C] in
theorem remade (h : FileFollows d l) (hne : n ≠ manifestName) (hreg : n ∈ l.registered)
    (hget : ∀ q, d' q = if q = [] ∨ q = [n] then some .dir else d q) : FileFollows d' l where
  root stored := by simp [hget]
  manifest := by
    have hman : [manifestName] ≠ [n] := by simp [hne.symm]
    simpa [hget, hman] using h.manifest
  unnamed := h.unnamed
  dir m hm := by
    by_cases hmn : m = n
    · subst hmn
      simp [hget, hreg]
    · simpa [hget, hmn] using h.dir m hm
  config m := by simpa [hget] using h.config m
  ckpt m := by simpa [hget] using h.ckpt m
  done m := by simpa [hget] using h.done m
  notDir m := by simpa [hget] using h.notDir m

theorem register_again (h : FileFollows d l) (hne : runName c ≠ manifestName)
    (hreg : runName c ∈ l.registered) :
    ∃ d', plainFiles.register c d = (some (plainHandle c), d') ∧ FileFollows d' l := by
  obtain ⟨d₁, hmkdir, hget⟩ := h.mkdir hne
  have hconf : (d₁ [runName c, "config.json"]).isSome = true := by
    simpa [hget] using (h.config _).mpr hreg
  refine ⟨d₁, ?_, h.remade hne hreg hget⟩
  simp only [FileRunRegistry.register, Registration.register, FileRunRegistry.registration,
    FileRunRegistry.configFile, plainFiles, hmkdir, List.cons_append, List.nil_append, hconf,
    if_true, FileRunRegistry.handle, plainHandle]

theorem register_first (h : FileFollows d l) (hne : runName c ≠ manifestName)
    (hnew : runName c ∉ l.registered) : ∃ d' rows,
      plainFiles.register c d = (some (plainHandle c), d') ∧
      ∀ q, d' q = if q = [manifestName] then some (.file (.manifest rows))
        else if q = [runName c, "config.json"] then some (.file (.config c))
        else if q = [] ∨ q = [runName c] then some .dir else d q := by
  obtain ⟨d₁, hmkdir, hget₁⟩ := h.mkdir hne
  have hnone : d [runName c, "config.json"] = none := by
    simpa using mt (h.config (runName c)).mp hnew
  have hconf : d₁ [runName c, "config.json"] = none := by simpa [hget₁] using hnone
  obtain ⟨d₂, hwrite⟩ : ∃ d₂, (Op.replace [runName c, "config.json"] (.config c)).exec d₁ =
      some d₂ := replace_ok (by simp [hget₁]) (by simp [hconf])
  have hget₂ := exec_replace hwrite
  have hman : d₂ [manifestName] = d [manifestName] := by
    simp [hget₂, hget₁, hne.symm]
  obtain ⟨d₃, hrecord⟩ : ∃ d₃, appendRow [manifestName] ⟨runName c, c⟩ d₂ = some d₃ :=
    replace_ok (by simp [hget₂, hget₁]) (by rw [hman]; exact h.manifest)
  have hget₃ := exec_replace hrecord
  refine ⟨d₃, _, ?_, fun q => by rw [hget₃, hget₂, hget₁]⟩
  have hrecord' : appendRow ["MANIFEST.jsonl"] ⟨runName c, c⟩ d₂ = some d₃ := hrecord
  simp only [FileRunRegistry.register, Registration.register, FileRunRegistry.registration,
    FileRunRegistry.configFile, FileRunRegistry.manifestFile, plainFiles, hmkdir,
    List.cons_append, List.nil_append, hconf, Option.isSome_none, Bool.false_eq_true, if_false,
    hwrite, hrecord', FileRunRegistry.handle, plainHandle]

theorem registered (h : FileFollows d l) (hne : runName c ≠ manifestName) :
    ∃ d', plainFiles.register c d = (some (plainHandle c), d') ∧
      FileFollows d' (l.next F (.register c)) := by
  by_cases hreg : runName c ∈ l.registered
  · obtain ⟨d', hcall, h'⟩ := h.register_again hne hreg
    have hmem : ∀ n, n ∈ runName c :: l.registered ↔ n ∈ l.registered := fun n => by
      rw [List.mem_cons]
      exact ⟨fun hn => hn.elim (fun heq => heq ▸ hreg) id, .inr⟩
    refine ⟨d', hcall, h'.root, h'.manifest, ?_, fun n hn => ?_, fun n => ?_, h'.ckpt, h'.done,
      h'.notDir⟩
    · exact fun hin => h'.unnamed ((hmem _).mp hin)
    · simp only [RunLog.next, hmem]
      exact h'.dir n hn
    · simp only [RunLog.next, hmem]
      exact h'.config n
  · obtain ⟨d', rows, hcall, hget⟩ := h.register_first hne hreg
    refine ⟨d', hcall, ?_, ?_, ?_, fun n hn => ?_, fun n => ?_, fun n => ?_, fun n => ?_,
      fun n => ?_⟩
    · simp [hget]
    · simp [hget]
    · simpa [RunLog.next, hne.symm] using h.unnamed
    · by_cases heq : n = runName c
      · simp [hget, RunLog.next, heq, hne]
      · simpa [hget, RunLog.next, heq, hn] using h.dir n hn
    · by_cases heq : n = runName c
      · simp [hget, RunLog.next, heq]
      · simpa [hget, RunLog.next, heq] using h.config n
    · simpa [hget, RunLog.next] using h.ckpt n
    · simpa [hget, RunLog.next] using h.done n
    · simpa [hget] using h.notDir n

theorem unregistered (h : FileFollows d l) (hname : runName c = manifestName) :
    (plainFiles.register c d).1 = none := by
  have hconf : d [manifestName, "config.json"] = none := by
    simpa using mt (h.config manifestName).mp h.unnamed
  have hrow : ∀ (d₂ : Tree C S) row, d₂ [manifestName] = some .dir →
      appendRow [manifestName] row d₂ = none := by
    intro d₂ row hdir
    unfold appendRow
    cases hexec : (Op.replace [manifestName] (.manifest (rowsAt d₂ [manifestName] ++ [row]))).exec
      d₂ with
    | none => rfl
    | some d₃ => exact absurd hdir (exec_replace_noDir hexec)
  unfold FileRunRegistry.register Registration.register
  cases hmkdir : (plainFiles.registration (C := C) (S := S)).mkdir c d with
  | none => rfl
  | some d₁ =>
    have hexec : (Op.mkdir [manifestName]).exec d = some d₁ := hname ▸ hmkdir
    have hconf₁ : d₁ (plainFiles.configFile c) = none := by
      have hpath : plainFiles.configFile c = [manifestName, "config.json"] := by
        rw [← hname]
        rfl
      rw [hpath, exec_mkdir hexec, if_neg (by simp), hconf]
    have hdir₁ : d₁ [manifestName] = some .dir := by
      rw [exec_mkdir hexec, if_pos List.prefix_rfl]
    simp only [FileRunRegistry.registration, hconf₁, Option.isSome_none, Bool.false_eq_true,
      if_false]
    cases hwrite : (Op.replace (plainFiles.configFile c) (.config c)).exec d₁ with
    | none => rfl
    | some d₂ =>
      have hne : [manifestName] ≠ plainFiles.configFile c := by simp [FileRunRegistry.configFile,
        plainFiles]
      have hdir₂ : d₂ plainFiles.manifestFile = some .dir := by
        have hpath : plainFiles.manifestFile = [manifestName] := rfl
        rw [hpath, exec_replace hwrite, if_neg hne, hdir₁]
      have hnone := hrow d₂ ⟨runName c, c⟩ hdir₂
      have hpath : plainFiles.manifestFile = [manifestName] := rfl
      simp only [hpath, hnone]

theorem named (h : FileFollows d l) (hreg : runName c ∈ l.registered) :
    runName c ≠ manifestName := fun heq => h.unnamed (heq ▸ hreg)

theorem saved (h : FileFollows d l) (hreg : runName c ∈ l.registered) (state : S) (step : Int) :
    ∃ d', FileRunRegistry.save (plainHandle c) state step d = (some (), d') ∧
      FileFollows d' (l.next F (.save c state step)) := by
  have hne := h.named hreg
  obtain ⟨d₁, hmkdir, hget₁⟩ := h.mkdir hne
  have h₁ := h.remade hne hreg hget₁
  have hfree : d₁ [runName c, "checkpoint.npz"] ≠ some .dir := by
    have hholds := h₁.ckpt (runName c)
    unfold HoldsCheckpoint at hholds
    split at hholds
    · simp [hholds]
    · obtain ⟨c', hfile⟩ := hholds
      simp [hfile]
  obtain ⟨d₂, hwrite⟩ : ∃ d₂, (Op.replace [runName c, "checkpoint.npz"]
      (.checkpoint state c step)).exec d₁ = some d₂ := replace_ok (by simp [hget₁]) hfree
  have hget := exec_replace hwrite
  refine ⟨d₂, ?_, ?_, ?_, h.unnamed, fun n hn => ?_, fun n => ?_, fun n => ?_, fun n => ?_,
    fun n => ?_⟩
  · simp only [FileRunRegistry.save, attempt, plainHandle, FileRunRegistry.ckpt, List.cons_append,
      List.nil_append, runTo, hmkdir, hwrite]
  · simpa [hget] using h₁.root
  · simpa [hget] using h₁.manifest
  · rw [hget, if_neg (by simp)]
    exact h₁.dir n hn
  · simpa [hget, RunLog.next] using h₁.config n
  · by_cases heq : n = runName c
    · simp only [RunLog.next, heq, Function.update_self, hget, if_true]
      exact ⟨c, rfl⟩
    · simpa [RunLog.next, Function.update_of_ne heq, hget, heq] using h₁.ckpt n
  · simpa [hget, RunLog.next] using h₁.done n
  · simpa [hget] using h₁.notDir n

theorem finished (h : FileFollows d l) (hreg : runName c ∈ l.registered) {result : Value} {j : Json}
    (hjson : F.json result = some j) :
    ∃ d', FileRunRegistry.finish F (plainHandle c) result d = (some (), d') ∧
      FileFollows d' (l.next F (.finish c result)) := by
  have hparent : d [runName c] = some .dir := by
    rw [h.dir _ (h.named hreg), if_pos hreg]
  obtain ⟨d', hwrite⟩ : ∃ d', (Op.replace [runName c, "DONE.json"] (.done j)).exec d = some d' :=
    replace_ok hparent (h.notDir _)
  have hget := exec_replace hwrite
  refine ⟨d', ?_, ?_, ?_, ?_, fun n hn => ?_, fun n => ?_, fun n => ?_, fun n => ?_, fun n => ?_⟩
  · simp only [FileRunRegistry.finish, hjson, attempt, plainHandle, FileRunRegistry.doneFile,
      List.cons_append, List.nil_append, runTo, hwrite]
  · simpa [hget] using h.root
  · simpa [hget] using h.manifest
  · simpa [RunLog.next, hjson] using h.unnamed
  · simpa [hget, RunLog.next, hjson] using h.dir n hn
  · simpa [hget, RunLog.next, hjson] using h.config n
  · simpa [hget, RunLog.next, hjson] using h.ckpt n
  · by_cases heq : n = runName c
    · simp [hget, RunLog.next, hjson, heq]
    · simpa [hget, RunLog.next, hjson, heq] using h.done n
  · by_cases heq : n = runName c
    · simp [hget, heq]
    · simpa [hget, heq] using h.notDir n

theorem completeFlag (h : FileFollows d l) (c : C) :
    FileRunRegistry.isComplete (plainHandle c) d = decide (runName c ∈ l.finished) := by
  rw [Bool.eq_iff_iff, decide_eq_true_iff]
  exact h.done (runName c)

theorem loaded (h : FileFollows d l) (F : RunFormats S) (c : C) :
    FileRunRegistry.load F (plainHandle c) d =
      some ((l.saved (runName c)).map fun p => (F.restore p.1, p.2)) := by
  have hholds := h.ckpt (runName c)
  unfold HoldsCheckpoint at hholds
  unfold FileRunRegistry.load FileRunRegistry.ckpt plainHandle
  cases hsaved : l.saved (runName c) with
  | none =>
    rw [hsaved] at hholds
    have hnone : d [runName c, "checkpoint.npz"] = none := hholds
    simp [hnone]
  | some p =>
    rw [hsaved] at hholds
    obtain ⟨c', hfile⟩ := hholds
    simp [hfile]

theorem answer (h : FileFollows d l) {call : RegistryCall C S} (hhandled : l.Handled call)
    (hname : ∀ c, call = .register c → runName c ≠ manifestName) :
    ((plainFiles.registry F).answer call d).1 = l.answer F call ∧
      FileFollows ((plainFiles.registry F).answer call d).2 (l.next F call) := by
  cases call with
  | register c =>
    obtain ⟨d', hcall, h'⟩ := h.registered (F := F) (hname c rfl)
    simp only [RunRegistry.answer, FileRunRegistry.registry, hcall]
    exact ⟨rfl, h'⟩
  | isComplete c =>
    simp only [RunRegistry.answer, FileRunRegistry.registry, h.completeFlag c]
    exact ⟨rfl, h⟩
  | load c =>
    simp only [RunRegistry.answer, FileRunRegistry.registry, h.loaded F c]
    exact ⟨rfl, h⟩
  | save c state step =>
    obtain ⟨d', hcall, h'⟩ := h.saved (F := F) hhandled state step
    simp only [RunRegistry.answer, FileRunRegistry.registry, hcall]
    exact ⟨rfl, h'⟩
  | finish c result =>
    cases hjson : F.json result with
    | none =>
      have hcall : FileRunRegistry.finish F (plainHandle c) result d = (none, d) := by
        simp only [FileRunRegistry.finish, hjson]
      simp only [RunRegistry.answer, FileRunRegistry.registry, hcall, RunLog.answer, RunLog.next,
        hjson, Option.isSome_none, Bool.false_eq_true, if_false]
      exact ⟨rfl, h⟩
    | some j =>
      obtain ⟨d', hcall, h'⟩ := h.finished (F := F) hhandled hjson
      simp only [RunRegistry.answer, FileRunRegistry.registry, hcall, RunLog.answer, hjson,
        Option.isSome_some, if_true]
      exact ⟨rfl, h'⟩

end FileFollows

end RunFarm
