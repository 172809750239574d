import RunFarm.Gauntlet.ResumeMarkers
import RunFarm.Registry.Restart

/-! The launch check that names the configs a registry holds to be complete, beside the worker
that skips them. -/
set_option autoImplicit false

namespace RunFarm
open Files Python
open RunNamed (runName)

variable {C S D : Type}

/-- How paths are read: `resolve` is `Path(text).resolve()`, without a value for an `OSError`;
`Path(text)` leads to `leads text`, and `Path(text) / name` to `under text name`. -/
structure PathReading where
  resolve : String → Option String
  leads : String → Path
  under : String → String → Path

/-- The check: `base` is `str(registry.base)`, for a registry that has one. -/
structure RegistryMarkers (C : Type) where
  configs : List C
  outDir : String
  base : Option String
  limit : Int := 2000
  handleFor : Option (C → RunHandle C) := none

def registryName : String := "registry-markers-intended"

def registryProves : String :=
  "names every config the registry already considers complete, " ++
  "and how old its result is where that is knowable. Does NOT " ++
  "prove those results came from the current parameters — the " ++
  "config hash covers the serialized config, so a run whose " ++
  "MEANING changed without its bytes changing still looks " ++
  "complete. Only a human can say the arm means what it meant. " ++
  "For a registry that resolves completion through `handle.dir` " ++
  "and exposes no `base`, it does NOT prove the handles were " ++
  "built where that registry looks — pass `handle_for` if the " ++
  "layout is not `out_dir / run_name()`."

def fatalResult (detail : String) : CheckResult :=
  { name := registryName, ok := false, detail, proves := registryProves }

namespace RegistryMarkers

variable [RunNamed C] (R : PathReading) (K : RegistryMarkers C)

def handle (c : C) : RunHandle C :=
  match K.handleFor with
  | some handleFor => handleFor c
  | none => ⟨c, R.under K.outDir (runName c), runName c⟩

def baseMismatch : Option String :=
  match K.handleFor, K.base with
  | none, some base =>
    match R.resolve base, R.resolve K.outDir with
    | some a, some b => if a ≠ b then some base else none
    | _, _ => none
  | _, _ => none

def scanned : List C := K.configs.take K.limit.toNat

def unscanned : Nat := K.configs.length - K.scanned.length

/-- The loop: the handles that are complete, or what `is_complete` raised on one. -/
def scan (isComplete : RunHandle C → Except Raised Bool) :
    List (RunHandle C) → Except (RunHandle C × Raised) (List (RunHandle C))
  | [] => .ok []
  | h :: hs =>
    match isComplete h with
    | .error e => .error (h, e)
    | .ok complete => (scan isComplete hs).map (fun rest => if complete then h :: rest else rest)

def skipping (isComplete : RunHandle C → Except Raised Bool) :
    Except CheckResult (List (RunHandle C)) :=
  if K.limit ≤ 0 then
    .error (fatalResult ("limit=" ++ toString K.limit ++ " examines nothing, so this check " ++
      "cannot fail; pass a positive limit or drop the check deliberately"))
  else
    match K.baseMismatch R with
    | some mismatch =>
      .error (fatalResult ("out_dir " ++ K.outDir ++ " is not the registry's base " ++ mismatch ++
        "; a directory-keyed registry would read completion from the wrong " ++
        "location and report a clean pass while every skip stayed invisible"))
    | none =>
      match scan isComplete (K.scanned.map (K.handle R)) with
      | .error (h, e) =>
        .error (fatalResult ("registry.is_complete raised for " ++ h.name ++ ": " ++ e.className ++
          ": " ++ e.exc.text))
      | .ok handles => .ok handles

/-- `age` is the text of a run directory's age, or empty. -/
def named (age : Path → String) (handles : List (RunHandle C)) : CheckResult :=
  let tail := if K.unscanned = 0 then "" else
    " (" ++ toString K.unscanned ++ " more not examined; raise `limit` to cover them)"
  if handles = [] then
    { name := registryName, ok := true, proves := registryProves
      detail := "no config pre-skips; all " ++ toString K.scanned.length ++ " will run" ++ tail }
  else
    { name := registryName, ok := false, proves := registryProves, fatal := false
      detail := toString handles.length ++ " of " ++ toString K.scanned.length ++
        " config(s) will be SKIPPED as already complete: " ++
        "; ".intercalate (handles.map (fun h => h.name ++ age h.dir)) ++
        " — confirm these came from THIS campaign" ++ tail }

def call (age : Path → String) (isComplete : RunHandle C → Except Raised Bool) : CheckResult :=
  match K.skipping R isComplete with
  | .error r => r
  | .ok handles => K.named age handles

end RegistryMarkers

/-- `execute_config` returns `None`, having run nothing. -/
def skipsConfig (reg : RunRegistry C S D) (sink : EventSink C D) (fn : RunFn S)
    (cut : Option Nat) (d : D) (c : C) : Bool :=
  match (executeConfig reg sink fn c cut d).1 with
  | some none => true
  | _ => false

theorem finishRun_result (reg : RunRegistry C S D) (h : RunHandle C) (out : Option Value × D) :
    (finishRun reg h out).1 ≠ some none := by
  obtain ⟨result, d⟩ := out
  cases result with
  | none => simp [finishRun]
  | some result =>
    rw [finishRun]
    rcases reg.finish h result d with ⟨done, d'⟩
    cases done <;> simp

theorem skipsConfig_iff {reg : RunRegistry C S D} {sink : EventSink C D} {fn : RunFn S}
    {cut : Option Nat} {d : D} {c : C} :
    skipsConfig reg sink fn cut d c = true ↔
      ∃ h d', reg.register c d = (some h, d') ∧ reg.isComplete h d' = true := by
  have hout : skipsConfig reg sink fn cut d c = true ↔
      (executeConfig reg sink fn c cut d).1 = some none := by
    unfold skipsConfig
    split <;> simp_all
  rw [hout, executeConfig]
  rcases reg.register c d with ⟨handle, d'⟩
  cases handle with
  | none => simp
  | some h =>
    by_cases hcomplete : reg.isComplete h d' = true
    · simp [hcomplete]
    · simp only [hcomplete, Bool.false_eq_true, if_false, Prod.mk.injEq, Option.some.injEq]
      refine iff_of_false (fun hnone => ?_) (by simp_all)
      split at hnone
      · cases hnone
      · exact finishRun_result reg h _ hnone

theorem appendRow_isSome {p : Path} {row : ManifestEntry C} {d : Tree C S} :
    (appendRow p row d).isSome ↔ d p ≠ some .dir ∧ d p.dropLast = some .dir := by
  have hentry (e : Option (Entry (Stored C S))) :
      e.any (fun e => !e.isFile) = true ↔ e = some .dir := by
    cases e with
    | none => simp
    | some e => cases e <;> simp [Entry.isFile]
  have hother (e : Option (Entry (Stored C S))) :
      (!e.any (fun e => !e.isFile)) = true ↔ e ≠ some .dir := by
    rw [Ne, ← hentry, Bool.not_eq_true', Bool.not_eq_true]
  simp only [appendRow, Op.exec]
  split
  · rename_i hstuck
    rw [Bool.or_eq_true, hentry, hother] at hstuck
    simp only [Option.isSome_none, Bool.false_eq_true, false_iff]
    tauto
  · rename_i hfree
    rw [Bool.or_eq_true, hentry, hother] at hfree
    simp only [Option.isSome_some, true_iff]
    tauto

variable [RunNamed C]

/-- `register` can write down the config of a run that has none. -/
def Records (r : FileRunRegistry) (c : C) (d : Tree C S) : Prop :=
  (d (r.configFile c)).isSome ∨ (d r.base = some .dir ∧ d r.manifestFile ≠ some .dir)

section
variable {r : FileRunRegistry} {c : C} {d d₁ d' : Tree C S}

theorem last_ne {p q : Path} {a b : String} (h : a ≠ b) : p ++ [a] ≠ q ++ [b] := by
  intro heq
  have hlast := congrArg List.getLast? heq
  simp only [List.getLast?_append, List.getLast?_singleton] at hlast
  exact h (by simpa using hlast)

theorem not_above_child {p : Path} {s : String} : ¬ p ++ [s] <+: p := by
  intro h
  have hlen := h.length_le
  simp at hlen

theorem mkdir_complete (hd : Grounded d) (hdone : (d (r.under (runName c) ++ ["DONE.json"])).isSome)
    (hmkdir : (Op.mkdir (r.under (runName c))).exec d = some d₁) (q : Path) : d₁ q = d q := by
  rw [exec_mkdir hmkdir]
  split
  · rename_i hq
    obtain ⟨t, ht⟩ := hq
    refine (hd.above (q := t ++ ["DONE.json"]) (by simp) ?_).symm
    rw [← List.append_assoc, ht]
    exact Option.isSome_iff_ne_none.mp hdone
  · rfl

theorem mkdir_exists (hd : Grounded d) (hdone : (d (r.under (runName c) ++ ["DONE.json"])).isSome) :
    ∃ d₁, (Op.mkdir (r.under (runName c))).exec d = some d₁ := by
  refine ⟨_, if_neg ?_⟩
  rw [List.any_eq_true]
  rintro ⟨q, hq, hfile⟩
  obtain ⟨t, ht⟩ := (List.mem_inits q _).mp hq
  have hdir : d q = some .dir := by
    refine hd.above (q := t ++ ["DONE.json"]) (by simp) ?_
    rw [← List.append_assoc, ht]
    exact Option.isSome_iff_ne_none.mp hdone
  simp [hdir, Entry.isFile] at hfile

theorem isComplete_done : FileRunRegistry.isComplete (r.handle c) d =
    (d (r.under (runName c) ++ ["DONE.json"])).isSome := rfl

theorem register_done {h : RunHandle C} (hreg : r.register c d = (some h, d')) :
    h = r.handle c ∧ d' (r.under (runName c) ++ ["DONE.json"]) =
      d (r.under (runName c) ++ ["DONE.json"]) := by
  obtain ⟨hh, hcall⟩ := r.register_some.mp hreg
  refine ⟨hh, ?_⟩
  obtain ⟨d₁, hmkdir, hrest⟩ := Registration.register_some.mp hcall
  have hmade : d₁ (r.under (runName c) ++ ["DONE.json"]) =
      d (r.under (runName c) ++ ["DONE.json"]) :=
    (exec_mkdir hmkdir _).trans (if_neg not_above_child)
  rcases hrest with ⟨-, rfl⟩ | ⟨-, d₂, hwrite, hrecord⟩
  · exact hmade
  · have hconfig : r.under (runName c) ++ ["DONE.json"] ≠ r.configFile c := last_ne (by decide)
    have hmanifest : r.under (runName c) ++ ["DONE.json"] ≠ r.manifestFile := last_ne (by decide)
    rw [exec_replace hrecord, if_neg hmanifest, exec_replace hwrite, if_neg hconfig, hmade]

/-- Where the run has its directory and no config, a register can write the config, and then its
row where it could before. -/
theorem record_isSome (hmade : d₁ (r.under (runName c)) = some .dir)
    (hconfig : d₁ (r.configFile c) = none) :
    ∃ d₂, (Op.replace (r.configFile c) (Stored.config c)).exec d₁ = some d₂ ∧
      ((appendRow r.manifestFile ⟨runName c, c⟩ d₂).isSome ↔
        d₁ r.base = some .dir ∧ d₁ r.manifestFile ≠ some .dir) := by
  have hparent : (r.configFile c).dropLast = r.under (runName c) := by
    simp [FileRunRegistry.configFile]
  have hbase : r.manifestFile.dropLast = r.base := by simp [FileRunRegistry.manifestFile]
  have hne : r.manifestFile ≠ r.configFile c := last_ne (by decide)
  refine ⟨d₁.set (r.configFile c) (.file (.config c)), ?_, ?_⟩
  · rw [Op.exec, hconfig, hparent, hmade]
    simp [Entry.isFile]
  · have hhome : (if r.base = r.configFile c then some (.file (.config c)) else d₁ r.base) =
        some .dir ↔ d₁ r.base = some .dir := by
      split
      · rename_i heq
        simp [heq, hconfig]
      · rfl
    rw [appendRow_isSome, Dict.get_set, if_neg hne, hbase, Dict.get_set, hhome, and_comm]

theorem register_records (hd : Grounded d)
    (hdone : (d (r.under (runName c) ++ ["DONE.json"])).isSome) :
    (∃ h d', r.register c d = (some h, d')) ↔ Records r c d := by
  obtain ⟨d₁, hmkdir⟩ := mkdir_exists hd hdone
  have hsame := mkdir_complete hd hdone hmkdir
  have hunder : d₁ (r.under (runName c)) = some .dir := by
    rw [exec_mkdir hmkdir, if_pos List.prefix_rfl]
  constructor
  · rintro ⟨h, d', hreg⟩
    obtain ⟨d₁', hmkdir', hrest⟩ := Registration.register_some.mp (r.register_some.mp hreg).2
    obtain rfl : d₁ = d₁' := Option.some.inj (hmkdir.symm.trans hmkdir')
    rcases hrest with ⟨hconf, -⟩ | ⟨hconf, d₂, hwrite, hrecord⟩
    · exact .inl (hsame _ ▸ hconf)
    · have hnone : d₁ (r.configFile c) = none :=
        Option.not_isSome_iff_eq_none.mp (Bool.eq_false_iff.mp hconf)
      obtain ⟨d₂', hwrite', hrow⟩ := record_isSome hunder hnone
      obtain rfl : d₂ = d₂' := Option.some.inj (hwrite.symm.trans hwrite')
      rw [hsame, hsame] at hrow
      exact .inr (hrow.mp (Option.isSome_of_eq_some hrecord))
  · intro hrecords
    refine ⟨r.handle c, ?_⟩
    simp only [r.register_some, true_and]
    by_cases hconf : (d (r.configFile c)).isSome = true
    · have hthere : (d₁ (r.configFile c)).isSome = true := by rw [hsame, hconf]
      exact ⟨d₁, Registration.register_some.mpr ⟨d₁, hmkdir, .inl ⟨hthere, rfl⟩⟩⟩
    · have hnone : d₁ (r.configFile c) = none := by rw [hsame]; simpa using hconf
      obtain ⟨d₂, hwrite, hrow⟩ := record_isSome hunder hnone
      rw [hsame, hsame] at hrow
      obtain ⟨d₃, hrecord⟩ := Option.isSome_iff_exists.mp (hrow.mpr (hrecords.resolve_left hconf))
      have habsent : (d₁ (r.configFile c)).isSome = false := by rw [hnone]; rfl
      exact ⟨d₃, Registration.register_some.mpr
        ⟨d₁, hmkdir, .inr ⟨habsent, d₂, hwrite, hrecord⟩⟩⟩

theorem file_skips_iff (F : RunFormats S) (hd : Grounded d) {sink : EventSink C (Tree C S)}
    {fn : RunFn S} {cut : Option Nat} :
    skipsConfig (r.registry F) sink fn cut d c = true ↔
      FileRunRegistry.isComplete (r.handle c) d = true ∧ Records r c d := by
  rw [skipsConfig_iff, isComplete_done]
  constructor
  · rintro ⟨h, d', hreg, hcomplete⟩
    obtain ⟨rfl, hdone⟩ := register_done hreg
    have hthere : (d (r.under (runName c) ++ ["DONE.json"])).isSome = true := hdone ▸ hcomplete
    exact ⟨hthere, (register_records hd hthere).mp ⟨_, _, hreg⟩⟩
  · rintro ⟨hthere, hrecords⟩
    obtain ⟨h, d', hreg⟩ := (register_records hd hthere).mpr hrecords
    obtain ⟨rfl, hdone⟩ := register_done hreg
    refine ⟨_, d', hreg, ?_⟩
    change (d' (r.under (runName c) ++ ["DONE.json"])).isSome = true
    rw [hdone]
    exact hthere

end

theorem object_skips_iff (o : ObjectStoreRunRegistry) (F : RunFormats S) {c : C}
    {w : BlobStore C S} {sink : EventSink C (BlobStore C S)} {fn : RunFn S} {cut : Option Nat} :
    skipsConfig (o.registry F) sink fn cut w c = true ↔ o.isComplete (o.handle c) w = true := by
  have hreg : ∃ w', o.register c w = (some (o.handle c), w') ∧
      w'.get (o.key (runName c) "DONE.json") = w.get (o.key (runName c) "DONE.json") := by
    by_cases hconf : (w.get (o.key (runName c) "config.json")).isSome = true
    · exact ⟨w, o.register_configured hconf, rfl⟩
    · refine ⟨_, o.register_new hconf, ?_⟩
      have hconfig : o.key (runName c) "DONE.json" ≠ o.key (runName c) "config.json" := by
        rw [Ne, ObjectStoreRunRegistry.key_part_inj]
        decide
      rw [Dict.get_set, if_neg ObjectStoreRunRegistry.manifestKey_ne_done.symm, Dict.get_set,
        if_neg hconfig]
  obtain ⟨w', hreg, hdone⟩ := hreg
  rw [skipsConfig_iff]
  constructor
  · rintro ⟨h, w'', hother, hcomplete⟩
    cases hreg.symm.trans hother
    change (w'.get (o.key (runName c) "DONE.json")).isSome = true at hcomplete
    rw [hdone] at hcomplete
    exact hcomplete
  · intro hcomplete
    refine ⟨_, w', hreg, ?_⟩
    change (w'.get (o.key (runName c) "DONE.json")).isSome = true
    rw [hdone]
    exact hcomplete

namespace RegistryMarkers

variable {R : PathReading} {K : RegistryMarkers C} {complete : RunHandle C → Bool}
  {skips : C → Bool}

omit [RunNamed C] in
theorem scan_ok (complete : RunHandle C → Bool) (handles : List (RunHandle C)) :
    scan (fun h => .ok (complete h)) handles = .ok (handles.filter complete) := by
  induction handles with
  | nil => rfl
  | cons h hs ih => simp [scan, ih, Except.map, List.filter_cons]

omit [RunNamed C] in
theorem named_passes (age : Path → String) (handles : List (RunHandle C)) :
    (K.named age handles).blocking = false := by
  by_cases h : handles = [] <;> simp [named, h, CheckResult.blocking]

/-- The check blocks nothing and names the configs that the worker skips, and no others. -/
def NamesSkips (R : PathReading) (K : RegistryMarkers C) (complete : RunHandle C → Bool)
    (skips : C → Bool) : Prop :=
  (∀ age, (K.call R age (fun h => .ok (complete h))).blocking = false) ∧
  ∃ handles, K.skipping R (fun h => .ok (complete h)) = .ok handles ∧
    handles.map RunHandle.name = (K.configs.filter skips).map runName

theorem skipping_ok (hlimit : K.configs.length ≤ K.limit) {handles : List (RunHandle C)} :
    K.skipping R (fun h => .ok (complete h)) = .ok handles ↔
      0 < K.limit ∧ K.baseMismatch R = none ∧
        handles = (K.configs.filter (fun c => complete (K.handle R c))).map (K.handle R) := by
  have hall : K.scanned = K.configs := List.take_of_length_le (by omega)
  unfold skipping
  split
  · simp only [reduceCtorEq, false_iff, not_and]
    omega
  · cases hbase : K.baseMismatch R with
    | some base => simp
    | none =>
      have hlimit' : 0 < K.limit := by omega
      rw [scan_ok, hall, List.filter_map]
      simp [hlimit', eq_comm, Function.comp_def]

omit [RunNamed C] in
theorem filter_same {l : List C} {p q : C → Bool} (hsub : ∀ c ∈ l, q c = true → p c = true)
    (hlen : (l.filter p).length = (l.filter q).length) : ∀ c ∈ l, p c = true → q c = true := by
  have hsplit : l.filter q = (l.filter p).filter q := by
    rw [List.filter_filter]
    refine List.filter_congr fun c hc => ?_
    by_cases hq : q c = true
    · simp [hq, hsub c hc hq]
    · simp [hq]
  have hsame : (l.filter p).filter q = l.filter p :=
    List.filter_sublist.eq_of_length (by rw [← hsplit, hlen])
  intro c hc hp
  have hin : c ∈ (l.filter p).filter q := hsame.symm ▸ List.mem_filter.mpr ⟨hc, hp⟩
  exact (List.mem_filter.mp hin).2

theorem namesSkips_iff (hlimit : K.configs.length ≤ K.limit) (hown : K.handleFor = none)
    (hsub : ∀ c ∈ K.configs, skips c = true → complete (K.handle R c) = true) :
    NamesSkips R K complete skips ↔ 0 < K.limit ∧ K.baseMismatch R = none ∧
      ∀ c ∈ K.configs, complete (K.handle R c) = true → skips c = true := by
  have hname (c : C) : (K.handle R c).name = runName c := by simp [handle, hown]
  have hnames (l : List C) : (l.map (K.handle R)).map RunHandle.name = l.map runName := by
    rw [List.map_map]
    exact List.map_congr_left fun c _ => hname c
  constructor
  · rintro ⟨_, handles, hskipping, hsame⟩
    obtain ⟨hpos, hbase, rfl⟩ := (skipping_ok hlimit).mp hskipping
    rw [hnames] at hsame
    refine ⟨hpos, hbase, filter_same hsub ?_⟩
    simpa using congrArg List.length hsame
  · rintro ⟨hpos, hbase, hall⟩
    have hskipping := (@skipping_ok C _ R K complete hlimit _).mpr ⟨hpos, hbase, rfl⟩
    refine ⟨fun age => ?_, _, hskipping, ?_⟩
    · rw [call, hskipping]
      exact named_passes age _
    · rw [hnames]
      refine congrArg (List.map runName) (List.filter_congr fun c hc => ?_)
      rw [Bool.eq_iff_iff]
      exact ⟨hall c hc, hsub c hc⟩

end RegistryMarkers

/-- `FileRunRegistry(base)`. -/
def PathReading.files (R : PathReading) (base : String) : FileRunRegistry :=
  ⟨R.leads base, R.under base⟩

open RegistryMarkers (NamesSkips namesSkips_iff)

section
variable {R : PathReading} {F : RunFormats S} {configs : List C} {limit : Int}
  {base outDir : String} {o : ObjectStoreRunRegistry} {d : Tree C S} {w : BlobStore C S}
  {fileSink : EventSink C (Tree C S)} {blobSink : EventSink C (BlobStore C S)} {fn : RunFn S}
  {cut : Option Nat}

theorem files_named_iff (hlimit : configs.length ≤ limit) (hd : Grounded d) :
    NamesSkips R { configs, outDir := base, base := some base, limit }
      (fun h => FileRunRegistry.isComplete h d)
      (skipsConfig ((R.files base).registry F) fileSink fn cut d) ↔
    0 < limit ∧ ∀ c ∈ configs, FileRunRegistry.isComplete ((R.files base).handle c) d = true →
      Records (R.files base) c d := by
  refine (namesSkips_iff hlimit rfl fun c _ hskip =>
    ((file_skips_iff F hd).mp hskip).1).trans (and_congr_right fun _ => ?_)
  have hbase : RegistryMarkers.baseMismatch R
      { configs, outDir := base, base := some base, limit } = none := by
    cases hresolve : R.resolve base <;> simp [RegistryMarkers.baseMismatch, hresolve]
  simp only [hbase, true_and]
  refine forall₂_congr fun c _ => forall_congr' fun hcomplete => ?_
  rw [file_skips_iff F hd]
  exact and_iff_right hcomplete

theorem blobs_named_iff (hlimit : configs.length ≤ limit) :
    NamesSkips R { configs, outDir, base := some o.base, limit }
      (fun h => o.isComplete h w) (skipsConfig (o.registry F) blobSink fn cut w) ↔
    0 < limit ∧ ∀ a b, R.resolve o.base = some a → R.resolve outDir = some b → a = b := by
  refine (namesSkips_iff hlimit rfl fun c _ hskip =>
    (object_skips_iff o F).mp hskip).trans (and_congr_right fun _ => ?_)
  have hall : ∀ c ∈ configs, o.isComplete (o.handle c) w = true →
      skipsConfig (o.registry F) blobSink fn cut w c = true :=
    fun c _ hcomplete => (object_skips_iff o F).mpr hcomplete
  refine (and_iff_left hall).trans ?_
  cases hbase : R.resolve o.base <;> cases hout : R.resolve outDir <;>
    simp [RegistryMarkers.baseMismatch, hbase, hout]

/-- The checks tell the truth unless labels are shared by legs that would be skipped, nothing may
be scanned, a run that is complete cannot be registered any more, or the key prefix of an object
store, read as a path, is not the directory that is checked. -/
theorem skips_named_iff {α : Type} (ex : Executor α) (legs : List (FleetLeg α)) (out : Disk α)
    (R : PathReading) (F : RunFormats S) (configs : List C) (limit : Int)
    (hlimit : configs.length ≤ limit) (base outDir : String) (o : ObjectStoreRunRegistry)
    (d : Tree C S) (hd : Grounded d) (w : BlobStore C S) (fileSink : EventSink C (Tree C S))
    (blobSink : EventSink C (BlobStore C S)) (fn : RunFn S) (cut : Option Nat) :
    (SkipsTold ex legs out ∧
      NamesSkips R { configs, outDir := base, base := some base, limit }
        (fun h => FileRunRegistry.isComplete h d)
        (skipsConfig ((R.files base).registry F) fileSink fn cut d) ∧
      NamesSkips R { configs, outDir, base := some o.base, limit }
        (fun h => o.isComplete h w) (skipsConfig (o.registry F) blobSink fn cut w)) ↔
    ((legs.map FleetLeg.label).Nodup ∨
        ∀ leg ∈ legs, complete leg (legDir out leg) = false) ∧
      0 < limit ∧
      (∀ c ∈ configs, FileRunRegistry.isComplete ((R.files base).handle c) d = true →
        Records (R.files base) c d) ∧
      ∀ a b, R.resolve o.base = some a → R.resolve outDir = some b → a = b := by
  rw [skipsTold_iff, files_named_iff hlimit hd, blobs_named_iff hlimit]
  tauto

end

def homeReading : PathReading where
  resolve text := some ("/home/" ++ text)
  leads := parts
  under text name := parts text ++ [name]

def noteSink {D : Type} : EventSink SampleConfig D where
  emit _ _ d := (some (), d)

def plainFormats : RunFormats Nat :=
  ⟨Interp.insertion (fun _ => "") (fun _ => "") (fun _ => ""), id⟩

def doneTree : Tree SampleConfig Nat :=
  (((Dict.empty.set [] .dir).set ["runs"] .dir).set ["runs", "a"] .dir).set
    ["runs", "a", "DONE.json"] (.file (.done .null))

def doneBlobs : BlobStore SampleConfig Nat := Dict.empty.set "runs/a/DONE.json" (.done .null)

theorem doneTree_grounded : Grounded doneTree := by
  intro p s hin
  have hp : (p ++ [s]).dropLast = p := List.dropLast_concat
  simp only [doneTree, Dict.get_set, Dict.get_empty] at hin
  split at hin
  · rename_i h
    rw [h] at hp
    exact hp ▸ rfl
  · split at hin
    · rename_i h
      rw [h] at hp
      exact hp ▸ rfl
    · split at hin
      · rename_i h
        rw [h] at hp
        exact hp ▸ rfl
      · rw [if_neg (by simp)] at hin
        exact absurd rfl hin

def armLeg : FleetLeg String := { label := "arm-a", doneWhen := "manifest.json" }

def outTree : Disk String :=
  (Dict.empty.set ["arm-a"] .dir).set ["arm-a", "manifest.json"] (.file "done")

theorem doneTree_told : SkipsTold strict [armLeg] outTree ∧
    NamesSkips homeReading
      { configs := [SampleConfig.mk "a"], outDir := "runs", base := some "runs", limit := 2000 }
      (fun h => FileRunRegistry.isComplete h doneTree)
      (skipsConfig ((homeReading.files "runs").registry plainFormats) noteSink
        (fun _ _ => .returns .none) none doneTree) ∧
    NamesSkips homeReading
      { configs := [SampleConfig.mk "a"], outDir := "runs", base := some "runs", limit := 2000 }
      (fun h => (plainObjects "runs").isComplete h doneBlobs)
      (skipsConfig ((plainObjects "runs").registry plainFormats) noteSink
        (fun _ _ => .returns .none) none doneBlobs) := by
  refine (skips_named_iff strict [armLeg] outTree homeReading plainFormats
    [SampleConfig.mk "a"] 2000 (by decide) "runs" "runs" (plainObjects "runs") doneTree
    doneTree_grounded doneBlobs noteSink noteSink _ none).mpr ⟨.inl (by simp), by decide, ?_, ?_⟩
  · intro c _ _
    have hruns : parts "runs" = ["runs"] := by decide
    exact .inr ⟨rfl, by simp [doneTree, homeReading, PathReading.files,
      FileRunRegistry.manifestFile, hruns]⟩
  · intro a b ha hb
    exact Option.some.inj (ha.symm.trans hb)

/-- The key prefix `runs` of an object store is no directory that the campaign writes to. -/
theorem blob_base_refused : ¬ (∀ (R : PathReading) (configs : List SampleConfig) (limit : Int)
    (outDir : String) (o : ObjectStoreRunRegistry) (w : BlobStore SampleConfig Nat),
    configs.length ≤ limit →
    NamesSkips R { configs, outDir, base := some o.base, limit } (fun h => o.isComplete h w)
      (skipsConfig (o.registry plainFormats) noteSink (fun _ _ => .returns .none) none w)) := by
  intro h
  have hnamed := h homeReading [⟨"a"⟩] 2000 "scratch" (plainObjects "runs") doneBlobs (by decide)
  have hsame := ((blobs_named_iff (by decide)).mp hnamed).2 "/home/runs" "/home/scratch" rfl rfl
  exact absurd hsame (by decide)

end RunFarm
