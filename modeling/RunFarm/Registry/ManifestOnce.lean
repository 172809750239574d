import Mathlib.Algebra.BigOperators.Group.List.Lemmas
import Mathlib.Algebra.GroupWithZero.Nat
import RunFarm.Registry.Registering

/-! The manifest of the two backends under concurrent registers: one row for each run. -/
set_option autoImplicit false

namespace RunFarm
open Files Python
open RunNamed (runName)
open Transition (exec Along)

variable {C S : Type} [RunNamed C]

namespace FileRunRegistry

variable (r : FileRunRegistry)

/-- The rows of `MANIFEST.jsonl` for a run. -/
def entries (c : C) (d : Tree C S) : Nat :=
  (rowsAt d r.manifestFile).countP fun row => row.run = runName c

/-- The directory of `c` does not go through a file of the other run or through the manifest, and
runs with two names do not share a config file. -/
structure Apart (c t : C) : Prop where
  config : ¬ r.configFile t <+: r.under (runName c)
  manifest : ¬ r.manifestFile <+: r.under (runName c)
  own : r.configFile c = r.configFile t → SameName c t

variable {r} {c t : C} {d d' : Tree C S}

theorem configFile_ne_manifest : r.configFile c ≠ r.manifestFile := by
  intro h
  have hlast := congrArg List.getLast? h
  simp [configFile, manifestFile] at hlast

theorem configFile_same (h : SameName c t) : r.configFile c = r.configFile t := by
  unfold configFile
  rw [show runName c = runName t from h]

theorem entries_of_get (h : d' r.manifestFile = d r.manifestFile) :
    r.entries c d' = r.entries c d := by
  unfold entries rowsAt
  rw [h]

omit [RunNamed C] in
theorem rowsAt_append {p : Path} {row : ManifestEntry C} (h : appendRow p row d = some d') :
    rowsAt d' p = rowsAt d p ++ [row] := by
  have hget := exec_replace h p
  rw [if_pos rfl] at hget
  unfold rowsAt at hget ⊢
  rw [hget]
  rfl

theorem tracks (r : FileRunRegistry) : Tracks (r.registration (C := C) (S := S)) True
    r.entries (fun _ => True) r.Apart where
  name {c c' d} h := by
    unfold registration entries
    rw [show runName c = runName c' from h]
    exact ⟨congrArg (fun p => (d p).isSome) (configFile_same h), rfl⟩
  mkdir {c d d'} _ h := by
    refine ⟨trivial, fun t ht => ⟨?_, entries_of_get ?_⟩⟩
    · simp only [registration, exec_mkdir h, ht.config, if_false]
    · rw [exec_mkdir h, if_neg ht.manifest]
  config {c d d'} _ _ h := by
    refine ⟨trivial, fun t ht => ⟨entries_of_get ?_, ?_⟩⟩
    · rw [exec_replace h, if_neg fun heq => configFile_ne_manifest heq.symm]
    · simp only [registration, exec_replace h]
      by_cases hsame : SameName c t
      · simp [configFile_same hsame, hsame]
      · have hne : r.configFile t ≠ r.configFile c := fun heq => hsame (ht.own heq.symm)
        simp [hne, hsame]
  record {c d d'} _ h := by
    refine ⟨trivial, fun t ht => ⟨?_, fun hother => ?_, fun hown => ?_⟩⟩
    · simp only [registration, exec_replace h, configFile_ne_manifest, if_false]
    · have hne : ¬ runName c = runName t := hother
      simp [entries, rowsAt_append h, List.countP_append, hne]
    · have heq : runName c = runName t := hown
      have hcount : r.entries t d' = r.entries t d + 1 := by
        simp [entries, rowsAt_append h, List.countP_append, heq]
      exact ⟨by omega, fun _ => hcount, fun hno => absurd trivial hno⟩

end FileRunRegistry

namespace ObjectStoreRunRegistry

variable (r : ObjectStoreRunRegistry)

/-- The rows of `manifest()` for a run. -/
def entries (c : C) (w : BlobStore C S) : Nat :=
  ((r.manifest w).flatMap Stored.rows).countP fun row => row.run = runName c

/-- The config blob of neither run has the key of the other's manifest blob. -/
structure Apart (c t : C) : Prop where
  config : r.key (runName c) "config.json" ≠ r.manifestKey (runName t)
  manifest : r.key (runName t) "config.json" ≠ r.manifestKey (runName c)

/-- Each manifest blob has the one row of the run that its key names. -/
def Sound (w : BlobStore C S) : Prop :=
  ∀ k stored, w.get k = some stored → stored.rows ≠ [] →
    ∃ c : C, k = r.manifestKey (runName c) ∧ stored.rows = [⟨runName c, c⟩]

variable {r} {c t : C} {w : BlobStore C S} {k : String}

theorem key_inj {a b part : String} : r.key a part = r.key b part ↔ a = b := by
  simp [key]

theorem manifestKey_inj {a b : String} : r.manifestKey a = r.manifestKey b ↔ a = b := by
  simp [manifestKey]

omit [RunNamed C] in
theorem mem_manifestKeys : k ∈ r.manifestKeys w ↔
    (w.get k).isSome ∧ (r.base ++ "/_manifest/").toList <+: k.toList := by
  rw [manifestKeys, (List.mergeSort_perm _ _).mem_iff, List.mem_filter, Dict.isSome_get]
  simp

omit [RunNamed C] in
theorem nodup_manifestKeys : (r.manifestKeys w).Nodup :=
  (List.mergeSort_perm _ _).nodup_iff.mpr (w.nodup.filter _)

theorem manifestKey_listed (name : String) :
    (r.base ++ "/_manifest/").toList <+: (r.manifestKey name).toList := by
  simp [manifestKey, List.append_assoc]

def rowsFor (c : C) (w : BlobStore C S) (k : String) : Nat :=
  ((w.get k).elim [] Stored.rows).countP fun row => row.run = runName c

theorem entries_sum (c : C) (w : BlobStore C S) :
    r.entries c w = ((r.manifestKeys w).map (rowsFor c w)).sum := by
  unfold entries manifest
  induction r.manifestKeys w with
  | nil => rfl
  | cons k ks ih =>
    rw [List.map_cons, List.sum_cons, ← ih, rowsFor]
    cases hk : w.get k with
    | none => simp [hk]
    | some stored => simp [hk, List.countP_append]

theorem entries_eq (h : r.Sound w) (c : C) :
    r.entries c w = rowsFor c w (r.manifestKey (runName c)) := by
  have hother : ∀ k ≠ r.manifestKey (runName c), rowsFor c w k = 0 := by
    intro k hk
    unfold rowsFor
    cases hget : w.get k with
    | none => rfl
    | some stored =>
      by_cases hrows : stored.rows = []
      · simp [hrows]
      · obtain ⟨c', rfl, hone⟩ := h k stored hget hrows
        have hne : ¬ runName c' = runName c := fun heq => hk (by rw [heq])
        simp [hone, hne]
  rw [entries_sum, List.sum_map_eq_nsmul_single (r.manifestKey (runName c)) _
    fun k hk _ => hother k hk]
  by_cases hmem : r.manifestKey (runName c) ∈ r.manifestKeys w
  · rw [List.count_eq_one_of_mem nodup_manifestKeys hmem, one_nsmul]
  · have hnone : w.get (r.manifestKey (runName c)) = none := by
      rw [mem_manifestKeys, not_and] at hmem
      by_contra hsome
      exact hmem (Option.isSome_iff_ne_none.mpr hsome) (manifestKey_listed _)
    simp [rowsFor, hnone]

theorem sound_set (h : r.Sound w) {stored : Stored C S}
    (hnew : stored.rows ≠ [] → ∃ c : C, k = r.manifestKey (runName c) ∧
      stored.rows = [⟨runName c, c⟩]) : r.Sound (w.set k stored) := by
  intro k' stored' hget hrows
  rw [Dict.get_set] at hget
  by_cases hk : k' = k
  · rw [if_pos hk] at hget
    cases hget
    exact hk ▸ hnew hrows
  · rw [if_neg hk] at hget
    exact h k' stored' hget hrows

theorem tracks (r : ObjectStoreRunRegistry) : Tracks (r.registration (C := C) (S := S)) False
    r.entries r.Sound r.Apart where
  name {c c' d} h := by
    have heq : runName c = runName c' := h
    simp only [registration, entries, heq, and_self]
  mkdir {c d d'} hsound h := by
    cases h
    exact ⟨hsound, fun t _ => ⟨rfl, rfl⟩⟩
  config {c d d'} hsound _ h := by
    cases h
    have hsound' : r.Sound (d.set (r.key (runName c) "config.json") (.config c)) :=
      sound_set hsound fun hrows => absurd rfl hrows
    refine ⟨hsound', fun t ht => ⟨?_, ?_⟩⟩
    · rw [entries_eq hsound', entries_eq hsound, rowsFor, rowsFor, Dict.get_set,
        if_neg fun heq => ht.config heq.symm]
    · simp only [registration, Dict.get_set, key_inj]
      by_cases hsame : runName t = runName c
      · simp [hsame, SameName]
      · have hne : ¬ SameName c t := fun heq => hsame heq.symm
        simp [hsame, hne]
  record {c d d'} hsound h := by
    cases h
    have hsound' : r.Sound (d.set (r.manifestKey (runName c)) (.manifest [⟨runName c, c⟩])) :=
      sound_set hsound fun _ => ⟨c, rfl, rfl⟩
    refine ⟨hsound', fun t ht => ⟨?_, fun hother => ?_, fun hown => ?_⟩⟩
    · simp only [registration, Dict.get_set, ht.manifest, if_false]
    · have hne : ¬ runName t = runName c := fun heq => hother heq.symm
      rw [entries_eq hsound', entries_eq hsound, rowsFor, rowsFor, Dict.get_set,
        if_neg fun heq => hne (manifestKey_inj.mp heq)]
    · have heq : runName c = runName t := hown
      have hone : r.entries t (d.set (r.manifestKey (runName c)) (.manifest [⟨runName c, c⟩])) =
          1 := by
        rw [entries_eq hsound', rowsFor, heq, Dict.get_set, if_pos rfl]
        simp [Stored.rows]
      exact ⟨hone.ge, False.elim, fun _ => hone⟩

end ObjectStoreRunRegistry

open Registering (Enters OneEntry start)

theorem FileRunRegistry.empty (f : FileRunRegistry) : Registering.Empty
    (f.registration (C := C) (S := S)) f.entries (fun _ => True) Dict.empty where
  sound := trivial
  configured _ := rfl
  entries _ := rfl

theorem ObjectStoreRunRegistry.empty (o : ObjectStoreRunRegistry) : Registering.Empty
    (o.registration (C := C) (S := S)) o.entries o.Sound Dict.empty where
  sound _ _ h := by cases h
  configured _ := rfl
  entries t := by simp [entries_sum, manifestKeys, Dict.empty]

/-- For every interleaving of registers and deaths at a backend that was empty, where the files of
no two runs are in each other's way. -/
theorem manifest_once (W : Type) [DecidableEq W] (f : FileRunRegistry)
    (o : ObjectStoreRunRegistry) :
    (∀ (events : List (RegisterEvent W C)) s',
      exec (Registering.step (f.registration (S := S))) (start Dict.empty) events = some s' →
      (∀ c c', Enters events c → Enters events c' → f.Apart c c') →
      OneEntry f.registration True f.entries (start Dict.empty) s' events) ∧
    (∀ (events : List (RegisterEvent W C)) s',
      exec (Registering.step (o.registration (S := S))) (start Dict.empty) events = some s' →
      (∀ c c', Enters events c → Enters events c' → o.Apart c c') →
      OneEntry o.registration False o.entries (start Dict.empty) s' events) :=
  ⟨fun _ _ hrun hapart => Registering.oneEntry f.tracks f.empty hrun hapart,
    fun _ _ hrun hapart => Registering.oneEntry o.tracks o.empty hrun hapart⟩

def sampleConfig : SampleConfig := ⟨"a"⟩

def halfRegister : List (RegisterEvent Bool SampleConfig) :=
  [.enter true sampleConfig, .step true, .step true, .step true, .die true,
    .enter false sampleConfig, .step false, .step false]

/-- Two workers: the first one dies before its check, while the other registers another run, and
begins again; then the other one registers the run as well. -/
def sharedRegister : List (RegisterEvent Bool SampleConfig) :=
  [.enter true ⟨"a"⟩, .step true, .enter false ⟨"b"⟩, .step false, .die true, .step false,
    .enter true ⟨"a"⟩, .step false, .step true, .step false, .step true, .step true, .step true,
    .enter false ⟨"a"⟩, .step false, .step false]

/-- Both workers find no config; one dies with the config written, the other writes it again and
the entry, and the first comes back. -/
def overlapRegister : List (RegisterEvent Bool SampleConfig) :=
  [.enter true ⟨"a"⟩, .enter false ⟨"a"⟩, .step true, .step false, .step true, .step false,
    .step true, .die true, .step false, .enter true ⟨"a"⟩, .step false, .step true, .step true]

theorem sharedRegister_enters {c : SampleConfig} (h : Enters sharedRegister c) :
    c = ⟨"a"⟩ ∨ c = ⟨"b"⟩ := by
  obtain ⟨w, hw⟩ := h
  simp only [sharedRegister, List.mem_cons, RegisterEvent.enter.injEq, reduceCtorEq] at hw
  tauto

theorem overlapRegister_enters {c : SampleConfig} (h : Enters overlapRegister c) : c = ⟨"a"⟩ := by
  obtain ⟨w, hw⟩ := h
  simp only [overlapRegister, List.mem_cons, RegisterEvent.enter.injEq, reduceCtorEq] at hw
  tauto

section Checks
variable {D : Type} {R : Registration SampleConfig D} {s : Registering Bool SampleConfig D}
  {e : RegisterEvent Bool SampleConfig} {c : SampleConfig} {w : Bool}

def lateCheck (s : Registering Bool SampleConfig D) (c : SampleConfig) (w : Bool) : Bool :=
  (s.turn w).any fun t => runName t.1 = runName c && t.2.late

theorem late_iff : s.Late c w ↔ lateCheck s c w = true := by
  unfold lateCheck
  rw [Option.any_eq_true]
  constructor
  · rintro ⟨c', stage, hturn, hsame, hlate⟩
    have hname : runName c' = runName c := hsame
    exact ⟨_, hturn, by simp [hname, hlate]⟩
  · rintro ⟨⟨c', stage⟩, hturn, hlate⟩
    simp only [Bool.and_eq_true, decide_eq_true_eq] at hlate
    exact ⟨c', stage, hturn, hlate.1, hlate.2⟩

def serialCheck (R : Registration SampleConfig D) (s : Registering Bool SampleConfig D) :
    RegisterEvent Bool SampleConfig → Bool
  | .enter _ _ => true
  | .step w => (s.turn w).all fun t =>
      t.2 ≠ .check || !lateCheck s t.1 true && !lateCheck s t.1 false
  | .die w => (s.turn w).all fun t => !R.configured t.1 s.store

def orderCheck (R : Registration SampleConfig D) (s : Registering Bool SampleConfig D) :
    RegisterEvent Bool SampleConfig → Bool
  | .die w => (s.turn w).all fun t => !R.configured t.1 s.store || lateCheck s t.1 (!w)
  | _ => true

theorem serial_of_check {appends : Prop} {E : SampleConfig → D → Nat}
    (h : serialCheck R s e = true) : s.Serial R appends E e := by
  have hcheck : ∀ w, e = .step w → ∀ c, s.turn w = some (c, .check) → ∀ w', ¬ s.Late c w' := by
    rintro w rfl c hturn w'
    simp only [serialCheck, hturn, Option.all_some, ne_eq, not_true_eq_false, decide_false,
      Bool.false_or, Bool.and_eq_true, Bool.not_eq_true'] at h
    rw [late_iff]
    cases w' <;> simp [h]
  refine ⟨?_, hcheck⟩
  cases e with
  | enter w c => trivial
  | step w => exact fun _ c hturn _ => hcheck w rfl c hturn
  | die w =>
    intro c stage hturn hconf
    simp [serialCheck, hturn, hconf] at h

theorem ordered_of_check {E : SampleConfig → D → Nat} (h : orderCheck R s e = true) :
    s.Ordered R False E e := by
  cases e with
  | enter w c => trivial
  | step w => exact False.elim
  | die w =>
    intro c stage hturn hconf
    simp only [orderCheck, hturn, Option.all_some, hconf, Bool.not_true, Bool.false_or] at h
    exact .inr ⟨!w, by simp, late_iff.mpr h⟩

end Checks

theorem along_of_check {D : Type} {step : D → RegisterEvent Bool SampleConfig → Option D}
    (check : D → RegisterEvent Bool SampleConfig → Bool)
    {G : D → RegisterEvent Bool SampleConfig → Prop} {s : D}
    {events : List (RegisterEvent Bool SampleConfig)} (hG : ∀ {s e}, check s e = true → G s e)
    (h : Along (fun s e => check s e = true) step s events) : Along G step s events :=
  h.imp (I := fun _ => True) (fun _ => hG) (fun _ _ _ => trivial) trivial

def sharedFiles : Option (Registering Bool SampleConfig (Tree SampleConfig Unit)) :=
  exec (Registering.step plainFiles.registration) (start Dict.empty) sharedRegister

def overlapBlobs : Option (Registering Bool SampleConfig (BlobStore SampleConfig Unit)) :=
  exec (Registering.step (plainObjects "runs").registration) (start Dict.empty) overlapRegister

theorem shared_once :
    (∃ s', sharedFiles = some s' ∧ plainFiles.entries ⟨"a"⟩ s'.store = 1 ∧
      plainFiles.entries ⟨"b"⟩ s'.store = 1) ∧
    ∃ s', overlapBlobs = some s' ∧ (plainObjects "runs").entries ⟨"a"⟩ s'.store = 1 := by
  have hboth := manifest_once (C := SampleConfig) (S := Unit) Bool plainFiles (plainObjects "runs")
  constructor
  · have hserial : Along (fun s e => s.Serial (plainFiles.registration (S := Unit)) True
        plainFiles.entries e) (Registering.step plainFiles.registration) (start Dict.empty)
        sharedRegister :=
      along_of_check (serialCheck plainFiles.registration) serial_of_check (by decide)
    have hapart : ∀ c c', Enters sharedRegister c → Enters sharedRegister c' →
        plainFiles.Apart c c' := by
      intro c c' hc hc'
      rcases sharedRegister_enters hc with rfl | rfl <;>
        rcases sharedRegister_enters hc' with rfl | rfl <;>
          exact ⟨by decide, by decide, by decide⟩
    refine ⟨_, rfl, ?_, ?_⟩
    · exact (hboth.1 sharedRegister _ rfl hapart ⟨"a"⟩ (.head _)).2 hserial
    · exact (hboth.1 sharedRegister _ rfl hapart ⟨"b"⟩ (.tail _ (.tail _ (.head _)))).2 hserial
  · have hordered : Along (fun s e => s.Ordered ((plainObjects "runs").registration (S := Unit))
        False (plainObjects "runs").entries e)
        (Registering.step (plainObjects "runs").registration) (start Dict.empty) overlapRegister :=
      along_of_check (orderCheck _) ordered_of_check (by decide)
    have hapart : ∀ c c', Enters overlapRegister c → Enters overlapRegister c' →
        (plainObjects "runs").Apart c c' := by
      intro c c' hc hc'
      rw [overlapRegister_enters hc, overlapRegister_enters hc']
      exact ⟨by decide, by decide⟩
    refine ⟨_, rfl, (hboth.2 overlapRegister _ rfl hapart ⟨"a"⟩ (.head _)).1 hordered ?_⟩
    rintro (_ | _) c stage ⟨⟩

def halfBlobs : BlobStore SampleConfig Unit :=
  Dict.empty.set "runs/a/config.json" (.config sampleConfig)

/-- Both backends lose the entry, and the second register does not bring it back. -/
theorem halfRegister_loses :
    (¬ ∀ (events : List (RegisterEvent Bool SampleConfig)) s',
      exec (Registering.step (plainFiles.registration (S := Unit))) (start Dict.empty) events =
        some s' → ∀ c ∈ s'.completed, s'.Quiet c → plainFiles.entries c s'.store = 1) ∧
    (¬ ∀ (events : List (RegisterEvent Bool SampleConfig)) s',
      exec (Registering.step ((plainObjects "runs").registration (S := Unit))) (start Dict.empty)
        events = some s' →
      ∀ c ∈ s'.completed, s'.Quiet c → (plainObjects "runs").entries c s'.store = 1) := by
  constructor
  · intro h
    have hone := h halfRegister _ rfl sampleConfig (.head _) (by rintro (_ | _) c stage ⟨⟩)
    cases hone
  · intro h
    have hone := h halfRegister _ rfl sampleConfig (.head _) (by rintro (_ | _) c stage ⟨⟩)
    rw [ObjectStoreRunRegistry.entries_sum] at hone
    have hkeys : (plainObjects "runs").manifestKeys halfBlobs = [] := by
      refine List.eq_nil_iff_forall_not_mem.mpr fun k hk => ?_
      obtain ⟨hsome, hlisted⟩ := ObjectStoreRunRegistry.mem_manifestKeys.mp hk
      rw [halfBlobs, Dict.get_set] at hsome
      by_cases hkey : k = "runs/a/config.json"
      · rw [hkey] at hlisted
        exact absurd hlisted (by decide)
      · simp [hkey] at hsome
    change (((plainObjects "runs").manifestKeys halfBlobs).map _).sum = 1 at hone
    rw [hkeys] at hone
    cases hone

end RunFarm
