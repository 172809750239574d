import RunFarm.Registry.FileFollows

/-! The blobs follow the log of the calls, but for one key, and when the two backends answer
alike. -/
set_option autoImplicit false

namespace RunFarm
open Files Python
open RunNamed (runName)
open Observation (answers Throughout Parted)

variable {C S : Type} [RunNamed C]

def Plain (name : String) : Prop := '/' ∉ name.toList

instance (name : String) : Decidable (Plain name) := inferInstanceAs (Decidable (_ ∉ _))

def PlainComponent (name : String) : Prop :=
  Plain name ∧ Char.ofNat 0 ∉ name.toList ∧ name ∉ ["", ".", ".."]

instance (name : String) : Decidable (PlainComponent name) :=
  inferInstanceAs (Decidable (_ ∧ _ ∧ _))

namespace ObjectStoreRunRegistry

variable {o : ObjectStoreRunRegistry} {a b p q : String}

theorem key_eq_iff (ha : Plain a) (hp : Plain p) : o.key a p = o.key b q ↔ a = b ∧ p = q := by
  have hlist : o.key a p = o.key b q ↔
      a.toList ++ '/' :: p.toList = b.toList ++ '/' :: q.toList := by
    simp [key, ← String.toList_inj, List.append_assoc]
  rw [hlist, List.append_cons_inj_of_notMem ha hp]
  simp [String.toList_inj]

theorem key_ne_of_name (ha : Plain a) (hp : Plain p) (hne : a ≠ b) : o.key a p ≠ o.key b q :=
  fun heq => hne ((key_eq_iff ha hp).mp heq).1

theorem key_ne_of_part (ha : Plain a) (hp : Plain p) (hne : p ≠ q) : o.key a p ≠ o.key b q :=
  fun heq => hne ((key_eq_iff ha hp).mp heq).2

theorem manifestKey_eq (name : String) :
    o.manifestKey name = o.key "_manifest" (name ++ ".json") := by
  simp [key, manifestKey, ← String.toList_inj, List.append_assoc]

theorem manifestKey_part (hb : Plain b) (stem : String) (hp : Plain (stem ++ ".json")) :
    o.key b (stem ++ ".json") = o.manifestKey a ↔ b = "_manifest" ∧ a = stem := by
  rw [manifestKey_eq, key_eq_iff hb hp, String.append_left_inj]
  tauto

theorem manifestKey_npz (hb : Plain b) : o.key b "checkpoint.npz" ≠ o.manifestKey a := by
  rw [manifestKey_eq, Ne, key_eq_iff hb (by decide)]
  rintro ⟨-, heq⟩
  have hlast := congrArg (fun s => s.toList.getLast?) heq
  simp at hlast

end ObjectStoreRunRegistry

/-- The manifest blob of a run named `DONE` is the marker of a run named `_manifest`. -/
def RunLog.Marked (l : RunLog S) (n : String) : Prop :=
  n ∈ l.finished ∨ n = "_manifest" ∧ "DONE" ∈ l.registered

instance (l : RunLog S) (n : String) : Decidable (l.Marked n) :=
  inferInstanceAs (Decidable (_ ∨ _))

/-- What the blobs answer: as it is meant, but for the marker of `_manifest`. -/
def RunLog.objectAnswer (F : RunFormats S) (l : RunLog S) :
    RegistryCall C S → RegistryAnswer C S
  | .isComplete c => .flag (l.Marked (runName c))
  | call => l.answer F call

def HoldsBlob (saved : Option (S × Int)) (found : Option (Stored C S)) : Prop :=
  match saved with
  | none => found = none
  | some (state, step) => ∃ c, found = some (.checkpoint state c step)

structure BlobsFollow (o : ObjectStoreRunRegistry) (w : BlobStore C S) (l : RunLog S) : Prop where
  config : ∀ n, Plain n → n ≠ "_manifest" →
    ((w.get (o.key n "config.json")).isSome = true ↔ n ∈ l.registered)
  ckpt : ∀ n, Plain n → HoldsBlob (l.saved n) (w.get (o.key n "checkpoint.npz"))
  done : ∀ n, Plain n → ((w.get (o.key n "DONE.json")).isSome = true ↔ l.Marked n)

variable {o : ObjectStoreRunRegistry} {w w' : BlobStore C S} {l : RunLog S} {c : C} {n : String}
  {F : RunFormats S}

namespace BlobsFollow

open ObjectStoreRunRegistry (key_ne_of_name key_ne_of_part)

theorem noted (h : BlobsFollow o w l)
    (hold : runName c ∈ l.registered ∨ runName c = "_manifest") :
    BlobsFollow o w (l.next F (.register c)) := by
  have hmem : ∀ n, n ≠ "_manifest" → (n ∈ runName c :: l.registered ↔ n ∈ l.registered) := by
    intro n hn
    rw [List.mem_cons]
    refine ⟨fun hin => hin.elim (fun heq => ?_) id, .inr⟩
    rcases hold with hreg | hman
    · exact heq ▸ hreg
    · exact absurd (heq.trans hman) hn
  refine ⟨fun n hplain hn => (h.config n hplain hn).trans (hmem n hn).symm, h.ckpt,
    fun n hplain => (h.done n hplain).trans ?_⟩
  have hdone := hmem "DONE" (by decide)
  simp only [RunLog.Marked, RunLog.next, hdone]

theorem written (h : BlobsFollow o w l)
    (hget : ∀ k, w'.get k = if k = o.manifestKey (runName c) then
        some (.manifest [⟨runName c, c⟩])
      else if k = o.key (runName c) "config.json" then some (.config c) else w.get k) :
    BlobsFollow o w' (l.next F (.register c)) := by
  have hjson : ∀ stem, Plain (stem ++ ".json") → ∀ n, Plain n →
      (o.key n (stem ++ ".json") = o.manifestKey (runName c) ↔
        n = "_manifest" ∧ runName c = stem) :=
    fun stem hstem n hn => ObjectStoreRunRegistry.manifestKey_part hn stem hstem
  refine ⟨fun n hn hne => ?_, fun n hn => ?_, fun n hn => ?_⟩
  · have hman : o.key n "config.json" ≠ o.manifestKey (runName c) :=
      fun heq => hne ((hjson "config" (by decide) n hn).mp heq).1
    rw [hget, if_neg hman]
    by_cases heq : n = runName c
    · simp [heq, RunLog.next]
    · have hkey : o.key n "config.json" ≠ o.key (runName c) "config.json" :=
        key_ne_of_name hn (by decide) heq
      rw [if_neg hkey]
      simpa [RunLog.next, heq] using h.config n hn hne
  · have hkey : o.key n "checkpoint.npz" ≠ o.key (runName c) "config.json" :=
      key_ne_of_part hn (by decide) (by decide)
    rw [hget, if_neg (ObjectStoreRunRegistry.manifestKey_npz hn), if_neg hkey]
    exact h.ckpt n hn
  · have hkey : o.key n "DONE.json" ≠ o.key (runName c) "config.json" :=
      key_ne_of_part hn (by decide) (by decide)
    have hman : o.key n "DONE.json" = o.manifestKey (runName c) ↔
        n = "_manifest" ∧ runName c = "DONE" := hjson "DONE" (by decide) n hn
    rw [hget]
    by_cases hquirk : n = "_manifest" ∧ runName c = "DONE"
    · rw [if_pos (hman.mpr hquirk)]
      simp [RunLog.Marked, RunLog.next, hquirk.1, hquirk.2]
    · rw [if_neg (fun heq => hquirk (hman.mp heq)), if_neg hkey, h.done n hn]
      simp only [RunLog.Marked, RunLog.next, List.mem_cons]
      have hcomm : "DONE" = runName c ↔ runName c = "DONE" := eq_comm
      rw [hcomm]
      tauto

theorem registered (h : BlobsFollow o w l) (hplain : Plain (runName c)) :
    ∃ w', o.register c w = (some (o.handle c), w') ∧
      BlobsFollow o w' (l.next F (.register c)) := by
  by_cases hconf : (w.get (o.key (runName c) "config.json")).isSome = true
  · refine ⟨w, o.register_configured hconf, h.noted ?_⟩
    by_cases hman : runName c = "_manifest"
    · exact .inr hman
    · exact .inl ((h.config _ hplain hman).mp hconf)
  · refine ⟨_, o.register_new hconf, h.written fun k => ?_⟩
    rw [Dict.get_set, Dict.get_set]

theorem saved (h : BlobsFollow o w l) (state : S) (step : Int) :
    ∃ w', o.save (plainHandle c) state step w = (some (), w') ∧
      BlobsFollow o w' (l.next F (.save c state step)) := by
  refine ⟨_, rfl, fun n hn hne => ?_, fun n hn => ?_, fun n hn => ?_⟩
  · have hkey : o.key n "config.json" ≠ o.key (runName c) "checkpoint.npz" :=
      key_ne_of_part hn (by decide) (by decide)
    simpa [plainHandle, hkey, RunLog.next] using h.config n hn hne
  · by_cases heq : n = runName c
    · simp only [RunLog.next, heq, Function.update_self, plainHandle, Dict.get_set, if_true]
      exact ⟨c, rfl⟩
    · have hkey : o.key n "checkpoint.npz" ≠ o.key (runName c) "checkpoint.npz" :=
        key_ne_of_name hn (by decide) heq
      simpa [plainHandle, hkey, RunLog.next, Function.update_of_ne heq] using h.ckpt n hn
  · have hkey : o.key n "DONE.json" ≠ o.key (runName c) "checkpoint.npz" :=
      key_ne_of_part hn (by decide) (by decide)
    simpa [plainHandle, hkey, RunLog.next, RunLog.Marked] using h.done n hn

theorem finished (h : BlobsFollow o w l) {result : Value} {j : Json}
    (hjson : F.json result = some j) :
    ∃ w', o.finish F (plainHandle c) result w = (some (), w') ∧
      BlobsFollow o w' (l.next F (.finish c result)) := by
  refine ⟨w.set (o.key (runName c) "DONE.json") (.done j), ?_, fun n hn hne => ?_, fun n hn => ?_,
    fun n hn => ?_⟩
  · simp only [ObjectStoreRunRegistry.finish, hjson, plainHandle]
  · have hkey : o.key n "config.json" ≠ o.key (runName c) "DONE.json" :=
      key_ne_of_part hn (by decide) (by decide)
    simpa [hkey, RunLog.next, hjson] using h.config n hn hne
  · have hkey : o.key n "checkpoint.npz" ≠ o.key (runName c) "DONE.json" :=
      key_ne_of_part hn (by decide) (by decide)
    simpa [hkey, RunLog.next, hjson] using h.ckpt n hn
  · by_cases heq : n = runName c
    · simp [heq, RunLog.next, hjson, RunLog.Marked]
    · have hkey : o.key n "DONE.json" ≠ o.key (runName c) "DONE.json" :=
        key_ne_of_name hn (by decide) heq
      simpa [hkey, RunLog.next, hjson, RunLog.Marked, heq] using h.done n hn

theorem completeFlag (h : BlobsFollow o w l) (hplain : Plain (runName c)) :
    o.isComplete (plainHandle c) w = decide (l.Marked (runName c)) := by
  rw [Bool.eq_iff_iff, decide_eq_true_iff]
  exact h.done (runName c) hplain

theorem loaded (h : BlobsFollow o w l) (F : RunFormats S) (hplain : Plain (runName c)) :
    o.load F (plainHandle c) w =
      some ((l.saved (runName c)).map fun p => (F.restore p.1, p.2)) := by
  have hholds := h.ckpt (runName c) hplain
  unfold HoldsBlob at hholds
  unfold ObjectStoreRunRegistry.load plainHandle
  cases hsaved : l.saved (runName c) with
  | none =>
    rw [hsaved] at hholds
    have hnone : w.get (o.key (runName c) "checkpoint.npz") = none := hholds
    simp [hnone]
  | some p =>
    rw [hsaved] at hholds
    obtain ⟨c', hfile⟩ := hholds
    simp [hfile]

theorem answer {base : String} (h : BlobsFollow (plainObjects base) w l)
    (hplain : ∀ c : C, Plain (runName c)) (call : RegistryCall C S) :
    (((plainObjects base).registry F).answer call w).1 = l.objectAnswer F call ∧
      BlobsFollow (plainObjects base) (((plainObjects base).registry F).answer call w).2
        (l.next F call) := by
  cases call with
  | register c =>
    obtain ⟨w', hcall, h'⟩ := h.registered (F := F) (hplain c)
    simp only [RunRegistry.answer, ObjectStoreRunRegistry.registry, hcall]
    exact ⟨rfl, h'⟩
  | isComplete c =>
    simp only [RunRegistry.answer, ObjectStoreRunRegistry.registry, h.completeFlag (hplain c)]
    exact ⟨rfl, h⟩
  | load c =>
    simp only [RunRegistry.answer, ObjectStoreRunRegistry.registry, h.loaded F (hplain c)]
    exact ⟨rfl, h⟩
  | save c state step =>
    obtain ⟨w', hcall, h'⟩ := h.saved (c := c) (F := F) state step
    simp only [RunRegistry.answer, ObjectStoreRunRegistry.registry, hcall]
    exact ⟨rfl, h'⟩
  | finish c result =>
    cases hjson : F.json result with
    | none =>
      have hcall : (plainObjects base).finish F (plainHandle c) result w = (none, w) := by
        simp only [ObjectStoreRunRegistry.finish, hjson]
      simp only [RunRegistry.answer, ObjectStoreRunRegistry.registry, hcall, RunLog.objectAnswer,
        RunLog.answer, RunLog.next, hjson, Option.isSome_none, Bool.false_eq_true, if_false]
      exact ⟨rfl, h⟩
    | some j =>
      obtain ⟨w', hcall, h'⟩ := h.finished (c := c) (F := F) hjson
      simp only [RunRegistry.answer, ObjectStoreRunRegistry.registry, hcall, RunLog.objectAnswer,
        RunLog.answer, hjson, Option.isSome_some, if_true]
      exact ⟨rfl, h'⟩

end BlobsFollow

/-- No run has the name of the manifest file, and the run `_manifest` is not asked for its marker
while the manifest blob of `DONE` stands there. -/
def RunLog.Unobstructed (l : RunLog S) : RegistryCall C S → Prop
  | .register c => runName c ≠ manifestName
  | .isComplete c =>
    runName c = "_manifest" → "DONE" ∈ l.registered → "_manifest" ∈ l.finished
  | _ => True

theorem objectAnswer_iff (F : RunFormats S) (l : RunLog S) (c : C) :
    l.answer F (.isComplete c) = l.objectAnswer F (.isComplete c) ↔
      l.Unobstructed (.isComplete c : RegistryCall C S) := by
  simp only [RunLog.answer, RunLog.objectAnswer, RegistryAnswer.flag.injEq, decide_eq_decide]
  unfold RunLog.Marked RunLog.Unobstructed
  by_cases hname : runName c = "_manifest"
  · simp only [hname, true_and, true_imp_iff]
    tauto
  · simp [hname]

theorem backends_part (F : RunFormats S) (base : String) (hplain : ∀ c : C, Plain (runName c)) :
    Parted (plainFiles.registry F).answer ((plainObjects base).registry F).answer
      (RunLog.next F) RunLog.Unobstructed RunLog.Handled FileFollows
      (BlobsFollow (C := C) (plainObjects base)) where
  left {d l call} h hhandled hok := by
    refine (h.answer hhandled fun c hc => ?_).2
    subst hc
    exact hok
  right {w l call} h _ _ := (h.answer hplain call).2
  answer {d w l call} h h' hhandled := by
    rw [(h'.answer hplain (F := F) call).1]
    cases call with
    | register c =>
      by_cases hname : runName c = manifestName
      · have hraised : ((plainFiles.registry F).answer (.register c) d).1 = .raised := by
          have hcall := h.unregistered hname
          simp only [RunRegistry.answer, FileRunRegistry.registry]
          cases hreg : plainFiles.register c d with
          | mk result d' =>
            rw [hreg] at hcall
            obtain rfl : result = none := hcall
            rfl
        rw [hraised]
        exact iff_of_false (fun hsame => by cases hsame) fun hok => hok hname
      · have hhandled : l.Handled (.register c : RegistryCall C S) := trivial
        refine iff_of_true (h.answer hhandled fun c' hc => ?_).1 hname
        cases hc
        exact hname
    | isComplete c =>
      rw [(h.answer hhandled fun _ hc => by cases hc).1]
      exact objectAnswer_iff F l c
    | load c => exact iff_of_true (h.answer hhandled fun _ hc => by cases hc).1 trivial
    | save c state step => exact iff_of_true (h.answer hhandled fun _ hc => by cases hc).1 trivial
    | finish c result => exact iff_of_true (h.answer hhandled fun _ hc => by cases hc).1 trivial

omit [RunNamed C] in
theorem fileFollows_empty : FileFollows (Dict.empty : Tree C S) {} where
  root _ := nofun
  manifest := nofun
  unnamed := by simp
  dir _ _ := rfl
  config _ := by simp
  ckpt _ := rfl
  done _ := by simp
  notDir _ := nofun

omit [RunNamed C] in
theorem blobsFollow_empty (o : ObjectStoreRunRegistry) :
    BlobsFollow o (Dict.empty : BlobStore C S) {} where
  config _ _ _ := by simp
  ckpt _ _ := rfl
  done _ _ := by simp [RunLog.Marked]

/-- The two backends, both empty at the start, answer every call alike exactly when no run is
named as the manifest file is and the marker of `_manifest` is asked for only where the manifest
blob of `DONE` is not in its place. -/
theorem backends_agree_iff (F : RunFormats S) (base : String) (calls : List (RegistryCall C S))
    (hplain : ∀ c : C, PlainComponent (runName c))
    (hhandled : Throughout RunLog.Handled (RunLog.next F) {} calls) :
    answers (plainFiles.registry F).answer calls Dict.empty =
        answers ((plainObjects base).registry F).answer calls Dict.empty ↔
      Throughout RunLog.Unobstructed (RunLog.next F) {} calls :=
  (backends_part F base fun c => (hplain c).1).answers_eq_iff fileFollows_empty
    (blobsFollow_empty _) hhandled

structure PlainConfig where
  name : String
  plain : PlainComponent name

instance : RunNamed PlainConfig := ⟨PlainConfig.name⟩

def exactFormats : RunFormats Nat :=
  ⟨.insertion (fun q => toString q) (fun _ => "") (fun _ => ""), id⟩

def savedTwice : List (RegistryCall PlainConfig Nat) :=
  let c : PlainConfig := ⟨"a", by decide⟩
  [.register c, .save c 4 1, .save c 5 2, .load c, .isComplete c]

theorem savedTwice_agrees : answers (plainFiles.registry exactFormats).answer savedTwice
    Dict.empty = answers ((plainObjects "runs").registry exactFormats).answer savedTwice
      Dict.empty :=
  (backends_agree_iff exactFormats "runs" savedTwice PlainConfig.plain
    ⟨trivial, .head _, .head _, .head _, .head _, trivial⟩).mpr
      ⟨nofun, trivial, trivial, trivial, nofun, trivial⟩

/-- A run named `DONE` makes one named `_manifest` look complete, and is skipped. -/
def markedByDone : List (RegistryCall PlainConfig Nat) :=
  [.register ⟨"DONE", by decide⟩, .register ⟨"_manifest", by decide⟩,
    .isComplete ⟨"_manifest", by decide⟩]

theorem markedByDone_differs : ¬ ∀ (F : RunFormats Nat) (base : String)
    (calls : List (RegistryCall PlainConfig Nat)), (∀ c : PlainConfig, PlainComponent (runName c)) →
    Throughout RunLog.Handled (RunLog.next F) {} calls →
    answers (plainFiles.registry F).answer calls Dict.empty =
      answers ((plainObjects base).registry F).answer calls Dict.empty := by
  intro h
  have hsame := h exactFormats "runs" markedByDone PlainConfig.plain
    ⟨trivial, trivial, .head _, trivial⟩
  have hfiles : (answers (plainFiles.registry exactFormats).answer markedByDone
      Dict.empty).getLast? = some (.flag false) := rfl
  have hobjects : (answers ((plainObjects "runs").registry exactFormats).answer markedByDone
      Dict.empty).getLast? = some (.flag true) := rfl
  rw [hsame, hobjects] at hfiles
  cases hfiles

end RunFarm
