import Mathlib.Logic.Function.Iterate
import RunFarm.Registry.Execute

/-! Attempts at one run over an object store, each cut somewhere: the stored checkpoint is all that
one leaves to the next. -/
set_option autoImplicit false

namespace RunFarm
open Files Python
open RunNamed (runName)

variable {C S : Type} [RunNamed C]

namespace ObjectStoreRunRegistry

variable {o : ObjectStoreRunRegistry} {name part part' : String}

theorem key_part_inj : o.key name part = o.key name part' ↔ part = part' := by
  simp [key, ← String.toList_inj, List.append_assoc]

theorem manifestKey_ne_done : o.manifestKey name ≠ o.key name "DONE.json" := by
  intro h
  have hlen := congrArg (fun s => s.toList.length) h
  simp [manifestKey, key] at hlen

theorem manifestKey_ne_ckpt : o.manifestKey name ≠ o.key name "checkpoint.npz" := by
  intro h
  have hlast := congrArg (fun s => s.toList.reverse.head?) h
  simp [manifestKey, key] at hlast

end ObjectStoreRunRegistry

/-- What an attempt finds or leaves of the run: no marker, and no checkpoint or that of a step. -/
structure Underway (o : ObjectStoreRunRegistry) (P : Counting S) (name : String)
    (w : BlobStore C S) : Prop where
  unmarked : w.get (o.key name "DONE.json") = none
  stored : w.get (o.key name "checkpoint.npz") = none ∨ ∃ c k, k ≤ P.steps ∧
    w.get (o.key name "checkpoint.npz") = some (.checkpoint (P.state k) c k)

structure Complete (o : ObjectStoreRunRegistry) (name : String) (w : BlobStore C S) : Prop where
  config : (w.get (o.key name "config.json")).isSome = true
  marked : (w.get (o.key name "DONE.json")).isSome = true

def HasConfig (o : ObjectStoreRunRegistry) (name : String) (w : BlobStore C S) : Prop :=
  (w.get (o.key name "config.json")).isSome = true

variable {o : ObjectStoreRunRegistry} {F : RunFormats S} {P : Counting S} {c : C}
  {w w' : BlobStore C S} {name k : String} {stamp : BlobStore C S → String} {cut : Option Nat}

omit [RunNamed C] in
theorem Underway.set (h : Underway o P name w) {stored : Stored C S}
    (hdone : o.key name "DONE.json" ≠ k) (hckpt : o.key name "checkpoint.npz" ≠ k) :
    Underway o P name (w.set k stored) := by
  refine ⟨?_, ?_⟩
  · rw [Python.Dict.get_set, if_neg hdone]
    exact h.unmarked
  · rw [Python.Dict.get_set, if_neg hckpt]
    exact h.stored

theorem Underway.register (h : Underway o P (runName c) w) :
    ∃ w', o.register c w = (some (o.handle c), w') ∧ Underway o P (runName c) w' ∧
      HasConfig o (runName c) w' ∧
      w'.get (o.key (runName c) "checkpoint.npz") = w.get (o.key (runName c) "checkpoint.npz") := by
  by_cases hconf : (w.get (o.key (runName c) "config.json")).isSome = true
  · exact ⟨w, o.register_configured hconf, h, hconf, rfl⟩
  · have hkey : ∀ part, part ≠ "config.json" →
        o.key (runName c) part ≠ o.key (runName c) "config.json" :=
      fun part hne heq => hne (ObjectStoreRunRegistry.key_part_inj.mp heq)
    refine ⟨_, o.register_new hconf, (h.set (hkey _ (by decide)) (hkey _ (by decide))).set
        ObjectStoreRunRegistry.manifestKey_ne_done.symm
        ObjectStoreRunRegistry.manifestKey_ne_ckpt.symm, ?_, ?_⟩
    · simp only [HasConfig, Python.Dict.get_set]
      split <;> simp
    · rw [Python.Dict.get_set, if_neg ObjectStoreRunRegistry.manifestKey_ne_ckpt.symm,
        Python.Dict.get_set, if_neg (hkey _ (by decide))]

omit [RunNamed C] in
theorem HasConfig.set (h : HasConfig o name w) (stored : Stored C S) :
    HasConfig o name (w.set k stored) := by
  unfold HasConfig at h ⊢
  rw [Python.Dict.get_set]
  split
  · rfl
  · exact h

omit [RunNamed C] in
theorem eventKey_ne (part : String) (hpart : part.toList.head? ≠ some 'e') (stem : String) :
    o.key name part ≠ o.key name ("events/" ++ stem ++ ".json") := by
  intro h
  rw [ObjectStoreRunRegistry.key_part_inj] at h
  rw [h] at hpart
  simp at hpart

omit [RunNamed C] in
theorem Underway.saved (h : Underway o P name w) {n : Nat} (hn : n ≤ P.steps) (c : C) :
    Underway o P name (w.set (o.key name "checkpoint.npz") (.checkpoint (P.state n) c n)) := by
  have hkey : o.key name "DONE.json" ≠ o.key name "checkpoint.npz" :=
    fun heq => absurd (ObjectStoreRunRegistry.key_part_inj.mp heq) (by decide)
  refine ⟨?_, .inr ⟨c, n, hn, ?_⟩⟩
  · rw [Python.Dict.get_set, if_neg hkey]
    exact h.unmarked
  · rw [Python.Dict.get_set, if_pos rfl]

omit [RunNamed C] in
theorem Underway.emitted (h : Underway o P name w) (stem : String) (j : Json) :
    Underway o P name (w.set (o.key name ("events/" ++ stem ++ ".json")) (.event j)) :=
  h.set (eventKey_ne _ (by decide) _) (eventKey_ne _ (by decide) _)

theorem state_succ (P : Counting S) (n : Nat) : P.advance (P.state n) = P.state (n + 1) :=
  (Function.iterate_succ_apply' P.advance n P.init).symm

/-- How the `RunFn` of an attempt ends, and what it leaves. -/
structure Attempted (o : ObjectStoreRunRegistry) (F : RunFormats S) (P : Counting S) (c : C)
    (cut : Option Nat) (out : Option Value × BlobStore C S) : Prop where
  underway : Underway o P (runName c) out.2
  registered : HasConfig o (runName c) out.2
  result : ∀ v, out.1 = some v → v = P.whole
  uncut : cut = none → (∀ step s, (F.json (P.record step s)).isSome = true) → out.1 ≠ none

theorem Attempted.raised (h : Underway o P (runName c) w) (hreg : HasConfig o (runName c) w)
    (hcut : cut = none → ¬ ∀ step s, (F.json (P.record step s)).isSome = true) :
    Attempted o F P c cut (none, w) :=
  ⟨h, hreg, nofun, fun hnone hall => absurd hall (hcut hnone)⟩

theorem Attempted.mono {cut' : Option Nat} {out : Option Value × BlobStore C S}
    (h : Attempted o F P c cut' out) (hcut : cut = none → cut' = none) :
    Attempted o F P c cut out :=
  ⟨h.underway, h.registered, h.result, fun hnone => h.uncut (hcut hnone)⟩

theorem attempted_loop (left n : Nat) (hsteps : n + left = P.steps)
    (h : Underway o P (runName c) w) (hreg : HasConfig o (runName c) w) :
    Attempted o F P c cut ((P.loop left (n + 1 : Nat) (P.state n)).run (o.registry F)
      (objectSink o F stamp) (o.handle c) cut w) := by
  induction left generalizing n w cut with
  | zero =>
    refine ⟨h, hreg, fun v hv => ?_, fun _ _ => nofun⟩
    cases hv
    rw [Counting.whole, ← hsteps, Nat.add_zero]
  | succ left ih =>
    rw [Counting.loop, RunSteps.run, state_succ]
    by_cases hcut : cut = some 0
    · rw [if_pos hcut]
      exact .raised h hreg fun hnone => by simp [hcut] at hnone
    rw [if_neg hcut, RunSteps.run]
    by_cases hcut₁ : cut.map Nat.pred = some 0
    · rw [if_pos hcut₁]
      exact .raised h hreg fun hnone => by simp [hnone] at hcut₁
    have h₁ := h.saved (n := n + 1) (by omega) c
    have hreg₁ := hreg.set (k := o.key (runName c) "checkpoint.npz")
      (.checkpoint (P.state (n + 1)) c (n + 1 : Nat))
    have hsave : (o.registry F).save (o.handle c) (P.state (n + 1)) (n + 1 : Nat) w =
      (some (), w.set (o.key (runName c) "checkpoint.npz")
        (.checkpoint (P.state (n + 1)) c (n + 1 : Nat))) := rfl
    rw [if_neg hcut₁, hsave]
    dsimp only
    rw [RunSteps.run]
    by_cases hcut₂ : (cut.map Nat.pred).map Nat.pred = some 0
    · rw [if_pos hcut₂]
      exact .raised h₁ hreg₁ fun hnone => by simp [hnone] at hcut₂
    rw [if_neg hcut₂]
    cases hjson : F.json (P.record (n + 1 : Nat) (P.state (n + 1))) with
    | none =>
      have hemit : ∀ w₁ : BlobStore C S, (objectSink o F stamp).emit (o.handle c)
          (P.record (n + 1 : Nat) (P.state (n + 1))) w₁ = (none, w₁) := fun w₁ => by
        simp only [objectSink, hjson]
      rw [hemit]
      refine .raised h₁ hreg₁ fun _ hall => ?_
      have hsome := hall (n + 1 : Nat) (P.state (n + 1))
      rw [hjson] at hsome
      cases hsome
    | some j =>
      have hemit : ∀ w₁ : BlobStore C S, (objectSink o F stamp).emit (o.handle c)
          (P.record (n + 1 : Nat) (P.state (n + 1))) w₁ = (some (), w₁.set
            (o.key (runName c) ("events/" ++ stamp w₁ ++ ".json")) (.event j)) := fun w₁ => by
        simp only [objectSink, hjson]
        rfl
      rw [hemit]
      dsimp only
      have hcast : ((n + 1 : Nat) : Int) + 1 = (n + 1 + 1 : Nat) := by push_cast; rfl
      rw [hcast]
      exact (ih (n + 1) (by omega) (h₁.emitted _ j) (hreg₁.set _)).mono fun hnone => by
        simp [hnone]

/-- The attempts: what each returns, and the store that it leaves. -/
def attempts (o : ObjectStoreRunRegistry) (F : RunFormats S) (P : Counting S)
    (stamp : BlobStore C S → String) (c : C) (cuts : Nat → Option Nat) (w : BlobStore C S) :
    Nat → Option (Option Value) × BlobStore C S
  | 0 => executeConfig (o.registry F) (objectSink o F stamp) P.runFn c (cuts 0) w
  | n + 1 => executeConfig (o.registry F) (objectSink o F stamp) P.runFn c (cuts (n + 1))
      (attempts o F P stamp c cuts w n).2

/-- The checkpoint that is found, if any, is read back as it was saved, dtypes included. -/
def Restores (o : ObjectStoreRunRegistry) (F : RunFormats S) (name : String)
    (w : BlobStore C S) : Prop :=
  ∀ s c k, w.get (o.key name "checkpoint.npz") = some (.checkpoint s c k) → F.restore s = s

theorem Underway.resumes (h : Underway o P (runName c) w)
    (hrestores : Restores o F (runName c) w) : ∃ resume n left, n + left = P.steps ∧
      o.load F (o.handle c) w = some resume ∧
      P.runFn (resume.map Prod.fst) (resume.map Prod.snd) =
        P.loop left (n + 1 : Nat) (P.state n) := by
  rcases h.stored with hnone | ⟨c', k, hk, hsome⟩
  · refine ⟨none, 0, P.steps, by omega, ?_, rfl⟩
    simp [ObjectStoreRunRegistry.load, ObjectStoreRunRegistry.handle, hnone]
  · have hexact := hrestores (P.state k) c' k hsome
    refine ⟨some (P.state k, k), k, P.steps - k, by omega, ?_, ?_⟩
    · simp [ObjectStoreRunRegistry.load, ObjectStoreRunRegistry.handle, hsome, hexact]
    · have hleft : ((P.steps : Int) - k).toNat = P.steps - k := by omega
      simp [Counting.runFn, hleft]

structure Called (o : ObjectStoreRunRegistry) (F : RunFormats S) (P : Counting S) (c : C)
    (cut : Option Nat) (out : Option (Option Value) × BlobStore C S) : Prop where
  raised : out.1 = none → Underway o P (runName c) out.2
  returned : out.1 ≠ none → out.1 = some (some P.whole) ∧ Complete o (runName c) out.2
  uncut : cut = none → (∀ step s, (F.json (P.record step s)).isSome = true) → out.1 ≠ none

theorem executeConfig_underway (hjson : (F.json P.whole).isSome = true)
    (h : Underway o P (runName c) w) (hrestores : Restores o F (runName c) w) :
    Called o F P c cut
      (executeConfig (o.registry F) (objectSink o F stamp) P.runFn c cut w) := by
  obtain ⟨w₁, hregister, h₁, hreg, hsame⟩ := h.register
  have hunmarked : o.isComplete (o.handle c) w₁ = false := by
    simp [ObjectStoreRunRegistry.isComplete, ObjectStoreRunRegistry.handle, h₁.unmarked]
  have hrestores₁ : Restores o F (runName c) w₁ := by
    intro s c' k
    rw [hsame]
    exact hrestores s c' k
  obtain ⟨resume, n, left, hsteps, hload, hfn⟩ := h₁.resumes hrestores₁
  have hattempt : Attempted o F P c cut ((P.loop left (n + 1 : Nat) (P.state n)).run
      (o.registry F) (objectSink o F stamp) (o.handle c) cut w₁) :=
    attempted_loop left n hsteps h₁ hreg
  rw [← hfn] at hattempt
  have hcall : executeConfig (o.registry F) (objectSink o F stamp) P.runFn c cut w =
      finishRun (o.registry F) (o.handle c)
        ((P.runFn (resume.map Prod.fst) (resume.map Prod.snd)).run (o.registry F)
          (objectSink o F stamp) (o.handle c) cut w₁) := by
    have hregister' : (o.registry F).register c w = (some (o.handle c), w₁) := hregister
    have hunmarked' : (o.registry F).isComplete (o.handle c) w₁ = false := hunmarked
    have hload' : (o.registry F).load (o.handle c) w₁ = some resume := hload
    simp only [executeConfig, hregister', hunmarked', hload', Bool.false_eq_true, if_false]
  rw [hcall]
  cases hrun : (P.runFn (resume.map Prod.fst) (resume.map Prod.snd)).run (o.registry F)
      (objectSink o F stamp) (o.handle c) cut w₁ with
  | mk result w₂ =>
    rw [hrun] at hattempt
    cases result with
    | none =>
      exact ⟨fun _ => hattempt.underway, fun hno => absurd rfl hno,
        fun hcut hall => absurd rfl (hattempt.uncut hcut hall)⟩
    | some v =>
      obtain rfl := hattempt.result v rfl
      obtain ⟨j, hj⟩ := Option.isSome_iff_exists.mp hjson
      have hfinish : (o.registry F).finish (o.handle c) P.whole w₂ =
          (some (), w₂.set (o.key (runName c) "DONE.json") (.done j)) := by
        simp [ObjectStoreRunRegistry.registry, ObjectStoreRunRegistry.finish, hj,
          ObjectStoreRunRegistry.handle]
      rw [finishRun, hfinish]
      have hmarked : ((w₂.set (o.key (runName c) "DONE.json") (.done j)).get
          (o.key (runName c) "DONE.json")).isSome = true := by
        rw [Python.Dict.get_set, if_pos rfl]
        rfl
      have hreturned : some (some P.whole) ≠ none := Option.some_ne_none _
      exact ⟨fun hraised => absurd hraised hreturned,
        fun _ => ⟨rfl, hattempt.registered.set _, hmarked⟩, fun _ _ => hreturned⟩

theorem executeConfig_complete (h : Complete o (runName c) w) :
    executeConfig (o.registry F) (objectSink o F stamp) P.runFn c cut w = (some none, w) := by
  have hregister : o.register c w = (some (o.handle c), w) := o.register_configured h.config
  have hmarked : o.isComplete (o.handle c) w = true := h.marked
  simp only [executeConfig, ObjectStoreRunRegistry.registry, hregister, hmarked, if_true]

theorem attempts_underway {cuts : Nat → Option Nat} (hjson : (F.json P.whole).isSome = true)
    (h : Underway o P (runName c) w) (hrestores : Restores o F (runName c) w) (n : Nat)
    (hkept : ∀ j < n, Restores o F (runName c) (attempts o F P stamp c cuts w j).2)
    (hraised : ∀ j < n, (attempts o F P stamp c cuts w j).1 = none) :
    Called o F P c (cuts n) (attempts o F P stamp c cuts w n) := by
  induction n with
  | zero => exact executeConfig_underway hjson h hrestores
  | succ n ih =>
    have hcalled := ih (fun j hj => hkept j (by omega)) fun j hj => hraised j (by omega)
    exact executeConfig_underway hjson (hcalled.raised (hraised n (by omega)))
      (hkept n (by omega))

theorem attempts_complete {cuts : Nat → Option Nat} {n : Nat}
    (h : Complete o (runName c) (attempts o F P stamp c cuts w n).2) (j : Nat) :
    attempts o F P stamp c cuts w (n + 1 + j) =
      (some none, (attempts o F P stamp c cuts w n).2) := by
  induction j with
  | zero => exact executeConfig_complete h
  | succ j ih =>
    rw [← Nat.add_assoc, attempts, ih]
    exact executeConfig_complete h

/-- Whatever attempts raised before it, an attempt that returns has the result of an uninterrupted
run, one that nothing cuts returns, and all later ones return `None` and leave the store as it is:
where each attempt reads the checkpoint that it finds back as it was saved. -/
theorem restart_exact (o : ObjectStoreRunRegistry) (F : RunFormats S) (P : Counting S)
    (stamp : BlobStore C S → String) (c : C) (w : BlobStore C S) (cuts : Nat → Option Nat)
    (n : Nat) (hmarker : w.get (o.key (runName c) "DONE.json") = none)
    (hcheckpoint : w.get (o.key (runName c) "checkpoint.npz") = none)
    (hjson : (F.json P.whole).isSome = true)
    (hrecords : ∀ step s, (F.json (P.record step s)).isSome = true)
    (hraised : ∀ j < n, (attempts o F P stamp c cuts w j).1 = none)
    (hkept : ∀ j < n, Restores o F (runName c) (attempts o F P stamp c cuts w j).2) :
    (cuts n = none → (attempts o F P stamp c cuts w n).1 ≠ none) ∧
    ((attempts o F P stamp c cuts w n).1 ≠ none →
      (attempts o F P stamp c cuts w n).1 = some (some P.whole) ∧
      ∀ j > n, attempts o F P stamp c cuts w j =
        (some none, (attempts o F P stamp c cuts w n).2)) := by
  have hrestores : Restores o F (runName c) w := by
    intro s c' k hsome
    rw [hcheckpoint] at hsome
    cases hsome
  have hfresh : Underway o P (runName c) w := ⟨hmarker, .inl hcheckpoint⟩
  have hcalled : Called o F P c (cuts n) (attempts o F P stamp c cuts w n) :=
    attempts_underway hjson hfresh hrestores n hkept hraised
  refine ⟨fun hcut => hcalled.uncut hcut hrecords, fun hreturned => ?_⟩
  obtain ⟨hwhole, hcomplete⟩ := hcalled.returned hreturned
  refine ⟨hwhole, fun j hj => ?_⟩
  obtain ⟨i, rfl⟩ : ∃ i, j = n + 1 + i := ⟨j - (n + 1), by omega⟩
  exact attempts_complete hcomplete i

inductive FloatType where
  | float32 | float64
  deriving DecidableEq, Repr

def FloatType.digits : FloatType → Nat
  | .float32 => 24
  | .float64 => 53

def rounded (digits n : Nat) : Nat :=
  let ulp := 2 ^ (n.log2 + 1 - digits)
  if 2 * (n % ulp) < ulp ∨ 2 * (n % ulp) = ulp ∧ n / ulp % 2 = 0 then n / ulp * ulp
  else (n / ulp + 1) * ulp

structure CountArray where
  dtype : FloatType
  count : Nat
  deriving DecidableEq, Repr

/-- `jnp.asarray`, where 64-bit types are enabled or not. -/
def asarray (x64 : Bool) (a : CountArray) : CountArray :=
  match a.dtype with
  | .float32 => a
  | .float64 => if x64 then a else ⟨.float32, rounded FloatType.float32.digits a.count⟩

def countFormats (x64 : Bool) : RunFormats CountArray :=
  ⟨.insertion (fun q => toString q) (fun _ => "") (fun _ => ""), asarray x64⟩

/-- Two steps of a counter that is kept in arrays of one dtype; `counting_run_fn` has float64. -/
def counter (dtype : FloatType) (init : Nat) : Counting CountArray where
  init := ⟨dtype, init⟩
  advance a := ⟨dtype, rounded dtype.digits (a.count + 1)⟩
  steps := 2
  record step a := .dict [(.str "step", .int step), (.str "count", .int a.count)]
  result a := .dict [(.str "final_count", .int a.count)]

def sampleStamp (w : BlobStore SampleConfig CountArray) : String :=
  String.ofList (List.replicate w.items.length '0')

def preemptedOnce : Nat → Option Nat
  | 0 => some 2
  | _ => none

def countAttempts (dtype : FloatType) (init n : Nat) :
    Option (Option Value) × BlobStore SampleConfig CountArray :=
  attempts (plainObjects "runs") (countFormats false) (counter dtype init) sampleStamp ⟨"a"⟩
    preemptedOnce Dict.empty n

theorem counter_resumes :
    (countAttempts .float32 0 1).1 = some (some (counter .float32 0).whole) := by
  have hkept : Restores (plainObjects "runs") (countFormats false) "a"
      (countAttempts .float32 0 0).2 := by
    intro s c k hsome
    have hget : (countAttempts .float32 0 0).2.get
        ((plainObjects "runs").key "a" "checkpoint.npz") =
          some (.checkpoint ⟨.float32, 1⟩ ⟨"a"⟩ 1) := rfl
    rw [hget] at hsome
    cases hsome
    rfl
  have hraised : (countAttempts .float32 0 0).1 = none := rfl
  have hrestart := restart_exact (plainObjects "runs") (countFormats false) (counter .float32 0)
    sampleStamp ⟨"a"⟩ Dict.empty preemptedOnce 1 rfl rfl rfl (fun _ _ => rfl)
    (fun j hj => (show j = 0 by omega) ▸ hraised) (fun j hj => (show j = 0 by omega) ▸ hkept)
  exact (hrestart.2 (hrestart.1 rfl)).1

/-- Past the whole numbers that a float32 holds, the resumed count is one short. -/
theorem counter_short : ¬ ∀ (o : ObjectStoreRunRegistry) (P : Counting CountArray)
    (stamp : BlobStore SampleConfig CountArray → String) (c : SampleConfig)
    (cuts : Nat → Option Nat) (n : Nat), ((countFormats false).json P.whole).isSome = true →
    (∀ step s, ((countFormats false).json (P.record step s)).isSome = true) →
    (∀ j < n, (attempts o (countFormats false) P stamp c cuts Dict.empty j).1 = none) →
    (attempts o (countFormats false) P stamp c cuts Dict.empty n).1 ≠ none →
    (attempts o (countFormats false) P stamp c cuts Dict.empty n).1 = some (some P.whole) := by
  intro h
  have hraised : (countAttempts .float64 16777216 0).1 = none := rfl
  have hshort : (countAttempts .float64 16777216 1).1 =
      some (some (.dict [(.str "final_count", .int 16777217)])) := rfl
  have hwhole := h (plainObjects "runs") (counter .float64 16777216) sampleStamp ⟨"a"⟩
    preemptedOnce 1 rfl (fun _ _ => rfl) (fun j hj => (show j = 0 by omega) ▸ hraised)
    (hshort ▸ nofun)
  cases hshort.symm.trans hwhole

end RunFarm
