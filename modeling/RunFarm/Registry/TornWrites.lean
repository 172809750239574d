import RunFarm.Registry.Backends

/-! `execute_config` over the files of one run, killed between any two low-level steps of a write:
the file is truncated or created, its bytes are written in pieces, it is closed. -/
set_option autoImplicit false

namespace RunFarm
open Python
open Transition (exec Along exec_keeps_along)

abbrev Bytes := List UInt8

/-- The bytes of the files. `unpack` is `load_checkpoint`, which raises on what is no whole
`.npz`; `configText` and `manifestLine` are what `run_dir` writes. -/
structure FileFormats (S : Type) extends RunFormats S where
  text : Json → Bytes
  pack : S → Int → Bytes
  unpack : Bytes → Option (S × Int)
  configText : Bytes
  manifestLine : Bytes

/-- What `finish` writes; a result that is no JSON raises before the file is opened. -/
def FileFormats.dump {S : Type} (F : FileFormats S) (result : Value) : Option Bytes :=
  (F.json result).map F.text

inductive RunFile where
  | config | manifest | checkpoint | done
  deriving DecidableEq, Repr

/-- Where `execute_config` is. -/
inductive Doing where
  | gone
  | register
  | resume
  | physics
  | opening (f : RunFile) (data : Bytes)
  | writing (f : RunFile) (rest : Bytes)
  | returned
  | skipped
  | raised
  deriving DecidableEq, Repr

def Doing.over : Doing → Bool
  | .gone | .returned | .skipped | .raised => true
  | _ => false

/-- The files of a run, the call on it, and what was given to `save` and returned by the `RunFn`
so far. -/
structure FileRun (S : Type) where
  files : RunFile → Option Bytes
  doing : Doing
  saved : List (S × Int)
  results : List Value

inductive FileEvent (S : Type) where
  | submit
  | look
  | openFile
  | write (n : Nat)
  | close
  | enter
  | save (state : S) (step : Int)
  | returns (result : Value)
  | raises
  | kill

/-- What a call finds after `register`. -/
inductive Found (S : Type) where
  | complete
  | fresh
  | resume (state : S) (step : Int)
  | fails

def found {S : Type} (F : FileFormats S) (files : RunFile → Option Bytes) : Found S :=
  if (files .done).isSome then .complete
  else
    match files .checkpoint with
    | none => .fresh
    | some bytes =>
      match F.unpack bytes with
      | some (state, step) => .resume state step
      | none => .fails

namespace FileRun

variable {S : Type} (F : FileFormats S)

def next : RunFile → Doing
  | .config => .opening .manifest F.manifestLine
  | .manifest => .resume
  | .checkpoint => .physics
  | .done => .returned

def opened (f : RunFile) (old : Option Bytes) : Bytes :=
  if f = .manifest then old.getD [] else []

def step (s : FileRun S) : FileEvent S → Option (FileRun S)
  | .submit => if s.doing.over then some { s with doing := .register } else none
  | .look =>
    if s.doing = .register then
      if (s.files .config).isSome then some { s with doing := .resume }
      else some { s with doing := .opening .config F.configText }
    else none
  | .openFile =>
    match s.doing with
    | .opening f data =>
      some { s with files := Function.update s.files f (some (opened f (s.files f)))
                    doing := .writing f data }
    | _ => none
  | .write n =>
    match s.doing with
    | .writing f rest =>
      some { s with files := Function.update s.files f
                      ((s.files f).map fun bytes => bytes ++ rest.take n)
                    doing := .writing f (rest.drop n) }
    | _ => none
  | .close =>
    match s.doing with
    | .writing f [] => some { s with doing := next F f }
    | _ => none
  | .enter =>
    if s.doing = .resume then
      match found F s.files with
      | .complete => some { s with doing := .skipped }
      | .fails => some { s with doing := .raised }
      | _ => some { s with doing := .physics }
    else none
  | .save state step =>
    if s.doing = .physics then
      some { s with doing := .opening .checkpoint (F.pack state step)
                    saved := (state, step) :: s.saved }
    else none
  | .returns result =>
    if s.doing = .physics then
      match F.dump result with
      | none => some { s with doing := .raised, results := result :: s.results }
      | some bytes =>
        some { s with doing := .opening .done bytes, results := result :: s.results }
    else none
  | .raises => if s.doing = .physics then some { s with doing := .raised } else none
  | .kill => if s.doing.over then none else some { s with doing := .gone }

theorem write_whole (s : FileRun S) {f : RunFile} {data : Bytes} (hopen : s.doing = .opening f data)
    (hf : f ≠ .manifest) : exec (step F) s [.openFile, .write data.length, .close] =
      some { s with files := Function.update s.files f (some data), doing := next F f } := by
  simp [exec, step, hopen, opened, hf]

def Whole (s : FileRun S) : RunFile → Bytes → Prop
  | .done, bytes => ∃ r ∈ s.results, F.dump r = some bytes
  | .checkpoint, bytes => ∃ p ∈ s.saved, F.pack p.1 p.2 = bytes ∧ F.restore p.1 = p.1
  | _, _ => True

structure Intact (s : FileRun S) : Prop where
  files : ∀ f bytes, s.files f = some bytes → (∀ rest, s.doing ≠ .writing f rest) →
    s.Whole F f bytes
  opening : ∀ f data, s.doing = .opening f data → s.Whole F f data
  writing : ∀ f rest, s.doing = .writing f rest →
    ∃ written, s.files f = some written ∧ s.Whole F f (written ++ rest)

/-- No kill tears the marker or the checkpoint, and what is saved comes back as it is. -/
def Untorn (s : FileRun S) : FileEvent S → Prop
  | .kill => ∀ f rest, s.doing = .writing f rest → f = .done ∨ f = .checkpoint → rest = []
  | .save state _ => F.restore state = state
  | _ => True

instance (s : FileRun S) [DecidableEq S] : (e : FileEvent S) → Decidable (s.Untorn F e)
  | .kill =>
    match hdoing : s.doing with
    | .writing f rest =>
      decidable_of_iff (f = .done ∨ f = .checkpoint → rest = [])
        ⟨fun h g left hw => by rw [hdoing] at hw; cases hw; exact h, fun h => h f rest hdoing⟩
    | .gone | .register | .resume | .physics | .opening _ _ | .returned | .skipped | .raised =>
      isTrue fun f rest hw => by simp [hdoing] at hw
  | .save state _ => inferInstanceAs (Decidable (F.restore state = state))
  | .submit | .look | .openFile | .write _ | .close | .enter | .returns _ | .raises =>
    isTrue trivial

variable {F} {s s' : FileRun S} {f : RunFile} {bytes rest : Bytes}

theorem Whole.mono (hsaved : s.saved ⊆ s'.saved) (hresults : s.results ⊆ s'.results)
    (h : s.Whole F f bytes) : s'.Whole F f bytes := by
  cases f with
  | done =>
    obtain ⟨r, hr, hdump⟩ := h
    exact ⟨r, hresults hr, hdump⟩
  | checkpoint =>
    obtain ⟨p, hp, hpack⟩ := h
    exact ⟨p, hsaved hp, hpack⟩
  | _ => trivial

theorem intact_goes (hwhole : ∀ f bytes, s.files f = some bytes → s.Whole F f bytes)
    (hfiles : s'.files = s.files) (hsaved : s.saved ⊆ s'.saved) (hresults : s.results ⊆ s'.results)
    (hopen : ∀ f data, s'.doing = .opening f data → s'.Whole F f data)
    (hwrite : ∀ f rest, s'.doing ≠ .writing f rest) : s'.Intact F where
  files f bytes hf _ := (hwhole f bytes (hfiles ▸ hf)).mono hsaved hresults
  opening := hopen
  writing f rest hdoing := absurd hdoing (hwrite f rest)

theorem Intact.whole (h : s.Intact F) (hidle : ∀ f rest, s.doing ≠ .writing f rest) :
    ∀ f bytes, s.files f = some bytes → s.Whole F f bytes :=
  fun f bytes hf => h.files f bytes hf (hidle f)

theorem Intact.left (h : s.Intact F) (hdoing : s.doing = .writing f rest)
    (hrest : f = .done ∨ f = .checkpoint → rest = []) :
    ∀ g bytes, s.files g = some bytes → s.Whole F g bytes := by
  intro g bytes hg
  by_cases hgf : g = f
  · subst hgf
    obtain ⟨written, hwritten, hwhole⟩ := h.writing g rest hdoing
    obtain rfl : written = bytes := by
      rw [hwritten] at hg
      exact Option.some.inj hg
    cases g with
    | done => simpa [hrest (.inl rfl)] using hwhole
    | checkpoint => simpa [hrest (.inr rfl)] using hwhole
    | _ => trivial
  · refine h.files g bytes hg fun rest' hdoing' => hgf ?_
    rw [hdoing] at hdoing'
    cases hdoing'
    rfl

theorem intact_open {data : Bytes} (h : s.Intact F) (hdoing : s.doing = .opening f data) :
    ({ s with files := Function.update s.files f (some (opened f (s.files f)))
              doing := .writing f data } : FileRun S).Intact F where
  files g bytes hg hidle := by
    have hgf : g ≠ f := fun heq => hidle data (heq ▸ rfl)
    have hg' : s.files g = some bytes := by simpa [hgf] using hg
    refine h.files g bytes hg' fun rest hdoing' => ?_
    rw [hdoing] at hdoing'
    cases hdoing'
  opening g data' hopen := by cases hopen
  writing g rest hwriting := by
    cases hwriting
    refine ⟨opened f (s.files f), Function.update_self .., ?_⟩
    have hwhole := h.opening f data hdoing
    cases f with
    | manifest => trivial
    | _ => exact hwhole

theorem intact_write (h : s.Intact F) (hdoing : s.doing = .writing f rest) (n : Nat) :
    ({ s with files := Function.update s.files f
                ((s.files f).map fun bytes => bytes ++ rest.take n)
              doing := .writing f (rest.drop n) } : FileRun S).Intact F where
  files g bytes hg hidle := by
    have hgf : g ≠ f := fun heq => hidle (rest.drop n) (heq ▸ rfl)
    have hg' : s.files g = some bytes := by simpa [hgf] using hg
    refine h.files g bytes hg' fun rest' hdoing' => hgf ?_
    rw [hdoing] at hdoing'
    cases hdoing'
    rfl
  opening g data' hopen := by cases hopen
  writing g rest' hwriting := by
    cases hwriting
    obtain ⟨written, hwritten, hwhole⟩ := h.writing f rest hdoing
    refine ⟨written ++ rest.take n, ?_, ?_⟩
    · simp [hwritten]
    · rw [List.append_assoc, List.take_append_drop]
      exact hwhole

theorem intact_step {e : FileEvent S} (hg : s.Untorn F e) (hstep : step F s e = some s')
    (h : s.Intact F) : s'.Intact F := by
  cases e with
  | submit =>
    simp only [step] at hstep
    split at hstep
    · rename_i hover
      cases hstep
      refine intact_goes (h.whole fun f rest hdoing => ?_) rfl (fun _ hp => hp) (fun _ hr => hr)
        nofun nofun
      rw [hdoing] at hover
      cases hover
    · cases hstep
  | look =>
    simp only [step] at hstep
    split at hstep
    · rename_i hdoing
      have hwhole := h.whole fun f rest hw => by simp [hdoing] at hw
      split at hstep
      · cases hstep
        exact intact_goes hwhole rfl (fun _ hp => hp) (fun _ hr => hr) nofun nofun
      · cases hstep
        refine intact_goes hwhole rfl (fun _ hp => hp) (fun _ hr => hr) (fun f data hopen => ?_)
          nofun
        cases hopen
        trivial
    · cases hstep
  | openFile =>
    simp only [step] at hstep
    split at hstep
    · rename_i f data hdoing
      cases hstep
      exact intact_open h hdoing
    · cases hstep
  | write n =>
    simp only [step] at hstep
    split at hstep
    · rename_i f rest hdoing
      cases hstep
      exact intact_write h hdoing n
    · cases hstep
  | close =>
    simp only [step] at hstep
    split at hstep
    · rename_i f hdoing
      cases hstep
      refine intact_goes (h.left hdoing fun _ => rfl) rfl (fun _ hp => hp) (fun _ hr => hr)
        (fun g data hopen => ?_) fun g rest hw => ?_
      · cases f with
        | config =>
          cases hopen
          trivial
        | _ => cases hopen
      · cases f <;> cases hw
    · cases hstep
  | enter =>
    simp only [step] at hstep
    split at hstep
    · rename_i hdoing
      have hwhole := h.whole fun f rest hw => by simp [hdoing] at hw
      split at hstep <;> cases hstep <;>
        exact intact_goes hwhole rfl (fun _ hp => hp) (fun _ hr => hr) nofun nofun
    · cases hstep
  | save state k =>
    simp only [step] at hstep
    split at hstep
    · rename_i hdoing
      have hwhole := h.whole fun f rest hw => by simp [hdoing] at hw
      cases hstep
      refine intact_goes hwhole rfl (List.subset_cons_self _ _) (fun _ hr => hr)
        (fun f data hopen => ?_) nofun
      cases hopen
      exact ⟨(state, k), .head _, rfl, hg⟩
    · cases hstep
  | returns result =>
    simp only [step] at hstep
    split at hstep
    · rename_i hdoing
      have hwhole := h.whole fun f rest hw => by simp [hdoing] at hw
      split at hstep
      · cases hstep
        exact intact_goes hwhole rfl (fun _ hp => hp) (List.subset_cons_self _ _) nofun nofun
      · rename_i bytes hdump
        cases hstep
        refine intact_goes hwhole rfl (fun _ hp => hp) (List.subset_cons_self _ _)
          (fun f data hopen => ?_) nofun
        cases hopen
        exact ⟨result, .head _, hdump⟩
    · cases hstep
  | raises =>
    simp only [step] at hstep
    split at hstep
    · rename_i hdoing
      have hwhole := h.whole fun f rest hw => by simp [hdoing] at hw
      cases hstep
      exact intact_goes hwhole rfl (fun _ hp => hp) (fun _ hr => hr) nofun nofun
    · cases hstep
  | kill =>
    simp only [step] at hstep
    split at hstep
    · cases hstep
    · cases hstep
      refine intact_goes (fun f bytes hf => ?_) rfl (fun _ hp => hp) (fun _ hr => hr) nofun nofun
      by_cases hwriting : ∃ g rest, s.doing = .writing g rest
      · obtain ⟨g, rest, hdoing⟩ := hwriting
        exact h.left hdoing (hg g rest hdoing) f bytes hf
      · exact h.whole (fun g rest hdoing => hwriting ⟨g, rest, hdoing⟩) f bytes hf

/-- `load`; `none` is an exception. -/
def load (F : FileFormats S) (files : RunFile → Option Bytes) : Option (Option (S × Int)) :=
  match files .checkpoint with
  | none => some none
  | some bytes => (F.unpack bytes).map some

/-- What is there once no call is under way: a marker only with a whole result of a `RunFn` that
returned, and a checkpoint that is none or one that was saved; a call then resumes or skips. -/
structure CrashSafe (F : FileFormats S) (s : FileRun S) : Prop where
  recorded : (s.files .done).isSome = true → ∃ r ∈ s.results, ∃ bytes, F.dump r = some bytes ∧
    s.files .done = some bytes
  loads : load F s.files = some none ∨ ∃ p ∈ s.saved, load F s.files = some (some p)
  resubmit : found F s.files ≠ .fails

theorem crashSafe_of_whole (hunpack : ∀ state k, F.unpack (F.pack state k) =
    some (F.restore state, k)) (hwhole : ∀ f bytes, s.files f = some bytes → s.Whole F f bytes) :
    CrashSafe F s := by
  have hloads : load F s.files = some none ∨ ∃ p ∈ s.saved, load F s.files = some (some p) := by
    unfold load
    cases hfile : s.files .checkpoint with
    | none => exact .inl rfl
    | some bytes =>
      obtain ⟨p, hp, rfl, hrestore⟩ := hwhole .checkpoint bytes hfile
      refine .inr ⟨p, hp, ?_⟩
      dsimp only
      rw [hunpack, hrestore, Option.map_some]
  refine ⟨fun hsome => ?_, hloads, fun hfails => ?_⟩
  · obtain ⟨bytes, hfile⟩ := Option.isSome_iff_exists.mp hsome
    obtain ⟨r, hr, hdump⟩ := hwhole .done bytes hfile
    exact ⟨r, hr, bytes, hdump, hfile⟩
  · unfold found at hfails
    unfold load at hloads
    split at hfails
    · cases hfails
    · split at hfails
      · cases hfails
      · rename_i bytes hfile
        rw [hfile] at hloads
        split at hfails
        · cases hfails
        · rename_i hunpacked
          simp [hunpacked] at hloads

def start (S : Type) : FileRun S := ⟨fun _ => none, .gone, [], []⟩

end FileRun

open FileRun in
/-- In every run whose kills tear neither the marker nor the checkpoint, and whose saved states
`jnp.asarray` keeps. -/
theorem file_crash_safe {S : Type} (F : FileFormats S)
    (hunpack : ∀ state k, F.unpack (F.pack state k) = some (F.restore state, k))
    (events : List (FileEvent S)) (s : FileRun S) (hrun : exec (step F) (start S) events = some s)
    (hg : Along (fun s e => s.Untorn F e) (step F) (start S) events) (hover : s.doing.over = true) :
    CrashSafe F s := by
  have hstart : (start S).Intact F := ⟨nofun, nofun, nofun⟩
  have hfinal : s.Intact F :=
    exec_keeps_along (fun hg hs h => intact_step hg hs h) hg hrun hstart
  refine crashSafe_of_whole hunpack (hfinal.whole fun f rest hdoing => ?_)
  rw [hdoing] at hover
  cases hover

def markFormats : FileFormats Unit where
  I := .insertion (fun q => toString q) (fun _ => "") (fun _ => "")
  restore := id
  text _ := [123, 125, 10]
  pack _ k := (if 0 ≤ k then 43 else 45) :: List.replicate k.natAbs 124
  unpack
    | 43 :: marks => some ((), marks.length)
    | 45 :: marks => some ((), -marks.length)
    | _ => none
  configText := [123, 125, 10]
  manifestLine := [123, 125, 10]

theorem markFormats_unpack (state : Unit) (k : Int) :
    markFormats.unpack (markFormats.pack state k) = some (markFormats.restore state, k) := by
  by_cases hk : 0 ≤ k
  · have habs : (k.natAbs : Int) = k := Int.natAbs_of_nonneg hk
    simp only [markFormats, hk, if_true, List.length_replicate, habs, id]
  · have habs : -(k.natAbs : Int) = k := by omega
    simp only [markFormats, hk, if_false, List.length_replicate, habs, id]

def registerEvents : List (FileEvent Unit) :=
  [.submit, .look, .openFile, .write 3, .close, .openFile, .write 3, .close, .enter]

def savedThenKilled : List (FileEvent Unit) :=
  registerEvents ++ [.save () 2, .openFile, .write 1, .write 2, .close, .kill]

theorem savedThenKilled_resumes : ∃ s, exec (FileRun.step markFormats) (FileRun.start Unit)
    savedThenKilled = some s ∧ FileRun.CrashSafe markFormats s := by
  exact ⟨_, rfl, file_crash_safe markFormats markFormats_unpack savedThenKilled _ rfl
    (by decide) rfl⟩

/-- The marker is created and the call is killed before its bytes are there: the run counts as
complete ever after. -/
def killedInMarker : List (FileEvent Unit) :=
  registerEvents ++ [.returns (.dict []), .openFile, .kill]

theorem killedInMarker_skips : ¬ ∀ (events : List (FileEvent Unit)) (s : FileRun Unit),
    exec (FileRun.step markFormats) (FileRun.start Unit) events = some s →
    s.doing.over = true → FileRun.CrashSafe markFormats s := by
  intro h
  obtain ⟨r, -, bytes, hdump, hfile⟩ := (h killedInMarker _ rfl rfl).recorded rfl
  cases hfile
  obtain ⟨j, -, htext⟩ := Option.map_eq_some_iff.mp hdump
  cases htext

end RunFarm
