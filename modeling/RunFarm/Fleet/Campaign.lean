import Mathlib.Logic.Function.Basic
import RunFarm.Fleet.Leg
import RunFarm.Transition

/-! `FleetExecutor.run`, called again and again over the same legs: the legs side by side,
the threads that pull a resumable leg's output while its command runs, and kills of the
whole process at any moment. Each leg has a leg directory of its own. -/
set_option autoImplicit false

namespace RunFarm
open Files

/-- What a `_fetch_loop` thread is doing: waiting for the next pull, copying down, or inside
`publish` with these steps to make. -/
inductive Pull (α : Type) where
  | waiting
  | copying
  | publishing (ops : List (Op α))

structure Puller (α : Type) where
  stop : Bool := false
  doing : Pull α := .waiting

/-- Where `_run_leg` is. From `renting` to `closing` it is on an offer or a host; `halted` is
an exception that will leave `run`, `idle` a leg outside `run`. -/
inductive Phase (α : Type) where
  | idle
  | queued
  | renting
  | running
  | copying
  | publishing (ops : List (Op α))
  | checking
  | validating (paths : List Path) (report : ArrivalReport)
  | judging
  | closing (r : LegResult)
  | settled (r : LegResult)
  | halted

/-- `final` is what the last final copy-down has brought, `kept` what the final `publish`
has moved and what the validation has read since, `banked` whether that ended in an OK
report. No step reads these three. -/
structure LegState (α : Type) where
  disk : Disk α := Python.Dict.empty
  phase : Phase α := .idle
  tried : Nat := 0
  pullers : List (Puller α) := []
  final : List (Path × α) := []
  kept : List (Path × α) := []
  banked : Bool := false

inductive PullEvent (α : Type) where
  | began
  | copied (landed : DirTree α)
  | moved
  | failed

inductive LegEvent (α : Type) where
  | offered
  | drained
  | broke
  | started
  | streamed (log : α)
  | exited (rc : Int) (out : String)
  | copied (landed : DirTree α)
  | moved
  | checked
  | scanned
  | judged
  | closed
  | raised (e : Raised)
  | pull (i : Nat) (e : PullEvent α)

variable {α : Type}

def Puller.signal (w : Puller α) : Puller α := { w with stop := true }

/-- `_fetch_loop`; an exception inside a pull is swallowed. -/
def Puller.step (leg : FleetLeg α) (d : Disk α) (w : Puller α) :
    PullEvent α → Option (Puller α × Disk α)
  | .began => match w.doing with
    | .waiting =>
      if w.stop || leg.fetch = "" then none
      else ((Op.mkdir []).exec d).map (fun d' => ({ w with doing := .copying }, d'))
    | _ => none
  | .copied landed => match w.doing with
    | .copying => some ({ w with doing := .publishing (publishSteps landed leg.marker) }, d)
    | _ => none
  | .moved => match w.doing with
    | .publishing (op :: ops) =>
      (op.exec d).map (fun d' => ({ w with doing := .publishing ops }, d'))
    | .publishing [] => some ({ w with doing := .waiting }, d)
    | _ => none
  | .failed => some ({ w with doing := .waiting }, d)

def Puller.next (w : Puller α) : Option (Op α) :=
  match w.doing with
  | .publishing (op :: _) => some op
  | _ => none

def skipResult (leg : FleetLeg α) : LegResult :=
  { label := leg.label, status := .skip, detail := "output already present" }

def noOffers (leg : FleetLeg α) (tried : Nat) : LegResult :=
  { label := leg.label, status := .noOffers
    detail := "offer pool drained after " ++ toString tried ++ " attempt(s)" }

def runFail (leg : FleetLeg α) (rc : Int) (out : String) : LegResult :=
  { label := leg.label, status := .runFail
    detail := "rc=" ++ toString rc ++ ": " ++
      String.ofList (out.toList.drop (out.length - 240)) }

/-- `LEAK` by the type, or by the word in the message. -/
def failure (leg : FleetLeg α) (e : Raised) : LegResult :=
  let leaks := e.exc.kind = .leakRisk ∨ "LEAK".toList <:+: e.exc.text.toUpper.toList
  { label := leg.label, status := if leaks then .leak else .error
    detail := e.className ++ ": " ++ String.ofList (e.exc.text.toList.take 200) }

/-- The `except` clauses of `_run_leg`. -/
def afterRaise (leg : FleetLeg α) (e : Raised) : Phase α :=
  match e.exc.kind with
  | .budgetExceeded => .halted
  | .hostProbeFailed | .timeout | .rentUnavailable => .queued
  | _ => .settled (failure leg e)

def Phase.onOffer : Phase α → Bool
  | .idle | .queued | .settled _ | .halted => false
  | _ => true

def Phase.ended : Phase α → Bool
  | .idle | .settled _ | .halted => true
  | _ => false

def Phase.report : Phase α → Option Status
  | .settled r => some r.status
  | _ => none

def afterValidation (leg : FleetLeg α) (report : ArrivalReport) : Phase α :=
  match refusal report with
  | none => .judging
  | some bad => .closing (badArtifacts leg bad)

/-- `done`, and the part of `_validate_artifacts` before the files are read. -/
def afterFetch (ex : Executor α) (leg : FleetLeg α) (d : Disk α) : Phase α :=
  if done leg d then
    if ex.validates leg then
      match listRoot d (target leg d) with
      | .error report => afterValidation leg report
      | .ok paths => .validating paths { root := target leg d }
    else .judging
  else .closing (noResult leg)

def movedFile : Op α → List (Path × α)
  | .mkdir _ => []
  | .replace p c => [(p, c)]

def readFile (d : Disk α) (p : Path) : List (Path × α) :=
  match d p with
  | some (.file c) => [(p, c)]
  | _ => []

/-- One step of `_run_leg` or of one of its pullers. The pullers of an offer are told to
stop when its command ends; after 30 s `join` gives up on one that has not. -/
def LegState.step (ex : Executor α) (leg : FleetLeg α) (s : LegState α) :
    LegEvent α → Option (LegState α)
  | .offered => match s.phase with
    | .queued => some { s with phase := .renting, tried := s.tried + 1 }
    | _ => none
  | .drained => match s.phase with
    | .queued => some { s with phase := .settled (noOffers leg s.tried) }
    | _ => none
  -- the provider's catalog raises outside the `try`
  | .broke => match s.phase with
    | .queued => some { s with phase := .halted }
    | _ => none
  | .started => match s.phase with
    | .renting => some { s with
        phase := .running
        pullers := if leg.resumable then s.pullers ++ [{}] else s.pullers }
    | _ => none
  | .streamed log => match s.phase with
    | .running =>
      if leg.streamProgress then
        (run s.disk [.mkdir [], .replace [progressLog] log]).map (fun d => { s with disk := d })
      else none
    | _ => none
  -- with a dead host under a non-zero code, `raised` takes the place of this
  | .exited rc out => match s.phase with
    | .running =>
      let s := { s with pullers := s.pullers.map Puller.signal }
      if rc ≠ 0 then some { s with phase := .closing (runFail leg rc out) }
      else if leg.fetch = "" then some { s with phase := .checking, final := [] }
      else ((Op.mkdir []).exec s.disk).map (fun d => { s with disk := d, phase := .copying })
    | _ => none
  | .copied landed => match s.phase with
    | .copying => some { s with
        phase := .publishing (publishSteps landed leg.marker), final := landed.files }
    | _ => none
  | .moved => match s.phase with
    | .publishing (op :: ops) => (op.exec s.disk).map (fun d => { s with
        disk := d, phase := .publishing ops, kept := s.kept ++ movedFile op })
    | .publishing [] =>
      if publishRaises leg.marker then none else some { s with phase := .checking }
    | _ => none
  | .checked => match s.phase with
    | .checking => some { s with phase := afterFetch ex leg s.disk }
    | _ => none
  | .scanned => match s.phase with
    | .validating (p :: paths) report => some { s with
        phase := .validating paths (scanPath ex.formats s.disk report p)
        kept := s.kept ++ readFile s.disk p }
    | .validating [] report => some { s with phase := afterValidation leg (closeReport report) }
    | _ => none
  | .judged => match s.phase with
    | .judging => some { s with phase := .closing (verdictResult leg s.disk) }
    | _ => none
  | .closed => match s.phase with
    | .closing r => some { s with
        phase := .settled r
        kept := if r.status = .ok then s.kept else []
        banked := r.status = .ok }
    | _ => none
  | .raised e =>
    if s.phase.onOffer then some { s with
      phase := afterRaise leg e, pullers := s.pullers.map Puller.signal, kept := [] }
    else none
  | .pull i e => match s.pullers[i]? with
    | some w => (w.step leg s.disk e).map (fun moved => { s with
        pullers := s.pullers.set i moved.1, disk := moved.2 })
    | none => none

inductive LegStep (ex : Executor α) (leg : FleetLeg α) (s : LegState α) :
    LegEvent α → LegState α → Prop
  | offered (phase : s.phase = .queued) :
      LegStep ex leg s .offered { s with phase := .renting, tried := s.tried + 1 }
  | drained (phase : s.phase = .queued) :
      LegStep ex leg s .drained { s with phase := .settled (noOffers leg s.tried) }
  | broke (phase : s.phase = .queued) : LegStep ex leg s .broke { s with phase := .halted }
  | started (phase : s.phase = .renting) : LegStep ex leg s .started { s with
      phase := .running
      pullers := if leg.resumable then s.pullers ++ [{}] else s.pullers }
  | streamed (log : α) (d : Disk α) (phase : s.phase = .running)
      (streams : leg.streamProgress = true)
      (ran : run s.disk [.mkdir [], .replace [progressLog] log] = some d) :
      LegStep ex leg s (.streamed log) { s with disk := d }
  | failed (rc : Int) (out : String) (phase : s.phase = .running) :
      LegStep ex leg s (.exited rc out) { s with
        pullers := s.pullers.map Puller.signal, phase := .closing (runFail leg rc out) }
  | nothing (rc : Int) (out : String) (phase : s.phase = .running) :
      LegStep ex leg s (.exited rc out) { s with
        pullers := s.pullers.map Puller.signal, phase := .checking, final := [] }
  | exited (rc : Int) (out : String) (d : Disk α) (phase : s.phase = .running)
      (made : (Op.mkdir []).exec s.disk = some d) :
      LegStep ex leg s (.exited rc out) { s with
        pullers := s.pullers.map Puller.signal, disk := d, phase := .copying }
  | copied (landed : DirTree α) (phase : s.phase = .copying) :
      LegStep ex leg s (.copied landed) { s with
        phase := .publishing (publishSteps landed leg.marker), final := landed.files }
  | moved (op : Op α) (ops : List (Op α)) (d : Disk α) (phase : s.phase = .publishing (op :: ops))
      (done : op.exec s.disk = some d) :
      LegStep ex leg s .moved { s with
        disk := d, phase := .publishing ops, kept := s.kept ++ movedFile op }
  | published (phase : s.phase = .publishing []) (returns : publishRaises leg.marker = false) :
      LegStep ex leg s .moved { s with phase := .checking }
  | checked (phase : s.phase = .checking) :
      LegStep ex leg s .checked { s with phase := afterFetch ex leg s.disk }
  | scanned (p : Path) (paths : List Path) (report : ArrivalReport)
      (phase : s.phase = .validating (p :: paths) report) :
      LegStep ex leg s .scanned { s with
        phase := .validating paths (scanPath ex.formats s.disk report p)
        kept := s.kept ++ readFile s.disk p }
  | validated (report : ArrivalReport) (phase : s.phase = .validating [] report) :
      LegStep ex leg s .scanned { s with phase := afterValidation leg (closeReport report) }
  | judged (phase : s.phase = .judging) :
      LegStep ex leg s .judged { s with phase := .closing (verdictResult leg s.disk) }
  | closed (r : LegResult) (phase : s.phase = .closing r) : LegStep ex leg s .closed { s with
      phase := .settled r
      kept := if r.status = .ok then s.kept else []
      banked := r.status = .ok }
  | raised (e : Raised) (phase : s.phase.onOffer = true) : LegStep ex leg s (.raised e) { s with
      phase := afterRaise leg e, pullers := s.pullers.map Puller.signal, kept := [] }
  | pull (i : Nat) (e : PullEvent α) (w w' : Puller α) (d : Disk α)
      (mem : s.pullers[i]? = some w) (step : w.step leg s.disk e = some (w', d)) :
      LegStep ex leg s (.pull i e) { s with pullers := s.pullers.set i w', disk := d }

theorem leg_step {ex : Executor α} {leg : FleetLeg α} {s s' : LegState α} {e : LegEvent α}
    (h : s.step ex leg e = some s') : LegStep ex leg s e s' := by
  cases e <;> simp only [LegState.step] at h
  case offered =>
    split at h <;> cases h
    exact .offered ‹_›
  case drained =>
    split at h <;> cases h
    exact .drained ‹_›
  case broke =>
    split at h <;> cases h
    exact .broke ‹_›
  case started =>
    split at h <;> cases h
    exact .started ‹_›
  case streamed log =>
    split at h
    · split at h
      · obtain ⟨d, hrun, heq⟩ := Option.map_eq_some_iff.mp h
        cases heq
        exact .streamed log d ‹_› ‹_› hrun
      · cases h
    · cases h
  case exited rc out =>
    split at h
    · split at h
      · cases h
        exact .failed rc out ‹_›
      · split at h
        · cases h
          exact .nothing rc out ‹_›
        · obtain ⟨d, hexec, heq⟩ := Option.map_eq_some_iff.mp h
          cases heq
          exact .exited rc out d ‹_› hexec
    · cases h
  case copied landed =>
    split at h <;> cases h
    exact .copied landed ‹_›
  case moved =>
    split at h
    · obtain ⟨d, hexec, heq⟩ := Option.map_eq_some_iff.mp h
      cases heq
      exact .moved _ _ d ‹_› hexec
    · split at h
      · cases h
      · rename_i hraises
        cases h
        exact .published ‹_› (by simpa using hraises)
    · cases h
  case checked =>
    split at h <;> cases h
    exact .checked ‹_›
  case scanned =>
    split at h <;> cases h
    · exact .scanned _ _ _ ‹_›
    · exact .validated _ ‹_›
  case judged =>
    split at h <;> cases h
    exact .judged ‹_›
  case closed =>
    split at h <;> cases h
    exact .closed _ ‹_›
  case raised e =>
    split at h <;> cases h
    exact .raised e ‹_›
  case pull i e =>
    split at h
    · obtain ⟨⟨w', d⟩, hstep, heq⟩ := Option.map_eq_some_iff.mp h
      cases heq
      exact .pull i e _ w' d ‹_› hstep
    · cases h

def LegState.launch (leg : FleetLeg α) (s : LegState α) : LegState α :=
  if complete leg s.disk then { s with phase := .settled (skipResult leg) }
  else { s with phase := .queued, tried := 0, kept := [], banked := false }

def LegState.kill (s : LegState α) : LegState α :=
  { s with phase := .idle, pullers := [], kept := if s.banked then s.kept else [] }

abbrev Fleet (α : Type) := String → LegState α

inductive FleetEvent (α : Type) where
  | launched
  | unwound
  | killed
  | leg (label : String) (e : LegEvent α)

/-- `run` refuses two legs of one label. -/
structure Legs (α : Type) where
  legs : List (FleetLeg α)
  unique : (legs.map FleetLeg.label).Nodup

def Legs.named (L : Legs α) (label : String) : Option (FleetLeg α) :=
  L.legs.find? (fun leg => leg.label = label)

/-- A call of `run` starts when the one before is over. It ends when every leg is settled, or
unwinds when each leg has either come off its host or was cancelled. -/
def Fleet.step (ex : Executor α) (L : Legs α) (F : Fleet α) : FleetEvent α → Option (Fleet α)
  | .launched =>
    if L.legs.all (fun leg => (F leg.label).phase.ended) then
      some (fun label => match L.named label with
        | some leg => (F label).launch leg
        | none => F label)
    else none
  | .unwound =>
    if L.legs.all (fun leg => !(F leg.label).phase.onOffer) then
      some (fun label => { F label with phase := .idle })
    else none
  | .killed => some (fun label => (F label).kill)
  | .leg label e => match L.named label with
    | some leg => ((F label).step ex leg e).map (fun s => Function.update F label s)
    | none => none

theorem find_label {legs : List (FleetLeg α)} (h : (legs.map FleetLeg.label).Nodup)
    {leg : FleetLeg α} (hleg : leg ∈ legs) :
    legs.find? (fun l => l.label = leg.label) = some leg := by
  induction legs with
  | nil => cases hleg
  | cons l legs ih =>
    obtain ⟨hnew, hrest⟩ := List.nodup_cons.mp h
    rcases List.mem_cons.mp hleg with rfl | hleg
    · simp
    · have hne : l.label ≠ leg.label := fun heq => hnew (heq ▸ List.mem_map_of_mem hleg)
      simp [hne, ih hrest hleg]

theorem Legs.named_mem {L : Legs α} {leg : FleetLeg α} (hleg : leg ∈ L.legs) :
    L.named leg.label = some leg := find_label L.unique hleg

inductive Seen (ex : Executor α) (leg : FleetLeg α) (s : LegState α) :
    FleetEvent α → LegState α → Prop
  | launched (ended : s.phase.ended = true) : Seen ex leg s .launched (s.launch leg)
  | unwound (off : s.phase.onOffer = false) : Seen ex leg s .unwound { s with phase := .idle }
  | killed : Seen ex leg s .killed s.kill
  | own (e : LegEvent α) (s' : LegState α) (step : s.step ex leg e = some s') :
      Seen ex leg s (.leg leg.label e) s'
  | other (label : String) (e : LegEvent α) (ne : label ≠ leg.label) :
      Seen ex leg s (.leg label e) s

theorem fleet_seen {ex : Executor α} {L : Legs α} {leg : FleetLeg α} (hleg : leg ∈ L.legs)
    {F F' : Fleet α} {event : FleetEvent α} (h : F.step ex L event = some F') :
    Seen ex leg (F leg.label) event (F' leg.label) := by
  have hnamed := Legs.named_mem hleg
  cases event with
  | launched =>
    simp only [Fleet.step] at h
    split at h
    · rename_i hover
      cases h
      simp only [hnamed]
      exact .launched (List.all_eq_true.mp hover leg hleg)
    · cases h
  | unwound =>
    simp only [Fleet.step] at h
    split at h
    · rename_i hoff
      cases h
      exact .unwound (by simpa using List.all_eq_true.mp hoff leg hleg)
    · cases h
  | killed =>
    cases h
    exact .killed
  | leg label e =>
    simp only [Fleet.step] at h
    split at h
    · rename_i l hl
      obtain ⟨s', hstep, heq⟩ := Option.map_eq_some_iff.mp h
      cases heq
      by_cases hlabel : label = leg.label
      · subst hlabel
        rw [hnamed] at hl
        cases hl
        rw [Function.update_self]
        exact .own e s' hstep
      · rw [Function.update_of_ne (Ne.symm hlabel)]
        exact .other label e hlabel
    · cases h

end RunFarm
