import RunFarm.Fleet.Campaign
import RunFarm.Fleet.Offers

/-! One call of `FleetExecutor.run`: the main thread, the workers of its pool, and the signal
handler that runs on the main thread. -/
set_option autoImplicit false

namespace RunFarm
open Files Python

variable {α : Type}

/-- A call of `run` whose labels are unique; `disk` is what the leg directories hold, and
`canDestroy` says that the provider has a `destroy`. -/
structure FleetRun (α : Type) extends Legs α where
  disk : String → Disk α
  maxParallel : Int := 12
  maxRefills : Int := 3
  canDestroy : Bool := true

/-- Where the task of a leg is; `tried` counts its offers. The last three are what its future
holds at the end. -/
inductive LegTask where
  | unsubmitted
  | waiting
  | asking (tried : Nat)
  | renting (tried : Nat) (offer : Offer)
  | hosting (tried : Nat) (offer : Offer) (host : InstanceId)
  | done (r : LegResult)
  | failed (e : Raised)
  | cancelled
  deriving DecidableEq

/-- What leaves the `with` block of the thread pool. -/
inductive Stop where
  | raised (e : Raised)
  | interrupted
  deriving DecidableEq

/-- `missing` is a `KeyError` of the lookup of the results. -/
inductive Outcome where
  | returned (rs : List LegResult)
  | missing
  | stopped (x : Stop)
  deriving DecidableEq

/-- Where the main thread is: submitting the legs, in the `as_completed` loop, cancelling after
a `BudgetExceeded`, leaving the pool, or in a signal handler with these hosts to destroy. -/
inductive MainThread where
  | submitting (k : Nat)
  | collecting
  | cancelling (e : Raised) (k : Nat)
  | draining (x : Option Stop)
  | handling (hosts : List InstanceId) (back : MainThread)
  | ended (o : Outcome)
  deriving DecidableEq

/-- `busy` are the legs that the workers are on; `finished` the futures that the main thread has
not met, in their order. `rented` are the legs that have called `rent`; no step reads it. -/
structure Threads (n : Nat) where
  pool : OfferPool
  tasks : Fin n → LegTask
  busy : List (Fin n) := []
  finished : List (Fin n) := []
  results : Dict String LegResult := Dict.empty
  live : List InstanceId := []
  main : MainThread
  rented : List (Fin n) := []

inductive WorkEvent where
  | asked (answer : Except Raised (List Offer))
  | hosted (host : InstanceId)
  | closed (status : Status) (detail : String)
  | raised (e : Raised)

inductive ThreadEvent (n : Nat) where
  | submitted
  | listened (order : List (Fin n))
  | collected
  | cancelled
  | left
  | joined
  | took (i : Fin n)
  | worked (i : Fin n) (e : WorkEvent)
  | signalled
  | destroyed
  | unwound
  | chained

namespace LegTask

def running : LegTask → Bool
  | asking _ | renting _ _ | hosting _ _ _ => true
  | _ => false

def ended : LegTask → Bool
  | done _ | failed _ | cancelled => true
  | _ => false

def unstarted : LegTask → Bool
  | unsubmitted | waiting | cancelled => true
  | _ => false

end LegTask

/-- `self._live[id] = True` and `self._live.pop(id, None)`. -/
def track (live : List InstanceId) (host : InstanceId) : List InstanceId :=
  if host ∈ live then live else live ++ [host]

def untrack (live : List InstanceId) (host : InstanceId) : List InstanceId :=
  live.filter (· ≠ host)

/-- The `except` clauses of `_run_leg`. -/
def afterFailure (leg : FleetLeg α) (tried : Nat) (e : Raised) : LegTask :=
  match e.exc.kind with
  | .budgetExceeded => .failed e
  | .hostProbeFailed | .timeout | .rentUnavailable => .asking tried
  | _ => .done (failure leg e)

/-- The offer pool, the live hosts and the task after one step of `_run_leg`. -/
def work (maxRefills : Int) (leg : FleetLeg α) (pool : OfferPool) (live : List InstanceId) :
    LegTask → WorkEvent → Option (OfferPool × List InstanceId × LegTask)
  | .asking tried, .asked answer =>
    match pool.get maxRefills answer with
    | (pool, .ok (some offer)) => some (pool, live, .renting (tried + 1) offer)
    | (pool, .ok none) => some (pool, live, .done (noOffers leg tried))
    -- `pool.get()` is outside the `try`
    | (pool, .error e) => some (pool, live, .failed e)
  | .renting tried offer, .hosted host =>
    some (pool, track live host, .hosting tried offer host)
  | .renting tried _, .raised e => some (pool, live, afterFailure leg tried e)
  | .hosting _ _ host, .closed status detail =>
    some (pool, untrack live host, .done ⟨leg.label, status, detail⟩)
  | .hosting tried _ host, .raised e => some (pool, untrack live host, afterFailure leg tried e)
  | _, _ => none

namespace FleetRun

def skips (R : FleetRun α) (leg : FleetLeg α) : Bool := complete leg (R.disk leg.label)

def pending (R : FleetRun α) : List (FleetLeg α) := R.legs.filter (fun leg => !R.skips leg)

abbrev size (R : FleetRun α) : Nat := R.pending.length

def leg (R : FleetRun α) (i : Fin R.size) : FleetLeg α := R.pending.get i

/-- `max(1, max_parallel)`. -/
def slots (R : FleetRun α) : Nat := (max 1 R.maxParallel).toNat

def skipped (R : FleetRun α) : Dict String LegResult :=
  (R.legs.filter R.skips).foldl (fun d leg => d.set leg.label (skipResult leg)) Dict.empty

/-- `[results[leg.label] for leg in legs]`, unless the exception `x` goes on. -/
def outcome (R : FleetRun α) (results : Dict String LegResult) : Option Stop → Outcome
  | some x => .stopped x
  | none =>
    match R.legs.mapM (fun leg => results.get leg.label) with
    | some rs => .returned rs
    | none => .missing

/-- `offers` is the first listing; without a pending leg there is no pool. -/
def init (R : FleetRun α) (offers : List Offer) : Threads R.size where
  pool := { queue := offers }
  tasks _ := .unsubmitted
  results := R.skipped
  main := if R.size = 0 then .ended (R.outcome R.skipped none) else .submitting 0

end FleetRun

namespace MainThread

def guarded : MainThread → Bool
  | handling _ _ | ended _ => false
  | _ => true

end MainThread

namespace Threads

variable {n : Nat}

def put (s : Threads n) (i : Fin n) (pool : OfferPool) (live : List InstanceId) (t : LegTask) :
    Threads n :=
  { s with
    pool := pool
    live := live
    tasks := Function.update s.tasks i t
    busy := if t.ended then s.busy.erase i else s.busy
    finished := if t.ended then s.finished ++ [i] else s.finished
    rented := match t with
      | .renting _ _ => s.rented ++ [i]
      | _ => s.rented }

def Next (s : Threads n) (i : Fin n) : Prop :=
  s.tasks i = .waiting ∧ ∀ j, j < i → s.tasks j ≠ .waiting

instance (s : Threads n) (i : Fin n) : Decidable (s.Next i) := inferInstanceAs (Decidable (_ ∧ _))

/-- `fut.result()` of the next future. -/
def collect (s : Threads n) (i : Fin n) (rest : List (Fin n)) : Option (Threads n) :=
  match s.tasks i with
  | .done r => some { s with finished := rest, results := s.results.set r.label r }
  | .failed e => some { s with
      finished := rest
      main := if e.exc.kind = .budgetExceeded then .cancelling e 0
        else .draining (some (.raised e)) }
  | _ => none

def step (R : FleetRun α) (s : Threads R.size) : ThreadEvent R.size → Option (Threads R.size)
  | .submitted => match s.main with
    | .submitting k => if h : k < R.size then some { s with
        tasks := Function.update s.tasks ⟨k, h⟩ .waiting, main := .submitting (k + 1) } else none
    | _ => none
  -- futures that are done before the loop come in any order
  | .listened order => match s.main with
    | .submitting k =>
      if k = R.size ∧ order.Perm s.finished then
        some { s with finished := order, main := .collecting }
      else none
    | _ => none
  | .collected => match s.main, s.finished with
    | .collecting, i :: rest => s.collect i rest
    | _, _ => none
  | .cancelled => match s.main with
    | .cancelling e k => if h : k < R.size then some { s with
        tasks := if s.tasks ⟨k, h⟩ = .waiting then Function.update s.tasks ⟨k, h⟩ .cancelled
          else s.tasks
        main := .cancelling e (k + 1) } else none
    | _ => none
  | .left => match s.main with
    | .cancelling e k =>
      if k = R.size then some { s with main := .draining (some (.raised e)) } else none
    | .collecting =>
      if s.finished = [] ∧ ∀ i, (s.tasks i).ended then some { s with main := .draining none }
      else none
    | _ => none
  | .joined => match s.main with
    | .draining x =>
      if ∀ i, (s.tasks i).ended ∨ s.tasks i = .unsubmitted then
        some { s with main := .ended (R.outcome s.results x) }
      else none
    | _ => none
  | .took i =>
    if s.Next i ∧ s.busy.length < R.slots then some { s with
      tasks := Function.update s.tasks i (.asking 0), busy := s.busy ++ [i] }
    else none
  | .worked i e =>
    (work R.maxRefills (R.leg i) s.pool s.live (s.tasks i) e).map
      fun (pool, live, t) => s.put i pool live t
  | .signalled =>
    if s.main.guarded then
      some { s with main := .handling (if R.canDestroy then s.live else []) s.main }
    else none
  -- a `destroy` that raises is logged
  | .destroyed => match s.main with
    | .handling (_ :: hosts) back => some { s with main := .handling hosts back }
    | _ => none
  | .unwound => match s.main with
    | .handling [] _ => some { s with main := .draining (some .interrupted) }
    | _ => none
  -- the handler that was installed before may return
  | .chained => match s.main with
    | .handling [] back => some { s with main := back }
    | _ => none

end Threads

inductive WorkStep (maxRefills : Int) (leg : FleetLeg α) (pool : OfferPool)
    (live : List InstanceId) :
    LegTask → WorkEvent → OfferPool → List InstanceId → LegTask → Prop where
  | offered (tried : Nat) (answer : Except Raised (List Offer)) (pool' : OfferPool)
      (offer : Offer) (got : pool.get maxRefills answer = (pool', .ok (some offer))) :
      WorkStep maxRefills leg pool live (.asking tried) (.asked answer) pool' live
        (.renting (tried + 1) offer)
  | drained (tried : Nat) (answer : Except Raised (List Offer)) (pool' : OfferPool)
      (got : pool.get maxRefills answer = (pool', .ok none)) :
      WorkStep maxRefills leg pool live (.asking tried) (.asked answer) pool' live
        (.done (noOffers leg tried))
  | broke (tried : Nat) (answer : Except Raised (List Offer)) (pool' : OfferPool) (e : Raised)
      (got : pool.get maxRefills answer = (pool', .error e)) :
      WorkStep maxRefills leg pool live (.asking tried) (.asked answer) pool' live (.failed e)
  | hosted (tried : Nat) (offer : Offer) (host : InstanceId) :
      WorkStep maxRefills leg pool live (.renting tried offer) (.hosted host) pool
        (track live host) (.hosting tried offer host)
  | refused (tried : Nat) (offer : Offer) (e : Raised) :
      WorkStep maxRefills leg pool live (.renting tried offer) (.raised e) pool live
        (afterFailure leg tried e)
  | closed (tried : Nat) (offer : Offer) (host : InstanceId) (status : Status) (detail : String) :
      WorkStep maxRefills leg pool live (.hosting tried offer host) (.closed status detail) pool
        (untrack live host) (.done ⟨leg.label, status, detail⟩)
  | died (tried : Nat) (offer : Offer) (host : InstanceId) (e : Raised) :
      WorkStep maxRefills leg pool live (.hosting tried offer host) (.raised e) pool
        (untrack live host) (afterFailure leg tried e)

theorem work_step {maxRefills : Int} {leg : FleetLeg α} {pool pool' : OfferPool}
    {live live' : List InstanceId} {t t' : LegTask} {e : WorkEvent}
    (h : work maxRefills leg pool live t e = some (pool', live', t')) :
    WorkStep maxRefills leg pool live t e pool' live' t' := by
  unfold work at h
  split at h
  · rename_i tried answer
    split at h <;> cases h
    · exact .offered tried answer _ _ ‹_›
    · exact .drained tried answer _ ‹_›
    · exact .broke tried answer _ _ ‹_›
  · cases h
    exact .hosted _ _ _
  · cases h
    exact .refused _ _ _
  · cases h
    exact .closed _ _ _ _ _
  · cases h
    exact .died _ _ _ _
  · cases h

inductive ThreadStep (R : FleetRun α) (s : Threads R.size) :
    ThreadEvent R.size → Threads R.size → Prop where
  | submitted (k : Nat) (hk : k < R.size) (main : s.main = .submitting k) :
      ThreadStep R s .submitted { s with
        tasks := Function.update s.tasks ⟨k, hk⟩ .waiting, main := .submitting (k + 1) }
  | listened (order : List (Fin R.size)) (main : s.main = .submitting R.size)
      (perm : order.Perm s.finished) :
      ThreadStep R s (.listened order) { s with finished := order, main := .collecting }
  | result (i : Fin R.size) (rest : List (Fin R.size)) (r : LegResult)
      (main : s.main = .collecting) (queue : s.finished = i :: rest) (task : s.tasks i = .done r) :
      ThreadStep R s .collected { s with finished := rest, results := s.results.set r.label r }
  | halted (i : Fin R.size) (rest : List (Fin R.size)) (e : Raised)
      (main : s.main = .collecting) (queue : s.finished = i :: rest) (task : s.tasks i = .failed e)
      (kind : e.exc.kind = .budgetExceeded) :
      ThreadStep R s .collected { s with finished := rest, main := .cancelling e 0 }
  | broke (i : Fin R.size) (rest : List (Fin R.size)) (e : Raised)
      (main : s.main = .collecting) (queue : s.finished = i :: rest) (task : s.tasks i = .failed e)
      (kind : e.exc.kind ≠ .budgetExceeded) :
      ThreadStep R s .collected { s with
        finished := rest, main := .draining (some (.raised e)) }
  | cancelled (e : Raised) (k : Nat) (hk : k < R.size) (main : s.main = .cancelling e k)
      (task : s.tasks ⟨k, hk⟩ = .waiting) :
      ThreadStep R s .cancelled { s with
        tasks := Function.update s.tasks ⟨k, hk⟩ .cancelled, main := .cancelling e (k + 1) }
  | kept (e : Raised) (k : Nat) (hk : k < R.size) (main : s.main = .cancelling e k)
      (task : s.tasks ⟨k, hk⟩ ≠ .waiting) :
      ThreadStep R s .cancelled { s with main := .cancelling e (k + 1) }
  | swept (e : Raised) (main : s.main = .cancelling e R.size) :
      ThreadStep R s .left { s with main := .draining (some (.raised e)) }
  | left (main : s.main = .collecting) (queue : s.finished = [])
      (all : ∀ i, (s.tasks i).ended = true) :
      ThreadStep R s .left { s with main := .draining none }
  | joined (x : Option Stop) (main : s.main = .draining x)
      (all : ∀ i, (s.tasks i).ended = true ∨ s.tasks i = .unsubmitted) :
      ThreadStep R s .joined { s with main := .ended (R.outcome s.results x) }
  | took (i : Fin R.size) (task : s.tasks i = .waiting) (free : s.busy.length < R.slots)
      (next : ∀ j, j < i → s.tasks j ≠ .waiting) :
      ThreadStep R s (.took i) { s with
        tasks := Function.update s.tasks i (.asking 0), busy := s.busy ++ [i] }
  | worked (i : Fin R.size) (e : WorkEvent) (pool : OfferPool) (live : List InstanceId)
      (t : LegTask)
      (step : WorkStep R.maxRefills (R.leg i) s.pool s.live (s.tasks i) e pool live t) :
      ThreadStep R s (.worked i e) (s.put i pool live t)
  | signalled (guarded : s.main.guarded = true) :
      ThreadStep R s .signalled { s with
        main := .handling (if R.canDestroy then s.live else []) s.main }
  | destroyed (host : InstanceId) (hosts : List InstanceId) (back : MainThread)
      (main : s.main = .handling (host :: hosts) back) :
      ThreadStep R s .destroyed { s with main := .handling hosts back }
  | unwound (back : MainThread) (main : s.main = .handling [] back) :
      ThreadStep R s .unwound { s with main := .draining (some .interrupted) }
  | chained (back : MainThread) (main : s.main = .handling [] back) :
      ThreadStep R s .chained { s with main := back }

variable {R : FleetRun α}

theorem collect_step {s s' : Threads R.size} {i : Fin R.size} {rest : List (Fin R.size)}
    (hmain : s.main = .collecting) (hqueue : s.finished = i :: rest)
    (h : s.collect i rest = some s') : ThreadStep R s .collected s' := by
  unfold Threads.collect at h
  split at h
  · rename_i r htask
    cases h
    exact .result i rest r hmain hqueue htask
  · rename_i e htask
    split at h
    · rename_i hkind
      cases h
      exact .halted i rest e hmain hqueue htask hkind
    · rename_i hkind
      cases h
      exact .broke i rest e hmain hqueue htask hkind
  · cases h

theorem thread_step {s s' : Threads R.size} {e : ThreadEvent R.size}
    (h : s.step R e = some s') : ThreadStep R s e s' := by
  cases e <;> simp only [Threads.step] at h
  case submitted =>
    split at h
    · split at h
      · cases h
        exact .submitted _ ‹_› ‹_›
      · cases h
    · cases h
  case listened order =>
    split at h
    · rename_i hmain
      split at h
      · rename_i hcond
        cases h
        exact .listened order (hcond.1 ▸ hmain) hcond.2
      · cases h
    · cases h
  case collected =>
    split at h
    · exact collect_step ‹_› ‹_› h
    · cases h
  case cancelled =>
    split at h
    · split at h
      · cases h
        split
        · exact .cancelled _ _ ‹_› ‹_› ‹_›
        · exact .kept _ _ ‹_› ‹_› ‹_›
      · cases h
    · cases h
  case left =>
    split at h
    · rename_i hmain
      split at h
      · rename_i hk
        cases h
        exact .swept _ (hk ▸ hmain)
      · cases h
    · split at h
      · rename_i hcond
        cases h
        exact .left ‹_› hcond.1 hcond.2
      · cases h
    · cases h
  case joined =>
    split at h
    · split at h
      · cases h
        exact .joined _ ‹_› ‹_›
      · cases h
    · cases h
  case took i =>
    split at h
    · rename_i hcond
      cases h
      exact .took i hcond.1.1 hcond.2 hcond.1.2
    · cases h
  case worked i e =>
    obtain ⟨⟨pool, live, t⟩, hwork, heq⟩ := Option.map_eq_some_iff.mp h
    cases heq
    exact .worked i e pool live t (work_step hwork)
  case signalled =>
    split at h
    · cases h
      exact .signalled ‹_›
    · cases h
  case destroyed =>
    split at h
    · cases h
      exact .destroyed _ _ _ ‹_›
    · cases h
  case unwound =>
    split at h
    · cases h
      exact .unwound _ ‹_›
    · cases h
  case chained =>
    split at h
    · cases h
      exact .chained _ ‹_›
    · cases h

end RunFarm
