import RunFarm.Reap

set_option autoImplicit false

namespace RunFarm
open Python (Dict)

inductive Adapter where
  | vast | runpod
  deriving DecidableEq, Repr

def Adapter.name : Adapter → String
  | .vast => "vast"
  | .runpod => "runpod"

def stripGeo (s : String) : String :=
  let trim (cs : List Char) := cs.dropWhile (fun c => c = ',' ∨ c = ' ')
  String.ofList (trim (trim s.toList).reverse).reverse

/-- A `rent()` that has its instance: `t0` is its clock when it began. -/
structure Rental where
  adapter : Adapter
  offer : Offer
  id : InstanceId
  t0 : ℚ
  deriving DecidableEq, Repr

/-- RunPod has no reliability to log and its geolocation is the cloud tier. -/
def Rental.rentedRow (r : Rental) : Row :=
  { event := .rented
    provider := some r.adapter.name
    offerId := some r.offer.id
    instanceId := some r.id
    gpu := some r.offer.gpuName
    dph := some r.offer.dph
    reliability := match r.adapter with
      | .vast => r.offer.reliability
      | .runpod => none
    geo := match r.adapter with
      | .vast => r.offer.geolocation.map stripGeo
      | .runpod => r.offer.geolocation }

def Rental.runningRow (r : Rental) (now : ℚ) : Row :=
  { event := .running
    provider := some r.adapter.name
    offerId := some r.offer.id
    instanceId := some r.id
    provisionS := some (Python.round (now - r.t0) 1) }

/-- How the body of the `with` ended, as the `except` clauses of `rent` note it. -/
structure Ended where
  outcome : String := "ok"
  reason : String := ""
  deriving DecidableEq, Repr

structure Teardown where
  stop : ℚ
  destroyed : Bool
  verify : Verify
  deriving DecidableEq, Repr

def Rental.destroyedRow (r : Rental) (ended : Ended) (t : Teardown) : Row :=
  { event := .destroyed
    provider := some r.adapter.name
    offerId := some r.offer.id
    instanceId := some r.id
    outcome := .val ended.outcome
    reason := some (String.ofList (ended.reason.toList.take 200))
    billedS := .val (Python.round (t.stop - r.t0) 1)
    estCostUsd := .val (Python.round (r.offer.dph * (t.stop - r.t0) / 3600) 4)
    destroyed := some t.destroyed
    verify := some t.verify }

/-- The destroy loop of the `finally` block; 404 and 410 count as destroyed. -/
def teardownDestroy {σ : Type} (W : World σ) (iid : InstanceId) : Nat → σ → Bool × σ
  | 0, w => (false, w)
  | left + 1, w =>
    match W.destroy iid w with
    | (.ok _, w) => (true, w)
    | (.error e, w) =>
      if e.kind = .provider ∧ (e.code = some 404 ∨ e.code = some 410) then (true, w)
      else teardownDestroy W iid left (W.sleep 2 w)

def verifyTeardown {σ : Type} (W : World σ) (iid : InstanceId) (w : σ) : Verify × σ :=
  match W.listInstances w with
  | (.ok live, w) => (if live.any (fun i => i.id = iid) then .present else .gone, w)
  | (.error e, w) => (.unverified e.text, w)

/-- The `finally` block of `rent` up to its `destroyed` row. -/
def Rental.teardown {σ : Type} (r : Rental) (W : World σ) (w : σ) : Teardown × σ :=
  let (stop, w) := W.time w
  let (destroyed, w) := teardownDestroy W r.id 5 w
  let (verify, w) := verifyTeardown W r.id w
  (⟨stop, destroyed, verify⟩, w)

/-- `rent` ends in `LeakRisk` on this. -/
def Teardown.leaks (t : Teardown) : Bool := !t.destroyed || t.verify = .present

def RentedIn (rows : List Row) (iid : String) : Prop := ∃ q ∈ rows, rentRow q = some (iid, q)

/-- What the drivers' rows promise the reaper: every `rented` row has a usable time, and
every id that was seen has a `rented` row. -/
structure Logged (rows : List Row) : Prop where
  started : ∀ e ∈ rows, e.event = .rented → ∃ t, e.ts = some t ∧ t ≠ 0
  seen : ∀ e ∈ rows, ∀ iid, seenId e = some iid → RentedIn rows iid

namespace Logged

theorem nil : Logged [] := ⟨fun _ h => (by cases h), fun _ h => (by cases h)⟩

theorem append {rows out : List Row} (h : Logged rows)
    (hstart : ∀ e ∈ out, e.event = .rented → ∃ t, e.ts = some t ∧ t ≠ 0)
    (hseen : ∀ e ∈ out, ∀ iid, seenId e = some iid → RentedIn (rows ++ out) iid) :
    Logged (rows ++ out) where
  started e he hev := by
    rcases List.mem_append.mp he with he | he
    · exact h.started e he hev
    · exact hstart e he hev
  seen e he iid hid := by
    rcases List.mem_append.mp he with he | he
    · obtain ⟨q, hq, hrent⟩ := h.seen e he iid hid
      exact ⟨q, List.mem_append_left _ hq, hrent⟩
    · exact hseen e he iid hid

theorem rented {rows : List Row} (h : Logged rows) (r : Rental) {now : ℚ} (started : 1 ≤ now) :
    Logged (record now r.rentedRow rows) := by
  refine h.append (fun e he _ => ?_) (fun e he iid hid => ?_)
  · cases List.mem_singleton.mp he
    exact ⟨_, rfl, Python.round_ne_zero 3 started⟩
  · cases List.mem_singleton.mp he
    cases hid
    exact ⟨_, List.mem_append_right _ (.head _), rfl⟩

theorem other {rows : List Row} (h : Logged rows) {e : Row} (now : ℚ) (hev : e.event ≠ .rented)
    (hid : ∀ iid, seenId e = some iid → RentedIn rows iid) : Logged (record now e rows) := by
  refine h.append (fun q hq hq' => ?_) (fun q hq iid hseen => ?_)
  · cases List.mem_singleton.mp hq
    exact absurd hq' hev
  · cases List.mem_singleton.mp hq
    obtain ⟨r, hr, hrent⟩ := hid iid hseen
    exact ⟨r, List.mem_append_left _ hr, hrent⟩

theorem leaked {rows : List Row} (h : Logged rows) {iid : String} (hs : iid ∈ leakedIds rows) :
    ∃ q t, (rentRows rows).get iid = some q ∧ q.ts = some t ∧ t ≠ 0 := by
  obtain ⟨e, he, hseen⟩ := (mem_leakedIds.mp hs).1
  obtain ⟨q₀, hq₀, hrent₀⟩ := h.seen e he iid hseen
  have hspec := Dict.latest_spec rentRow rows iid
  cases hget : (rentRows rows).get iid with
  | none => exact absurd hrent₀ (hspec.2.mp hget q₀ hq₀ q₀)
  | some q =>
    obtain ⟨e', he', hrent⟩ := hspec.1 q hget
    obtain ⟨rfl, hev, _⟩ := rentRow_some hrent
    obtain ⟨t, hts, ht⟩ := h.started q he' hev
    exact ⟨q, t, rfl, hts, ht⟩

end Logged

def cheapBox : Rental :=
  ⟨.vast, ⟨"9", 36/100, "RTX 4090", some (99/100), some "US, ", "vast"⟩, .int 7, 1000⟩

def cheapListed : Instance := ⟨.int 7, "running", 36/100, none, some 1000⟩

end RunFarm
