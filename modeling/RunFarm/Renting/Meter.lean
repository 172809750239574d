import RunFarm.Budget
import RunFarm.Rent
import RunFarm.Transition

/-! `rent()` calls over one ledger as its clock runs, and what the budget counts of them. -/
set_option autoImplicit false

namespace RunFarm
open Python (Dict)
open Relation (ReflTransGen)

/-- What an instance is charged by its `rented` row, logged at `since`. -/
def Rental.charge (r : Rental) (since now : ℚ) : ℚ :=
  r.offer.dph * max 0 (now - Python.round since 3) / 3600

/-- The `est_cost_usd` of a teardown that began at `stop`. -/
def Rental.cost (r : Rental) (stop : ℚ) : ℚ :=
  Python.round (r.offer.dph * (stop - r.t0) / 3600) 4

/-- A `rent()` before its instance. -/
structure Creation where
  adapter : Adapter
  offer : Offer
  t0 : ℚ
  deriving DecidableEq, Repr

/-- A `rent()` with its instance: when its `rented` row was logged, and when its teardown
began. -/
structure Lifecycle where
  rental : Rental
  since : ℚ
  stop : Option ℚ
  deriving DecidableEq, Repr

/-- `time.time` and `time.monotonic` run alike. -/
structure Metered where
  clock : ℚ
  rows : List Row := []
  creating : List Creation := []
  inside : List Lifecycle := []

structure Metering where
  begins : Offer → Prop
  books : Metered → Lifecycle → ℚ → Prop

/-- One step of a `rent()`, or time that passes in the call or the work that one of them is in. -/
inductive MeterStep (G : Metering) : Metered → Metered → Prop
  | passes (f : Metered) (d : ℚ) (nonneg : 0 ≤ d) :
      MeterStep G f { f with clock := f.clock + d }
  | begins (f : Metered) (adapter : Adapter) (offer : Offer) (ok : G.begins offer) :
      MeterStep G f { f with creating := ⟨adapter, offer, f.clock⟩ :: f.creating }
  | refused (f : Metered) (c : Creation) :
      MeterStep G f { f with creating := f.creating.erase c }
  | created (f : Metered) (c : Creation) (id : InstanceId) (mem : c ∈ f.creating)
      (fresh : ∀ e ∈ f.rows, e.instanceId ≠ some id) :
      MeterStep G f { f with
        rows := record f.clock (Rental.rentedRow ⟨c.adapter, c.offer, id, c.t0⟩) f.rows
        creating := f.creating.erase c
        inside := ⟨⟨c.adapter, c.offer, id, c.t0⟩, f.clock, none⟩ :: f.inside }
  | running (f : Metered) (l : Lifecycle) (mem : l ∈ f.inside) (working : l.stop = none) :
      MeterStep G f { f with rows := record f.clock (l.rental.runningRow f.clock) f.rows }
  | stops (f : Metered) (l : Lifecycle) (mem : l ∈ f.inside) (working : l.stop = none) :
      MeterStep G f { f with inside := { l with stop := some f.clock } :: f.inside.erase l }
  | torndown (f : Metered) (l : Lifecycle) (stop : ℚ) (ended : Ended) (destroyed : Bool)
      (verify : Verify) (mem : l ∈ f.inside) (stopping : l.stop = some stop)
      (ok : G.books f l stop) :
      MeterStep G f { f with
        rows := record f.clock (l.rental.destroyedRow ended ⟨stop, destroyed, verify⟩) f.rows
        inside := f.inside.erase l }

abbrev MeterRun (G : Metering) : Metered → Metered → Prop := ReflTransGen (MeterStep G)

/-- What an entry of `rented` adds. -/
def openCharge (rows : List Row) (now : ℚ) (p : InstanceId × Row) : ℚ :=
  if p.1 ∈ rows.filterMap destroyedId then 0 else burn p.2 now

theorem sum_filter_map {α : Type} (p : α → Bool) (f : α → ℚ) (l : List α) :
    ((l.filter p).map f).sum = (l.map fun a => if p a then f a else 0).sum := by
  induction l with
  | nil => rfl
  | cons a l ih => by_cases h : p a <;> simp [h, ih]

theorem inFlightUsd_eq (rows : List Row) (now : ℚ) : inFlightUsd rows now =
    ((Dict.latest rentedEntry rows).items.map (openCharge rows now)).sum := by
  simp only [inFlightUsd, inFlightCharges, List.map_map, Function.comp_def, sum_filter_map]
  congr 2
  funext p
  by_cases h : p.1 ∈ rows.filterMap destroyedId <;> simp [openCharge, h]

theorem filterMap_record {α : Type} (get : Row → Option α) (now : ℚ) (row : Row)
    (rows : List Row) : (record now row rows).filterMap get =
      rows.filterMap get ++ (get (row.stamp now)).toList := by
  rw [record, List.filterMap_append]
  cases h : get (row.stamp now) <;> simp [h]

theorem inFlightUsd_other {rows : List Row} (row : Row) (now t : ℚ)
    (hrent : rentedEntry (row.stamp now) = none) (hdestroyed : destroyedId (row.stamp now) = none) :
    inFlightUsd (record now row rows) t = inFlightUsd rows t := by
  have hids := filterMap_record destroyedId now row rows
  rw [hdestroyed, Option.toList_none, List.append_nil] at hids
  have hopen : openCharge (record now row rows) t = openCharge rows t := by
    funext p
    rw [openCharge, openCharge, hids]
  rw [inFlightUsd_eq, inFlightUsd_eq, hopen, record, Dict.latest_append, hrent]

theorem inFlightUsd_rented {rows : List Row} {id : InstanceId} (row : Row) (now t : ℚ)
    (hid : row.instanceId = some id) (hevent : row.event = .rented)
    (hfresh : ∀ e ∈ rows, e.instanceId ≠ some id) :
    inFlightUsd (record now row rows) t = inFlightUsd rows t + burn (row.stamp now) t := by
  have hentry : rentedEntry (row.stamp now) = some (id, row.stamp now) := by
    simp [rentedEntry, Row.stamp, hid, hevent]
  have hdestroyed : destroyedId (row.stamp now) = none := by
    simp [destroyedId, Row.stamp, hid, hevent]
  have hids := filterMap_record destroyedId now row rows
  rw [hdestroyed, Option.toList_none, List.append_nil] at hids
  have hnone : (Dict.latest rentedEntry rows).get id = none := by
    rw [(Dict.latest_spec rentedEntry rows id).2]
    intro e he v hv
    exact hfresh e he (rentedEntry_some hv).2.1
  have hopen : id ∉ rows.filterMap destroyedId := by
    rw [List.mem_filterMap]
    rintro ⟨e, he, hv⟩
    exact hfresh e he (destroyedId_some hv).1
  have hopen' : openCharge (record now row rows) t = openCharge rows t := by
    funext p
    rw [openCharge, openCharge, hids]
  rw [inFlightUsd_eq, inFlightUsd_eq, hopen', record, Dict.latest_append, hentry]
  simp only [Dict.items_set _ hnone, List.map_append, List.sum_append, List.map_cons,
    List.map_nil, List.sum_cons, List.sum_nil, add_zero]
  rw [openCharge, if_neg hopen]

theorem sum_map_drop {κ α : Type} [DecidableEq κ] {items : List (κ × α)} {k : κ} {v : α}
    (f : κ × α → ℚ) (hn : (items.map Prod.fst).Nodup) (hmem : (k, v) ∈ items) :
    (items.map f).sum = (items.map fun p => if p.1 = k then 0 else f p).sum + f (k, v) := by
  induction items with
  | nil => cases hmem
  | cons p items ih =>
    rw [List.map_cons, List.nodup_cons] at hn
    rw [List.map_cons, List.map_cons, List.sum_cons, List.sum_cons]
    rcases List.mem_cons.mp hmem with rfl | hmem
    · have hrest : ∀ q ∈ items, (if q.1 = k then 0 else f q) = f q := by
        intro q hq
        refine if_neg fun hk => hn.1 ?_
        rw [← hk]
        exact List.mem_map.mpr ⟨q, hq, rfl⟩
      rw [if_pos rfl, List.map_congr_left hrest]
      ring
    · have hne : p.1 ≠ k := by
        rintro rfl
        exact hn.1 (List.mem_map.mpr ⟨_, hmem, rfl⟩)
      rw [if_neg hne, ih hn.2 hmem]
      ring

theorem inFlightUsd_destroyed {rows : List Row} {e : Row} {id : InstanceId} (row : Row) (now : ℚ)
    (hid : row.instanceId = some id) (hevent : row.event = .destroyed)
    (hrented : (Dict.latest rentedEntry rows).get id = some e)
    (hopen : id ∉ rows.filterMap destroyedId) :
    inFlightUsd rows now = inFlightUsd (record now row rows) now + burn e now := by
  have hentry : rentedEntry (row.stamp now) = none := by
    simp [rentedEntry, Row.stamp, hid, hevent]
  have hdestroyed : destroyedId (row.stamp now) = some id := by
    simp [destroyedId, Row.stamp, hid, hevent]
  have hids := filterMap_record destroyedId now row rows
  rw [hdestroyed, Option.toList_some] at hids
  have hcharge : openCharge (record now row rows) now =
      fun p => if p.1 = id then 0 else openCharge rows now p := by
    funext p
    rw [openCharge, openCharge, hids]
    by_cases hp : p.1 = id <;> simp [hp]
  have hown : openCharge rows now (id, e) = burn e now := if_neg hopen
  rw [inFlightUsd_eq, inFlightUsd_eq, hcharge, record, Dict.latest_append, hentry, ← hown]
  exact sum_map_drop _ (Dict.latest rentedEntry rows).nodup (Dict.mem_items.mpr hrented)

/-- No `rented` row has a negative price, and each has its time. -/
def Priced (rows : List Row) : Prop :=
  ∀ e ∈ rows, e.event = .rented → 0 ≤ e.dph.getD 0 ∧ e.ts ≠ none

theorem burn_mono {e : Row} {s t : ℚ} (hdph : 0 ≤ e.dph.getD 0) (hts : e.ts ≠ none)
    (h : s ≤ t) : burn e s ≤ burn e t := by
  obtain ⟨ts, hts⟩ := Option.ne_none_iff_exists'.mp hts
  simp only [burn, hts, Option.getD_some]
  have hmax : max 0 (s - ts) ≤ max 0 (t - ts) := max_le_max le_rfl (by linarith)
  exact div_le_div_of_nonneg_right (mul_le_mul_of_nonneg_left hmax hdph) (by norm_num)

theorem burn_nonneg {e : Row} (now : ℚ) (hdph : 0 ≤ e.dph.getD 0) : 0 ≤ burn e now :=
  div_nonneg (mul_nonneg hdph (le_max_left _ _)) (by norm_num)

theorem inFlightUsd_mono {rows : List Row} {s t : ℚ} (hpriced : Priced rows) (h : s ≤ t) :
    inFlightUsd rows s ≤ inFlightUsd rows t := by
  rw [inFlightUsd_eq, inFlightUsd_eq]
  refine List.sum_le_sum fun p hp => ?_
  obtain ⟨e, he, hentry⟩ := (Dict.latest_spec rentedEntry rows p.1).1 p.2 (Dict.mem_items.mp hp)
  obtain ⟨hrow, -, hev⟩ := rentedEntry_some hentry
  obtain ⟨hdph, hts⟩ := hpriced e he hev
  unfold openCharge
  split
  · exact le_rfl
  · rw [hrow]
    exact burn_mono hdph hts h

/-- The costs of a row that `summary` adds up have four decimals. -/
def Booked (e : Row) : Prop :=
  e.event = .destroyed → e.billedS ≠ .null ∧ ∃ n : ℤ, e.estCostUsd = .val (n / 10 ^ 4)

def bookedUsd (rows : List Row) : ℚ :=
  ((destroyedRows rows).map fun e => (e.estCostUsd.getD 0).getD 0).sum

theorem halfEven_int (n : ℤ) : Python.halfEven n = n := by
  simp [Python.halfEven]

theorem round_decimals (n : ℤ) (k j : Nat) :
    Python.round (n / 10 ^ k) (k + j) = n / 10 ^ k := by
  have hint : (n : ℚ) / 10 ^ k * 10 ^ (k + j) = ((n * 10 ^ j : ℤ) : ℚ) := by
    push_cast
    rw [pow_add]
    field_simp
  rw [Python.round, hint, halfEven_int]
  push_cast
  rw [pow_add]
  field_simp

theorem bookedUsd_decimals {rows : List Row} (h : ∀ e ∈ rows, Booked e) :
    ∃ n : ℤ, bookedUsd rows = n / 10 ^ 4 := by
  induction rows with
  | nil => exact ⟨0, by simp [bookedUsd, destroyedRows]⟩
  | cons e rows ih =>
    obtain ⟨n, hn⟩ := ih fun e' he' => h e' (List.mem_cons_of_mem _ he')
    unfold bookedUsd at hn ⊢
    rw [destroyedRows_cons]
    split
    · rename_i hev
      obtain ⟨-, m, hm⟩ := h e List.mem_cons_self hev
      refine ⟨m + n, ?_⟩
      rw [List.map_cons, List.sum_cons, hn, hm, Field.getD_val, Option.getD_some]
      push_cast
      ring
    · exact ⟨n, hn⟩

theorem spentUsd_eq {rows : List Row} (later : List Row) (now : ℚ) (h : ∀ e ∈ rows, Booked e) :
    spentUsd rows later now = .ok (bookedUsd rows + inFlightUsd later now) := by
  have hdestroyed : ∀ e ∈ destroyedRows rows, e.billedS ≠ .null ∧
      ∃ n : ℤ, e.estCostUsd = .val (n / 10 ^ 4) := by
    intro e he
    obtain ⟨hmem, hev⟩ : e ∈ rows ∧ e.event = .destroyed := by simpa [destroyedRows] using he
    exact h e hmem hev
  have hbilled := sumOf_eq (fun e => e.billedS.getD 0) 0 (destroyedRows rows) fun e he =>
    (Field.getD_ne_none _ _).mpr (hdestroyed e he).1
  have hcost := sumOf_eq (fun e => e.estCostUsd.getD 0) 0 (destroyedRows rows) fun e he => by
    obtain ⟨-, n, hn⟩ := hdestroyed e he
    rw [hn]
    exact Option.some_ne_none _
  obtain ⟨n, hn⟩ := bookedUsd_decimals h
  have hround : Python.round (bookedUsd rows) 6 = bookedUsd rows := by
    rw [hn]
    exact round_decimals n 4 2
  rw [zero_add] at hbilled hcost
  have hsum : summary rows = .ok {
      rentals := (rows.filter (fun e => e.event = .rented)).length
      byOutcome := (destroyedRows rows).foldl countOutcome Dict.empty
      totalBilledMin := Python.round
        (((destroyedRows rows).map fun e => (e.billedS.getD 0).getD 0).sum / 60) 1
      totalEstCostUsd := Python.round (bookedUsd rows) 6 } := by
    simp only [summary, hbilled, hcost]
    rfl
  rw [hround] at hsum
  simp only [spentUsd, hsum]
  rfl

end RunFarm
