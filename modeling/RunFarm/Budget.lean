import RunFarm.Ledger

set_option autoImplicit false

namespace RunFarm
open Python (Dict)

/-- The entry `_in_flight_usd` files a `rented` row under: its own id, not `str(id)`. -/
def rentedEntry (e : Row) : Option (InstanceId × Row) :=
  match e.instanceId with
  | none => none
  | some iid => if e.event = .rented then some (iid, e) else none

def destroyedId (e : Row) : Option InstanceId :=
  match e.instanceId with
  | none => none
  | some iid => if e.event = .destroyed then some iid else none

def burn (e : Row) (now : ℚ) : ℚ :=
  e.dph.getD 0 * max 0 (now - e.ts.getD now) / 3600

/-- One charge per rental logged `rented` that no `destroyed` row names. -/
def inFlightCharges (rows : List Row) (now : ℚ) : List (InstanceId × ℚ) :=
  let rented := Dict.latest rentedEntry rows
  let destroyed := rows.filterMap destroyedId
  (rented.items.filter (fun p => p.1 ∉ destroyed)).map (fun p => (p.1, burn p.2 now))

def inFlightUsd (rows : List Row) (now : ℚ) : ℚ :=
  ((inFlightCharges rows now).map Prod.snd).sum

/-- `spent_usd` reads the ledger for what is booked, then the clock, and then the ledger again. -/
def spentUsd (rows later : List Row) (now : ℚ) : Except Exc ℚ := do
  let s ← summary rows
  pure (s.totalEstCostUsd + inFlightUsd later now)

theorem rentedEntry_some {e q : Row} {iid : InstanceId} (h : rentedEntry e = some (iid, q)) :
    q = e ∧ e.instanceId = some iid ∧ e.event = .rented := by
  unfold rentedEntry at h
  split at h
  · contradiction
  · split at h
    · rename_i hid hev
      cases h
      exact ⟨rfl, hid, hev⟩
    · contradiction

theorem destroyedId_some {e : Row} {iid : InstanceId} (h : destroyedId e = some iid) :
    e.instanceId = some iid ∧ e.event = .destroyed := by
  unfold destroyedId at h
  split at h
  · cases h
  · rename_i i hi
    split at h
    · cases h
      exact ⟨hi, ‹_›⟩
    · cases h

theorem mem_inFlightCharges {rows : List Row} {now usd : ℚ} {iid : InstanceId} :
    (iid, usd) ∈ inFlightCharges rows now ↔
      ∃ e, (Dict.latest rentedEntry rows).get iid = some e ∧
        (∀ r ∈ rows, destroyedId r ≠ some iid) ∧ usd = burn e now := by
  simp only [inFlightCharges, List.mem_map, List.mem_filter, decide_eq_true_eq,
    List.mem_filterMap, Prod.mk.injEq, Prod.exists, Dict.mem_items]
  constructor
  · rintro ⟨i, e, ⟨he, hd⟩, rfl, rfl⟩
    exact ⟨e, he, fun r hr h => hd ⟨r, hr, h⟩, rfl⟩
  · rintro ⟨e, he, hd, rfl⟩
    refine ⟨iid, e, ⟨he, ?_⟩, rfl, rfl⟩
    rintro ⟨r, hr, h⟩
    exact hd r hr h

theorem spentUsd_ok (rows later : List Row) (now : ℚ) :
    (∃ x, spentUsd rows later now = .ok x) ↔ ∀ e ∈ rows, e.Summable := by
  rw [← summary_ok]
  unfold spentUsd
  cases summary rows with
  | error err => simp [bind, Except.bind]
  | ok s => simp [bind, Except.bind, pure, Except.pure]

end RunFarm
