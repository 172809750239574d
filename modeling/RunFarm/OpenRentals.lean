import RunFarm.Budget
import RunFarm.Reap

/-! Two readers of one ledger decide which rentals are still open: the budget by
`destroyed` rows, the reaper by confirmed ones. -/
set_option autoImplicit false

namespace RunFarm
open Python (Dict)

theorem seenId_rented {e : Row} {iid : InstanceId} (hid : e.instanceId = some iid)
    (hev : e.event = .rented) : seenId e = some iid.str := by simp [seenId, hid, hev]

/-- The instance has a `rented` row, and the reaper does not know it to be gone. -/
def MayBill (rows : List Row) (iid : InstanceId) : Prop :=
  (∃ e ∈ rows, rentedEntry e = some (iid, e)) ∧ iid.str ∈ leakedIds rows

def Charged (rows : List Row) (now : ℚ) (iid : InstanceId) : Prop :=
  ∃ e ∈ rows, rentedEntry e = some (iid, e) ∧ (iid, burn e now) ∈ inFlightCharges rows now

/-- A rented instance with any `destroyed` row has a confirmed one. -/
def TeardownsConfirmed (rows : List Row) : Prop :=
  ∀ iid, (∃ e ∈ rows, rentedEntry e = some (iid, e)) →
    (∃ r ∈ rows, destroyedId r = some iid) → ∃ r ∈ rows, confirmedGoneId r = some iid.str

theorem charged_iff {rows : List Row} {now : ℚ} {iid : InstanceId}
    (hrent : ∃ e ∈ rows, rentedEntry e = some (iid, e)) :
    Charged rows now iid ↔ ∀ r ∈ rows, destroyedId r ≠ some iid := by
  constructor
  · rintro ⟨e, -, -, hcharge⟩
    obtain ⟨-, -, hopen, -⟩ := mem_inFlightCharges.mp hcharge
    exact hopen
  · intro hopen
    obtain ⟨hlast, hsome⟩ := Dict.latest_spec rentedEntry rows iid
    obtain ⟨e₀, he₀, hent₀⟩ := hrent
    cases hget : (Dict.latest rentedEntry rows).get iid with
    | none => exact absurd hent₀ (hsome.mp hget e₀ he₀ e₀)
    | some e =>
      obtain ⟨e', he', hent⟩ := hlast e hget
      obtain ⟨rfl, -, -⟩ := rentedEntry_some hent
      exact ⟨e, he', hent, mem_inFlightCharges.mpr ⟨e, hget, hopen, rfl⟩⟩

/-- The budget charges every box the reaper still suspects exactly when no teardown
was logged without being confirmed. -/
theorem suspects_charged_iff (rows : List Row) (now : ℚ) :
    (∀ iid, MayBill rows iid → Charged rows now iid) ↔ TeardownsConfirmed rows := by
  constructor
  · intro hall iid hrent hdes
    by_contra hgone
    obtain ⟨e, he, hent⟩ := hrent
    obtain ⟨-, hid, hev⟩ := rentedEntry_some hent
    have hleak : iid.str ∈ leakedIds rows := mem_leakedIds.mpr
      ⟨⟨e, he, seenId_rented hid hev⟩, fun r hr hc => hgone ⟨r, hr, hc⟩⟩
    obtain ⟨r, hr, hrid⟩ := hdes
    exact (charged_iff ⟨e, he, hent⟩).mp (hall iid ⟨⟨e, he, hent⟩, hleak⟩) r hr hrid
  · rintro hconf iid ⟨hrent, hleak⟩
    rw [charged_iff hrent]
    intro r hr hrid
    obtain ⟨g, hg, hgid⟩ := hconf iid hrent ⟨r, hr, hrid⟩
    exact (mem_leakedIds.mp hleak).2 g hg hgid

def failedTeardown : List Row :=
  [{ event := .rented, ts := some 1000, instanceId := some (.int 7), dph := some (36/10) },
   { event := .destroyed, ts := some 1100, instanceId := some (.int 7), outcome := .val "ok"
     billedS := .val 100, estCostUsd := .val (1/10), destroyed := some false
     verify := some .present }]

/-- An hour later it still bills, the reaper suspects it, and the budget has it at nothing. -/
theorem failedTeardown_uncharged :
    MayBill failedTeardown (.int 7) ∧ ¬ Charged failedTeardown 4700 (.int 7) ∧
      inFlightUsd failedTeardown 4700 = 0 ∧
      ¬ (∀ rows now iid, MayBill rows iid → Charged rows now iid) := by
  have hrent : ∃ e ∈ failedTeardown, rentedEntry e = some (.int 7, e) := by decide +kernel
  have hbill : MayBill failedTeardown (.int 7) := ⟨hrent, by decide +kernel⟩
  have hnot : ¬ Charged failedTeardown 4700 (.int 7) := by
    rw [charged_iff hrent]
    decide +kernel
  exact ⟨hbill, hnot, by decide +kernel, fun h => hnot (h _ _ _ hbill)⟩

end RunFarm
