import RunFarm.ReapCall
import RunFarm.Rent

/-! Which boxes a reap run takes for gone: those of another provider that share the
ledger, and those whose destroy was acknowledged and did nothing. -/
set_option autoImplicit false

namespace RunFarm
open Python (Dict)

def RentedThrough (rows : List Row) (provider : String) (iid : InstanceId) : Prop :=
  ∃ e ∈ rows, e.event = .rented ∧ e.instanceId = some iid ∧ e.provider = some provider

/-- A reap run at one provider leaves the open rows of the boxes live at another alone
exactly when none of their ids is cleared and none of them overlooked. -/
theorem foreign_open_iff (c : ReapCall) (rows : List Row) (other : String)
    (live : List InstanceId) :
    (∀ iid ∈ live, RentedThrough rows other iid → ¬ Closes (c.wrote rows) iid.str) ↔
      ∀ iid ∈ live, RentedThrough rows other iid →
        ¬ c.Cleared rows iid.str ∧ ¬ c.Overlooks rows iid.str := by
  have hsame (iid : InstanceId) : ¬ Closes (c.wrote rows) iid.str ↔
      ¬ c.Cleared rows iid.str ∧ ¬ c.Overlooks rows iid.str := by
    rw [c.wrote_closes, not_or]
  constructor
  · intro h iid hlive hrent
    exact (hsame iid).mp (h iid hlive hrent)
  · intro h iid hlive hrent
    exact (hsame iid).mpr (h iid hlive hrent)

def runpodReap : ReapCall :=
  ⟨Unit, steady [] (.ok ()) 8200, (), { dryRun := false }, rfl, rfl⟩

def sharedLedger : List Row := record 1000 cheapBox.rentedRow []

/-- Reaping at RunPod closes the row of the box that runs at Vast. -/
theorem vastBox_closed : RentedThrough sharedLedger "vast" (.int 7) ∧
    Closes (runpodReap.wrote sharedLedger) "7" ∧
    ¬ (∀ (c : ReapCall) (rows : List Row) (other : String) (live : List InstanceId),
      ∀ iid ∈ live, RentedThrough rows other iid → ¬ Closes (c.wrote rows) iid.str) := by
  have hrent : RentedThrough sharedLedger "vast" (.int 7) := ⟨_, .head _, rfl, rfl, rfl⟩
  have hclosed : Closes (runpodReap.wrote sharedLedger) "7" := by
    unfold Closes
    decide +kernel
  exact ⟨hrent, hclosed, fun h =>
    h runpodReap sharedLedger "vast" [.int 7] (.int 7) (.head _) hrent hclosed⟩

namespace ReapCall

def relisted (c : ReapCall) (rows : List Row) : List Instance :=
  match (c.world.listInstances (reap c.world c.args (some rows) c.before).2.2).1 with
  | .ok live => live
  | .error _ => []

end ReapCall

/-- Every rented box that is still listed after a reap run is still leaked, and no listed
box is logged gone, exactly when the run was told of none of them that it was destroyed or
gone already, overlooked none, and found none logged gone before. -/
theorem still_leaked_iff (c : ReapCall) (rows : List Row) :
    ((∀ i ∈ c.relisted rows, RentedIn rows i.id.str → i.id.str ∈ leakedIds (c.file rows)) ∧
      ∀ e ∈ c.wrote rows, ∀ iid, confirmedGoneId e = some iid →
        iid ∉ (c.relisted rows).map (·.id.str)) ↔
    ∀ i ∈ c.relisted rows, (RentedIn rows i.id.str → i.id.str ∈ leakedIds rows) ∧
      ¬ c.Cleared rows i.id.str ∧ ¬ c.Overlooks rows i.id.str := by
  constructor
  · intro h i hi
    have hopen : ¬ Closes (c.wrote rows) i.id.str := by
      intro hclosed
      obtain ⟨e, he, -, hid⟩ := hclosed
      exact h.2 e he _ ((c.wrote_gone rows he).2.2.trans hid) (List.mem_map_of_mem hi)
    refine ⟨fun hrent => ((c.leaked_file rows _).mp (h.1 i hi hrent)).1, ?_⟩
    rwa [c.wrote_closes, not_or] at hopen
  · intro h
    have hopen : ∀ i ∈ c.relisted rows, ¬ Closes (c.wrote rows) i.id.str := by
      intro i hi
      rw [c.wrote_closes, not_or]
      exact (h i hi).2
    refine ⟨fun i hi hrent => (c.leaked_file rows _).mpr ⟨(h i hi).1 hrent, hopen i hi⟩,
      fun e he iid hgone hlisted => ?_⟩
    obtain ⟨i, hi, rfl⟩ := List.mem_map.mp hlisted
    obtain ⟨hev, -, hid⟩ := c.wrote_gone rows he
    exact hopen i hi ⟨e, he, hev, hid ▸ hgone⟩

def idleReap : ReapCall :=
  ⟨Unit, steady [cheapListed] (.ok ()) 8200, (), { dryRun := false }, rfl, rfl⟩

/-- The box is logged gone while it runs, so no later reap run looks for it. -/
theorem liveBox_logged_gone : cheapListed ∈ idleReap.relisted sharedLedger ∧
    leakedIds sharedLedger = ["7"] ∧ leakedIds (idleReap.file sharedLedger) = [] ∧
    ¬ (∀ (c : ReapCall) rows, ∀ i ∈ c.relisted rows, RentedIn rows i.id.str →
      i.id.str ∈ leakedIds (c.file rows)) := by
  have hlisted : cheapListed ∈ idleReap.relisted sharedLedger := List.mem_singleton.mpr rfl
  have hgone : leakedIds (idleReap.file sharedLedger) = [] := by decide +kernel
  refine ⟨hlisted, by decide +kernel, hgone, fun h => ?_⟩
  have hleaked := h idleReap sharedLedger cheapListed hlisted ⟨_, .head _, rfl⟩
  rw [hgone] at hleaked
  cases hleaked

end RunFarm
