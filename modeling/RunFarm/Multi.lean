import Mathlib.Algebra.BigOperators.Group.List.Basic
import Mathlib.Algebra.GroupWithZero.Nat
import RunFarm.Python.Dict

/-! `run_multi`: one campaign over several executors, merged in the order in which they complete. -/
set_option autoImplicit false

namespace RunFarm
open Python

/-- A result record: what `get("run")` gives and its other fields, without `provider`. -/
structure ResultRecord (ρ α : Type) where
  run : ρ
  fields : α
  deriving DecidableEq

structure Harvested (ρ α : Type) extends ResultRecord ρ α where
  provider : String
  deriving DecidableEq

/-- What an executor's `run` raises: an `Exception`, or another `BaseException` (`SystemExit`). -/
inductive RunError where
  | exception (text : String)
  | exit (text : String)
  deriving DecidableEq, Repr

/-- An executor's name, its slice, and what its `run` returns or raises. -/
structure Assignment (κ ρ α : Type) where
  name : String
  configs : List κ
  answer : Except RunError (List (ResultRecord ρ α))

structure ProviderRun (ρ α : Type) where
  provider : String
  nAssigned : Nat
  records : List (Harvested ρ α) := []
  error : Option String := none

structure CampaignReport (ρ α : Type) where
  results : Dict ρ (Harvested ρ α) := Dict.empty
  byProvider : List (ProviderRun ρ α) := []
  duplicates : Dict ρ (List String) := Dict.empty

variable {κ ρ α : Type}

namespace Assignment

def records (a : Assignment κ ρ α) : List (Harvested ρ α) :=
  match a.answer with
  | .ok rs => rs.map fun r => { r with provider := a.name }
  | .error _ => []

def error (a : Assignment κ ρ α) : Option String :=
  match a.answer with
  | .error (.exception text) => some text
  | _ => none

def landed (a : Assignment κ ρ α) : ProviderRun ρ α :=
  ⟨a.name, a.configs.length, a.records, a.error⟩

/-- One round of `stream_multi`: what it yields, or what leaves it. -/
def providerRun (a : Assignment κ ρ α) : Except String (ProviderRun ρ α) :=
  match a.answer with
  | .error (.exception text) => .ok { provider := a.name, nAssigned := a.configs.length,
                                      error := some text }
  -- not an `Exception`: the `except` clause does not take it
  | .error (.exit text) => .error text
  | .ok rs => .ok { provider := a.name, nAssigned := a.configs.length
                    records := rs.map fun r => { r with provider := a.name } }

end Assignment

/-- The assignments that `stream_multi` submits. -/
def submitted (assignments : List (Assignment κ ρ α)) : List (Assignment κ ρ α) :=
  assignments.filter (fun a => !a.configs.isEmpty)

def Completes (assignments order : List (Assignment κ ρ α)) : Prop :=
  order.Perm (submitted assignments)

/-- The records of all executors that returned, in the order of their completion. -/
def records (order : List (Assignment κ ρ α)) : List (Harvested ρ α) :=
  order.flatMap Assignment.records

/-- The slice comes back as a `ProviderRun`. -/
def Assignment.Lands (a : Assignment κ ρ α) : Prop := ∀ text, a.answer ≠ .error (.exit text)

theorem providerRun_ok {a : Assignment κ ρ α} {pr : ProviderRun ρ α} :
    a.providerRun = .ok pr ↔ a.Lands ∧ pr = a.landed := by
  unfold Assignment.providerRun Assignment.Lands Assignment.landed Assignment.records
    Assignment.error
  split <;> simp_all [eq_comm]

theorem mem_records {a : Assignment κ ρ α} {r : Harvested ρ α} (h : r ∈ a.records) :
    r.provider = a.name := by
  unfold Assignment.records at h
  split at h
  · obtain ⟨r₀, _, rfl⟩ := List.mem_map.mp h
    rfl
  · simp at h

theorem records_returned (order : List (Assignment κ ρ α)) :
    records (order.filter fun a => a.error.isNone) = records order := by
  induction order with
  | nil => rfl
  | cons a order ih =>
    have hcons : ∀ order, records (a :: order) = a.records ++ records order :=
      fun order => by simp [records]
    rw [List.filter_cons]
    split
    · rw [hcons, hcons, ih]
    · rename_i hraised
      have hnone : a.records = [] := by
        unfold Assignment.error at hraised
        unfold Assignment.records
        split
        · simp_all
        · rfl
      rw [ih, hcons, hnone, List.nil_append]

theorem records_count (order : List (Assignment κ ρ α)) :
    ((order.map Assignment.landed).map fun pr => pr.records.length).sum =
      (records order).length := by
  simp [records, List.length_flatMap, Function.comp_def, Assignment.landed]

variable [DecidableEq ρ]

namespace CampaignReport

def merge (provider : String) (report : CampaignReport ρ α) (r : Harvested ρ α) :
    CampaignReport ρ α :=
  { report with
    duplicates := match report.results.get r.run with
      | some first => report.duplicates.set r.run
          (((report.duplicates.get r.run).getD [first.provider]) ++ [provider])
      | none => report.duplicates
    results := report.results.set r.run r }

def mergeHashed (hashable : ρ → Bool) (provider : String) (report : CampaignReport ρ α)
    (r : Harvested ρ α) : Except String (CampaignReport ρ α) :=
  if hashable r.run then .ok (report.merge provider r) else .error "TypeError: unhashable type"

def land (hashable : ρ → Bool) (report : CampaignReport ρ α) (pr : ProviderRun ρ α) :
    Except String (CampaignReport ρ α) :=
  pr.records.foldlM (mergeHashed hashable pr.provider)
    { report with byProvider := report.byProvider ++ [pr] }

end CampaignReport

def landNext (hashable : ρ → Bool) (report : CampaignReport ρ α) (a : Assignment κ ρ α) :
    Except String (CampaignReport ρ α) := do
  let pr ← a.providerRun
  report.land hashable pr

def runMulti (hashable : ρ → Bool) (order : List (Assignment κ ρ α)) :
    Except String (CampaignReport ρ α) :=
  order.foldlM (landNext hashable) {}

def harvest (rs : List (Harvested ρ α)) : CampaignReport ρ α :=
  rs.foldl (fun report r => report.merge r.provider r) {}

variable {order order' assignments : List (Assignment κ ρ α)} {rs : List (Harvested ρ α)}
  {run : ρ}

theorem harvest_append (rs : List (Harvested ρ α)) (r : Harvested ρ α) :
    harvest (rs ++ [r]) = (harvest rs).merge r.provider r := by
  simp [harvest]

theorem foldl_byProvider (rs : List (Harvested ρ α)) (report : CampaignReport ρ α)
    (prs : List (ProviderRun ρ α)) :
    rs.foldl (fun report r => report.merge r.provider r) { report with byProvider := prs } =
      { rs.foldl (fun report r => report.merge r.provider r) report with byProvider := prs } := by
  induction rs generalizing report with
  | nil => rfl
  | cons r rs ih => exact ih (report.merge r.provider r)

theorem foldlM_mergeHashed (hashable : ρ → Bool) {provider : String} {rs : List (Harvested ρ α)}
    (report report' : CampaignReport ρ α) (h : ∀ r ∈ rs, r.provider = provider) :
    rs.foldlM (CampaignReport.mergeHashed hashable provider) report = .ok report' ↔
      (∀ r ∈ rs, hashable r.run = true) ∧
        report' = rs.foldl (fun report r => report.merge r.provider r) report := by
  induction rs generalizing report with
  | nil => simp [pure, Except.pure, eq_comm (a := report)]
  | cons r rs ih =>
    rw [List.foldlM_cons, List.foldl_cons, h r (by simp), CampaignReport.mergeHashed]
    by_cases hname : hashable r.run = true
    · simp [bind, Except.bind, hname, ih _ fun r hr => h r (by simp [hr])]
    · simp [bind, Except.bind, hname]

/-- Every slice lands and every run name of its records can be looked up. -/
def Mergeable (hashable : ρ → Bool) (order : List (Assignment κ ρ α)) : Prop :=
  ∀ a ∈ order, a.Lands ∧ ∀ r ∈ a.records, hashable r.run = true

theorem landNext_ok {hashable : ρ → Bool} {report report' : CampaignReport ρ α}
    {a : Assignment κ ρ α} : landNext hashable report a = .ok report' ↔
      (a.Lands ∧ ∀ r ∈ a.records, hashable r.run = true) ∧
        report' = { a.records.foldl (fun report r => report.merge r.provider r) report with
          byProvider := report.byProvider ++ [a.landed] } := by
  have hland : landNext hashable report a = .ok report' ↔
      a.Lands ∧ report.land hashable a.landed = .ok report' := by
    unfold landNext
    cases hrun : a.providerRun with
    | error text =>
      have hno : ¬ a.Lands := fun hlands => by
        rw [providerRun_ok.mpr ⟨hlands, rfl⟩] at hrun
        cases hrun
      simp [bind, Except.bind, hno]
    | ok pr =>
      obtain ⟨hlands, rfl⟩ := providerRun_ok.mp hrun
      simp [bind, Except.bind, hlands]
  have hmerged := foldlM_mergeHashed hashable
    { report with byProvider := report.byProvider ++ [a.landed] } report' fun r hr =>
      mem_records (a := a) hr
  rw [foldl_byProvider] at hmerged
  rw [hland, and_assoc, ← hmerged]
  rfl

theorem runMulti_ok {hashable : ρ → Bool} {report : CampaignReport ρ α} :
    runMulti hashable order = .ok report ↔ Mergeable hashable order ∧
      report = { harvest (records order) with byProvider := order.map Assignment.landed } := by
  induction order using List.reverseRecOn generalizing report with
  | nil =>
    have hnil : Mergeable hashable ([] : List (Assignment κ ρ α)) := by simp [Mergeable]
    rw [and_iff_right hnil]
    constructor
    · intro hreport
      cases hreport
      rfl
    · rintro rfl
      rfl
  | append_singleton order a ih =>
    have hstep : runMulti hashable (order ++ [a]) =
        (runMulti hashable order).bind fun report => landNext hashable report a := by
      simp only [runMulti, List.foldlM_append, List.foldlM_cons, List.foldlM_nil, bind_pure]
      rfl
    have hall : Mergeable hashable (order ++ [a]) ↔ Mergeable hashable order ∧
        a.Lands ∧ ∀ r ∈ a.records, hashable r.run = true := by
      simp only [Mergeable, List.forall_mem_append, List.forall_mem_singleton]
    have hrecords : harvest (records (order ++ [a])) =
        a.records.foldl (fun report r => report.merge r.provider r) (harvest (records order)) := by
      simp [records, harvest]
    rw [hstep, hall, hrecords, List.map_append]
    cases hbefore : runMulti hashable order with
    | error text =>
      have hno : ¬ Mergeable hashable order := fun hmergeable => by
        rw [ih.mpr ⟨hmergeable, rfl⟩] at hbefore
        cases hbefore
      simp [Except.bind, hno]
    | ok before =>
      obtain ⟨hmergeable, rfl⟩ := ih.mp hbefore
      rw [Except.bind, landNext_ok, foldl_byProvider]
      simp [hmergeable]

theorem harvest_results (rs : List (Harvested ρ α)) :
    (harvest rs).results = Dict.latest (fun r => some (r.run, r)) rs := by
  induction rs using List.reverseRecOn with
  | nil => rfl
  | append_singleton rs r ih =>
    rw [harvest_append, Dict.latest_append, ← ih]
    rfl

theorem harvest_keys (rs : List (Harvested ρ α)) (run : ρ) :
    ((harvest rs).results.get run).isSome ↔ ∃ r ∈ rs, r.run = run := by
  obtain ⟨_, hnone⟩ := Dict.latest_spec (fun r : Harvested ρ α => some (r.run, r)) rs run
  rw [harvest_results, ← not_iff_not, Option.not_isSome_iff_eq_none, hnone]
  simp

theorem harvest_get {r : Harvested ρ α} (h : (harvest rs).results.get run = some r) :
    r ∈ rs ∧ r.run = run := by
  obtain ⟨hget, _⟩ := Dict.latest_spec (fun r : Harvested ρ α => some (r.run, r)) rs run
  rw [harvest_results] at h
  obtain ⟨r', hr', hentry⟩ := hget r h
  cases hentry
  exact ⟨hr', rfl⟩

theorem sum_setItem {β : Type} (f : β → Nat) (k : ρ) (v : β)
    (es : List (ρ × β)) :
    ((setItem k v es).map (fun e => f e.2)).sum + ((es.lookup k).map f).getD 0 =
      (es.map (fun e => f e.2)).sum + f v := by
  induction es with
  | nil => simp [setItem]
  | cons e es ih =>
    rw [lookup_cons_ite]
    by_cases hk : e.1 = k
    · simp only [setItem, hk, if_true, List.map_cons, List.sum_cons, Option.map_some,
        Option.getD_some]
      omega
    · have hne : ¬ k = e.1 := fun h => hk h.symm
      simp only [setItem, hk, hne, if_false, List.map_cons, List.sum_cons]
      omega

theorem length_set {β : Type} (d : Dict ρ β) (k : ρ) (v : β) :
    (d.set k v).items.length = d.items.length + if (d.get k).isSome then 0 else 1 := by
  have hkeys : ((d.set k v).items.map Prod.fst).length =
      d.items.length + if (d.get k).isSome then 0 else 1 := by
    rw [Dict.set, keys_setItem]
    by_cases hmem : k ∈ d.items.map Prod.fst
    · rw [if_pos hmem, if_pos (Dict.isSome_get.mpr hmem), List.length_map]
      rfl
    · rw [if_neg hmem, if_neg (fun h => hmem (Dict.isSome_get.mp h)), List.length_append,
        List.length_map]
      rfl
  rwa [List.length_map] at hkeys

def again (d : Dict ρ (List String)) : Nat := (d.items.map (fun e => e.2.length - 1)).sum

theorem again_set (d : Dict ρ (List String)) (k : ρ) (providers : List String) :
    again (d.set k providers) + ((d.get k).map (fun ps => ps.length - 1)).getD 0 =
      again d + (providers.length - 1) :=
  sum_setItem (fun ps : List String => ps.length - 1) k providers d.items

/-- Every record is in `results` or is counted by `duplicates`. -/
structure Conserves (report : CampaignReport ρ α) (count : Nat) : Prop where
  twice : ∀ run providers, report.duplicates.get run = some providers → 2 ≤ providers.length
  total : count = report.results.items.length + again report.duplicates

theorem merge_conserves {report : CampaignReport ρ α} {count : Nat} (h : Conserves report count)
    (provider : String) (r : Harvested ρ α) :
    Conserves (report.merge provider r) (count + 1) := by
  have hlen := length_set report.results r.run r
  cases hfirst : report.results.get r.run with
  | none =>
    rw [hfirst] at hlen
    refine ⟨?_, ?_⟩
    · simp only [CampaignReport.merge, hfirst]
      exact h.twice
    · simp only [CampaignReport.merge, hfirst, hlen, h.total, Option.isSome_none,
        Bool.false_eq_true, if_false]
      omega
  | some first =>
    rw [hfirst] at hlen
    have hsum := again_set report.duplicates r.run
      (((report.duplicates.get r.run).getD [first.provider]) ++ [provider])
    rw [Option.isSome_some, if_pos rfl] at hlen
    refine ⟨?_, ?_⟩
    · intro run providers hget
      simp only [CampaignReport.merge, hfirst, Dict.get_set] at hget
      split at hget
      · cases hget
        cases hold : report.duplicates.get r.run with
        | none => simp
        | some ps =>
          have htwice := h.twice _ _ hold
          simp only [Option.getD_some, List.length_append, List.length_singleton]
          omega
      · exact h.twice run providers hget
    · simp only [CampaignReport.merge, hfirst, hlen, h.total]
      cases hold : report.duplicates.get r.run with
      | none =>
        rw [hold] at hsum
        simp only [Option.map_none, Option.getD_none, List.length_append, List.length_cons,
          List.length_nil] at hsum ⊢
        omega
      | some ps =>
        have htwice := h.twice _ _ hold
        rw [hold] at hsum
        simp only [Option.map_some, Option.getD_some, List.length_append, List.length_cons,
          List.length_nil] at hsum ⊢
        omega

theorem harvest_conserves (rs : List (Harvested ρ α)) : Conserves (harvest rs) rs.length := by
  induction rs using List.reverseRecOn with
  | nil => exact ⟨fun run providers h => (Option.some_ne_none providers h.symm).elim, rfl⟩
  | append_singleton rs r ih =>
    rw [harvest_append, List.length_append]
    exact merge_conserves ih r.provider r

theorem harvest_disjoint (h : (rs.map (·.run)).Nodup) :
    (harvest rs).duplicates = Dict.empty := by
  induction rs using List.reverseRecOn with
  | nil => rfl
  | append_singleton rs r ih =>
    rw [List.map_append, List.map_singleton, List.nodup_append] at h
    obtain ⟨hrs, _, hnew⟩ := h
    have hnone : (harvest rs).results.get r.run = none := by
      rw [← Option.not_isSome_iff_eq_none, harvest_keys]
      rintro ⟨r', hr', hrun⟩
      exact hnew _ (List.mem_map_of_mem hr') _ (List.mem_singleton_self _) hrun
    rw [harvest_append]
    simp only [CampaignReport.merge, hnone, ih hrs]

theorem harvest_order {rs' : List (Harvested ρ α)} (hperm : rs.Perm rs')
    (h : (rs.map (·.run)).Nodup) (run : ρ) :
    (harvest rs).results.get run = (harvest rs').results.get run := by
  cases hget : (harvest rs).results.get run with
  | none =>
    symm
    rw [← Option.not_isSome_iff_eq_none, harvest_keys]
    rw [← Option.not_isSome_iff_eq_none, harvest_keys] at hget
    rintro ⟨r, hr, hrun⟩
    exact hget ⟨r, hperm.mem_iff.mpr hr, hrun⟩
  | some r =>
    obtain ⟨hr, hrun⟩ := harvest_get hget
    obtain ⟨r', hget'⟩ := Option.isSome_iff_exists.mp
      ((harvest_keys rs' run).mpr ⟨r, hperm.mem_iff.mp hr, hrun⟩)
    obtain ⟨hr', hrun'⟩ := harvest_get hget'
    have hsame : r = r' := List.inj_on_of_nodup_map h hr (hperm.mem_iff.mpr hr')
      (hrun.trans hrun'.symm)
    rw [hget', hsame]

/-- For all executors and every order in which they complete there is a report exactly when every
executor returns or raises an `Exception` and every run name is hashable. It has one run for each
slice that is not empty, those that raise have an error and no records and leave the harvest of the
others, no record is lost or counted twice, and with distinct run names the order does not
matter. -/
theorem run_multi_merges (hashable : ρ → Bool) (assignments order : List (Assignment κ ρ α))
    (h : Completes assignments order) :
    ((∃ report, runMulti hashable order = .ok report) ↔
      Mergeable hashable (submitted assignments)) ∧
    ∀ report, runMulti hashable order = .ok report →
      (report.byProvider.map Except.ok).Perm
        ((submitted assignments).map Assignment.providerRun) ∧
      (∀ a ∈ submitted assignments, ∀ text, a.answer = .error (.exception text) →
        a.providerRun = .ok ⟨a.name, a.configs.length, [], some text⟩) ∧
      (∀ a ∈ submitted assignments, ∀ rs, a.answer = .ok rs →
        a.providerRun = .ok ⟨a.name, a.configs.length,
          rs.map fun r => { r with provider := a.name }, none⟩) ∧
      (∃ others, runMulti hashable (order.filter fun a => a.error.isNone) = .ok others ∧
        others.results = report.results ∧ others.duplicates = report.duplicates) ∧
      (∀ run, (report.results.get run).isSome ↔
        ∃ pr ∈ report.byProvider, ∃ r ∈ pr.records, r.run = run) ∧
      (∀ d ∈ report.duplicates.items, 2 ≤ d.2.length) ∧
      (report.byProvider.map fun pr => pr.records.length).sum =
        report.results.items.length +
          (report.duplicates.items.map fun d => d.2.length - 1).sum ∧
      (((report.byProvider.flatMap (·.records)).map (·.run)).Nodup →
        report.duplicates = Dict.empty ∧
        ∀ order', Completes assignments order' → ∃ report',
          runMulti hashable order' = .ok report' ∧
            ∀ run, report'.results.get run = report.results.get run) := by
  have hsame {order' : List (Assignment κ ρ α)} (horder : Completes assignments order') :
      Mergeable hashable order' ↔ Mergeable hashable (submitted assignments) := by
    simp only [Mergeable, horder.mem_iff]
  refine ⟨?_, fun report hreport => ?_⟩
  · simp only [runMulti_ok, exists_and_left, exists_eq, and_true, hsame h]
  obtain ⟨hmergeable, rfl⟩ := runMulti_ok.mp hreport
  have hconserves := harvest_conserves (records order)
  refine ⟨?_, fun a _ text ha => ?_, fun a _ rs ha => ?_, ?_, fun run => ?_, fun d hd => ?_, ?_,
    ?_⟩
  · have hlanded : order.map Assignment.providerRun =
        (order.map Assignment.landed).map Except.ok := by
      rw [List.map_map]
      exact List.map_congr_left fun a ha => providerRun_ok.mpr ⟨(hmergeable a ha).1, rfl⟩
    rw [← hlanded]
    exact h.map _
  · simp [Assignment.providerRun, ha]
  · simp [Assignment.providerRun, ha]
  · refine ⟨_, runMulti_ok.mpr ⟨fun a ha => hmergeable a (List.mem_of_mem_filter ha), rfl⟩, ?_⟩
    simp only [records_returned, and_self]
  · simp only [harvest_keys, records, List.mem_flatMap, List.mem_map]
    constructor
    · rintro ⟨r, ⟨a, ha, hr⟩, hrun⟩
      exact ⟨_, ⟨a, ha, rfl⟩, r, hr, hrun⟩
    · rintro ⟨_, ⟨a, ha, rfl⟩, r, hr, hrun⟩
      exact ⟨r, ⟨a, ha, hr⟩, hrun⟩
  · exact hconserves.twice d.1 d.2 (Dict.mem_items.mp hd)
  · rw [records_count]
    exact hconserves.total
  · intro hdisjoint
    have hnodup : ((records order).map (·.run)).Nodup := by
      simpa [records, List.flatMap_map, Assignment.landed] using hdisjoint
    refine ⟨harvest_disjoint hnodup, fun order' h' => ?_⟩
    refine ⟨_, runMulti_ok.mpr ⟨(hsame h').mpr ((hsame h).mp hmergeable), rfl⟩, fun run => ?_⟩
    have hperm : (records order).Perm (records order') := (h.trans h'.symm).flatMap_right _
    exact (harvest_order hperm hnodup run).symm

def threeSlices : List (Assignment Nat String Nat) :=
  [⟨"modal", [0], .ok [⟨"run_a", 1⟩]⟩, ⟨"vast", [1, 2], .ok [⟨"run_b", 2⟩, ⟨"run_c", 3⟩]⟩,
    ⟨"runpod", [3], .error (.exception "RuntimeError: cloud down")⟩]

theorem threeSlices_merged : ∃ report,
    runMulti (fun _ => true) threeSlices.reverse = .ok report ∧
      report.duplicates = Dict.empty ∧ ∃ report',
        runMulti (fun _ => true) threeSlices = .ok report' ∧
          ∀ run, report'.results.get run = report.results.get run := by
  have hreverse : Completes threeSlices threeSlices.reverse := List.reverse_perm threeSlices
  obtain ⟨hiff, hall⟩ := run_multi_merges (fun _ => true) threeSlices threeSlices.reverse hreverse
  obtain ⟨report, hreport⟩ := hiff.mpr
    (by simp [Mergeable, Assignment.Lands, threeSlices, submitted])
  obtain ⟨-, -, -, -, -, -, -, hdisjoint⟩ := hall report hreport
  obtain ⟨hnone, hsame⟩ := hdisjoint (by
    obtain ⟨-, rfl⟩ := runMulti_ok.mp hreport
    decide)
  exact ⟨report, hreport, hnone, hsame threeSlices (List.Perm.refl threeSlices)⟩

/-- One executor ends with `SystemExit`. -/
def exitSlices : List (Assignment Nat String Nat) :=
  [⟨"modal", [0], .error (.exit "SystemExit: 1")⟩, ⟨"vast", [1], .ok [⟨"run_b", 2⟩]⟩]

def listSlices : List (Assignment Nat (String ⊕ List Nat) Nat) :=
  [⟨"vast", [1], .ok [⟨.inl "run_b", 2⟩]⟩, ⟨"modal", [0], .ok [⟨.inr [0], 1⟩]⟩]

/-- What the other executor returned is lost with the report. -/
theorem exitSlices_lost :
    (Completes exitSlices exitSlices ∧
      ¬ ∃ report, runMulti (fun _ => true) exitSlices = .ok report) ∧
    Completes listSlices listSlices ∧
      ¬ ∃ report, runMulti Sum.isLeft listSlices = .ok report := by
  refine ⟨⟨List.Perm.refl _, ?_⟩, List.Perm.refl _, ?_⟩
  · rintro ⟨report, hreport⟩
    cases hreport
  · rintro ⟨report, hreport⟩
    cases hreport

end RunFarm
