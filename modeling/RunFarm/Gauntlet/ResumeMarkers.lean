import RunFarm.Fleet.Resume

/-! The launch check that names the legs a campaign will skip, beside the campaign itself. -/
set_option autoImplicit false

namespace RunFarm
open Files Transition

structure CheckResult where
  name : String
  ok : Bool
  detail : String
  proves : String := ""
  fatal : Bool := true
  deriving DecidableEq, Repr

def CheckResult.blocking (r : CheckResult) : Bool := !r.ok && r.fatal

variable {α : Type}

/-- `out_dir / leg.label / marker`, from `out_dir` down. -/
def markerPath (leg : FleetLeg α) : Path := parts leg.label ++ parts leg.marker

/-- The legs that the loop appends to `skipping`. -/
def resumeSkipping (legs : List (FleetLeg α)) (out : Disk α) : List (FleetLeg α) :=
  legs.filter (fun leg => leg.marker ≠ "" && (out (markerPath leg)).isSome)

def unmarked (legs : List (FleetLeg α)) : List (FleetLeg α) :=
  legs.filter (fun leg => leg.marker = "")

def resumeName : String := "resume-markers-intended"

def resumeProves : String :=
  "names every leg that will be skipped and how old its marker is. " ++
  "Does NOT prove a marker's contents are correct or that it came " ++
  "from the campaign you think it did -- only a human can say that."

/-- `age` is the text of a marker's age in hours. -/
def resumeMarkers (age : Path → String) (legs : List (FleetLeg α)) (out : Disk α) : CheckResult :=
  let skipping := (resumeSkipping legs out).map (fun leg =>
    leg.label ++ " (marker " ++ leg.marker ++ ", " ++ age (markerPath leg) ++ "h old)")
  let bits :=
    (if skipping = [] then [] else
      [toString skipping.length ++ " leg(s) will be SKIPPED: " ++ "; ".intercalate skipping ++
        " -- confirm these came from THIS campaign and provider"]) ++
    (if unmarked legs = [] then [] else
      [toString (unmarked legs).length ++ " leg(s) have no done_when marker and can " ++
        "never resume: " ++ ", ".intercalate ((unmarked legs).map FleetLeg.label)])
  if bits = [] then
    { name := resumeName, ok := true, proves := resumeProves
      detail := "no leg pre-skips; all " ++ toString legs.length ++ " will run" }
  else
    { name := resumeName, ok := false, detail := " | ".intercalate bits, proves := resumeProves
      fatal := false }

def below (root : Path) (d : Disk α) : Disk α where
  items := (d.items.filter (fun e => root <+: e.1)).map (fun e => (e.1.drop root.length, e.2))
  nodup := by
    rw [List.map_map]
    refine List.Nodup.map_on ?_ ((List.Nodup.of_map _ d.nodup).filter _)
    intro a ha b hb hab
    obtain ⟨p, hp⟩ := of_decide_eq_true (List.mem_filter.mp ha).2
    obtain ⟨q, hq⟩ := of_decide_eq_true (List.mem_filter.mp hb).2
    have hsame : p = q := by simpa [← hp, ← hq] using hab
    exact List.inj_on_of_nodup_map d.nodup (List.mem_filter.mp ha).1 (List.mem_filter.mp hb).1
      (by rw [← hp, ← hq, hsame])

theorem below_get (root : Path) (d : Disk α) (p : Path) : below root d p = d (root ++ p) := by
  refine Option.ext fun e => ?_
  rw [← Python.Dict.mem_items, ← Python.Dict.mem_items, below]
  constructor
  · intro h
    obtain ⟨⟨q, e'⟩, hin, heq⟩ := List.mem_map.mp h
    obtain ⟨hitem, hbelow⟩ := List.mem_filter.mp hin
    obtain ⟨r, rfl⟩ := of_decide_eq_true hbelow
    simp only [List.drop_left, Prod.mk.injEq] at heq
    exact heq.1 ▸ heq.2 ▸ hitem
  · intro h
    refine List.mem_map.mpr ⟨(root ++ p, e), List.mem_filter.mpr ⟨h, ?_⟩, by simp⟩
    simp

def legDir (out : Disk α) (leg : FleetLeg α) : Disk α := below (parts leg.label) out

theorem mem_resumeSkipping {legs : List (FleetLeg α)} {out : Disk α} {leg : FleetLeg α} :
    leg ∈ resumeSkipping legs out ↔ leg ∈ legs ∧ complete leg (legDir out leg) = true := by
  rw [resumeSkipping, List.mem_filter, complete, legDir, below_get, markerPath]

def Unskipped (s : LegState α) : Prop :=
  ∀ r, s.phase = .closing r ∨ s.phase = .settled r → r.status ≠ .skip

theorem Unskipped.of_phase {s : LegState α} {p : Phase α} (hphase : s.phase = p)
    (h : ∀ r, p = .closing r ∨ p = .settled r → r.status ≠ .skip) : Unskipped s :=
  fun r hr => h r (hphase ▸ hr)

theorem verdictResult_unskipped (leg : FleetLeg α) (d : Disk α) :
    (verdictResult leg d).status ≠ .skip := by
  unfold verdictResult
  split <;> simp

theorem failure_unskipped (leg : FleetLeg α) (e : Raised) : (failure leg e).status ≠ .skip := by
  unfold failure
  simp only
  split <;> simp

theorem afterValidation_unskipped (leg : FleetLeg α) (report : ArrivalReport) (r : LegResult)
    (h : afterValidation leg report = .closing r ∨ afterValidation leg report = .settled r) :
    r.status ≠ .skip := by
  unfold afterValidation at h
  split at h <;> rcases h with h | h <;> cases h
  simp [badArtifacts]

theorem afterFetch_unskipped (ex : Executor α) (leg : FleetLeg α) (d : Disk α) (r : LegResult)
    (h : afterFetch ex leg d = .closing r ∨ afterFetch ex leg d = .settled r) :
    r.status ≠ .skip := by
  unfold afterFetch at h
  split at h
  · split at h
    · split at h
      · exact afterValidation_unskipped leg _ r h
      · rcases h with h | h <;> cases h
    · rcases h with h | h <;> cases h
  · rcases h with h | h <;> cases h
    simp [noResult]

theorem afterRaise_unskipped (leg : FleetLeg α) (e : Raised) (r : LegResult)
    (h : afterRaise leg e = .closing r ∨ afterRaise leg e = .settled r) : r.status ≠ .skip := by
  unfold afterRaise at h
  split at h <;> rcases h with h | h <;> cases h
  exact failure_unskipped leg e

variable {ex : Executor α} {leg : FleetLeg α} {s s' : LegState α} {e : LegEvent α}

theorem step_unskipped (hs : s.step ex leg e = some s') (h : Unskipped s) : Unskipped s' := by
  have hstep := leg_step hs
  cases hstep with
  | offered | started | exited | copied | moved | published | scanned | nothing | broke =>
    exact .of_phase rfl (by simp)
  | drained => exact .of_phase rfl (by simp [noOffers])
  | streamed log d phase => exact .of_phase phase (by simp)
  | failed rc out => exact .of_phase rfl (by simp [runFail])
  | checked => exact .of_phase rfl (afterFetch_unskipped ex leg s.disk)
  | validated report => exact .of_phase rfl (afterValidation_unskipped leg _)
  | judged => exact .of_phase rfl (by simpa using verdictResult_unskipped leg s.disk)
  | closed r phase => exact .of_phase rfl (by simpa using h r (.inl phase))
  | raised e => exact .of_phase rfl (afterRaise_unskipped leg e)
  | pull => exact h

theorem step_settled {r : LegResult} (hs : s.step ex leg e = some s')
    (h : s.phase = .settled r) : s'.phase = .settled r := by
  have hstep := leg_step hs
  cases hstep with
  | pull => exact h
  | raised e phase => simp [h, Phase.onOffer] at phase
  | _ => simp_all

section
variable {legs : List (FleetLeg α)} {out : Disk α} {F F' : Fleet α}

/-- A call of `run` over an output tree, up to some moment before it ends; legs that share a
label are refused. -/
def RunReaches (ex : Executor α) (legs : List (FleetLeg α)) (out : Disk α) (F : Fleet α) : Prop :=
  ∃ (unique : (legs.map FleetLeg.label).Nodup) (F₀ F₁ : Fleet α)
    (events : List (String × LegEvent α)),
    (∀ leg ∈ legs, (F₀ leg.label).disk = legDir out leg) ∧
    F₀.step ex ⟨legs, unique⟩ .launched = some F₁ ∧
    exec (Fleet.step ex ⟨legs, unique⟩) F₁ (events.map fun e => .leg e.1 e.2) = some F

theorem legs_keep {L : Legs α} (hleg : leg ∈ L.legs) {I : LegState α → Prop}
    (hstep : ∀ {s e s'}, s.step ex leg e = some s' → I s → I s')
    {events : List (String × LegEvent α)}
    (h : exec (Fleet.step ex L) F (events.map fun e => .leg e.1 e.2) = some F')
    (hI : I (F leg.label)) : I (F' leg.label) := by
  refine exec_keeps_mem (I := fun F => I (F leg.label))
    (P := fun event => ∃ label e, event = FleetEvent.leg label e) ?_ ?_ h hI
  · rintro F event F' ⟨label, e, rfl⟩ hF hI
    have hseen := fleet_seen hleg hF
    generalize F' leg.label = s' at hseen ⊢
    cases hseen with
    | own e s' step => exact hstep step hI
    | other label e ne => exact hI
  · intro event hevent
    obtain ⟨⟨label, e⟩, _, rfl⟩ := List.mem_map.mp hevent
    exact ⟨label, e, rfl⟩

theorem reaches_skip (h : RunReaches ex legs out F) (hleg : leg ∈ legs) :
    (F leg.label).phase.report = some .skip ↔ complete leg (legDir out leg) = true := by
  obtain ⟨unique, F₀, F₁, events, hdisk, hlaunch, hrun⟩ := h
  have hstart := (fleet_launch (L := ⟨legs, unique⟩) hleg hlaunch).2
  rw [LegState.launch, hdisk leg hleg] at hstart
  by_cases hc : complete leg (legDir out leg) = true
  · rw [if_pos hc] at hstart
    have hsettled : (F leg.label).phase = .settled (skipResult leg) :=
      legs_keep (I := fun s => s.phase = .settled (skipResult leg)) hleg
        (fun hs h => step_settled hs h) hrun (by rw [hstart])
    exact iff_of_true (by rw [hsettled]; rfl) hc
  · rw [if_neg hc] at hstart
    have hunskipped : Unskipped (F leg.label) :=
      legs_keep hleg (fun hs h => step_unskipped hs h) hrun (by rw [hstart]; simp [Unskipped])
    refine iff_of_false (fun hreport => ?_) hc
    cases hphase : (F leg.label).phase with
    | settled r =>
      rw [hphase] at hreport
      exact hunskipped r (.inr hphase) (Option.some.inj hreport)
    | _ => simp [hphase, Phase.report] at hreport

theorem reaches_start (ex : Executor α) (out : Disk α)
    (unique : (legs.map FleetLeg.label).Nodup) : ∃ F, RunReaches ex legs out F := by
  have hlegs : ∀ leg ∈ legs, legs.find? (fun l => l.label = leg.label) = some leg :=
    fun leg hleg => find_label unique hleg
  let F₀ : Fleet α := fun label =>
    { disk := (legs.find? fun l => l.label = label).elim out (legDir out) }
  have hended : legs.all (fun leg => (F₀ leg.label).phase.ended) = true :=
    List.all_eq_true.mpr fun _ _ => rfl
  refine ⟨_, unique, F₀, _, [], fun leg hleg => ?_, if_pos hended, rfl⟩
  change (legs.find? fun l => l.label = leg.label).elim out (legDir out) = _
  rw [hlegs leg hleg, Option.elim_some]

/-- The check tells what `run` will report of each leg. -/
def SkipsTold (ex : Executor α) (legs : List (FleetLeg α)) (out : Disk α) : Prop :=
  ∀ leg ∈ legs,
    (leg ∈ resumeSkipping legs out → (∃ F, RunReaches ex legs out F) ∧
      ∀ F, RunReaches ex legs out F → (F leg.label).phase.report = some .skip) ∧
    (leg ∉ resumeSkipping legs out →
      ∀ F, RunReaches ex legs out F → (F leg.label).phase.report ≠ some .skip)

theorem skipsTold_iff (ex : Executor α) (legs : List (FleetLeg α)) (out : Disk α) :
    SkipsTold ex legs out ↔ (legs.map FleetLeg.label).Nodup ∨
      ∀ leg ∈ legs, complete leg (legDir out leg) = false := by
  constructor
  · intro h
    refine Classical.or_iff_not_imp_left.mpr fun hdouble leg hin => ?_
    by_contra hc
    have hleg : leg ∈ resumeSkipping legs out := mem_resumeSkipping.mpr ⟨hin, by simpa using hc⟩
    obtain ⟨F, unique, _⟩ := ((h leg hin).1 hleg).1
    exact hdouble unique
  · intro hcase leg hin
    refine ⟨fun hleg => ⟨?_, fun F hF => ?_⟩, fun hleg F hF hreport => ?_⟩
    · rcases hcase with unique | hnone
      · exact reaches_start ex out unique
      · have hno := hnone leg hin
        rw [(mem_resumeSkipping.mp hleg).2] at hno
        cases hno
    · exact (reaches_skip hF hin).mpr (mem_resumeSkipping.mp hleg).2
    · exact hleg (mem_resumeSkipping.mpr ⟨hin, (reaches_skip hF hin).mp hreport⟩)

end

end RunFarm
