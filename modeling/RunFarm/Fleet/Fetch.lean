import RunFarm.Fleet.Leg

/-! Whether a leg that is reported OK has everything its final transfer was to bring. -/
set_option autoImplicit false

namespace RunFarm
open Files

variable {α : Type}

theorem mkdir_root {d d' : Disk α} (h : (Op.mkdir []).exec d = some d') :
    (Op.mkdir []).exec d' = some d' := by
  have hroot : d' [] = some .dir := by rw [exec_mkdir h, if_pos List.prefix_rfl]
  have hd' : d' = d.set [] .dir := by
    simp only [Op.exec] at h
    split at h
    · cases h
    · cases h
      rfl
  simp only [Op.exec, List.inits, List.any_cons, hroot, List.foldl_cons]
  rw [hd']
  simp [Python.Dict.set_set, Entry.isFile]

theorem publishSteps_head (staging : DirTree α) (marker : String) :
    ∃ rest, publishSteps staging marker = .mkdir [] :: rest := by
  unfold publishSteps
  split
  · exact ⟨[], rfl⟩
  · exact ⟨_, rfl⟩

theorem fetch_eq (leg : FleetLeg α) (copy : CopyDown α) (d : Disk α) :
    fetch leg copy d = publish copy.landed leg.marker d := by
  obtain ⟨rest, hsteps⟩ := publishSteps_head copy.landed leg.marker
  unfold fetch publish
  rw [hsteps]
  cases h : (Op.mkdir []).exec d with
  | none => simp [runTo, h]
  | some d' => simp [runTo, h, mkdir_root h]

def ReportsOk (outcome : Option LegResult) : Prop := ∃ r, outcome = some r ∧ r.status = .ok

theorem judge_ok {ex : Executor α} {leg : FleetLeg α} {d : Disk α} :
    (judge ex leg d).status = .ok ↔
      done leg d = true ∧ ex.validate leg d = none ∧ payloadVerdict leg d = none := by
  unfold judge
  cases done leg d with
  | false => simp [noResult]
  | true =>
    cases ex.validate leg d with
    | some bad => simp [judgeArtifacts, badArtifacts]
    | none => cases h : payloadVerdict leg d <;> simp [judgeArtifacts, verdictResult, h]

theorem afterCommand_ok {ex : Executor α} {leg : FleetLeg α} (hfetch : leg.fetch ≠ "")
    {copy : CopyDown α} {d : Disk α} : ReportsOk (afterCommand ex leg copy d).1 ↔
      (publish copy.landed leg.marker d).2 = true ∧
        (judge ex leg (publish copy.landed leg.marker d).1).status = .ok := by
  unfold afterCommand
  rw [if_neg hfetch, fetch_eq]
  cases h : (publish copy.landed leg.marker d).2 <;> simp [ReportsOk, h]

theorem afterCommand_disk (ex : Executor α) {leg : FleetLeg α} (hfetch : leg.fetch ≠ "")
    (copy : CopyDown α) (d : Disk α) :
    (afterCommand ex leg copy d).2 = (publish copy.landed leg.marker d).1 := by
  unfold afterCommand
  rw [if_neg hfetch, fetch_eq]
  cases h : (publish copy.landed leg.marker d).2 <;> simp [h]

theorem publish_raises {staging : DirTree α} {marker : String} {d : Disk α}
    (h : publishRaises marker = true) :
    publish staging marker d = ((runTo d [.mkdir []]).1, false) := by
  simp [publish, publishSteps, h]

theorem publish_eq {staging : DirTree α} {marker : String} {d : Disk α}
    (h : publishRaises marker = false) :
    publish staging marker d = runTo d (publishOps staging (parts marker)) := by
  simp [publish, publishSteps, h]

theorem publish_run {staging : DirTree α} {marker : String} {d : Disk α}
    (h : (publish staging marker d).2 = true) : publishRaises marker = false ∧
      run d (publishOps staging (parts marker)) = some (publish staging marker d).1 := by
  cases hraises : publishRaises marker with
  | true =>
    rw [publish_raises hraises] at h
    cases h
  | false =>
    rw [publish_eq hraises] at h ⊢
    exact ⟨rfl, runTo_done.mp (Prod.ext rfl h)⟩

theorem publish_returns {staging : DirTree α} {marker : String} {d : Disk α}
    (hraises : publishRaises marker = false) :
    (publish staging marker d).2 = true ↔ Fits d (publishOps staging (parts marker)) := by
  constructor
  · intro h
    exact fits_of_run (publish_run h).2
  · intro hfits
    obtain ⟨d', hrun⟩ := run_fits (publishOps_prepared staging (parts marker))
      (fun _ h => h.elim) hfits (publishOps_separate staging (parts marker))
    rw [publish_eq hraises, runTo_done.mpr hrun]

def CopyDown.HasMarker (copy : CopyDown α) (leg : FleetLeg α) : Prop :=
  leg.marker ≠ "" ∧ copy.landed.forest.lookup (parts leg.marker) ≠ none

theorem CopyDown.HasMarker.parts_ne {leg : FleetLeg α} {copy : CopyDown α}
    (h : copy.HasMarker leg) (hraises : publishRaises leg.marker = false) :
    parts leg.marker ≠ [] := by
  intro hparts
  simp [publishRaises, h.1, hparts] at hraises

theorem complete_publish {leg : FleetLeg α} {copy : CopyDown α} {d : Disk α}
    (h : (publish copy.landed leg.marker d).2 = true) :
    complete leg (publish copy.landed leg.marker d).1 = true ↔
      complete leg d = true ∨ copy.HasMarker leg := by
  obtain ⟨hraises, hrun⟩ := publish_run h
  unfold complete CopyDown.HasMarker
  by_cases hm : leg.marker = ""
  · simp [hm]
  · have hne : parts leg.marker ≠ [] := by simpa [publishRaises, hm] using hraises
    have hnew : (publish copy.landed leg.marker d).1 (parts leg.marker) ≠ none ↔
        d (parts leg.marker) ≠ none ∨ copy.landed.forest.lookup (parts leg.marker) ≠ none := by
      constructor
      · intro hthere
        by_contra hnone
        obtain ⟨hold, hland⟩ := not_or.mp hnone
        obtain ⟨op, hop, hbelow⟩ := run_appears hrun (not_not.mp hold) hthere
        exact hland (publishOps_lookup copy.landed (parts leg.marker) hne hop hbelow)
      · intro hthere
        rcases hthere with hold | hland
        · exact run_exists hrun hold
        · obtain ⟨before, op, behind, hops, hpath, _⟩ := publish_split hne hland
          exact hpath ▸ run_makes hrun (hops ▸ List.mem_append_right _ (.head _))
    simpa [hm, Option.isSome_iff_ne_none] using hnew

def Blocked (staging : DirTree α) (marker : Path) (d : Disk α) : Prop :=
  ∃ before op behind, publishOps staging marker = before ++ op :: behind ∧ op.path = marker ∧
    (∀ o ∈ before, ¬ marker <+: o.path) ∧ ¬ Fits d (before ++ [op])

theorem complete_eq_false {leg : FleetLeg α} (hm : leg.marker ≠ "") {d : Disk α} :
    complete leg d = false ↔ d (parts leg.marker) = none := by
  simp [complete, hm]

theorem not_blocked_root {staging : DirTree α} {d : Disk α} (hnone : d [] = none) :
    ¬ Blocked staging [] d := by
  rintro ⟨before, op, behind, hops, hpath, hpre, hfits⟩
  cases before with
  | cons o before => exact hpre o (.head _) List.nil_prefix
  | nil =>
    have hop : op = .mkdir [] := by
      simp only [publishOps, List.nil_append, List.cons.injEq] at hops
      exact hops.1.symm
    refine hfits ⟨fun p hp q hq c hfile => ?_, fun p c hp => ?_⟩
    · have hpnil : p = [] := by simpa [hop] using hp
      rw [hpnil, List.prefix_nil] at hq
      rw [hq, hnone] at hfile
      cases hfile
    · simp [hop] at hp

theorem stuck_iff_blocked {leg : FleetLeg α} {copy : CopyDown α} {d : Disk α}
    (hmark : copy.HasMarker leg) :
    ((publish copy.landed leg.marker d).2 = false ∧
        complete leg (publish copy.landed leg.marker d).1 = false) ↔
      complete leg d = false ∧ Blocked copy.landed (parts leg.marker) d := by
  rw [complete_eq_false hmark.1, complete_eq_false hmark.1]
  cases hraises : publishRaises leg.marker with
  | true =>
    -- the leg directory itself is the marker, and it is made before anything is raised
    have hparts : parts leg.marker = [] := by
      simp only [publishRaises, Bool.and_eq_true, decide_eq_true_eq] at hraises
      exact hraises.2
    rw [publish_raises hraises, hparts]
    constructor
    · intro h
      have hnone : d [] = none := by
        by_contra hthere
        exact runTo_exists _ hthere h.2
      simp [runTo, Op.exec, hnone] at h
    · exact fun h => absurd h.2 (not_blocked_root h.1)
  | false =>
    rw [publish_eq hraises]
    have hprep := publishOps_prepared copy.landed (parts leg.marker)
    have hsep := publishOps_separate copy.landed (parts leg.marker)
    constructor
    · intro h
      have hnone : d (parts leg.marker) = none := by
        by_contra hthere
        exact runTo_exists _ hthere h.2
      obtain ⟨before, op, behind, hops, hpath, hpre, _⟩ :=
        publish_split (hmark.parts_ne hraises) hmark.2
      have hops' : publishOps copy.landed (parts leg.marker) = (before ++ [op]) ++ behind := by
        simp [hops]
      refine ⟨hnone, before, op, behind, hops, hpath, hpre, fun hfits => ?_⟩
      rw [hops'] at hprep hsep
      obtain ⟨d₁, hrun⟩ := run_fits hprep.of_append (fun _ h => h.elim) hfits hsep.of_append
      have hmade : d₁ (parts leg.marker) ≠ none := hpath ▸ run_makes hrun (by simp)
      rw [hops', runTo_append, runTo_done.mpr hrun] at h
      exact runTo_exists behind hmade h.2
    · intro h
      obtain ⟨hnone, before, op, behind, hops, _, hpre, hfits⟩ := h
      have hstop : run d (before ++ [op]) = none :=
        Option.eq_none_iff_forall_ne_some.mpr fun d₁ hrun => hfits (fits_of_run hrun)
      rw [hops, runTo_stuck hstop]
      refine ⟨rfl, ?_⟩
      by_contra hthere
      obtain ⟨o, ho, hbelow⟩ := runTo_appears hnone hthere
      exact hpre o ho hbelow

/-- An OK leg has every file of the remote tree, and a transfer that fails after the marker
was copied makes the leg neither OK nor complete. -/
def Trusted (ex : Executor α) (leg : FleetLeg α) (copy : CopyDown α) (d : Disk α) : Prop :=
  (ReportsOk (afterCommand ex leg copy d).1 → ∀ p c, (p, c) ∈ copy.remote.files →
    ∃ c', (afterCommand ex leg copy d).2 p = some (.file c')) ∧
  (copy.rc ≠ 0 → copy.HasMarker leg → ¬ ReportsOk (afterCommand ex leg copy d).1 ∧
    complete leg (afterCommand ex leg copy d).2 = false)

def Covered (copy : CopyDown α) (d : Disk α) : Prop :=
  ∀ p c, (p, c) ∈ copy.remote.files →
    (∃ c', (p, c') ∈ copy.landed.files) ∨ ∃ c', d p = some (.file c')

def CopyDown.overlay (copy : CopyDown α) (leg : FleetLeg α) (d : Disk α) : Disk α :=
  (publishOps copy.landed (parts leg.marker)).foldl Op.put d

/-- The transfer succeeded; or it failed before the marker and something else keeps the leg
from being OK or nothing is missing; or it failed behind a marker that is blocked. -/
def FetchSafe (ex : Executor α) (leg : FleetLeg α) (copy : CopyDown α) (d : Disk α) : Prop :=
  copy.rc = 0 ∨
  (¬ copy.HasMarker leg ∧
    (done leg d = false ∨ ¬ Fits d (publishOps copy.landed (parts leg.marker)) ∨
      ex.validate leg (copy.overlay leg d) ≠ none ∨
      payloadVerdict leg (copy.overlay leg d) ≠ none ∨ Covered copy d)) ∨
  (copy.HasMarker leg ∧ complete leg d = false ∧ Blocked copy.landed (parts leg.marker) d)

section
variable {ex : Executor α} {leg : FleetLeg α} {copy : CopyDown α} {d : Disk α}

theorem present_of_covered (h : (publish copy.landed leg.marker d).2 = true)
    (hcov : Covered copy d) : ∀ p c, (p, c) ∈ copy.remote.files →
      ∃ c', (publish copy.landed leg.marker d).1 p = some (.file c') := by
  obtain ⟨_, hrun⟩ := publish_run h
  intro p c hfile
  rcases hcov p c hfile with hland | hold
  · obtain ⟨c', hland⟩ := hland
    have hop := (replace_mem_publishOps copy.landed (parts leg.marker)).mpr hland
    exact ⟨c', run_replaced hrun hop fun c'' h => publishOps_same _ _ hop h⟩
  · obtain ⟨c', hold⟩ := hold
    exact run_keeps_some_file hrun hold

theorem covered_of_present (h : (publish copy.landed leg.marker d).2 = true)
    (hall : ∀ p c, (p, c) ∈ copy.remote.files →
      ∃ c', (publish copy.landed leg.marker d).1 p = some (.file c')) : Covered copy d := by
  obtain ⟨_, hrun⟩ := publish_run h
  intro p c hfile
  obtain ⟨c', hthere⟩ := hall p c hfile
  rcases run_file_origin hrun hthere with hold | hop
  · exact .inr ⟨c', hold⟩
  · exact .inl ⟨c', (replace_mem_publishOps _ _).mp hop⟩

theorem done_publish (h : (publish copy.landed leg.marker d).2 = true)
    (hno : ¬ copy.HasMarker leg) :
    done leg (publish copy.landed leg.marker d).1 = done leg d := by
  have hsame : complete leg (publish copy.landed leg.marker d).1 = complete leg d := by
    rw [Bool.eq_iff_iff, complete_publish h]
    exact or_iff_left hno
  rw [done, done, hsame]

theorem trusted_of_rc (hfetch : leg.fetch ≠ "") (hrc : copy.rc = 0) : Trusted ex leg copy d := by
  refine ⟨fun hok => ?_, fun hne => absurd hrc hne⟩
  have hall : copy.landed = copy.remote := copy.whole.mp hrc
  have hcov : Covered copy d := fun p c hfile => .inl ⟨c, hall ▸ hfile⟩
  rw [afterCommand_disk ex hfetch]
  exact present_of_covered ((afterCommand_ok hfetch).mp hok).1 hcov

theorem trusted_marker (hfetch : leg.fetch ≠ "") (hrc : copy.rc ≠ 0)
    (hmark : copy.HasMarker leg) : Trusted ex leg copy d ↔
      complete leg d = false ∧ Blocked copy.landed (parts leg.marker) d := by
  rw [← stuck_iff_blocked hmark]
  unfold Trusted
  rw [afterCommand_disk ex hfetch]
  constructor
  · intro h
    obtain ⟨_, hcomplete⟩ := h.2 hrc hmark
    refine ⟨?_, hcomplete⟩
    by_contra hpub
    rw [Bool.not_eq_false] at hpub
    rw [(complete_publish hpub).mpr (.inr hmark)] at hcomplete
    cases hcomplete
  · intro h
    obtain ⟨hpub, hcomplete⟩ := h
    have hnot : ¬ ReportsOk (afterCommand ex leg copy d).1 := by
      rw [afterCommand_ok hfetch, hpub]
      simp
    exact ⟨fun hok => absurd hok hnot, fun _ _ => ⟨hnot, hcomplete⟩⟩

theorem trusted_markerless (hfetch : leg.fetch ≠ "") (hmark : ¬ copy.HasMarker leg) :
    Trusted ex leg copy d ↔
      (ReportsOk (afterCommand ex leg copy d).1 → Covered copy d) := by
  unfold Trusted
  rw [afterCommand_disk ex hfetch]
  constructor
  · intro h hok
    exact covered_of_present ((afterCommand_ok hfetch).mp hok).1 (h.1 hok)
  · intro h
    refine ⟨fun hok => ?_, fun _ hm => absurd hm hmark⟩
    exact present_of_covered ((afterCommand_ok hfetch).mp hok).1 (h hok)

theorem ok_markerless (hfetch : leg.fetch ≠ "") (hmark : ¬ copy.HasMarker leg) :
    ReportsOk (afterCommand ex leg copy d).1 ↔
      done leg d = true ∧ Fits d (publishOps copy.landed (parts leg.marker)) ∧
        ex.validate leg (copy.overlay leg d) = none ∧
        payloadVerdict leg (copy.overlay leg d) = none := by
  have hraises : publishRaises leg.marker = false := by
    by_contra h
    rw [Bool.not_eq_false] at h
    simp only [publishRaises, Bool.and_eq_true, decide_eq_true_eq] at h
    exact hmark ⟨h.1, by rw [h.2]; exact Option.some_ne_none _⟩
  rw [afterCommand_ok hfetch, judge_ok]
  have hoverlay (hpub : (publish copy.landed leg.marker d).2 = true) :
      (publish copy.landed leg.marker d).1 = copy.overlay leg d := run_put (publish_run hpub).2
  constructor
  · intro h
    obtain ⟨hpub, hdone, hjudged⟩ := h
    rw [hoverlay hpub] at hjudged
    exact ⟨done_publish hpub hmark ▸ hdone, (publish_returns hraises).mp hpub, hjudged⟩
  · intro h
    obtain ⟨hdone, hfits, hjudged⟩ := h
    have hpub := (publish_returns hraises).mpr hfits
    rw [← hoverlay hpub] at hjudged
    exact ⟨hpub, (done_publish hpub hmark).trans hdone, hjudged⟩

/-- An OK leg can be trusted exactly when the return code of its last transfer was 0, the
transfer failed before it copied the marker and the leg is not OK for another reason or
lacks nothing, or something was in the way of the marker. -/
theorem trusted_iff_fetchSafe (hfetch : leg.fetch ≠ "") :
    Trusted ex leg copy d ↔ FetchSafe ex leg copy d := by
  unfold FetchSafe
  by_cases hrc : copy.rc = 0
  · exact iff_of_true (trusted_of_rc hfetch hrc) (.inl hrc)
  by_cases hmark : copy.HasMarker leg
  · rw [trusted_marker hfetch hrc hmark]
    simp [hrc, hmark]
  · rw [trusted_markerless hfetch hmark, ok_markerless hfetch hmark]
    simp only [hrc, hmark, false_or, false_and, or_false, not_false_eq_true, true_and]
    rw [imp_iff_not_or, not_and_or, not_and_or, not_and_or, Bool.not_eq_true]
    simp only [or_assoc, ne_eq]

end

def readable : Formats String where
  size c := c.length
  zip _ := none
  gzip _ := none
  tar _ := none
  json _ := none
  npy _ := none

def outLeg : FleetLeg String where
  label := "arm-a"
  fetch := "out"
  doneWhen := "out/manifest.json"

def wholeCopy : CopyDown String where
  remote := fetchedOut
  landed := fetchedOut
  rc := 0
  subset _ c h := ⟨c, h⟩
  whole := by simp

theorem wholeCopy_trusted :
    Trusted { formats := readable } outLeg wholeCopy Python.Dict.empty :=
  (trusted_iff_fetchSafe (by decide)).mpr (.inl rfl)

def tornCopy : CopyDown String where
  remote := fetchedOut
  landed := { forest := .dir "out" (.file "manifest.json" "done" .nil) .nil
              wf := by simp [Forest.WF, Forest.names] }
  rc := 1
  subset p c h := ⟨c, by simp_all [DirTree.files, Forest.files, fetchedOut]⟩
  whole := by
    have hforest : fetchedOut.forest ≠ .dir "out" (.file "manifest.json" "done" .nil) .nil := by
      decide
    exact iff_of_false (by decide) fun h => hforest (congrArg DirTree.forest h).symm

/-- The leg is OK and will be skipped from then on, without its array. -/
theorem tornCopy_ok :
    ReportsOk (afterCommand { formats := readable } outLeg tornCopy Python.Dict.empty).1 ∧
    complete outLeg
      (afterCommand { formats := readable } outLeg tornCopy Python.Dict.empty).2 = true ∧
    (afterCommand { formats := readable } outLeg tornCopy Python.Dict.empty).2
      ["out", "field.npz"] = none ∧
    ¬ (∀ (ex : Executor String) (leg : FleetLeg String) (copy : CopyDown String)
      (d : Disk String), leg.fetch ≠ "" → Trusted ex leg copy d) := by
  have hok : ReportsOk
      (afterCommand { formats := readable } outLeg tornCopy Python.Dict.empty).1 :=
    ⟨{ label := "arm-a", status := .ok }, by decide +kernel, rfl⟩
  refine ⟨hok, by decide +kernel, by decide +kernel, fun h => ?_⟩
  have hmark : tornCopy.HasMarker outLeg := ⟨by decide, by decide +kernel⟩
  exact ((h _ outLeg tornCopy Python.Dict.empty (by decide)).2 (by decide) hmark).1 hok

end RunFarm
