import RunFarm.Fleet.Campaign
import RunFarm.Fleet.Fetch

/-! What a relaunch makes of a leg directory: a leg is skipped for its marker alone. -/
set_option autoImplicit false

namespace RunFarm
open Files Transition

variable {α : Type} {ex : Executor α} {leg : FleetLeg α} {s s' : LegState α}
  {e : LegEvent α}

theorem run_one {d d' : Disk α} {op : Op α} (h : op.exec d = some d') :
    run d [op] = some d' := by
  rw [run_cons, h, Option.bind_some, run_nil]

theorem pull_runs {d d' : Disk α} {w w' : Puller α} {e : PullEvent α}
    (h : w.step leg d e = some (w', d')) : ∃ ops, run d ops = some d' ∧
      ∀ op ∈ ops, op = .mkdir [] ∨ (e = .moved ∧ w.next = some op) := by
  cases e <;> simp only [Puller.step] at h
  case began =>
    split at h
    · split at h
      · cases h
      · obtain ⟨d₁, hexec, heq⟩ := Option.map_eq_some_iff.mp h
        cases heq
        exact ⟨_, run_one hexec, by simp⟩
    · cases h
  case copied landed =>
    split at h <;> cases h
    exact ⟨[], rfl, by simp⟩
  case moved =>
    split at h
    · rename_i op ops hdoing
      obtain ⟨d₁, hexec, heq⟩ := Option.map_eq_some_iff.mp h
      cases heq
      exact ⟨_, run_one hexec, by simp [Puller.next, hdoing]⟩
    · cases h
      exact ⟨[], rfl, by simp⟩
    · cases h
  case failed =>
    cases h
    exact ⟨[], rfl, by simp⟩

theorem step_runs (h : s.step ex leg e = some s') : ∃ ops, run s.disk ops = some s'.disk := by
  cases leg_step h with
  | streamed log d _ _ ran => exact ⟨_, ran⟩
  | exited rc out d _ made => exact ⟨_, run_one made⟩
  | moved op ops d _ done => exact ⟨_, run_one done⟩
  | pull i e w w' d _ step =>
    obtain ⟨ops, hrun, _⟩ := pull_runs step
    exact ⟨ops, hrun⟩
  | _ => exact ⟨[], rfl⟩

theorem step_complete (h : s.step ex leg e = some s') (hc : complete leg s.disk = true) :
    complete leg s'.disk = true := by
  obtain ⟨ops, hrun⟩ := step_runs h
  simp only [complete, Bool.and_eq_true, Option.isSome_iff_ne_none] at hc ⊢
  exact ⟨hc.1, run_exists hrun hc.2⟩

theorem step_pullers (h : s.step ex leg e = some s')
    (hs : s.pullers ≠ [] → leg.resumable = true) : s'.pullers ≠ [] → leg.resumable = true := by
  cases leg_step h with
  | started phase =>
    intro hne
    by_contra hres
    simp only [Bool.not_eq_true] at hres
    simp only [hres, Bool.false_eq_true, if_false] at hne
    simp [hs hne] at hres
  | failed rc out phase => simpa using hs
  | nothing rc out phase => simpa using hs
  | exited rc out d phase made => simpa using hs
  | raised e phase => simpa using hs
  | pull i e w w' d mem step => simpa using hs
  | _ => exact hs

def Judged (leg : FleetLeg α) (r : LegResult) : Prop :=
  (∃ d, r = verdictResult leg d) ∨ ∃ bad, r = badArtifacts leg bad

theorem verdictResult_status (leg : FleetLeg α) (d : Disk α) :
    (verdictResult leg d).status = .ok ∨ (verdictResult leg d).status = .runFail := by
  unfold verdictResult
  cases payloadVerdict leg d with
  | none => exact .inl rfl
  | some why => exact .inr rfl

theorem Judged.status {r : LegResult} (h : Judged leg r) :
    r.status = .ok ∨ r.status = .runFail ∨ r.status = .badArtifacts := by
  rcases h with ⟨d, rfl⟩ | ⟨bad, rfl⟩
  · exact (verdictResult_status leg d).imp id .inl
  · exact .inr (.inr rfl)

theorem runFail_not_judged (leg : FleetLeg α) (rc : Int) (out : String) :
    ¬ Judged leg (runFail leg rc out) := by
  intro h
  rcases h with ⟨d, h⟩ | ⟨bad, h⟩
  · unfold verdictResult at h
    cases hwhy : payloadVerdict leg d with
    | none => simp [hwhy, runFail] at h
    | some why =>
      have hdetail := congrArg (fun r => r.detail.toList.head?) h
      simp [hwhy, runFail] at hdetail
  · have hstatus := congrArg LegResult.status h
    cases hstatus

/-- The final fetch is on, or the leg is being judged after it. -/
def Phase.Fetched (leg : FleetLeg α) : Phase α → Prop
  | .copying | .publishing _ | .checking | .validating _ _ | .judging => True
  | .closing r => Judged leg r
  | _ => False

theorem afterValidation_fetched (leg : FleetLeg α) (report : ArrivalReport) :
    (afterValidation leg report).Fetched leg := by
  unfold afterValidation
  cases refusal report with
  | none => trivial
  | some bad => exact .inr ⟨bad, rfl⟩

theorem afterFetch_fetched {d : Disk α} (h : complete leg d = true) :
    (afterFetch ex leg d).Fetched leg := by
  have hdone : done leg d = true := by simp [done, h]
  unfold afterFetch
  rw [if_pos hdone]
  split
  · cases listRoot d (target leg d) with
    | error report => exact afterValidation_fetched leg report
    | ok paths => trivial
  · trivial

theorem step_fetched (h : s.step ex leg e = some s') (hc : complete leg s.disk = true)
    (hf : s.phase.Fetched leg) : s'.phase.Fetched leg ∨ (∃ raised, e = .raised raised) ∨
      ∃ r, e = .closed ∧ s.phase = .closing r ∧ Judged leg r := by
  cases leg_step h with
  | raised e phase => exact .inr (.inl ⟨e, rfl⟩)
  | closed r phase =>
    rw [phase] at hf
    exact .inr (.inr ⟨r, rfl, phase, hf⟩)
  | checked phase => exact .inl (afterFetch_fetched hc)
  | validated report phase => exact .inl (afterValidation_fetched leg _)
  | judged phase => exact .inl (.inl ⟨s.disk, rfl⟩)
  | pull i e w w' d mem step => exact .inl hf
  | copied landed phase => exact .inl trivial
  | moved op ops d phase done => exact .inl trivial
  | published phase returns => exact .inl trivial
  | scanned p paths report phase => exact .inl trivial
  | offered phase => simp [phase, Phase.Fetched] at hf
  | drained phase => simp [phase, Phase.Fetched] at hf
  | broke phase => simp [phase, Phase.Fetched] at hf
  | started phase => simp [phase, Phase.Fetched] at hf
  | streamed log d phase streams ran => simp [phase, Phase.Fetched] at hf
  | failed rc out phase => simp [phase, Phase.Fetched] at hf
  | nothing rc out phase => simp [phase, Phase.Fetched] at hf
  | exited rc out d phase made => simp [phase, Phase.Fetched] at hf

theorem step_marker (h : s.step ex leg e = some s') (hno : complete leg s.disk = false)
    (hyes : complete leg s'.disk = true) : s'.phase.Fetched leg ∨ (∃ i pulled, e = .pull i pulled) ∨
      ∃ log, e = .streamed log ∧ leg.streamProgress = true ∧
        parts leg.marker <+: [progressLog] := by
  cases leg_step h with
  | exited rc out d phase made => exact .inl trivial
  | moved op ops d phase done => exact .inl trivial
  | pull i e w w' d mem step => exact .inr (.inl ⟨i, e, rfl⟩)
  | streamed log d phase streams ran =>
    refine .inr (.inr ⟨log, rfl, streams, ?_⟩)
    simp only [complete, Bool.and_eq_true, Option.isSome_iff_ne_none] at hyes
    have hnone : s.disk (parts leg.marker) = none := by
      simpa [complete, hyes.1] using hno
    obtain ⟨op, hop, hbelow⟩ := run_appears ran hnone hyes.2
    simp only [List.mem_cons, List.not_mem_nil, or_false] at hop
    rcases hop with rfl | rfl
    · exact List.prefix_nil.mp hbelow ▸ List.nil_prefix
    · exact hbelow
  | _ => exact absurd (hno.symm.trans hyes) (by decide)

def Phase.Found (leg : FleetLeg α) : Phase α → Prop
  | .validating _ _ | .judging => True
  | .closing r | .settled r => Judged leg r
  | _ => False

def Standing (leg : FleetLeg α) (s : LegState α) : Prop :=
  s.phase.Found leg → done leg s.disk = true

theorem step_done (h : s.step ex leg e = some s') (hd : done leg s.disk = true) :
    done leg s'.disk = true := by
  simp only [done, Bool.or_eq_true] at hd ⊢
  exact hd.imp (step_complete h) id

theorem not_judged {r : LegResult} (h : r.status ≠ .ok ∧ r.status ≠ .runFail ∧
    r.status ≠ .badArtifacts) : ¬ Judged leg r := by
  intro hj
  rcases hj.status with hs | hs | hs
  · exact h.1 hs
  · exact h.2.1 hs
  · exact h.2.2 hs

theorem failure_not_judged (leg : FleetLeg α) (e : Raised) : ¬ Judged leg (failure leg e) := by
  refine not_judged ?_
  unfold failure
  dsimp only
  split <;> simp

theorem step_standing (h : s.step ex leg e = some s') (hs : Standing leg s) :
    Standing leg s' := by
  intro hfound
  cases leg_step h with
  | drained phase => exact absurd hfound (not_judged (by simp [noOffers]))
  | failed rc out phase => exact absurd hfound (runFail_not_judged leg rc out)
  | checked phase =>
    by_contra hdone
    simp only [afterFetch, if_neg hdone] at hfound
    exact not_judged (by simp [noResult]) hfound
  | raised e phase =>
    dsimp only at hfound
    unfold afterRaise at hfound
    split at hfound
    · exact hfound.elim
    · exact hfound.elim
    · exact hfound.elim
    · exact hfound.elim
    · exact absurd hfound (failure_not_judged leg e)
  | scanned p paths report phase => exact hs (by simp [phase, Phase.Found])
  | validated report phase => exact hs (by simp [phase, Phase.Found])
  | judged phase => exact hs (by simp [phase, Phase.Found])
  | closed r phase => exact hs (by simpa [phase, Phase.Found] using hfound)
  | pull i e w w' d mem step => exact step_done h (hs hfound)
  | streamed log d phase streams ran => simp [phase, Phase.Found] at hfound
  | _ => exact hfound.elim

theorem seen_standing {event : FleetEvent α} (h : Seen ex leg s event s')
    (hs : Standing leg s) : Standing leg s' := by
  cases h with
  | launched ended =>
    intro hfound
    unfold LegState.launch at hfound ⊢
    cases hc : complete leg s.disk with
    | true => simp [done, hc]
    | false => simp [hc, Phase.Found] at hfound
  | unwound off => exact fun hfound => hfound.elim
  | killed => exact fun hfound => hfound.elim
  | own e s' step => exact step_standing step hs
  | other label e ne => exact hs

theorem seen_pullers {event : FleetEvent α} (h : Seen ex leg s event s')
    (hs : s.pullers ≠ [] → leg.resumable = true) : s'.pullers ≠ [] → leg.resumable = true := by
  cases h with
  | launched ended =>
    unfold LegState.launch
    split <;> exact hs
  | unwound off => exact hs
  | killed => exact fun hne => absurd rfl hne
  | own e s' step => exact step_pullers step hs
  | other label e ne => exact hs

/-- How a leg comes by its marker: it was judged, the run was cut off between its final
fetch and that, a pull brought the marker, or the log of its command is the marker. -/
inductive Origin (ex : Executor α) (leg : FleetLeg α) (F : Fleet α) : FleetEvent α → Prop
  | judged (r : LegResult) (phase : (F leg.label).phase = .closing r) (judged : Judged leg r)
      (there : complete leg (F leg.label).disk = true) : Origin ex leg F (.leg leg.label .closed)
  | killed (fetched : (F leg.label).phase.Fetched leg)
      (there : complete leg (F leg.label).disk = true) : Origin ex leg F .killed
  | raised (e : Raised) (fetched : (F leg.label).phase.Fetched leg)
      (there : complete leg (F leg.label).disk = true) :
      Origin ex leg F (.leg leg.label (.raised e))
  | pulled (i : Nat) (e : PullEvent α) (resumable : leg.resumable = true)
      (new : complete leg (F leg.label).disk = false)
      (brought : ∀ s, (F leg.label).step ex leg (.pull i e) = some s →
        complete leg s.disk = true) : Origin ex leg F (.leg leg.label (.pull i e))
  | streamed (log : α) (streams : leg.streamProgress = true)
      (marker : parts leg.marker <+: [progressLog]) :
      Origin ex leg F (.leg leg.label (.streamed log))

def outside : Fleet α := fun _ => {}

theorem fleet_standing {L : Legs α} (hleg : leg ∈ L.legs) {events : List (FleetEvent α)}
    {F : Fleet α} (h : exec (Fleet.step ex L) outside events = some F) :
    Standing leg (F leg.label) := by
  have hstart : Standing leg ((outside : Fleet α) leg.label) := fun hfound => False.elim hfound
  exact exec_keeps (I := fun F => Standing leg (F leg.label))
    (fun hstep hs => seen_standing (fleet_seen hleg hstep) hs) h hstart

theorem fleet_pullers {L : Legs α} (hleg : leg ∈ L.legs) {events : List (FleetEvent α)}
    {F : Fleet α} (h : exec (Fleet.step ex L) outside events = some F) :
    (F leg.label).pullers ≠ [] → leg.resumable = true :=
  exec_keeps (I := fun F => (F leg.label).pullers ≠ [] → leg.resumable = true)
    (fun hstep hs => seen_pullers (fleet_seen hleg hstep) hs) h (fun hne => absurd rfl hne)

theorem origin_of_fetched {L : Legs α} (hleg : leg ∈ L.legs) {F₁ F₂ : Fleet α}
    {event : FleetEvent α} (h : F₁.step ex L event = some F₂)
    (hc : complete leg (F₁ leg.label).disk = true)
    (hf : (F₁ leg.label).phase.Fetched leg)
    (hend : ¬ (complete leg (F₂ leg.label).disk = true ∧ (F₂ leg.label).phase.Fetched leg)) :
    Origin ex leg F₁ event := by
  have hseen := fleet_seen hleg h
  generalize hs : F₁ leg.label = s at *
  generalize F₂ leg.label = s' at *
  cases hseen with
  | launched ended =>
    cases hp : s.phase <;> simp [hp, Phase.ended, Phase.Fetched] at ended hf
  | unwound off =>
    cases hp : s.phase <;> simp [hp, Phase.onOffer, Phase.Fetched] at off hf
  | killed => exact .killed (hs ▸ hf) (hs ▸ hc)
  | own e s' step =>
    rcases step_fetched step hc hf with hf' | ⟨raised, rfl⟩ | ⟨r, rfl, hphase, hjudged⟩
    · exact absurd ⟨step_complete step hc, hf'⟩ hend
    · exact .raised raised (hs ▸ hf) (hs ▸ hc)
    · exact .judged r (hs ▸ hphase) hjudged (hs ▸ hc)
  | other label e ne => exact absurd ⟨hc, hf⟩ hend

theorem origin_of_new {L : Legs α} (hleg : leg ∈ L.legs) {F₁ F₂ : Fleet α}
    {event : FleetEvent α} (h : F₁.step ex L event = some F₂)
    (hpull : (F₁ leg.label).pullers ≠ [] → leg.resumable = true)
    (hno : complete leg (F₁ leg.label).disk = false)
    (hyes : complete leg (F₂ leg.label).disk = true) :
    Origin ex leg F₁ event ∨ (F₂ leg.label).phase.Fetched leg := by
  have hseen := fleet_seen hleg h
  generalize hs : F₁ leg.label = s at *
  generalize F₂ leg.label = s' at *
  cases hseen with
  | launched ended =>
    unfold LegState.launch at hyes
    simp [hno] at hyes
  | unwound off => exact absurd (hno.symm.trans hyes) (by decide)
  | killed => exact absurd (hno.symm.trans hyes) (by decide)
  | own e s' step =>
    rcases step_marker step hno hyes with hf | ⟨i, e, rfl⟩ | ⟨log, rfl, hstreams, hmarker⟩
    · exact .inr hf
    · have hne : s.pullers ≠ [] := by
        cases leg_step step with
        | pull i e w w' d mem moved =>
          intro hnil
          simp [hnil] at mem
      refine .inl (.pulled i e (hpull hne) (hs ▸ hno) fun s₂ hstep₂ => ?_)
      rw [hs, step] at hstep₂
      cases hstep₂
      exact hyes
    · exact .inl (.streamed log hstreams hmarker)
  | other label e ne => exact absurd (hno.symm.trans hyes) (by decide)

theorem complete_outside (leg : FleetLeg α) :
    complete leg ((outside : Fleet α) leg.label).disk = false := by
  simp [complete, outside]

theorem fleet_launch {L : Legs α} (hleg : leg ∈ L.legs) {F F' : Fleet α}
    (h : F.step ex L .launched = some F') :
    (F leg.label).phase.ended = true ∧ F' leg.label = (F leg.label).launch leg := by
  have hseen := fleet_seen hleg h
  generalize F' leg.label = s' at *
  cases hseen with
  | launched ended => exact ⟨ended, rfl⟩

/-- Whatever has happened before, a call of `run` skips a leg only for a marker that an
earlier one has left: of a leg that was then judged, or cut off before it was, or brought by
a pull, or the log. And it skips every leg that was judged and has a marker, whatever the
report was. -/
theorem skipped_by_marker {L : Legs α} (hleg : leg ∈ L.legs) {events : List (FleetEvent α)}
    {F F' : Fleet α} (h : exec (Fleet.step ex L) outside events = some F)
    (hrun : F.step ex L .launched = some F') :
    ((F' leg.label).phase.report = some .skip →
      ∃ before event behind F₁, events = before ++ event :: behind ∧
        exec (Fleet.step ex L) outside before = some F₁ ∧ Origin ex leg F₁ event) ∧
    (∀ r, (F leg.label).phase = .settled r → Judged leg r → leg.marker ≠ "" →
      (F' leg.label).phase = .settled (skipResult leg)) := by
  obtain ⟨hover, hstate⟩ := fleet_launch hleg hrun
  rw [hstate]
  unfold LegState.launch
  constructor
  · intro hskip
    have hc : complete leg (F leg.label).disk = true := by
      by_contra hno
      rw [if_neg hno] at hskip
      cases hskip
    have hfirst : ¬ complete leg ((outside : Fleet α) leg.label).disk = true := by
      simp [complete_outside]
    obtain ⟨before, event, behind, F₁, F₂, hsplit, hbefore, hstep, hbehind, hno, hyes⟩ :=
      exec_turns (I := fun F => complete leg (F leg.label).disk = true) h hfirst hc
    rcases origin_of_new hleg hstep (fleet_pullers hleg hbefore) (by simpa using hno) hyes with
      horigin | hfetched
    · exact ⟨before, event, behind, F₁, hsplit, hbefore, horigin⟩
    · -- the final fetch brought it: what ended that fetch is what counts
      have hnot : ¬ (complete leg (F leg.label).disk = true ∧
          (F leg.label).phase.Fetched leg) := by
        intro hboth
        cases hp : (F leg.label).phase <;> simp [hp, Phase.ended, Phase.Fetched] at hover hboth
      obtain ⟨mid, event', behind', F₃, F₄, hsplit', hmid, hstep', _, hin, hout⟩ :=
        exec_turns (I := fun F => ¬ (complete leg (F leg.label).disk = true ∧
          (F leg.label).phase.Fetched leg)) hbehind (fun h => h ⟨hyes, hfetched⟩) hnot
      obtain ⟨hc₃, hf₃⟩ := not_not.mp hin
      refine ⟨before ++ event :: mid, event', behind', F₃, by simp [hsplit, hsplit'], ?_,
        origin_of_fetched hleg hstep' hc₃ hf₃ hout⟩
      rw [exec_append, hbefore, Option.bind_some, exec_cons_of hstep, hmid]
  · intro r hphase hjudged hm
    have hdone : done leg (F leg.label).disk = true :=
      fleet_standing hleg h (by rw [hphase]; exact hjudged)
    have hc : complete leg (F leg.label).disk = true := by
      simpa [done, hm] using hdone
    rw [if_pos hc]

def damagedRun : List (FleetEvent String) :=
  .launched :: ([.offered, .started, .exited 0 "", .copied fetchedOut, .moved, .moved, .moved,
    .moved, .moved, .checked, .scanned, .scanned, .scanned, .closed].map (.leg "arm-a"))

def strict : Executor String where
  formats := { readable with zip := fun _ => some (.truncated, "bad CRC-32") }

def oneLeg (leg : FleetLeg String) : Legs String := ⟨[leg], List.nodup_singleton _⟩

def damaged : Fleet String :=
  (exec (Fleet.step strict (oneLeg outLeg)) outside damagedRun).get (by decide +kernel)

def relaunched : Fleet String :=
  (damaged.step strict (oneLeg outLeg) .launched).get (by decide +kernel)

theorem damaged_exec :
    exec (Fleet.step strict (oneLeg outLeg)) outside damagedRun = some damaged :=
  (Option.some_get _).symm

theorem relaunched_step : damaged.step strict (oneLeg outLeg) .launched = some relaunched :=
  (Option.some_get _).symm

theorem relaunched_origin : ∃ before event behind F₁,
    damagedRun = before ++ event :: behind ∧
      exec (Fleet.step strict (oneLeg outLeg)) outside before = some F₁ ∧
      Origin strict outLeg F₁ event :=
  (skipped_by_marker (.head _) damaged_exec relaunched_step).1 (by decide +kernel)

def ReportedOk (ex : Executor String) (L : Legs String) (leg : FleetLeg String)
    (events : List (FleetEvent String)) : Prop :=
  ∃ before F, before <+: events ∧ exec (Fleet.step ex L) outside before = some F ∧
    (F leg.label).phase.report = some .ok

/-- BAD_ARTIFACTS turns into SKIP, which counts as OK, by running again. -/
theorem damaged_skipped :
    (damaged "arm-a").phase.report = some .badArtifacts ∧
    (relaunched "arm-a").phase = .settled (skipResult outLeg) ∧
    (skipResult outLeg).ok = true ∧
    ¬ (∀ (ex : Executor String) (L : Legs String) (leg : FleetLeg String), leg ∈ L.legs →
      ∀ events F F', exec (Fleet.step ex L) outside events = some F →
        F.step ex L .launched = some F' → (F' leg.label).phase.report = some .skip →
        ReportedOk ex L leg events) := by
  have hbad : (damaged "arm-a").phase.report = some .badArtifacts := by decide +kernel
  have hc : complete outLeg (damaged outLeg.label).disk = true := by decide +kernel
  have hphase : (relaunched outLeg.label).phase = .settled (skipResult outLeg) := by
    rw [(fleet_launch (.head _) relaunched_step).2, LegState.launch, if_pos hc]
  have hskip : (relaunched outLeg.label).phase.report = some .skip := by
    rw [hphase]
    rfl
  refine ⟨hbad, hphase, rfl, fun h => ?_⟩
  obtain ⟨before, F, hpre, hexec, hok⟩ :=
    h strict (oneLeg outLeg) outLeg (.head _) _ _ _ damaged_exec relaunched_step hskip
  have hnever : ∀ b ∈ damagedRun.inits,
      ((exec (Fleet.step strict (oneLeg outLeg)) outside b).bind
        fun F => (F "arm-a").phase.report) ≠ some .ok := by
    decide +kernel
  refine hnever before ((List.mem_inits before damagedRun).mpr hpre) ?_
  rw [hexec, Option.bind_some]
  exact hok

end RunFarm
