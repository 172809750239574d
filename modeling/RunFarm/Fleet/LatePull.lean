import RunFarm.Fleet.Resume

/-! Whether a leg directory keeps what an OK leg was judged on, while pullers that `join` has
given up on are still publishing. -/
set_option autoImplicit false

namespace RunFarm
open Files Transition

variable {α : Type} {ex : Executor α} {leg : FleetLeg α} {s s' : LegState α} {e : LegEvent α}

def LegState.pulled (s : LegState α) : LegEvent α → Option (Op α)
  | .pull i .moved => (s.pullers[i]?).bind Puller.next
  | _ => none

/-- The event is not a puller replacing what the final fetch has moved, or the validation has
read, by something else. -/
def Spares (s : LegState α) (e : LegEvent α) : Prop :=
  ∀ op ∈ s.pulled e, ∀ file ∈ movedFile op, ∀ k ∈ s.kept, k.1 = file.1 → k.2 = file.2

instance [DecidableEq α] (s : LegState α) (e : LegEvent α) : Decidable (Spares s e) :=
  inferInstanceAs (Decidable (∀ op ∈ s.pulled e, ∀ file ∈ movedFile op, ∀ k ∈ s.kept,
    k.1 = file.1 → k.2 = file.2))

def Phase.Early : Phase α → Prop
  | .queued | .renting | .running | .copying => True
  | _ => False

def Phase.Delivered : Phase α → Prop
  | .checking | .validating _ _ | .judging => True
  | .closing r => r.status = .ok
  | _ => False

/-- The files in `kept` are on the disk, and by the time the leg is judged they are all that
the final fetch has brought. -/
structure Delivering (leg : FleetLeg α) (s : LegState α) : Prop where
  held : ∀ k ∈ s.kept, s.disk k.1 = some (.file k.2)
  early : s.phase.Early → s.kept = []
  publishing : ∀ ops, s.phase = .publishing ops → ∃ landed : DirTree α, s.final = landed.files ∧
    ∃ made, publishSteps landed leg.marker = made ++ ops ∧
      ∀ k, k ∈ s.kept ↔ Op.replace k.1 k.2 ∈ made
  delivered : s.phase.Delivered → ∀ k ∈ s.final, k ∈ s.kept
  unbanked : s.phase.ended = false → s.banked = false
  banked : s.banked = true → ∀ k ∈ s.final, k ∈ s.kept

theorem publishSteps_same {staging : DirTree α} {marker : String} {p : Path} {c c' : α}
    (h : Op.replace p c ∈ publishSteps staging marker)
    (h' : Op.replace p c' ∈ publishSteps staging marker) : c' = c := by
  unfold publishSteps at h h'
  split at h
  · simp at h
  · rename_i hraises
    rw [if_neg hraises] at h'
    exact publishOps_same staging _ h h'

theorem publishSteps_files {staging : DirTree α} {marker : String}
    (hraises : publishRaises marker = false) {k : Path × α} (hk : k ∈ staging.files) :
    Op.replace k.1 k.2 ∈ publishSteps staging marker := by
  simp only [publishSteps, hraises, Bool.false_eq_true, if_false]
  exact (replace_mem_publishOps staging _).mpr hk

theorem mem_movedFile {op : Op α} {k : Path × α} :
    k ∈ movedFile op ↔ op = .replace k.1 k.2 := by
  cases op with
  | mkdir p => simp [movedFile]
  | replace p c => simp [movedFile, Prod.ext_iff, eq_comm]

theorem mem_readFile {d : Disk α} {p : Path} {k : Path × α} (h : k ∈ readFile d p) :
    d k.1 = some (.file k.2) := by
  unfold readFile at h
  split at h
  · rename_i c hfile
    cases List.mem_singleton.mp h
    exact hfile
  · cases h

def Phase.Late : Phase α → Prop
  | .checking | .validating _ _ | .judging | .closing _ => True
  | _ => False

theorem afterValidation_late (leg : FleetLeg α) (report : ArrivalReport) :
    (afterValidation leg report).Late := by
  unfold afterValidation
  cases refusal report <;> trivial

theorem afterFetch_late (ex : Executor α) (leg : FleetLeg α) (d : Disk α) :
    (afterFetch ex leg d).Late := by
  unfold afterFetch
  split
  · split
    · cases listRoot d (target leg d) with
      | error report => exact afterValidation_late leg report
      | ok paths => trivial
    · trivial
  · trivial

theorem Phase.Late.not_early {p : Phase α} (h : p.Late) : ¬ p.Early := by
  cases p <;> simp_all [Phase.Late, Phase.Early]

theorem Phase.Late.not_publishing {p : Phase α} (h : p.Late) (ops : List (Op α)) :
    p ≠ .publishing ops := by
  rintro rfl
  exact h

theorem Phase.Late.not_over {p : Phase α} (h : p.Late) : p.ended = false := by
  cases p <;> simp_all [Phase.Late, Phase.ended]

theorem Delivering.late (hs : Delivering leg s) (hd : s.phase.Delivered)
    (hover : s.phase.ended = false) {p : Phase α} (hp : p.Late) (read : List (Path × α))
    (hread : ∀ k ∈ read, s.disk k.1 = some (.file k.2)) :
    Delivering leg { s with phase := p, kept := s.kept ++ read } where
  held k hk := (List.mem_append.mp hk).elim (hs.held k) (hread k)
  early h := absurd h hp.not_early
  publishing ops h := absurd h (hp.not_publishing ops)
  delivered _ k hk := List.mem_append_left _ (hs.delivered hd k hk)
  unbanked _ := hs.unbanked hover
  banked hb := by
    rw [hs.unbanked hover] at hb
    cases hb

theorem pull_held {i : Nat} {e : PullEvent α} {w w' : Puller α} {d : Disk α}
    (hspare : Spares s (.pull i e)) (hw : s.pullers[i]? = some w)
    (h : w.step leg s.disk e = some (w', d)) (hheld : ∀ k ∈ s.kept, s.disk k.1 = some (.file k.2)) :
    ∀ k ∈ s.kept, d k.1 = some (.file k.2) := by
  obtain ⟨ops, hrun, hops⟩ := pull_runs h
  intro k hk
  refine run_keeps_file hrun (hheld k hk) fun c hc => ?_
  rcases hops _ hc with hop | ⟨rfl, hnext⟩
  · cases hop
  · have hpulled : Op.replace k.1 c ∈ s.pulled (.pull i .moved) := by
      simp [LegState.pulled, hw, hnext]
    exact (hspare _ hpulled (k.1, c) (mem_movedFile.mpr rfl) k hk rfl).symm

theorem Delivering.move (hs : Delivering leg s) {op : Op α} {ops : List (Op α)} {d : Disk α}
    (hphase : s.phase = .publishing (op :: ops)) (h : op.exec s.disk = some d) :
    Delivering leg { s with
      disk := d, phase := .publishing ops, kept := s.kept ++ movedFile op } := by
  obtain ⟨landed, hfinal, made, hsplit, hkept⟩ := hs.publishing _ hphase
  have hunbanked : s.banked = false := hs.unbanked (by simp [hphase, Phase.ended])
  have hmade : ∀ k, k ∈ s.kept ++ movedFile op ↔ Op.replace k.1 k.2 ∈ made ++ [op] := by
    intro k
    rw [List.mem_append, List.mem_append, hkept, mem_movedFile, List.mem_singleton, eq_comm]
  have hsub : ∀ o ∈ made ++ [op], o ∈ publishSteps landed leg.marker := by
    intro o ho
    rw [hsplit]
    simp only [List.mem_append, List.mem_cons] at ho ⊢
    tauto
  constructor
  · intro k hk
    have hin := (hmade k).mp hk
    have hsame : ∀ c, Op.replace k.1 c ∈ [op] → c = k.2 := fun c hc =>
      publishSteps_same (hsub _ hin) (hsub _ (List.mem_append_right _ hc))
    rcases List.mem_append.mp hk with hk | hk
    · exact run_keeps_file (run_one h) (hs.held k hk) hsame
    · exact run_replaced (run_one h) (by simp [mem_movedFile.mp hk]) hsame
  · exact fun hearly => hearly.elim
  · intro ops' hops'
    cases hops'
    exact ⟨landed, hfinal, made ++ [op], by simp [hsplit], hmade⟩
  · exact fun hd => hd.elim
  · exact fun _ => hunbanked
  · intro hb
    rw [hunbanked] at hb
    cases hb

theorem Phase.Early.not_over {p : Phase α} (h : p.Early) : p.ended = false := by
  cases p <;> simp_all [Phase.Early, Phase.ended]

theorem Delivering.fresh (hs : Delivering leg s) (h : s.phase.Early) :
    s.kept = [] ∧ s.banked = false :=
  ⟨hs.early h, hs.unbanked h.not_over⟩

theorem Delivering.rephase (hs : Delivering leg s) (p : Phase α) (n : Nat)
    (pullers : List (Puller α)) (hearly : p.Early → s.kept = [])
    (hpublishing : ∀ ops, p ≠ .publishing ops) (hdelivered : ¬ p.Delivered)
    (hover : p.ended = false → s.banked = false) :
    Delivering leg { s with phase := p, tried := n, pullers := pullers } where
  held := hs.held
  early := hearly
  publishing ops h := absurd h (hpublishing ops)
  delivered h := absurd h hdelivered
  unbanked := hover
  banked := hs.banked

theorem Delivering.restart (hkept : s.kept = []) (hbanked : s.banked = false) {p : Phase α}
    (hpublishing : ∀ ops, p ≠ .publishing ops)
    (hdelivered : p.Delivered → s.final = []) (n : Nat)
    (pullers : List (Puller α)) (d : Disk α) :
    Delivering leg { s with phase := p, tried := n, pullers := pullers, disk := d } where
  held k hk := by
    rw [hkept] at hk
    cases hk
  early _ := hkept
  publishing ops h := absurd h (hpublishing ops)
  delivered h k hk := by
    rw [hdelivered h] at hk
    cases hk
  unbanked _ := hbanked
  banked h := by
    rw [hbanked] at h
    cases h

theorem Delivering.begin (hs : Delivering leg s) (hkept : s.kept = [])
    (hbanked : s.banked = false) (landed : DirTree α) :
    Delivering leg { s with
      phase := .publishing (publishSteps landed leg.marker), final := landed.files } where
  held := hs.held
  early h := h.elim
  publishing ops h := by
    cases h
    exact ⟨landed, rfl, [], rfl, by simp [hkept]⟩
  delivered h := h.elim
  unbanked _ := hbanked
  banked h := by
    rw [hbanked] at h
    cases h

theorem Delivering.finish (hs : Delivering leg s) (hphase : s.phase = .publishing [])
    (hreturns : publishRaises leg.marker = false) :
    Delivering leg { s with phase := .checking } := by
  have hbanked := hs.unbanked (by simp [hphase, Phase.ended])
  obtain ⟨landed, hfinal, made, hsplit, hkept⟩ := hs.publishing _ hphase
  rw [List.append_nil] at hsplit
  have hall : ∀ k ∈ s.final, k ∈ s.kept := fun k hk =>
    (hkept k).mpr (hsplit ▸ publishSteps_files hreturns (hfinal ▸ hk))
  exact ⟨hs.held, False.elim, by simp, fun _ => hall, fun _ => hbanked, fun _ => hall⟩

theorem Delivering.close (hs : Delivering leg s) {r : LegResult} (hphase : s.phase = .closing r) :
    Delivering leg { s with
      phase := .settled r
      kept := if r.status = .ok then s.kept else []
      banked := decide (r.status = .ok) } where
  held k hk := by
    split at hk
    · exact hs.held k hk
    · cases hk
  early h := h.elim
  publishing ops h := by cases h
  delivered h := h.elim
  unbanked h := by cases h
  banked h := by
    simp only [decide_eq_true_eq] at h
    simp only [h, if_true]
    exact hs.delivered (by simp [hphase, Phase.Delivered, h])

theorem afterRaise_over (leg : FleetLeg α) (e : Raised) :
    afterRaise leg e = .halted ∨ afterRaise leg e = .queued ∨
      afterRaise leg e = .settled (failure leg e) := by
  unfold afterRaise
  split <;> simp

theorem failure_not_ok (leg : FleetLeg α) (e : Raised) : (failure leg e).status ≠ .ok := by
  unfold failure
  dsimp only
  split <;> simp

theorem Phase.onOffer_over {p : Phase α} (h : p.onOffer = true) : p.ended = false := by
  cases p <;> simp_all [Phase.onOffer, Phase.ended]

theorem step_delivering (hspare : Spares s e) (h : s.step ex leg e = some s')
    (hs : Delivering leg s) : Delivering leg s' := by
  cases leg_step h with
  | offered phase =>
    obtain ⟨hkept, hbanked⟩ := hs.fresh (by simp [phase, Phase.Early])
    exact hs.rephase .renting _ _ (fun _ => hkept) (by simp) id fun _ => hbanked
  | drained phase =>
    exact hs.rephase (.settled _) _ _ False.elim (by simp) id (by simp [Phase.ended])
  | broke phase => exact hs.rephase .halted _ _ False.elim (by simp) id (by simp [Phase.ended])
  | started phase =>
    obtain ⟨hkept, hbanked⟩ := hs.fresh (by simp [phase, Phase.Early])
    exact hs.rephase .running _ _ (fun _ => hkept) (by simp) id fun _ => hbanked
  | streamed log d phase streams ran =>
    obtain ⟨hkept, hbanked⟩ := hs.fresh (by simp [phase, Phase.Early])
    exact Delivering.restart hkept hbanked (by simp [phase]) (by simp [phase, Phase.Delivered])
      _ _ d
  | failed rc out phase =>
    have hbanked := hs.unbanked (by simp [phase, Phase.ended])
    refine hs.rephase (.closing _) _ _ False.elim (by simp) ?_ fun _ => hbanked
    simp [Phase.Delivered, runFail]
  | nothing rc out phase =>
    obtain ⟨hkept, hbanked⟩ := hs.fresh (by simp [phase, Phase.Early])
    exact @Delivering.restart _ leg { s with final := [] } hkept hbanked _ (by simp) (fun _ => rfl)
      _ _ s.disk
  | exited rc out d phase made =>
    obtain ⟨hkept, hbanked⟩ := hs.fresh (by simp [phase, Phase.Early])
    exact Delivering.restart hkept hbanked (by simp) False.elim _ _ d
  | copied landed phase =>
    obtain ⟨hkept, hbanked⟩ := hs.fresh (by simp [phase, Phase.Early])
    exact hs.begin hkept hbanked landed
  | moved op ops d phase done => exact hs.move phase done
  | published phase returns => exact hs.finish phase returns
  | checked phase =>
    simpa using hs.late (by simp [phase, Phase.Delivered]) (by simp [phase, Phase.ended])
      (afterFetch_late ex leg s.disk) [] (by simp)
  | scanned p paths report phase =>
    exact hs.late (by simp [phase, Phase.Delivered]) (by simp [phase, Phase.ended])
      (p := .validating _ _) trivial _ fun k hk => mem_readFile hk
  | validated report phase =>
    simpa using hs.late (by simp [phase, Phase.Delivered]) (by simp [phase, Phase.ended])
      (afterValidation_late leg (closeReport report)) [] (by simp)
  | judged phase =>
    simpa using hs.late (by simp [phase, Phase.Delivered]) (by simp [phase, Phase.ended])
      (p := .closing (verdictResult leg s.disk)) trivial [] (by simp)
  | closed r phase => exact hs.close phase
  | raised e phase =>
    have hbanked := hs.unbanked (Phase.onOffer_over phase)
    rcases afterRaise_over leg e with hp | hp | hp <;> rw [hp] <;>
      exact @Delivering.restart _ leg { s with kept := [] } rfl hbanked _ (by simp) False.elim
        _ _ s.disk
  | pull i e w w' d mem step =>
    have hheld := pull_held hspare mem step hs.held
    exact ⟨hheld, hs.early, hs.publishing, hs.delivered, hs.unbanked, hs.banked⟩

def FleetEvent.own (label : String) : FleetEvent α → Option (LegEvent α)
  | .leg l e => if l = label then some e else none
  | _ => none

/-- No puller of the leg puts something else in the place of a file that the leg's final
fetch has moved or its validation has read. -/
def Spared (leg : FleetLeg α) (F : Fleet α) (event : FleetEvent α) : Prop :=
  ∀ e ∈ event.own leg.label, Spares (F leg.label) e

instance [DecidableEq α] (leg : FleetLeg α) (F : Fleet α) (event : FleetEvent α) :
    Decidable (Spared leg F event) :=
  inferInstanceAs (Decidable (∀ e ∈ event.own leg.label, Spares (F leg.label) e))

theorem Spared.spares {F : Fleet α} (h : Spared leg F (.leg leg.label e)) :
    Spares (F leg.label) e := h e (by simp [FleetEvent.own])

theorem launch_delivering (hs : Delivering leg s) :
    Delivering leg (s.launch leg) := by
  unfold LegState.launch
  split
  · exact hs.rephase (.settled _) _ _ False.elim (by simp) id (by simp [Phase.ended])
  · exact @Delivering.restart _ leg { s with kept := [], banked := false } rfl rfl _ (by simp)
      False.elim _ _ s.disk

theorem kill_delivering (hs : Delivering leg s) : Delivering leg s.kill := by
  constructor
  · intro k hk
    simp only [LegState.kill] at hk
    split at hk
    · exact hs.held k hk
    · cases hk
  · exact False.elim
  · simp [LegState.kill]
  · exact False.elim
  · simp [LegState.kill, Phase.ended]
  · intro hb
    have hb' : s.banked = true := hb
    simpa [LegState.kill, hb'] using hs.banked hb'

theorem fleet_delivering {L : Legs α} (hleg : leg ∈ L.legs) {F F' : Fleet α}
    {event : FleetEvent α} (hspare : Spared leg F event) (h : F.step ex L event = some F')
    (hs : Delivering leg (F leg.label)) : Delivering leg (F' leg.label) := by
  have hseen := fleet_seen hleg h
  generalize hF : F leg.label = s at *
  generalize F' leg.label = s' at *
  cases hseen with
  | launched ended => exact launch_delivering hs
  | unwound off => exact hs.rephase .idle _ _ False.elim (by simp) id (by simp [Phase.ended])
  | killed => exact kill_delivering hs
  | own e s' step => exact step_delivering (hF ▸ hspare.spares) step hs
  | other label e ne => exact hs

theorem step_over (h : s.step ex leg e = some s') (hover : s.phase.ended = true) :
    ∃ i pulled, e = .pull i pulled := by
  cases leg_step h with
  | pull i e w w' d mem step => exact ⟨i, e, rfl⟩
  | raised e phase => simp [Phase.onOffer_over phase] at hover
  | _ => simp_all [Phase.ended]

structure Stays (leg : FleetLeg α) (final kept : List (Path × α)) (s : LegState α) : Prop where
  banked : s.banked = true
  final : s.final = final
  kept : s.kept = kept
  marker : leg.marker ≠ "" → complete leg s.disk = true

theorem seen_stays {final kept : List (Path × α)} {event : FleetEvent α}
    (hagain : leg.marker ≠ "" ∨ event ≠ .launched) (h : Seen ex leg s event s')
    (hd : Delivering leg s) (hs : Stays leg final kept s) : Stays leg final kept s' := by
  have hover : s.phase.ended = true := by
    by_contra hnot
    have hbanked := hd.unbanked (by simpa using hnot)
    exact absurd (hs.banked.symm.trans hbanked) (by decide)
  cases h with
  | launched ended =>
    have hc := hs.marker (hagain.resolve_right (fun h => h rfl))
    unfold LegState.launch
    rw [if_pos hc]
    exact ⟨hs.banked, hs.final, hs.kept, hs.marker⟩
  | unwound off => exact ⟨hs.banked, hs.final, hs.kept, hs.marker⟩
  | killed =>
    refine ⟨hs.banked, hs.final, ?_, hs.marker⟩
    simp [LegState.kill, hs.banked, hs.kept]
  | own e s' step =>
    have hmarker := fun hm => step_complete step (hs.marker hm)
    obtain ⟨i, pulled, rfl⟩ := step_over step hover
    cases leg_step step with
    | pull i e w w' d mem moved => exact ⟨hs.banked, hs.final, hs.kept, hmarker⟩
  | other label e ne => exact hs

def Recorded (leg : FleetLeg α) (s : LegState α) : Prop :=
  match s.phase with
  | .closing r => r.status = .ok → Judged leg r
  | .settled r => r.status = .ok → Judged leg r ∧ s.banked = true
  | _ => True

theorem Recorded.of_not_over (hover : s.phase.ended = false)
    (h : ∀ r, s.phase = .closing r → r.status = .ok → Judged leg r) : Recorded leg s := by
  unfold Recorded
  split
  · rename_i r hr
    exact h r hr
  · rename_i r hr
    simp [hr, Phase.ended] at hover
  · trivial

theorem Recorded.of_bad {r : LegResult} (hphase : s.phase = .settled r) (h : r.status ≠ .ok) :
    Recorded leg s := by
  unfold Recorded
  rw [hphase]
  exact fun hok => absurd hok h

theorem afterValidation_judged {leg : FleetLeg α} {report : ArrivalReport} {r : LegResult}
    (h : afterValidation leg report = .closing r) : Judged leg r := by
  unfold afterValidation at h
  cases hr : refusal report with
  | none => simp [hr] at h
  | some bad =>
    simp only [hr, Phase.closing.injEq] at h
    exact .inr ⟨bad, h.symm⟩

theorem afterFetch_judged {leg : FleetLeg α} {d : Disk α} {r : LegResult}
    (h : afterFetch ex leg d = .closing r) (hok : r.status = .ok) : Judged leg r := by
  unfold afterFetch at h
  split at h
  · split at h
    · cases hl : listRoot d (target leg d) with
      | error report =>
        simp only [hl] at h
        exact afterValidation_judged h
      | ok paths => simp [hl] at h
    · cases h
  · cases h
    cases hok

theorem step_recorded (h : s.step ex leg e = some s') (hs : Recorded leg s) :
    Recorded leg s' := by
  cases leg_step h with
  | drained phase => exact Recorded.of_bad rfl (by simp [noOffers])
  | failed rc out phase =>
    refine Recorded.of_not_over rfl fun r hr hok => ?_
    cases hr
    cases hok
  | checked phase =>
    exact Recorded.of_not_over (afterFetch_late ex leg s.disk).not_over
      fun r hr => afterFetch_judged hr
  | validated report phase =>
    exact Recorded.of_not_over (afterValidation_late leg _).not_over
      fun r hr _ => afterValidation_judged hr
  | judged phase =>
    refine Recorded.of_not_over rfl fun r hr _ => ?_
    cases hr
    exact .inl ⟨s.disk, rfl⟩
  | closed r phase =>
    unfold Recorded at hs
    rw [phase] at hs
    exact fun hok => ⟨hs hok, by simp [hok]⟩
  | raised e phase =>
    unfold Recorded
    rcases afterRaise_over leg e with hp | hp | hp <;> simp only [hp]
    exact fun hok => absurd hok (failure_not_ok leg e)
  | pull i e w w' d mem step => exact hs
  | streamed log d phase streams ran =>
    exact Recorded.of_not_over (by simp [phase, Phase.ended]) (by simp [phase])
  | _ => trivial

theorem seen_recorded {event : FleetEvent α} (h : Seen ex leg s event s')
    (hs : Recorded leg s) : Recorded leg s' := by
  cases h with
  | launched ended =>
    unfold LegState.launch
    split
    · exact Recorded.of_bad rfl (by simp [skipResult])
    · trivial
  | unwound off => trivial
  | killed => trivial
  | own e s' step => exact step_recorded step hs
  | other label e ne => exact hs

theorem reported_ok {L : Legs α} (hleg : leg ∈ L.legs) {events : List (FleetEvent α)}
    {F : Fleet α} (h : exec (Fleet.step ex L) outside events = some F)
    (hok : (F leg.label).phase.report = some .ok)
    (hspare : Along (Spared leg) (Fleet.step ex L) outside events) :
    Delivering leg (F leg.label) ∧
      Stays leg (F leg.label).final (F leg.label).kept (F leg.label) := by
  have hstart : Delivering leg ((outside : Fleet α) leg.label) := by
    constructor <;> simp [outside, Phase.Early, Phase.Delivered]
  have hblank : Recorded leg ((outside : Fleet α) leg.label) := trivial
  have hd : Delivering leg (F leg.label) :=
    exec_keeps_along (I := fun F => Delivering leg (F leg.label))
      (fun hG hstep hs => fleet_delivering hleg hG hstep hs) hspare h hstart
  have hr : Recorded leg (F leg.label) :=
    exec_keeps (I := fun F => Recorded leg (F leg.label))
      (fun hstep hs => seen_recorded (fleet_seen hleg hstep) hs) h hblank
  obtain ⟨r, hphase, hstatus⟩ : ∃ r, (F leg.label).phase = .settled r ∧ r.status = .ok := by
    cases hp : (F leg.label).phase <;> simp_all [Phase.report]
  unfold Recorded at hr
  rw [hphase] at hr
  obtain ⟨hjudged, hbanked⟩ := hr hstatus
  have hdone : done leg (F leg.label).disk = true :=
    fleet_standing hleg h (by rw [hphase]; exact hjudged)
  exact ⟨hd, hbanked, rfl, rfl, fun hm => by simpa [done, hm] using hdone⟩

theorem spared_leg_stays {L : Legs α} (hleg : leg ∈ L.legs) {events later : List (FleetEvent α)}
    {F₁ F₂ : Fleet α} (h₁ : exec (Fleet.step ex L) outside events = some F₁)
    (hok : (F₁ leg.label).phase.report = some .ok)
    (h₂ : exec (Fleet.step ex L) F₁ later = some F₂)
    (hspare : Along (Spared leg) (Fleet.step ex L) outside (events ++ later))
    (hagain : leg.marker ≠ "" ∨ FleetEvent.launched ∉ later) :
    ∀ k, k ∈ (F₁ leg.label).final ∨ k ∈ (F₁ leg.label).kept →
      (F₂ leg.label).disk k.1 = some (.file k.2) := by
  obtain ⟨hspare₁, hspare₂⟩ := hspare.append h₁
  obtain ⟨hd₁, hs₁⟩ := reported_ok hleg h₁ hok hspare₁
  have hmay : ∀ event ∈ later, leg.marker ≠ "" ∨ event ≠ .launched := by
    intro event hevent
    exact hagain.imp id fun hno heq => hno (heq ▸ hevent)
  have hboth := exec_keeps_along
    (I := fun F => Delivering leg (F leg.label) ∧
      Stays leg (F₁ leg.label).final (F₁ leg.label).kept (F leg.label))
    (fun hG hstep hs => ⟨fleet_delivering hleg hG.1 hstep hs.1,
      seen_stays hG.2 (fleet_seen hleg hstep) hs.1 hs.2⟩)
    (hspare₂.and_mem hmay) h₂ ⟨hd₁, hs₁⟩
  obtain ⟨hd₂, hs₂⟩ := hboth
  intro k hk
  have hkept : k ∈ (F₂ leg.label).kept := by
    rw [hs₂.kept]
    exact hk.elim (hd₁.banked hs₁.banked k) id
  exact hd₂.held k hkept

def Puller.idle (w : Puller α) : Bool :=
  match w.doing with
  | .waiting => true
  | _ => false

def LegEvent.joins : LegEvent α → Bool
  | .exited _ _ | .raised _ => true
  | _ => false

/-- `join` never gives up: it returns when the puller has ended. -/
def Joined (leg : FleetLeg α) (F : Fleet α) (event : FleetEvent α) : Prop :=
  ∀ e ∈ event.own leg.label, e.joins = true → ∀ w ∈ (F leg.label).pullers, w.idle = true

instance (leg : FleetLeg α) (F : Fleet α) (event : FleetEvent α) :
    Decidable (Joined leg F event) :=
  inferInstanceAs (Decidable (∀ e ∈ event.own leg.label, e.joins = true →
    ∀ w ∈ (F leg.label).pullers, w.idle = true))

/-- No puller is at work but those of a command that is running. -/
def Stopped (s : LegState α) : Prop :=
  s.phase = .running ∨ ∀ w ∈ s.pullers, w.stop = true ∧ w.idle = true

theorem signal_stopped {pullers : List (Puller α)} (h : ∀ w ∈ pullers, w.idle = true) :
    ∀ w ∈ pullers.map Puller.signal, w.stop = true ∧ w.idle = true := by
  intro w hw
  obtain ⟨w₀, hw₀, rfl⟩ := List.mem_map.mp hw
  exact ⟨rfl, h w₀ hw₀⟩

theorem idle_step {d d' : Disk α} {w w' : Puller α} {e : PullEvent α} (hstop : w.stop = true)
    (hidle : w.idle = true) (h : w.step leg d e = some (w', d')) :
    w'.stop = true ∧ w'.idle = true := by
  obtain ⟨stop, doing⟩ := w
  cases doing with
  | waiting =>
    cases e with
    | began => simp_all [Puller.step]
    | copied landed => simp [Puller.step] at h
    | moved => simp [Puller.step] at h
    | failed =>
      cases h
      exact ⟨hstop, rfl⟩
  | copying => cases hidle
  | publishing ops => cases hidle

theorem step_stopped (hjoin : e.joins = true → ∀ w ∈ s.pullers, w.idle = true)
    (h : s.step ex leg e = some s') (hs : Stopped s) : Stopped s' := by
  cases leg_step h with
  | started phase => exact .inl rfl
  | streamed log d phase streams ran => exact .inl phase
  | failed rc out phase => exact .inr (signal_stopped (hjoin rfl))
  | nothing rc out phase => exact .inr (signal_stopped (hjoin rfl))
  | exited rc out d phase made => exact .inr (signal_stopped (hjoin rfl))
  | raised e phase => exact .inr (signal_stopped (hjoin rfl))
  | pull i e w w' d mem step =>
    refine hs.imp id fun hall w₁ hw₁ => ?_
    obtain ⟨hstop, hidle⟩ := hall w (List.mem_of_getElem? mem)
    rcases List.mem_or_eq_of_mem_set hw₁ with hw₁ | rfl
    · exact hall w₁ hw₁
    · exact idle_step hstop hidle step
  | _ => exact .inr (hs.resolve_left (by simp_all))

theorem stopped_spares (hd : Delivering leg s) (hq : Stopped s) : Spares s e := by
  intro op hop
  unfold LegState.pulled at hop
  split at hop
  · obtain ⟨w, hw, hnext⟩ := Option.bind_eq_some_iff.mp hop
    rcases hq with hrunning | hall
    · have hkept := hd.early (by simp [hrunning, Phase.Early])
      simp [hkept]
    · obtain ⟨_, hidle⟩ := hall w (List.mem_of_getElem? hw)
      unfold Puller.next at hnext
      unfold Puller.idle at hidle
      split at hnext <;> simp_all
  · cases hop

theorem joined_spared {L : Legs α} (hleg : leg ∈ L.legs) {events : List (FleetEvent α)}
    (h : Along (Joined leg) (Fleet.step ex L) outside events) :
    Along (Spared leg) (Fleet.step ex L) outside events := by
  have hspared : ∀ {F : Fleet α} {event : FleetEvent α},
      Delivering leg (F leg.label) ∧ Stopped (F leg.label) → Spared leg F event :=
    fun hs e _ => stopped_spares hs.1 hs.2
  refine h.imp (I := fun F => Delivering leg (F leg.label) ∧ Stopped (F leg.label))
    (fun hs _ => hspared hs) (fun {F event F'} hjoin hstep hs => ?_) ⟨?_, .inr ?_⟩
  · refine ⟨fleet_delivering hleg (hspared hs) hstep hs.1, ?_⟩
    have hseen := fleet_seen hleg hstep
    obtain ⟨_, hq⟩ := hs
    generalize hF : F leg.label = t at *
    generalize F' leg.label = t' at *
    cases hseen with
    | launched ended =>
      have hstill := hq.resolve_left (by rintro hp; simp [hp, Phase.ended] at ended)
      unfold LegState.launch
      split <;> exact .inr hstill
    | unwound off =>
      exact .inr (hq.resolve_left (by rintro hp; simp [hp, Phase.onOffer] at off))
    | killed => exact .inr (by simp [LegState.kill])
    | own e t' step =>
      exact step_stopped (fun he => hF ▸ hjoin e (by simp [FleetEvent.own]) he) step hq
    | other label e ne => exact hq
  · constructor <;> simp [outside, Phase.Early, Phase.Delivered]
  · simp [outside]

/-- What a leg was reported OK for is in its directory at the report and at every later
time: all that its final fetch has brought, and all that was validated; in every run in
which `join` has always waited for the puller. -/
theorem ok_leg_stays {L : Legs α} (hleg : leg ∈ L.legs) {events later : List (FleetEvent α)}
    {F₁ F₂ : Fleet α} (h₁ : exec (Fleet.step ex L) outside events = some F₁)
    (hok : (F₁ leg.label).phase.report = some .ok)
    (h₂ : exec (Fleet.step ex L) F₁ later = some F₂)
    (hjoined : Along (Joined leg) (Fleet.step ex L) outside (events ++ later))
    (hagain : leg.marker ≠ "" ∨ FleetEvent.launched ∉ later) :
    ∀ k, k ∈ (F₁ leg.label).final ∨ k ∈ (F₁ leg.label).kept →
      (F₂ leg.label).disk k.1 = some (.file k.2) :=
  spared_leg_stays hleg h₁ hok h₂ (joined_spared hleg hjoined) hagain

def pulledLeg : FleetLeg String := { outLeg with resumable := true }

def lenient : Executor String where
  formats := readable

def halfWritten : DirTree String where
  forest := .dir "out" (.file "field.npz" "arr" .nil) .nil
  wf := by simp [Forest.WF, Forest.names]

def pullEvents (events : List (PullEvent String)) : List (FleetEvent String) :=
  events.map fun e => .leg "arm-a" (.pull 0 e)

def finalFetch : List (FleetEvent String) :=
  [.exited 0 "", .copied fetchedOut, .moved, .moved, .moved, .moved, .moved, .checked,
    .scanned, .scanned, .scanned, .judged, .closed].map (.leg "arm-a")

def quickRun : List (FleetEvent String) :=
  [.launched, .leg "arm-a" .offered, .leg "arm-a" .started] ++
    pullEvents [.began, .copied halfWritten, .moved, .moved, .moved, .moved] ++ finalFetch

/-- One that is still copying when `join` gives up on it. -/
def slowRun : List (FleetEvent String) :=
  [.launched, .leg "arm-a" .offered, .leg "arm-a" .started] ++ pullEvents [.began] ++ finalFetch

def slowPull : List (FleetEvent String) :=
  pullEvents [.copied halfWritten, .moved, .moved, .moved]

def quickOk : Fleet String :=
  (exec (Fleet.step lenient (oneLeg pulledLeg)) outside quickRun).get (by decide +kernel)

def quickLater : Fleet String :=
  (exec (Fleet.step lenient (oneLeg pulledLeg)) quickOk [.killed, .launched]).get
    (by decide +kernel)

theorem quickOk_stays : (quickLater "arm-a").disk ["out", "field.npz"] = some (.file "array") := by
  have h₁ : exec (Fleet.step lenient (oneLeg pulledLeg)) outside quickRun = some quickOk :=
    (Option.some_get _).symm
  have h₂ : exec (Fleet.step lenient (oneLeg pulledLeg)) quickOk [.killed, .launched] =
      some quickLater := (Option.some_get _).symm
  exact ok_leg_stays (.head _) h₁ (by decide +kernel) h₂ (by decide +kernel) (.inl (by decide))
    (["out", "field.npz"], "array") (.inl (by decide +kernel))

def slowOk : Fleet String :=
  (exec (Fleet.step lenient (oneLeg pulledLeg)) outside slowRun).get (by decide +kernel)

def slowLater : Fleet String :=
  (exec (Fleet.step lenient (oneLeg pulledLeg)) slowOk slowPull).get (by decide +kernel)

/-- The leg has been validated and reported OK when the late pull puts its half of the array
in the place of the whole one. -/
theorem slowPull_overwrites :
    (slowOk "arm-a").phase.report = some .ok ∧
    (slowOk "arm-a").disk ["out", "field.npz"] = some (.file "array") ∧
    (slowLater "arm-a").disk ["out", "field.npz"] = some (.file "arr") ∧
    ¬ (∀ (ex : Executor String) (L : Legs String) (leg : FleetLeg String), leg ∈ L.legs →
      ∀ events later F₁ F₂, exec (Fleet.step ex L) outside events = some F₁ →
        (F₁ leg.label).phase.report = some .ok → exec (Fleet.step ex L) F₁ later = some F₂ →
        (leg.marker ≠ "" ∨ FleetEvent.launched ∉ later) →
        ∀ k, k ∈ (F₁ leg.label).final → (F₂ leg.label).disk k.1 = some (.file k.2)) := by
  have hok : (slowOk "arm-a").phase.report = some .ok := by decide +kernel
  have hlater : (slowLater "arm-a").disk ["out", "field.npz"] = some (.file "arr") := by
    decide +kernel
  refine ⟨hok, by decide +kernel, hlater, fun h => ?_⟩
  have h₁ : exec (Fleet.step lenient (oneLeg pulledLeg)) outside slowRun = some slowOk :=
    (Option.some_get _).symm
  have h₂ : exec (Fleet.step lenient (oneLeg pulledLeg)) slowOk slowPull = some slowLater :=
    (Option.some_get _).symm
  have hkept := h lenient (oneLeg pulledLeg) pulledLeg (.head _) _ _ _ _ h₁ hok h₂
    (.inl (by decide)) (["out", "field.npz"], "array") (by decide +kernel)
  exact absurd (hlater.symm.trans hkept) (by decide)

end RunFarm
