import RunFarm.Fleet.Handover

/-! Whether the work that goes from host to host is whole where it comes, and whether what a
leg is judged on is. -/
set_option autoImplicit false

namespace RunFarm
open Files Transition

variable {α : Type} {leg : FleetLeg α} {workDir : String} {ex : Executor α}
  {s s' : Handover α} {e : HandEvent α}

/-- A `publish` is still to do this step. -/
def LegState.Flying (s : LegState α) (op : Op α) : Prop :=
  (∃ ops, s.phase = .publishing ops ∧ op ∈ ops) ∨
    ∃ w ∈ s.pullers, ∃ ops, w.doing = .publishing ops ∧ op ∈ ops

def LegEvent.lands : LegEvent α → Option (DirTree α)
  | .copied landed => some landed
  | _ => none

def LegEvent.pulls : LegEvent α → Option (Nat × DirTree α)
  | .pull i (.copied landed) => some (i, landed)
  | _ => none

def LegEvent.brings (e : LegEvent α) : Option (DirTree α) := e.lands <|> e.pulls.map Prod.snd

theorem leg_writes {s s' : LegState α} {e : LegEvent α} (h : s.step ex leg e = some s')
    {p : Path} {c : α} (hp : s'.disk p = some (.file c)) : s.disk p = some (.file c) ∨
      (leg.streamProgress = true ∧ p = [progressLog]) ∨ s.Flying (.replace p c) := by
  cases leg_step h with
  | streamed log d phase streams ran =>
    refine (run_file_origin ran hp).imp id fun hin => .inl ⟨streams, ?_⟩
    simpa using (show p = [progressLog] ∧ c = log by simpa using hin).1
  | exited rc out d phase made =>
    exact .inl ((run_file_origin (run_one made) hp).resolve_right (by simp))
  | moved op ops d phase done =>
    refine (run_file_origin (run_one done) hp).imp id fun hin => .inr (.inl ⟨_, phase, ?_⟩)
    exact List.mem_cons.mpr (.inl (List.mem_singleton.mp hin))
  | pull i e w w' d mem step =>
    obtain ⟨ops, hrun, hops⟩ := pull_runs step
    refine (run_file_origin hrun hp).imp id fun hin => .inr (.inr ?_)
    rcases hops _ hin with hop | ⟨_, hnext⟩
    · cases hop
    · unfold Puller.next at hnext
      split at hnext
      · rename_i op ops' hdoing
        cases hnext
        exact ⟨w, List.mem_of_getElem? mem, _, hdoing, .head _⟩
      · cases hnext
  | _ => exact .inl hp

theorem pull_flying {w w' : Puller α} {d d' : Disk α} {e : PullEvent α}
    (h : w.step leg d e = some (w', d')) {ops' : List (Op α)} (hdoing : w'.doing = .publishing ops')
    {op : Op α} (hop : op ∈ ops') : (∃ ops, w.doing = .publishing ops ∧ op ∈ ops) ∨
      ∃ landed, e = .copied landed ∧ op ∈ publishSteps landed leg.marker := by
  cases e with
  | began =>
    simp only [Puller.step] at h
    split at h
    · split at h
      · cases h
      · obtain ⟨d₁, _, heq⟩ := Option.map_eq_some_iff.mp h
        cases heq
        cases hdoing
    · cases h
  | copied landed =>
    simp only [Puller.step] at h
    split at h <;> cases h
    cases hdoing
    exact .inr ⟨landed, rfl, hop⟩
  | moved =>
    simp only [Puller.step] at h
    split at h
    · rename_i op' ops hbefore
      obtain ⟨d₁, _, heq⟩ := Option.map_eq_some_iff.mp h
      cases heq
      cases hdoing
      exact .inl ⟨_, hbefore, .tail _ hop⟩
    · cases h
      cases hdoing
    · cases h
  | failed =>
    cases h
    cases hdoing

theorem signal_flying {pullers : List (Puller α)} {op : Op α}
    (h : ∃ w ∈ pullers.map Puller.signal, ∃ ops, w.doing = .publishing ops ∧ op ∈ ops) :
    ∃ w ∈ pullers, ∃ ops, w.doing = .publishing ops ∧ op ∈ ops := by
  obtain ⟨w, hw, hfly⟩ := h
  obtain ⟨w₀, hw₀, rfl⟩ := List.mem_map.mp hw
  exact ⟨w₀, hw₀, hfly⟩

theorem leg_flying {s s' : LegState α} {e : LegEvent α} (h : s.step ex leg e = some s')
    {op : Op α} (hop : s'.Flying op) :
    s.Flying op ∨ ∃ landed ∈ e.brings, op ∈ publishSteps landed leg.marker := by
  cases leg_step h with
  | started phase =>
    refine .inl (.inr ?_)
    rcases hop with ⟨ops, hphase, _⟩ | ⟨w, hw, hfly⟩
    · cases hphase
    · split at hw
      · rcases List.mem_append.mp hw with hw | hw
        · exact ⟨w, hw, hfly⟩
        · cases List.mem_singleton.mp hw
          obtain ⟨ops, hdoing, _⟩ := hfly
          cases hdoing
      · exact ⟨w, hw, hfly⟩
  | failed rc out phase =>
    exact .inl (.inr (signal_flying (hop.resolve_left (by simp))))
  | nothing rc out phase =>
    exact .inl (.inr (signal_flying (hop.resolve_left (by simp))))
  | exited rc out d phase made =>
    exact .inl (.inr (signal_flying (hop.resolve_left (by simp))))
  | raised e phase =>
    refine .inl (.inr (signal_flying (hop.resolve_left ?_)))
    rcases afterRaise_over leg e with hp | hp | hp <;> simp [hp]
  | copied landed phase =>
    rcases hop with ⟨ops, hphase, hin⟩ | hpull
    · cases hphase
      exact .inr ⟨landed, rfl, hin⟩
    · exact .inl (.inr hpull)
  | moved op' ops d phase done =>
    rcases hop with ⟨ops', hphase, hin⟩ | hpull
    · cases hphase
      exact .inl (.inl ⟨_, phase, .tail _ hin⟩)
    · exact .inl (.inr hpull)
  | checked phase =>
    refine .inl (.inr (hop.resolve_left ?_))
    rintro ⟨ops, hphase, _⟩
    exact (afterFetch_late ex leg s.disk).not_publishing ops hphase
  | validated report phase =>
    refine .inl (.inr (hop.resolve_left ?_))
    rintro ⟨ops, hphase, _⟩
    exact (afterValidation_late leg (closeReport report)).not_publishing ops hphase
  | pull i e w w' d mem step =>
    rcases hop with hpublish | ⟨w₁, hw₁, ops, hdoing, hin⟩
    · exact .inl (.inl hpublish)
    · rcases List.mem_or_eq_of_mem_set hw₁ with hw₁ | rfl
      · exact .inl (.inr ⟨w₁, hw₁, ops, hdoing, hin⟩)
      · rcases pull_flying step hdoing hin with ⟨ops', hbefore, hin'⟩ | ⟨landed, rfl, hin'⟩
        · exact .inl (.inr ⟨w, List.mem_of_getElem? mem, ops', hbefore, hin'⟩)
        · exact .inr ⟨landed, rfl, hin'⟩
  | streamed log d phase streams ran => exact .inl hop
  | _ => exact .inl (.inr (hop.resolve_left (by simp)))

def CopyOf (workDir : String) (leg : FleetLeg α) (box : Option (Disk α)) (landed : DirTree α) :
    Prop :=
  ∀ k ∈ landed.files, ∀ q, k.1 = localPlace leg ++ q →
    ∃ b ∈ box, b (remotePlace workDir leg ++ q) = some (.file k.2)

theorem copyOf_iff {box : Option (Disk α)} {landed : DirTree α} :
    CopyOf workDir leg box landed ↔ ∀ k ∈ landed.files, localPlace leg <+: k.1 → ∃ b ∈ box,
      b (remotePlace workDir leg ++ k.1.drop (localPlace leg).length) = some (.file k.2) := by
  refine forall₂_congr fun k hk => ⟨fun h hpre => h _ (List.prefix_iff_eq_append.mp hpre).symm,
    fun h q hq => ?_⟩
  have hfile := h ⟨q, hq.symm⟩
  rwa [hq, List.drop_left] at hfile

instance [DecidableEq α] (workDir : String) (leg : FleetLeg α) (box : Option (Disk α))
    (landed : DirTree α) : Decidable (CopyOf workDir leg box landed) :=
  decidable_of_iff _ copyOf_iff.symm

section
variable (Whole : Path → α → Prop)

/-- What comes to a host is whole, and what is copied is what was there. -/
def Faithful (workDir : String) (leg : FleetLeg α) (s : Handover α) : HandEvent α → Prop
  | .arrived box => ∀ k ∈ filesBelow (remotePlace workDir leg) box, Whole k.1 k.2
  | .restoring => True
  | .sent q c => s.landing = some (restorePlace workDir leg) ∧
      s.leg.disk (localPlace leg ++ q) = some (.file c)
  | .computed _ q c => Whole q c
  | .leg e => (∀ landed ∈ e.lands, CopyOf workDir leg s.boxes.getLast? landed) ∧
      ∀ k ∈ e.pulls, CopyOf workDir leg s.boxes[k.1]? k.2

instance [DecidableEq α] [∀ q c, Decidable (Whole q c)] (workDir : String) (leg : FleetLeg α)
    (s : Handover α) (e : HandEvent α) : Decidable (Faithful Whole workDir leg s e) :=
  match e with
  | .arrived box => inferInstanceAs
      (Decidable (∀ k ∈ filesBelow (remotePlace workDir leg) box, Whole k.1 k.2))
  | .restoring => .isTrue trivial
  | .sent q c => inferInstanceAs (Decidable (s.landing = some (restorePlace workDir leg) ∧
      s.leg.disk (localPlace leg ++ q) = some (.file c)))
  | .computed _ q c => inferInstanceAs (Decidable (Whole q c))
  | .leg e => inferInstanceAs (Decidable
      ((∀ landed ∈ e.lands, CopyOf workDir leg s.boxes.getLast? landed) ∧
        ∀ k ∈ e.pulls, CopyOf workDir leg s.boxes[k.1]? k.2))

/-- All that there is of the fetched tree is whole: in the leg directory and on its way into
it, and on the hosts. -/
structure WholeWork (workDir : String) (leg : FleetLeg α) (s : Handover α) : Prop where
  stock : ∀ q c, s.leg.disk (localPlace leg ++ q) = some (.file c) → Whole q c
  flying : ∀ q c, s.leg.Flying (.replace (localPlace leg ++ q) c) → Whole q c
  boxes : ∀ box ∈ s.boxes, ∀ q c,
    box (remotePlace workDir leg ++ q) = some (.file c) → Whole q c
  next : ∀ q c, s.next (remotePlace workDir leg ++ q) = some (.file c) → Whole q c

end

variable {Whole : Path → α → Prop}

theorem publishSteps_from {landed : DirTree α} {marker : String} {p : Path} {c : α}
    (h : Op.replace p c ∈ publishSteps landed marker) : (p, c) ∈ landed.files := by
  unfold publishSteps at h
  split at h
  · simp at h
  · exact (replace_mem_publishOps landed _).mp h

theorem WholeWork.leg_step (hleg : Relays leg) (hs : WholeWork Whole workDir leg s)
    {e : LegEvent α} {l : LegState α} (h : s.leg.step ex leg e = some l)
    (hbrings : ∀ landed ∈ e.brings, ∀ k ∈ landed.files, ∀ q,
      k.1 = localPlace leg ++ q → Whole q k.2) :
    (∀ q c, l.disk (localPlace leg ++ q) = some (.file c) → Whole q c) ∧
      ∀ q c, l.Flying (.replace (localPlace leg ++ q) c) → Whole q c := by
  constructor
  · intro q c hfile
    rcases leg_writes h hfile with hold | ⟨hstreams, hlog⟩ | hfly
    · exact hs.stock q c hold
    · rw [localPlace, hleg.named] at hlog
      exact absurd (List.cons.inj hlog).1 (hleg.unlogged hstreams)
    · exact hs.flying q c hfly
  · intro q c hfly
    rcases leg_flying h hfly with hold | ⟨landed, hin, hop⟩
    · exact hs.flying q c hold
    · exact hbrings landed hin _ (publishSteps_from hop) q rfl

theorem WholeWork.copied (hs : WholeWork Whole workDir leg s) {box : Option (Disk α)}
    (hbox : ∀ b ∈ box, b ∈ s.boxes) {landed : DirTree α}
    (h : CopyOf workDir leg box landed) :
    ∀ k ∈ landed.files, ∀ q, k.1 = localPlace leg ++ q → Whole q k.2 := by
  intro k hk q hq
  obtain ⟨b, hb, hfile⟩ := h k hk q hq
  exact hs.boxes b (hbox b hb) q k.2 hfile

theorem step_whole (hleg : Relays leg) (hfaithful : Faithful Whole workDir leg s e)
    (h : s.step ex workDir leg e = some s') (hs : WholeWork Whole workDir leg s) :
    WholeWork Whole workDir leg s' := by
  cases hand_step h with
  | arrived box phase => exact ⟨hs.stock, hs.flying, hs.boxes, forall_below.mp hfaithful⟩
  | restoring phase => exact ⟨hs.stock, hs.flying, hs.boxes, hs.next⟩
  | sent q c place next phase landing there put =>
    obtain ⟨hplace, hstock⟩ := hfaithful
    refine ⟨hs.stock, hs.flying, hs.boxes, fun q' c' hfile => ?_⟩
    rcases putFile_origin put hfile with hold | ⟨hpath, rfl⟩
    · exact hs.next q' c' hold
    · rw [landing, Option.some_inj] at hplace
      rw [hplace, hleg.restorePlace_eq] at hpath
      exact List.append_cancel_left hpath ▸ hs.stock q c' hstock
  | computed i q c box box' mem missing put =>
    refine ⟨hs.stock, hs.flying, fun b hb q' c' hfile => ?_, hs.next⟩
    rcases List.mem_or_eq_of_mem_set hb with hb | rfl
    · exact hs.boxes b hb q' c' hfile
    · rcases putFile_origin put hfile with hold | ⟨hpath, rfl⟩
      · exact hs.boxes box (List.mem_of_getElem? mem) q' c' hold
      · exact List.append_cancel_left hpath ▸ hfaithful
  | offered l step =>
    obtain ⟨hstock, hflying⟩ := hs.leg_step hleg step fun _ hnone => by cases hnone
    exact ⟨hstock, hflying, hs.boxes, fun q c hfile => by cases hfile⟩
  | started l step =>
    obtain ⟨hstock, hflying⟩ := hs.leg_step hleg step fun _ hnone => by cases hnone
    refine ⟨hstock, hflying, fun b hb => ?_, hs.next⟩
    rcases List.mem_append.mp hb with hb | hb
    · exact hs.boxes b hb
    · cases List.mem_singleton.mp hb
      exact hs.next
  | brought landed l box last from_ step =>
    have hbrings := hs.copied (fun b hb => List.mem_of_getLast? hb) (hfaithful.1 landed rfl)
    obtain ⟨hstock, hflying⟩ := hs.leg_step hleg step fun _ hin => by
      cases hin
      exact hbrings
    exact ⟨hstock, hflying, hs.boxes, hs.next⟩
  | pulled i landed l box mem from_ step =>
    have hbrings := hs.copied (fun b hb => List.mem_of_getElem? hb) (hfaithful.2 (i, landed) rfl)
    obtain ⟨hstock, hflying⟩ := hs.leg_step hleg step fun _ hin => by
      cases hin
      exact hbrings
    exact ⟨hstock, hflying, hs.boxes, hs.next⟩
  | other e l plain step =>
    have hnone : e.brings = none := by
      unfold LegEvent.brings LegEvent.lands LegEvent.pulls
      split
      · cases plain
      · split
        · cases plain
        · rfl
    obtain ⟨hstock, hflying⟩ := hs.leg_step hleg step (by simp [hnone])
    exact ⟨hstock, hflying, hs.boxes, hs.next⟩

/-- Where each transfer is a copy of what was there, a file that a payload has written whole
is whole wherever it comes, over any number of hosts. -/
theorem relay_whole (hleg : Relays leg) {d : Disk α}
    (hd : ∀ q c, d (localPlace leg ++ q) = some (.file c) → Whole q c)
    {events : List (HandEvent α)}
    (h : exec (Handover.step ex workDir leg) (.begin d) events = some s)
    (hfaithful : Along (Faithful Whole workDir leg) (Handover.step ex workDir leg) (.begin d)
      events) : WholeWork Whole workDir leg s := by
  refine exec_keeps_along (I := WholeWork Whole workDir leg)
    (fun hG hstep hs => step_whole hleg hG hstep hs) hfaithful h ⟨hd, ?_, ?_, ?_⟩
  · rintro q c (⟨ops, hphase, _⟩ | ⟨w, hw, _⟩)
    · cases hphase
    · cases hw
  · intro b hb
    cases hb
  · intro q c hfile
    cases hfile

theorem afterTwoHosts_whole :
    WholeWork (fun _ c => c ∈ ["array", "done"]) "/root" pulledLeg afterTwoHosts := by
  have hrun : exec (Handover.step lenient "/root" pulledLeg) (.begin Python.Dict.empty) twoHosts =
      some afterTwoHosts := (Option.some_get _).symm
  exact relay_whole pulledLeg_relays (fun q c hfile => by cases hfile) hrun (by decide +kernel)

/-- The final fetch has brought what is in `final`. -/
def Phase.Brought (p : Phase α) : Prop := p.Delivered ∨ ∃ ops, p = .publishing ops

theorem leg_final {s s' : LegState α} {e : LegEvent α} (h : s.step ex leg e = some s')
    (hb : s'.phase.Brought) : (s'.final = s.final ∧ s.phase.Brought) ∨
      (∃ landed, e = .copied landed ∧ s'.final = landed.files) ∨ s'.final = [] := by
  cases leg_step h with
  | copied landed phase => exact .inr (.inl ⟨landed, rfl, rfl⟩)
  | nothing rc out phase => exact .inr (.inr rfl)
  | moved op ops d phase done => exact .inl ⟨rfl, .inr ⟨_, phase⟩⟩
  | published phase returns => exact .inl ⟨rfl, .inr ⟨_, phase⟩⟩
  | checked phase => exact .inl ⟨rfl, .inl (by simp [phase, Phase.Delivered])⟩
  | scanned p paths report phase => exact .inl ⟨rfl, .inl (by simp [phase, Phase.Delivered])⟩
  | validated report phase => exact .inl ⟨rfl, .inl (by simp [phase, Phase.Delivered])⟩
  | judged phase => exact .inl ⟨rfl, .inl (by simp [phase, Phase.Delivered])⟩
  | pull i e w w' d mem step => exact .inl ⟨rfl, hb⟩
  | streamed log d phase streams ran => exact .inl ⟨rfl, hb⟩
  | raised e phase =>
    rcases afterRaise_over leg e with hp | hp | hp <;>
      simp [Phase.Brought, Phase.Delivered, hp] at hb
  | _ => simp [Phase.Brought, Phase.Delivered, runFail] at hb

/-- The payload of the last host writes whole files, and the final copy is one of what is
there. -/
def OnLastHost (Whole : Path → α → Prop) (workDir : String) (leg : FleetLeg α)
    (s : Handover α) : HandEvent α → Prop
  | .computed _ q c => Whole q c
  | .leg e => (HandEvent.leg e).starts = false ∧
      ∀ landed ∈ e.lands, CopyOf workDir leg s.boxes.getLast? landed
  | _ => True

instance [DecidableEq α] [∀ q c, Decidable (Whole q c)] (workDir : String) (leg : FleetLeg α)
    (s : Handover α) (e : HandEvent α) : Decidable (OnLastHost Whole workDir leg s e) :=
  match e with
  | .arrived _ | .restoring | .sent _ _ => .isTrue trivial
  | .computed _ q c => inferInstanceAs (Decidable (Whole q c))
  | .leg e => inferInstanceAs (Decidable ((HandEvent.leg e).starts = false ∧
      ∀ landed ∈ e.lands, CopyOf workDir leg s.boxes.getLast? landed))

/-- What the last host has, it was handed over or its payload has written; the final fetch
has brought nothing else. `given` are the files that it was handed over. -/
structure Linked (Whole : Path → α → Prop) (workDir : String) (leg : FleetLeg α) (given : Disk α)
    (i : Nat) (s : Handover α) : Prop where
  last : s.boxes.length = i + 1
  kept : ∀ p c, given p = some (.file c) → s.Holds i p c
  origin : ∀ q c, s.Holds i (remotePlace workDir leg ++ q) c →
    given (remotePlace workDir leg ++ q) = some (.file c) ∨
      ((∀ c', given (remotePlace workDir leg ++ q) ≠ some (.file c')) ∧ Whole q c)
  final : s.leg.phase.Brought → ∀ k ∈ s.leg.final, ∃ q, k.1 = localPlace leg ++ q ∧
    s.Holds i (remotePlace workDir leg ++ q) k.2

variable {given : Disk α} {i : Nat}

theorem Linked.whole_iff (hs : Linked Whole workDir leg given i s) {q : Path} {c : α}
    (h : s.Holds i (remotePlace workDir leg ++ q) c) :
    Whole q c ↔ ∀ c', given (remotePlace workDir leg ++ q) = some (.file c') → Whole q c' := by
  rcases hs.origin q c h with hgiven | ⟨hnone, hwhole⟩
  · refine ⟨fun hwhole c' hc' => ?_, fun hall => hall c hgiven⟩
    rw [hgiven] at hc'
    cases hc'
    exact hwhole
  · exact iff_of_true hwhole fun c' hc' => absurd hc' (hnone c')

theorem Linked.leg_step (hs : Linked Whole workDir leg given i s) {e : LegEvent α}
    {l : LegState α} (h : s.leg.step ex leg e = some l)
    (hcopied : ∀ landed, e = .copied landed → ∀ k ∈ landed.files, ∃ q, k.1 = localPlace leg ++ q ∧
      s.Holds i (remotePlace workDir leg ++ q) k.2) (next : Disk α) (landing : Option Path) :
    Linked Whole workDir leg given i { s with leg := l, next := next, landing := landing } := by
  refine ⟨hs.last, hs.kept, hs.origin, fun hb k hk => ?_⟩
  rcases leg_final h hb with ⟨hfinal, hbefore⟩ | ⟨landed, rfl, hfinal⟩ | hfinal
  · exact hs.final hbefore k (hfinal ▸ hk)
  · exact hcopied landed rfl k (hfinal ▸ hk)
  · simp only [hfinal] at hk
    cases hk

theorem fromBox_path (hleg : Relays leg) {box : Disk α} {landed : DirTree α}
    (h : fromBox workDir leg box landed = true) {k : Path × α} (hk : k ∈ landed.files) :
    ∃ q, k.1 = localPlace leg ++ q := by
  have hfrom := List.all_eq_true.mp h k hk
  split at hfrom
  · cases hfrom
  · rename_i n q hpath
    simp only [Bool.and_eq_true, decide_eq_true_eq] at hfrom
    refine ⟨q, ?_⟩
    rw [hpath, hfrom.1, basename_remotePath workDir hleg.name_ne, localPlace, hleg.named,
      List.singleton_append]

theorem step_linked (hleg : Relays leg) (hlast : OnLastHost Whole workDir leg s e)
    (h : s.step ex workDir leg e = some s') (hs : Linked Whole workDir leg given i s) :
    Linked Whole workDir leg given i s' := by
  cases hand_step h with
  | arrived box phase => exact ⟨hs.last, hs.kept, hs.origin, hs.final⟩
  | restoring phase => exact ⟨hs.last, hs.kept, hs.origin, hs.final⟩
  | sent q c place next phase landing there put =>
    exact ⟨hs.last, hs.kept, hs.origin, hs.final⟩
  | computed j q c box box' mem missing put =>
    refine ⟨by simpa using hs.last, fun p c' hp => box_keeps h (hs.kept p c' hp),
      fun q' c' hholds => ?_, fun hb k hk => ?_⟩
    · by_cases hij : j = i
      · subst hij
        obtain ⟨b, hb, hfile⟩ := hholds
        rw [List.getElem?_set_self (List.getElem?_eq_some_iff.mp mem).1] at hb
        cases hb
        rcases putFile_origin put hfile with hold | ⟨hpath, rfl⟩
        · exact hs.origin q' c' ⟨box, mem, hold⟩
        · have hq := List.append_cancel_left hpath
          refine .inr ⟨fun c₀ hgiven => ?_, hq ▸ hlast⟩
          obtain ⟨b, hb, hfile₀⟩ := hs.kept _ c₀ hgiven
          rw [mem] at hb
          cases hb
          rw [hq, missing] at hfile₀
          cases hfile₀
      · obtain ⟨b, hb, hfile⟩ := hholds
        rw [List.getElem?_set_ne hij] at hb
        exact hs.origin q' c' ⟨b, hb, hfile⟩
    · obtain ⟨q', hpath, hholds⟩ := hs.final hb k hk
      exact ⟨q', hpath, box_keeps h hholds⟩
  | offered l step => exact hs.leg_step step (by simp) _ _
  | started l step => cases hlast.1
  | brought landed l box last from_ step =>
    refine hs.leg_step step (fun landed' heq k hk => ?_) _ _
    cases heq
    obtain ⟨q, hpath⟩ := fromBox_path hleg from_ hk
    obtain ⟨b, hb, hfile⟩ := hlast.2 landed rfl k hk q hpath
    rw [List.getLast?_eq_getElem?, hs.last, Nat.add_sub_cancel] at hb
    exact ⟨q, hpath, b, hb, hfile⟩
  | pulled j landed l box mem from_ step => exact hs.leg_step step (by simp) _ _
  | other e l plain step =>
    refine hs.leg_step step (fun landed heq => ?_) _ _
    subst heq
    cases plain

/-- No puller puts something else in the place of what the final fetch has brought. -/
def HandSpares (s : Handover α) : HandEvent α → Prop
  | .leg e => Spares s.leg e
  | _ => True

instance [DecidableEq α] (s : Handover α) (e : HandEvent α) : Decidable (HandSpares s e) :=
  match e with
  | .arrived _ | .restoring | .sent _ _ | .computed _ _ _ => .isTrue trivial
  | .leg e => inferInstanceAs (Decidable (Spares s.leg e))

theorem hand_delivering (hspare : HandSpares s e) (h : s.step ex workDir leg e = some s')
    (hs : Delivering leg s.leg) : Delivering leg s'.leg := by
  cases hand_step h with
  | offered l step => exact step_delivering hspare step hs
  | started l step => exact step_delivering hspare step hs
  | brought landed l box last from_ step => exact step_delivering hspare step hs
  | pulled j landed l box mem from_ step => exact step_delivering hspare step hs
  | other e l plain step => exact step_delivering hspare step hs
  | _ => exact hs

theorem start_linked {m m' : Handover α} (h : m.step ex workDir leg (.leg .started) = some m') :
    Linked Whole workDir leg m.next m.boxes.length m' := by
  cases hand_step h with
  | started l step =>
    refine ⟨by simp, fun p c hp => ⟨m.next, by simp, hp⟩, fun q c hholds => .inl ?_, fun hb => ?_⟩
    · obtain ⟨b, hb, hfile⟩ := hholds
      simp only [List.getElem?_concat_length, Option.some_inj] at hb
      exact hb ▸ hfile
    · cases leg_step step with
      | started phase => simp [Phase.Brought, Phase.Delivered] at hb
  | other e l plain step => cases plain

/-- A leg is judged on what its last host was handed over and has added: a file that the
final fetch has brought is whole exactly if the host was not handed over a torn one in its
place, however many pulls have come since. -/
theorem judged_on_handed (Whole : Path → α → Prop) (hleg : Relays leg) {d : Disk α}
    {before behind : List (HandEvent α)} {m m' : Handover α}
    (h₁ : exec (Handover.step ex workDir leg) (.begin d) before = some m)
    (hstart : m.step ex workDir leg (.leg .started) = some m')
    (h₂ : exec (Handover.step ex workDir leg) m' behind = some s)
    (hlast : Along (OnLastHost Whole workDir leg) (Handover.step ex workDir leg) m' behind)
    (hspare : Along HandSpares (Handover.step ex workDir leg) (.begin d)
      (before ++ .leg .started :: behind)) (hjudged : s.leg.phase.Delivered) :
    ∀ k ∈ s.leg.final, s.leg.disk k.1 = some (.file k.2) ∧ ∃ q, k.1 = localPlace leg ++ q ∧
      (Whole q k.2 ↔ ∀ c, m.next (remotePlace workDir leg ++ q) = some (.file c) → Whole q c) := by
  have hlinked : Linked Whole workDir leg m.next m.boxes.length s :=
    exec_keeps_along (I := Linked Whole workDir leg m.next m.boxes.length)
      (fun hG hstep hs => step_linked hleg hG hstep hs) hlast h₂ (start_linked hstart)
  have hrun : exec (Handover.step ex workDir leg) (.begin d) (before ++ .leg .started :: behind) =
      some s := by
    rw [exec_append, h₁, Option.bind_some, exec_cons_of hstart, h₂]
  have hdelivering : Delivering leg s.leg :=
    exec_keeps_along (I := fun s => Delivering leg s.leg)
      (fun hG hstep hs => hand_delivering hG hstep hs) hspare hrun
      (by constructor <;> simp [Handover.begin, Phase.Early, Phase.Delivered])
  intro k hk
  obtain ⟨q, hpath, hholds⟩ := hlinked.final (.inl hjudged) k hk
  exact ⟨hdelivering.held k (hdelivering.delivered hjudged k hk), q, hpath,
    hlinked.whole_iff hholds⟩

instance (p : Phase α) : Decidable p.Delivered :=
  match p with
  | .checking | .validating _ _ | .judging => .isTrue trivial
  | .closing r => inferInstanceAs (Decidable (r.status = .ok))
  | .idle | .queued | .renting | .running | .copying | .publishing _ | .settled _ | .halted =>
    .isFalse id

def tornStart : Handover String :=
  (exec (Handover.step lenient "/root" pulledLeg) (.begin Python.Dict.empty)
    (lostHost "arr" ++ setUp "arr")).get (by decide +kernel)

def tornStarted : Handover String :=
  (tornStart.step lenient "/root" pulledLeg (.leg .started)).get (by decide +kernel)

def tornTree : DirTree String where
  forest := .dir "out" (.file "field.npz" "arr" (.file "manifest.json" "done" .nil)) .nil
  wf := by simp [Forest.WF, Forest.names]

def tornEvents : List (HandEvent String) :=
  .computed 1 ["manifest.json"] "done" :: [.exited 0 "", .copied tornTree, .moved, .moved, .moved,
    .moved, .moved, .checked, .scanned, .scanned, .scanned, .judged].map .leg

def tornEnd : Handover String :=
  (exec (Handover.step lenient "/root" pulledLeg) tornStarted tornEvents).get (by decide +kernel)

/-- The leg is about to be reported OK, with the half of the array that was pulled before the
first host was lost; no transfer has torn anything after that. -/
theorem tornEnd_judged : tornEnd.leg.phase.Delivered ∧
    tornEnd.leg.disk ["out", "field.npz"] = some (.file "arr") := by
  have hjudged : tornEnd.leg.phase.Delivered := by decide +kernel
  have h₁ : exec (Handover.step lenient "/root" pulledLeg) (.begin Python.Dict.empty)
      (lostHost "arr" ++ setUp "arr") = some tornStart := (Option.some_get _).symm
  have hstart : tornStart.step lenient "/root" pulledLeg (.leg .started) = some tornStarted :=
    (Option.some_get _).symm
  have h₂ : exec (Handover.step lenient "/root" pulledLeg) tornStarted tornEvents =
      some tornEnd := (Option.some_get _).symm
  have hall := judged_on_handed (fun _ c => c ≠ "arr") pulledLeg_relays h₁ hstart h₂
    (by decide +kernel) (by decide +kernel) hjudged
  exact ⟨hjudged, (hall (["out", "field.npz"], "arr") (by decide +kernel)).1⟩

end RunFarm
