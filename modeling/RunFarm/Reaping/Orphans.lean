import RunFarm.Interleaving
import RunFarm.ReapCall

/-! Drivers that may die anywhere beside reap runs: the boxes they leave stay in sight of the
sweep. -/
set_option autoImplicit false

namespace RunFarm
open Python (Dict)
open Relation (ReflTransGen)

/-- The box had its `rented` row and does not run any more. -/
structure Over (f : Campaign) (iid : String) : Prop where
  rented : RentedIn f.rows iid
  out : iid ∉ f.live

/-- A driver logs no box gone that still runs. -/
def Candid (f g : Campaign) : Prop :=
  ∀ out, g.rows = f.rows ++ out → ∀ e ∈ out, ∀ iid, confirmedGoneId e = some iid → Over f iid

/-- A box that the provider says it destroyed, or does not know, does not run. -/
def Takes (f g : Campaign) : Prop :=
  ∀ at₀ live i targets o status, f.reap = .destroying at₀ live (i :: targets) o →
    g.reap = .destroying at₀ live targets (o.add i status) → status ≠ .failed →
    i.id.str ∉ g.live

inductive HonestMove : Campaign → Campaign → Prop
  | drive {f g : Campaign} (h : Drive f g) (quiet : Quiet f g) (candid : Candid f g) :
      HonestMove f g
  | reaps {f g : Campaign} (h : Reaps f g) (young : StillYoung f) (takes : Takes f g) :
      HonestMove f g
  | again (f : Campaign) (vanished : List String) (pc : f.reap = .closing vanished []) :
      HonestMove f { f with reap := .idle }

abbrev HonestRun : Campaign → Campaign → Prop := ReflTransGen HonestMove

variable {f g : Campaign} {iid : String}

theorem HonestMove.steady (h : HonestMove f g) (hf : Steady f) : Steady g := by
  cases h with
  | drive h quiet _ => exact drive_steady h quiet hf
  | reaps h young _ => exact reaps_steady h young hf
  | again vanished pc => exact ⟨hf.started, hf.logged, trivial⟩

theorem Over.drive (hover : Over f iid) (h : Drive f g) : Over g iid := by
  obtain ⟨⟨q, hq, hrent⟩, hout⟩ := hover
  cases h with
  | created new fresh =>
    refine ⟨⟨q, hq, hrent⟩, fun hin => ?_⟩
    rcases List.mem_cons.mp hin with rfl | hin
    · exact fresh.2 ⟨q, hq, hrent⟩
    · exact hout hin
  | rented r _ => exact ⟨⟨q, List.mem_append_left _ hq, hrent⟩, hout⟩
  | logged e _ _ => exact ⟨⟨q, List.mem_append_left _ hq, hrent⟩, hout⟩
  | gone other => exact ⟨⟨q, hq, hrent⟩, fun hin => hout (List.mem_of_mem_erase hin)⟩
  | tick _ _ => exact ⟨⟨q, hq, hrent⟩, hout⟩

theorem Over.reaps (hover : Over f iid) (h : Reaps f g) : Over g iid := by
  obtain ⟨⟨q, hq, hrent⟩, hout⟩ := hover
  cases h with
  | destroy at₀ live i targets o status left pc went =>
    refine ⟨⟨q, hq, hrent⟩, fun hin => ?_⟩
    rcases went with rfl | rfl
    · exact hout hin
    · exact hout (List.mem_of_mem_erase hin)
  | close vanished row todo pc => exact ⟨⟨q, List.mem_append_left _ hq, hrent⟩, hout⟩
  | list | target | readClock | readRents | readLeaked => exact ⟨⟨q, hq, hrent⟩, hout⟩

/-- The ids that the reap run is going to log gone are of boxes that are over. -/
def Reaping.Candid (f : Campaign) : Reaping → Prop
  | .idle | .listed _ _ => True
  | .destroying _ _ targets o =>
    (∀ i ∈ targets, RentedIn f.rows i.id.str) ∧ ∀ iid ∈ o.killed, Over f iid
  | .clockRead _ killed _ | .rentsRead _ killed _ _ => ∀ iid ∈ killed, Over f iid
  | .closing _ todo => ∀ e ∈ todo, ∀ iid, confirmedGoneId e = some iid → Over f iid

structure Sighted (f : Campaign) : Prop where
  gone : ∀ e ∈ f.rows, ∀ iid, confirmedGoneId e = some iid → Over f iid
  reap : f.reap.Candid f

theorem leaked_rented {rows : List Row} (h : Logged rows) (hleak : iid ∈ leakedIds rows) :
    RentedIn rows iid := by
  obtain ⟨e, he, hseen⟩ := (mem_leakedIds.mp hleak).1
  exact h.seen e he iid hseen

theorem closing_gone {rows : List Row} {killed vanished : List String} {now : ℚ} {e : Row}
    (he : e ∈ closingRows killed vanished (rentRows rows) now)
    (hgone : confirmedGoneId e = some iid) : iid ∈ killed ∨ iid ∈ vanished := by
  obtain ⟨id, hid, rfl⟩ := List.mem_map.mp he
  have hnames := closeRow_names rows id (id ∈ killed) now
  rw [← confirmedGoneId_of rfl rfl, hgone] at hnames
  cases hnames
  simpa using hid

theorem mem_killed_add {o : Outcomes} {i : Instance} {status : DestroyStatus}
    (h : iid ∈ (o.add i status).killed) :
    iid ∈ o.killed ∨ status ≠ .failed ∧ iid = i.id.str := by
  cases status with
  | destroyed =>
    simp only [Outcomes.killed, Outcomes.add, List.map_append, List.mem_append, List.map_cons,
      List.map_nil, List.mem_singleton] at h ⊢
    tauto
  | gone =>
    simp only [Outcomes.killed, Outcomes.add, List.map_append, List.mem_append, List.map_cons,
      List.map_nil, List.mem_singleton] at h ⊢
    tauto
  | failed => exact .inl h

theorem Sighted.drive (hf : Sighted f) (h : Drive f g) (candid : RunFarm.Candid f g) :
    Sighted g := by
  have hpc : g.reap = f.reap := by cases h <;> rfl
  have hrows : ∃ out, g.rows = f.rows ++ out := by
    cases h with
    | rented r _ => exact ⟨_, rfl⟩
    | logged e _ _ => exact ⟨_, rfl⟩
    | created | gone | tick => exact ⟨[], (List.append_nil _).symm⟩
  have hrented : ∀ iid, RentedIn f.rows iid → RentedIn g.rows iid := by
    obtain ⟨out, hout⟩ := hrows
    intro iid ⟨q, hq, hrent⟩
    exact ⟨q, hout ▸ List.mem_append_left _ hq, hrent⟩
  refine ⟨fun e he iid hgone => ?_, ?_⟩
  · obtain ⟨out, hout⟩ := hrows
    rw [hout] at he
    rcases List.mem_append.mp he with he | he
    · exact (hf.gone e he iid hgone).drive h
    · exact (candid out hout e he iid hgone).drive h
  · have hreap := hf.reap
    rw [hpc]
    cases hr : f.reap with
    | idle | listed => trivial
    | destroying at₀ live targets o =>
      rw [hr] at hreap
      exact ⟨fun i hi => hrented _ (hreap.1 i hi), fun iid hin => (hreap.2 iid hin).drive h⟩
    | clockRead live killed now =>
      rw [hr] at hreap
      exact fun iid hin => (hreap iid hin).drive h
    | rentsRead live killed now rents =>
      rw [hr] at hreap
      exact fun iid hin => (hreap iid hin).drive h
    | closing vanished todo =>
      rw [hr] at hreap
      exact fun e he iid hgone => (hreap e he iid hgone).drive h

theorem Sighted.reaps (hf : Sighted f) (hsteady : Steady f) (h : Reaps f g) (takes : Takes f g)
    (hnext : Steady g) : Sighted g := by
  have hreap := hf.reap
  have hgone : ∀ e ∈ f.rows, ∀ iid, confirmedGoneId e = some iid → Over g iid :=
    fun e he iid hgone => (hf.gone e he iid hgone).reaps h
  have hover : ∀ iid, Over f iid → Over g iid := fun iid hiid => hiid.reaps h
  cases h with
  | list live pc shows => exact ⟨hgone, trivial⟩
  | target at₀ live pc =>
    refine ⟨hgone, fun i hi => ?_, fun iid hin => by cases hin⟩
    have hleak : i.id.str ∈ leakedIds f.rows := of_decide_eq_true (List.mem_filter.mp hi).2
    exact leaked_rented hsteady.logged hleak
  | destroy at₀ live i targets o status left pc went =>
    rw [pc] at hreap
    refine ⟨hgone, fun j hj => hreap.1 j (.tail _ hj), fun iid hin => ?_⟩
    rcases mem_killed_add hin with hin | ⟨hstatus, rfl⟩
    · exact hover iid (hreap.2 iid hin)
    · exact ⟨hreap.1 i (.head _), takes at₀ live i targets o status pc rfl hstatus⟩
  | readClock at₀ live o pc =>
    rw [pc] at hreap
    exact ⟨hgone, fun iid hin => hover iid (hreap.2 iid hin)⟩
  | readRents live killed now pc =>
    rw [pc] at hreap
    exact ⟨hgone, fun iid hin => hover iid (hreap iid hin)⟩
  | readLeaked live killed vanished now rents pc missing =>
    rw [pc] at hreap
    have hsound := hsteady.sound
    rw [pc] at hsound
    obtain rfl : rents = rentRows f.rows := hsound.2
    refine ⟨hgone, fun e he iid hid => ?_⟩
    rcases closing_gone he hid with hin | hin
    · exact hover iid (hreap iid hin)
    · have hout := hnext.sound.1 iid hin
      exact ⟨hout.2, hout.1⟩
  | close vanished row todo pc =>
    rw [pc] at hreap
    refine ⟨fun e he iid hid => ?_, fun e he iid hid => ?_⟩
    · rcases List.mem_append.mp he with he | he
      · exact hgone e he iid hid
      · cases List.mem_singleton.mp he
        exact hover iid (hreap row (.head _) iid hid)
    · exact hover iid (hreap e (.tail _ he) iid hid)

theorem Sighted.step (hf : Sighted f) (hsteady : Steady f) (h : HonestMove f g) : Sighted g := by
  cases h with
  | drive h _ candid => exact hf.drive h candid
  | reaps h young takes => exact hf.reaps hsteady h takes (reaps_steady h young hsteady)
  | again vanished pc =>
    refine ⟨fun e he iid hgone => ?_, trivial⟩
    have hover := hf.gone e he iid hgone
    exact ⟨hover.rented, hover.out⟩

/-- In every state of every honest run, with drivers that stop anywhere and reap runs at any of
their steps, a box that runs and has its `rented` row is among the leaked ids: the next reap run
looks for it. -/
theorem orphans_visible {start : ℚ} (h₁ : 1 ≤ start) (h : HonestRun { clock := start } f) :
    ∀ iid ∈ f.live, RentedIn f.rows iid → iid ∈ leakedIds f.rows := by
  have hsteady : Steady { clock := start } := ⟨h₁, .nil, trivial⟩
  have hstart : Sighted { clock := start } := ⟨fun _ he => (by cases he), trivial⟩
  have hf : Sighted f := Transition.run_keeps_with (J := Steady) (I := Sighted)
    (fun hs hx => hs.steady hx) (fun hs hx hi => hi.step hx hs) h hsteady hstart
  intro iid hlive ⟨q, hq, hrent⟩
  refine mem_leakedIds.mpr ⟨⟨q, hq, ?_⟩, fun e he hgone => (hf.gone e he iid hgone).out hlive⟩
  obtain ⟨-, hev, i, hi, rfl⟩ := rentRow_some hrent
  simp [seenId, hi, hev]

def orphaned : Campaign where
  clock := 1000
  rows := record 1000 cheapBox.rentedRow []
  live := ["7"]
  reap := .listed 1000 []

theorem orphaned_reached : HonestRun { clock := 1000 } orphaned := by
  have hnone (iid : String) : ¬ RentedIn [] iid := fun ⟨_, he, _⟩ => by cases he
  have hcandid {f g : Campaign} (out : List Row) (hrows : g.rows = f.rows ++ out)
      (hnot : ∀ e ∈ out, confirmedGoneId e = none) : Candid f g := by
    intro out' hout' e he iid hgone
    rw [hrows, List.append_cancel_left_eq] at hout'
    rw [hnot e (hout' ▸ he)] at hgone
    cases hgone
  have hcreated : HonestMove ⟨1000, [], [], .idle⟩ ⟨1000, [], ["7"], .idle⟩ :=
    .drive (.created _ "7" ⟨by decide, hnone "7"⟩) (fun _ _ _ _ h => by cases h)
      (hcandid [] rfl (by simp))
  have hrented : HonestMove ⟨1000, [], ["7"], .idle⟩
      ⟨1000, record 1000 cheapBox.rentedRow [], ["7"], .idle⟩ :=
    .drive (.rented _ cheapBox (hnone _)) (fun _ _ _ _ h => by cases h)
      (hcandid [cheapBox.rentedRow.stamp 1000] rfl (by
        intro e he
        cases List.mem_singleton.mp he
        rfl))
  have hlisted : HonestMove ⟨1000, record 1000 cheapBox.rentedRow [], ["7"], .idle⟩ orphaned := by
    refine .reaps (.list _ [] rfl ?_) (fun _ _ _ h => by cases h) (fun _ _ _ _ _ _ h => by cases h)
    intro iid hin q t hget hts hold
    cases List.mem_singleton.mp hin
    have hq := rentRows_rented [] cheapBox 1000 "7"
    rw [if_pos (by decide), hget] at hq
    cases hq
    cases hts
    exact absurd hold (stamp_young le_rfl)
  exact ((Relation.ReflTransGen.single hcreated).tail hrented).tail hlisted

theorem orphaned_visible : "7" ∈ leakedIds orphaned.rows :=
  orphans_visible (by norm_num) orphaned_reached "7" List.mem_cons_self
    ⟨cheapBox.rentedRow.stamp 1000, List.mem_cons_self, rfl⟩

end RunFarm
