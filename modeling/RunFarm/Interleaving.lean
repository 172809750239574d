import RunFarm.Rent
import RunFarm.Transition

/-! One reap run step by step, interleaved with the drivers of a live campaign. -/
set_option autoImplicit false

namespace RunFarm
open Python (Dict)
open Relation (ReflTransGen)

/-- Where `reap(ledger=..., dry_run=False)` stands, with the locals it still needs.
`listedAt` is the clock when its listing was taken, which the program does not keep. -/
inductive Reaping where
  | idle
  | listed (listedAt : ℚ) (live : List Instance)
  | destroying (listedAt : ℚ) (live : List Instance) (targets : List Instance) (outcomes : Outcomes)
  | clockRead (live : List Instance) (killed : List String) (now : ℚ)
  | rentsRead (live : List Instance) (killed : List String) (now : ℚ) (rents : Dict String Row)
  | closing (vanished : List String) (todo : List Row)

/-- The ledger file, the ids live at the provider, the clock, and the reap run. -/
structure Campaign where
  clock : ℚ
  rows : List Row := []
  live : List String := []
  reap : Reaping := .idle

inductive Drive : Campaign → Campaign → Prop
  | created (f : Campaign) (iid : String) (fresh : iid ∉ f.live ∧ ¬ RentedIn f.rows iid) :
      Drive f { f with live := iid :: f.live }
  | rented (f : Campaign) (r : Rental) (fresh : ¬ RentedIn f.rows r.id.str) :
      Drive f { f with rows := record f.clock r.rentedRow f.rows }
  | logged (f : Campaign) (e : Row) (other : e.event ≠ .rented)
      (known : ∀ iid, seenId e = some iid → RentedIn f.rows iid) :
      Drive f { f with rows := record f.clock e f.rows }
  | gone (f : Campaign) (iid : String) : Drive f { f with live := f.live.erase iid }
  | tick (f : Campaign) (s : ℚ) (forward : 0 ≤ s) : Drive f { f with clock := f.clock + s }

/-- A listing shows every live box whose `rented` row is older than the grace. -/
def Lists (f : Campaign) (live : List Instance) : Prop :=
  ∀ iid ∈ f.live, ∀ q t, (rentRows f.rows).get iid = some q → q.ts = some t →
    closeGraceS < f.clock - t → iid ∈ live.map (·.id.str)

/-- The steps of the reap run. A destroy may take any number of retries: the time they
take passes in `Drive.tick`, and the box may go or stay. -/
inductive Reaps : Campaign → Campaign → Prop
  | list (f : Campaign) (live : List Instance) (pc : f.reap = .idle) (shows : Lists f live) :
      Reaps f { f with reap := .listed f.clock live }
  | target (f : Campaign) (at₀ : ℚ) (live : List Instance) (pc : f.reap = .listed at₀ live) :
      Reaps f { f with reap := .destroying at₀ live (byLedger (some f.rows) live) {} }
  | destroy (f : Campaign) (at₀ : ℚ) (live : List Instance) (i : Instance)
      (targets : List Instance) (o : Outcomes) (status : DestroyStatus) (left : List String)
      (pc : f.reap = .destroying at₀ live (i :: targets) o)
      (went : left = f.live ∨ left = f.live.erase i.id.str) :
      Reaps f { f with live := left, reap := .destroying at₀ live targets (o.add i status) }
  | readClock (f : Campaign) (at₀ : ℚ) (live : List Instance) (o : Outcomes)
      (pc : f.reap = .destroying at₀ live [] o) :
      Reaps f { f with reap := .clockRead live o.killed f.clock }
  | readRents (f : Campaign) (live : List Instance) (killed : List String) (now : ℚ)
      (pc : f.reap = .clockRead live killed now) :
      Reaps f { f with reap := .rentsRead live killed now (rentRows f.rows) }
  | readLeaked (f : Campaign) (live : List Instance) (killed vanished : List String) (now : ℚ)
      (rents : Dict String Row) (pc : f.reap = .rentsRead live killed now rents)
      (missing : vanished = vanishedAmong (leakedIds f.rows) rents live killed now) :
      Reaps f { f with reap := .closing vanished (closingRows killed vanished rents now) }
  | close (f : Campaign) (vanished : List String) (row : Row) (todo : List Row)
      (pc : f.reap = .closing vanished (row :: todo)) :
      Reaps f { f with rows := record f.clock row f.rows, reap := .closing vanished todo }

def StillYoung (f : Campaign) : Prop :=
  ∀ at₀ live o, f.reap = .destroying at₀ live [] o →
    ∀ iid ∈ f.live, iid ∉ live.map (·.id.str) →
      ∀ q t, (rentRows f.rows).get iid = some q → q.ts = some t →
        at₀ - t ≤ closeGraceS → f.clock - t ≤ closeGraceS

/-- No box is logged `rented` between the two readings of the ledger. -/
def Quiet (f g : Campaign) : Prop :=
  ∀ live killed now rents, f.reap = .rentsRead live killed now rents →
    rentRows g.rows = rentRows f.rows

inductive Move : Campaign → Campaign → Prop
  | drive {f g : Campaign} (h : Drive f g) : Move f g
  | reaps {f g : Campaign} (h : Reaps f g) : Move f g

/-- The same moves when the reap run is fast enough. -/
inductive CalmMove : Campaign → Campaign → Prop
  | drive {f g : Campaign} (h : Drive f g) (quiet : Quiet f g) : CalmMove f g
  | reaps {f g : Campaign} (h : Reaps f g) (young : StillYoung f) : CalmMove f g

theorem CalmMove.move {f g : Campaign} (h : CalmMove f g) : Move f g := by
  cases h with
  | drive h _ => exact .drive h
  | reaps h _ => exact .reaps h

def NoLiveClosed (f : Campaign) : Prop :=
  ∀ vanished todo, f.reap = .closing vanished todo → ∀ iid ∈ vanished, iid ∉ f.live

/-- The listing shows every live box whose `rented` row is over the grace at `now`. -/
def Covers (f : Campaign) (now : ℚ) (live : List Instance) : Prop :=
  now ≤ f.clock ∧ ∀ iid ∈ f.live, ∀ q t, (rentRows f.rows).get iid = some q → q.ts = some t →
    closeGraceS < now - t → iid ∈ live.map (·.id.str)

def Reaping.Sound (f : Campaign) : Reaping → Prop
  | .idle => True
  | .listed at₀ live => Covers f at₀ live
  | .destroying at₀ live _ _ => Covers f at₀ live
  | .clockRead live _ now => Covers f now live
  | .rentsRead live _ now rents => Covers f now live ∧ rents = rentRows f.rows
  | .closing vanished todo => (∀ iid ∈ vanished, iid ∉ f.live ∧ RentedIn f.rows iid) ∧
      ∀ e ∈ todo, e.event = .destroyed

structure Steady (f : Campaign) : Prop where
  started : 1 ≤ f.clock
  logged : Logged f.rows
  sound : f.reap.Sound f

theorem rentRows_rentedIn {rows : List Row} {iid : String} {q : Row}
    (h : (rentRows rows).get iid = some q) : RentedIn rows iid := by
  obtain ⟨e, he, hrent⟩ := (Dict.latest_spec rentRow rows iid).1 q h
  obtain ⟨rfl, -⟩ := rentRow_some hrent
  exact ⟨q, he, hrent⟩

theorem rentRows_other {rows : List Row} {e : Row} (now : ℚ) (h : e.event ≠ .rented) :
    rentRows (record now e rows) = rentRows rows := by
  have hnone : rentRow (e.stamp now) = none := by
    unfold rentRow
    cases hid : (e.stamp now).instanceId with
    | none => rfl
    | some iid => exact if_neg h
  have happ := Dict.latest_append rentRow rows (e.stamp now)
  rw [hnone] at happ
  exact happ

theorem rentRows_rented (rows : List Row) (r : Rental) (now : ℚ) (iid : String) :
    (rentRows (record now r.rentedRow rows)).get iid =
      if iid = r.id.str then some (r.rentedRow.stamp now) else (rentRows rows).get iid := by
  have hset : rentRows (record now r.rentedRow rows) =
      (rentRows rows).set r.id.str (r.rentedRow.stamp now) :=
    Dict.latest_append rentRow rows (r.rentedRow.stamp now)
  rw [hset, Dict.get_set]

theorem stamp_young {clock now : ℚ} (h : now ≤ clock) :
    ¬ closeGraceS < now - Python.round clock 3 := by
  have hnear := abs_le.mp (Python.round_near clock 3)
  have hlow := hnear.1
  rw [closeGraceS]
  norm_num at hlow ⊢
  linarith

theorem drive_covers {f g : Campaign} (h : Drive f g) {now : ℚ} {live : List Instance}
    (hc : Covers f now live) : Covers g now live := by
  obtain ⟨hpast, hall⟩ := hc
  cases h with
  | created iid fresh =>
    refine ⟨hpast, fun iid' hin q t hget hts hold => ?_⟩
    rcases List.mem_cons.mp hin with rfl | hin
    · exact absurd (rentRows_rentedIn hget) fresh.2
    · exact hall iid' hin q t hget hts hold
  | rented r fresh =>
    refine ⟨hpast, fun iid hin q t hget hts hold => ?_⟩
    rw [rentRows_rented] at hget
    split at hget
    · cases hget
      cases hts
      exact absurd hold (stamp_young hpast)
    · exact hall iid hin q t hget hts hold
  | logged e other known =>
    refine ⟨hpast, fun iid hin q t hget hts hold => ?_⟩
    rw [rentRows_other f.clock other] at hget
    exact hall iid hin q t hget hts hold
  | gone iid =>
    exact ⟨hpast, fun iid' hin => hall iid' (List.mem_of_mem_erase hin)⟩
  | tick s forward =>
    exact ⟨le_add_of_le_of_nonneg hpast forward, hall⟩

theorem drive_steady {f g : Campaign} (h : Drive f g) (quiet : Quiet f g) (hf : Steady f) :
    Steady g := by
  have hpc : g.reap = f.reap := by cases h <;> rfl
  have hrented : ∀ iid, RentedIn f.rows iid → RentedIn g.rows iid := by
    intro iid hr
    obtain ⟨q, hq, hrent⟩ := hr
    cases h with
    | created _ _ => exact ⟨q, hq, hrent⟩
    | rented _ _ => exact ⟨q, List.mem_append_left _ hq, hrent⟩
    | logged _ _ _ => exact ⟨q, List.mem_append_left _ hq, hrent⟩
    | gone _ => exact ⟨q, hq, hrent⟩
    | tick _ _ => exact ⟨q, hq, hrent⟩
  have hlive : ∀ iid, RentedIn f.rows iid → iid ∉ f.live → iid ∉ g.live := by
    intro iid hr hout hin
    cases h with
    | created new fresh =>
      rcases List.mem_cons.mp hin with rfl | hin
      · exact fresh.2 hr
      · exact hout hin
    | rented _ _ => exact hout hin
    | logged _ _ _ => exact hout hin
    | gone _ => exact hout (List.mem_of_mem_erase hin)
    | tick _ _ => exact hout hin
  have hsound : f.reap.Sound g := by
    have hs := hf.sound
    cases hr : f.reap with
    | idle => trivial
    | listed at₀ live =>
      rw [hr] at hs
      exact drive_covers h hs
    | destroying at₀ live targets o =>
      rw [hr] at hs
      exact drive_covers h hs
    | clockRead live killed now =>
      rw [hr] at hs
      exact drive_covers h hs
    | rentsRead live killed now rents =>
      rw [hr] at hs
      exact ⟨drive_covers h hs.1, hs.2.trans (quiet live killed now rents hr).symm⟩
    | closing vanished todo =>
      rw [hr] at hs
      exact ⟨fun iid hin => ⟨hlive iid (hs.1 iid hin).2 (hs.1 iid hin).1,
        hrented iid (hs.1 iid hin).2⟩, hs.2⟩
  refine ⟨?_, ?_, hpc ▸ hsound⟩
  · cases h with
    | tick s forward => exact le_add_of_le_of_nonneg hf.started forward
    | _ => exact hf.started
  · cases h with
    | rented r fresh => exact hf.logged.rented r hf.started
    | logged e other known => exact hf.logged.other f.clock other known
    | _ => exact hf.logged

theorem reaps_steady {f g : Campaign} (h : Reaps f g) (young : StillYoung f) (hf : Steady f) :
    Steady g := by
  have hs := hf.sound
  cases h with
  | list live pc shows => exact ⟨hf.started, hf.logged, le_rfl, shows⟩
  | target at₀ live pc =>
    rw [pc] at hs
    exact ⟨hf.started, hf.logged, hs⟩
  | destroy at₀ live i targets o status left pc went =>
    rw [pc] at hs
    have hsub : ∀ iid ∈ left, iid ∈ f.live := by
      rcases went with rfl | rfl
      · exact fun _ h => h
      · exact fun _ h => List.mem_of_mem_erase h
    exact ⟨hf.started, hf.logged, hs.1, fun iid hin => hs.2 iid (hsub iid hin)⟩
  | readClock at₀ live o pc =>
    rw [pc] at hs
    refine ⟨hf.started, hf.logged, le_rfl, fun iid hin q t hget hts hold => ?_⟩
    -- a missed box was within the grace when the listing was taken, so it still is
    by_contra hmissed
    have hthen : at₀ - t ≤ closeGraceS :=
      not_lt.mp fun hlt => hmissed (hs.2 iid hin q t hget hts hlt)
    exact absurd hold (not_lt.mpr (young at₀ live o pc iid hin hmissed q t hget hts hthen))
  | readRents live killed now pc =>
    rw [pc] at hs
    exact ⟨hf.started, hf.logged, hs, rfl⟩
  | readLeaked live killed vanished now rents pc missing =>
    rw [pc] at hs
    obtain ⟨⟨_, hcover⟩, rfl⟩ := hs
    refine ⟨hf.started, hf.logged, fun iid hin => ?_, fun e he => ?_⟩
    · rw [missing] at hin
      obtain ⟨hleak, hout, _, hold⟩ := mem_vanishedIds.mp hin
      obtain ⟨q, t, hget, hts, _⟩ := hf.logged.leaked hleak
      rw [hget] at hold
      simp only [Option.bind_some, hts, Option.getD_some] at hold
      exact ⟨fun hlive => hout (hcover iid hlive q t hget hts hold), rentRows_rentedIn hget⟩
    · obtain ⟨iid, _, rfl⟩ := List.mem_map.mp he
      rfl
  | close vanished row todo pc =>
    rw [pc] at hs
    have hev : row.event = .destroyed := hs.2 row (.head _)
    refine ⟨hf.started, hf.logged.other f.clock (by simp [hev]) (fun iid hid => ?_),
      fun iid hin => ⟨(hs.1 iid hin).1, ?_⟩, fun e he => hs.2 e (.tail _ he)⟩
    · unfold seenId at hid
      cases hi : row.instanceId <;> simp [hi, hev] at hid
    · obtain ⟨q, hq, hrent⟩ := (hs.1 iid hin).2
      exact ⟨q, List.mem_append_left _ hq, hrent⟩

/-- However the drivers and the reap run interleave, no live box is closed as vanished if
the reap run is fast enough. -/
theorem live_never_closed (start : ℚ) (h₁ : 1 ≤ start) (f : Campaign)
    (h : ReflTransGen CalmMove { clock := start } f) : NoLiveClosed f := by
  have hsteady : Steady f := by
    refine Transition.run_keeps (I := Steady) (fun hm hx => ?_) h ⟨h₁, .nil, trivial⟩
    cases hm with
    | drive hd quiet => exact drive_steady hd quiet hx
    | reaps hr young => exact reaps_steady hr young hx
  intro vanished todo hpc iid hin
  have hs := hsteady.sound
  rw [hpc] at hs
  exact (hs.1 iid hin).1

def firstBox : Rental := { cheapBox with id := .int 5, t0 := 990 }

def firstListed : Instance := { cheapListed with id := .int 5 }

def twoRented : List Row :=
  record 1101 cheapBox.rentedRow (record 1000 firstBox.rentedRow [])

/-- The reap run of 1130 s, which lists box 5 only, has spent `d` seconds destroying it. -/
def destroyed5 (d : ℚ) : Campaign where
  clock := 1130 + d
  rows := twoRented
  live := ["7"]
  reap := .destroying 1130 [firstListed] [] (({} : Outcomes).add firstListed .destroyed)

theorem calm_of {f g : Campaign} (h : Reaps f g)
    (hpc : ∀ at₀ live o, f.reap ≠ .destroying at₀ live [] o) : CalmMove f g :=
  .reaps h fun at₀ live o heq => absurd heq (hpc at₀ live o)

theorem twoRented_seven {q : Row} {t : ℚ} (hget : (rentRows twoRented).get "7" = some q)
    (hts : q.ts = some t) : t = 1101 := by
  have hq : (rentRows twoRented).get "7" = some (cheapBox.rentedRow.stamp 1101) := by
    decide +kernel
  rw [hq] at hget
  cases hget
  cases hts
  decide +kernel

theorem twoRented_listed : Lists { clock := 1130, rows := twoRented, live := ["7", "5"] }
    [firstListed] := by
  intro iid hin q t hget hts hold
  rcases List.mem_cons.mp hin with rfl | hin
  · rw [twoRented_seven hget hts, closeGraceS] at hold
    norm_num at hold
  · cases List.mem_singleton.mp hin
    decide

theorem destroyed5_reached (d : ℚ) (hd : 0 ≤ d) :
    ReflTransGen CalmMove { clock := 1000 } (destroyed5 d) := by
  have hidle {f g : Campaign} (h : Drive f g) (hpc : f.reap = .idle) : CalmMove f g :=
    .drive h fun _ _ _ _ heq => by rw [hpc] at heq; cases heq
  have hfresh : ¬ RentedIn (record 1000 firstBox.rentedRow []) "7" := by
    unfold RentedIn
    decide +kernel
  have hnone (iid : String) : ¬ RentedIn [] iid := fun ⟨_, he, _⟩ => by cases he
  have h₁ : CalmMove ⟨1000, [], [], .idle⟩ ⟨1000, [], ["5"], .idle⟩ :=
    hidle (.created _ "5" ⟨by decide, hnone "5"⟩) rfl
  have h₂ : CalmMove ⟨1000, [], ["5"], .idle⟩
      ⟨1000, record 1000 firstBox.rentedRow [], ["5"], .idle⟩ :=
    hidle (.rented _ firstBox (hnone _)) rfl
  have h₃ : CalmMove ⟨1000, record 1000 firstBox.rentedRow [], ["5"], .idle⟩
      ⟨1101, record 1000 firstBox.rentedRow [], ["5"], .idle⟩ := by
    have htick := Drive.tick ⟨1000, record 1000 firstBox.rentedRow [], ["5"], .idle⟩ 101
      (by norm_num)
    norm_num at htick
    exact hidle htick rfl
  have h₄ : CalmMove ⟨1101, record 1000 firstBox.rentedRow [], ["5"], .idle⟩
      ⟨1101, record 1000 firstBox.rentedRow [], ["7", "5"], .idle⟩ :=
    hidle (.created _ "7" ⟨by decide, hfresh⟩) rfl
  have h₅ : CalmMove ⟨1101, record 1000 firstBox.rentedRow [], ["7", "5"], .idle⟩
      ⟨1101, twoRented, ["7", "5"], .idle⟩ := hidle (.rented _ cheapBox hfresh) rfl
  have h₆ : CalmMove ⟨1101, twoRented, ["7", "5"], .idle⟩
      ⟨1130, twoRented, ["7", "5"], .idle⟩ := by
    have htick := Drive.tick ⟨1101, twoRented, ["7", "5"], .idle⟩ 29 (by norm_num)
    norm_num at htick
    exact hidle htick rfl
  have h₇ : CalmMove ⟨1130, twoRented, ["7", "5"], .idle⟩
      ⟨1130, twoRented, ["7", "5"], .listed 1130 [firstListed]⟩ :=
    calm_of (.list _ [firstListed] rfl twoRented_listed) (fun _ _ _ h => by cases h)
  have h₈ : CalmMove ⟨1130, twoRented, ["7", "5"], .listed 1130 [firstListed]⟩
      ⟨1130, twoRented, ["7", "5"], .destroying 1130 [firstListed] [firstListed] {}⟩ := by
    have htargets : byLedger (some twoRented) [firstListed] = [firstListed] := by decide +kernel
    have hstep := Reaps.target ⟨1130, twoRented, ["7", "5"], .listed 1130 [firstListed]⟩
      1130 [firstListed] rfl
    simp only [htargets] at hstep
    exact calm_of hstep (fun _ _ _ h => by cases h)
  have h₉ : CalmMove ⟨1130, twoRented, ["7", "5"], .destroying 1130 [firstListed] [firstListed] {}⟩
      ⟨1130 + d, twoRented, ["7", "5"], .destroying 1130 [firstListed] [firstListed] {}⟩ :=
    .drive (.tick _ d hd) (fun _ _ _ _ h => by cases h)
  have h₁₀ : CalmMove
      ⟨1130 + d, twoRented, ["7", "5"], .destroying 1130 [firstListed] [firstListed] {}⟩
      (destroyed5 d) :=
    calm_of (.destroy _ 1130 [firstListed] firstListed [] {} .destroyed ["7"] rfl
      (.inr (show ["7"] = ["7", "5"].erase "5" by decide))) (fun _ _ _ h => by cases h)
  exact .tail (.tail (.tail (.tail (.tail (.tail (.tail (.tail (.tail (.single h₁) h₂) h₃) h₄)
    h₅) h₆) h₇) h₈) h₉) h₁₀

def killed5 : List String := (({} : Outcomes).add firstListed .destroyed).killed

def vanished5 (d : ℚ) : List String :=
  vanishedAmong (leakedIds twoRented) (rentRows twoRented) [firstListed] killed5 (1130 + d)

def decided5 (d : ℚ) : Campaign :=
  { destroyed5 d with
    reap := .closing (vanished5 d)
      (closingRows killed5 (vanished5 d) (rentRows twoRented) (1130 + d)) }

theorem decided5_steps (d : ℚ) {M : Campaign → Campaign → Prop}
    (hM : ∀ {f g}, Reaps f g → StillYoung f → M f g)
    (hclock : ∀ {g}, Reaps (destroyed5 d) g → M (destroyed5 d) g) :
    ReflTransGen M (destroyed5 d) (decided5 d) := by
  have h₁ := hclock (.readClock _ 1130 [firstListed] _ rfl)
  have h₂ := hM (.readRents { destroyed5 d with
    reap := .clockRead [firstListed] killed5 (1130 + d) }
    [firstListed] killed5 (1130 + d) rfl) (fun _ _ _ h => by cases h)
  have h₃ := hM (.readLeaked { destroyed5 d with
    reap := .rentsRead [firstListed] killed5 (1130 + d) (rentRows twoRented) }
    [firstListed] killed5 (vanished5 d) (1130 + d) (rentRows twoRented) rfl rfl)
    (fun _ _ _ h => by cases h)
  exact .tail (.tail (.single h₁) h₂) h₃

theorem quickReap_safe : NoLiveClosed (decided5 90) := by
  have hyoung : StillYoung (destroyed5 90) := by
    intro at₀ live o hpc iid hin hmissed q t hget hts hthen
    cases List.mem_singleton.mp hin
    rw [show t = 1101 from twoRented_seven hget hts, closeGraceS, destroyed5]
    norm_num
  have hcalm : ReflTransGen CalmMove { clock := 1000 } (decided5 90) :=
    (destroyed5_reached 90 (by norm_num)).trans
      (decided5_steps 90 (fun h hy => .reaps h hy) (fun h => .reaps h hyoung))
  exact live_never_closed 1000 (by norm_num) _ hcalm

/-- One of a minute and three quarters closes it while it runs. -/
theorem slowReap_closes_live : ReflTransGen Move { clock := 1000 } (decided5 100) ∧
    vanished5 100 = ["7"] ∧ (decided5 100).live = ["7"] ∧
    ¬ (∀ start f, 1 ≤ start → ReflTransGen Move { clock := start } f → NoLiveClosed f) := by
  have hreach : ReflTransGen Move { clock := 1000 } (decided5 100) :=
    (Transition.run_mono CalmMove.move (destroyed5_reached 100 (by norm_num))).trans
      (decided5_steps 100 (fun h _ => .reaps h) .reaps)
  have hvanished : vanished5 100 = ["7"] := by decide +kernel
  refine ⟨hreach, hvanished, rfl, fun h => ?_⟩
  have hsafe := h 1000 _ (by norm_num) hreach _ _ rfl "7"
  rw [hvanished] at hsafe
  exact hsafe (.head _) (.head _)

end RunFarm
