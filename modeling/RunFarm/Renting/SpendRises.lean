import RunFarm.Renting.Meter

/-! Whether the spend that the budget counts ever goes down. -/
set_option autoImplicit false

namespace RunFarm
open Python (Dict)

/-- A teardown is booked at no less than what its instance is charged by then, and no price is
negative. -/
def covered : Metering where
  begins offer := 0 ≤ offer.dph
  books f l stop := l.rental.charge l.since f.clock ≤ l.rental.cost stop

def priced : Metering := ⟨fun offer => 0 ≤ offer.dph, fun _ _ _ => True⟩

theorem MeterStep.priced {f g : Metered} (h : MeterStep covered f g) :
    MeterStep RunFarm.priced f g := by
  cases h with
  | passes d nonneg => exact .passes f d nonneg
  | begins adapter offer ok => exact .begins f adapter offer ok
  | refused c => exact .refused f c
  | created c id mem fresh => exact .created f c id mem fresh
  | running l mem working => exact .running f l mem working
  | stops l mem working => exact .stops f l mem working
  | torndown l stop ended destroyed verify mem stopping _ =>
    exact .torndown f l stop ended destroyed verify mem stopping trivial

/-- The ledger has every instance that is inside, by its row and still open. -/
structure Metered.Sound (f : Metered) : Prop where
  rented : Priced f.rows
  booked : ∀ e ∈ f.rows, Booked e
  asked : ∀ c ∈ f.creating, 0 ≤ c.offer.dph
  entered : ∀ l ∈ f.inside, (Dict.latest rentedEntry f.rows).get l.rental.id =
    some (l.rental.rentedRow.stamp l.since)
  unclosed : ∀ l ∈ f.inside, l.rental.id ∉ f.rows.filterMap destroyedId
  distinct : (f.inside.map fun l => l.rental.id).Nodup

variable {f g : Metered} {rows : List Row} {row : Row} {now : ℚ}

theorem Priced.record (h : Priced rows)
    (hrow : row.event = .rented → 0 ≤ row.dph.getD 0) : Priced (record now row rows) := by
  intro e he hev
  rcases List.mem_append.mp he with he | he
  · exact h e he hev
  · cases List.mem_singleton.mp he
    exact ⟨hrow hev, Option.some_ne_none _⟩

theorem booked_record (h : ∀ e ∈ rows, Booked e) (hrow : Booked row) :
    ∀ e ∈ record now row rows, Booked e := by
  intro e he
  rcases List.mem_append.mp he with he | he
  · exact h e he
  · cases List.mem_singleton.mp he
    exact hrow

theorem booked_destroyedRow (r : Rental) (ended : Ended) (t : Teardown) :
    Booked (r.destroyedRow ended t) := by
  intro _
  have hbilled : (r.destroyedRow ended t).billedS ≠ .null := nofun
  exact ⟨hbilled, Python.halfEven (r.offer.dph * (t.stop - r.t0) / 3600 * 10 ^ 4), rfl⟩

theorem bookedUsd_record (now : ℚ) (row : Row) (rows : List Row) :
    bookedUsd (record now row rows) = bookedUsd rows +
      if row.event = .destroyed then (row.estCostUsd.getD 0).getD 0 else 0 := by
  have hstamp : (row.stamp now).event = row.event ∧
      (row.stamp now).estCostUsd = row.estCostUsd := ⟨rfl, rfl⟩
  by_cases h : row.event = .destroyed <;>
    simp [bookedUsd, destroyedRows, record, List.filter_append, hstamp.1, hstamp.2, h]

theorem latest_record (hrow : row.event ≠ .rented) :
    Dict.latest rentedEntry (record now row rows) = Dict.latest rentedEntry rows := by
  have hnone : rentedEntry (row.stamp now) = none := by
    cases h : rentedEntry (row.stamp now) with
    | none => rfl
    | some p => exact absurd (rentedEntry_some h).2.2 hrow
  rw [record, Dict.latest_append, hnone]

theorem Metered.Sound.start (clock : ℚ) : ({ clock := clock } : Metered).Sound where
  rented _ h := by cases h
  booked _ h := by cases h
  asked _ h := by cases h
  entered _ h := by cases h
  unclosed _ h := by cases h
  distinct := List.nodup_nil

theorem Metered.Sound.named (hf : f.Sound) {l : Lifecycle} (hl : l ∈ f.inside) :
    ∃ e ∈ f.rows, e.instanceId = some l.rental.id := by
  obtain ⟨e, he, hentry⟩ := (Dict.latest_spec rentedEntry f.rows _).1 _ (hf.entered l hl)
  exact ⟨e, he, (rentedEntry_some hentry).2.1⟩

theorem Metered.Sound.apart (hf : f.Sound) {l : Lifecycle} (hl : l ∈ f.inside) :
    (l.rental.id :: (f.inside.erase l).map fun k => k.rental.id).Nodup := by
  have hperm := (List.perm_cons_erase hl).map fun k : Lifecycle => k.rental.id
  exact hperm.nodup_iff.mp hf.distinct

theorem Metered.Sound.created (hf : f.Sound) {c : Creation} {id : InstanceId}
    (hc : c ∈ f.creating) (hfresh : ∀ e ∈ f.rows, e.instanceId ≠ some id) :
    ({ f with
      rows := record f.clock (Rental.rentedRow ⟨c.adapter, c.offer, id, c.t0⟩) f.rows
      creating := f.creating.erase c
      inside := ⟨⟨c.adapter, c.offer, id, c.t0⟩, f.clock, none⟩ :: f.inside } : Metered).Sound := by
  have hother : ∀ l ∈ f.inside, l.rental.id ≠ id := by
    rintro l hl rfl
    obtain ⟨e, he, hid⟩ := hf.named hl
    exact hfresh e he hid
  have hids := filterMap_record destroyedId f.clock
    (Rental.rentedRow ⟨c.adapter, c.offer, id, c.t0⟩) f.rows
  have hnone : destroyedId ((Rental.rentedRow ⟨c.adapter, c.offer, id, c.t0⟩).stamp f.clock) =
    none := rfl
  rw [hnone, Option.toList_none, List.append_nil] at hids
  have hentry : rentedEntry ((Rental.rentedRow ⟨c.adapter, c.offer, id, c.t0⟩).stamp f.clock) =
    some (id, (Rental.rentedRow ⟨c.adapter, c.offer, id, c.t0⟩).stamp f.clock) := rfl
  refine ⟨hf.rented.record fun _ => hf.asked c hc,
    booked_record hf.booked (fun hev => by cases hev),
    fun c' hc' => hf.asked c' (List.mem_of_mem_erase hc'), fun l hl => ?_, fun l hl => ?_, ?_⟩
  · rw [record, Dict.latest_append, hentry]
    rcases List.mem_cons.mp hl with rfl | hl
    · exact (Dict.get_set _ _ _ _).trans (if_pos rfl)
    · exact (Dict.get_set _ _ _ _).trans ((if_neg (hother l hl)).trans (hf.entered l hl))
  · rw [hids]
    rcases List.mem_cons.mp hl with rfl | hl
    · rw [List.mem_filterMap]
      rintro ⟨e, he, hid⟩
      exact hfresh e he (destroyedId_some hid).1
    · exact hf.unclosed l hl
  · rw [List.map_cons, List.nodup_cons]
    refine ⟨fun hmem => ?_, hf.distinct⟩
    obtain ⟨l, hl, hid⟩ := List.mem_map.mp hmem
    exact hother l hl hid

theorem Metered.Sound.torndown (hf : f.Sound) {l : Lifecycle} (hl : l ∈ f.inside)
    (ended : Ended) (t : Teardown) :
    ({ f with
      rows := record f.clock (l.rental.destroyedRow ended t) f.rows
      inside := f.inside.erase l } : Metered).Sound := by
  have hapart := hf.apart hl
  rw [List.nodup_cons] at hapart
  have hids := filterMap_record destroyedId f.clock (l.rental.destroyedRow ended t) f.rows
  have hown : destroyedId ((l.rental.destroyedRow ended t).stamp f.clock) = some l.rental.id := rfl
  rw [hown, Option.toList_some] at hids
  refine ⟨hf.rented.record (fun hev => by cases hev),
    booked_record hf.booked (booked_destroyedRow l.rental ended t), hf.asked,
    fun k hk => ?_, fun k hk => ?_, hapart.2⟩
  · rw [latest_record fun hev => by cases hev]
    exact hf.entered k (List.mem_of_mem_erase hk)
  · rw [hids, List.mem_append, not_or]
    refine ⟨hf.unclosed k (List.mem_of_mem_erase hk), fun hmem => hapart.1 ?_⟩
    rw [← List.mem_singleton.mp hmem]
    exact List.mem_map_of_mem hk

theorem step_sound (h : MeterStep priced f g) (hf : f.Sound) : g.Sound := by
  cases h with
  | passes d _ => exact ⟨hf.rented, hf.booked, hf.asked, hf.entered, hf.unclosed, hf.distinct⟩
  | begins adapter offer ok =>
    refine ⟨hf.rented, hf.booked, fun c hc => ?_, hf.entered, hf.unclosed, hf.distinct⟩
    rcases List.mem_cons.mp hc with rfl | hc
    · exact ok
    · exact hf.asked c hc
  | refused c =>
    exact ⟨hf.rented, hf.booked, fun c' hc' => hf.asked c' (List.mem_of_mem_erase hc'),
      hf.entered, hf.unclosed, hf.distinct⟩
  | created c id mem fresh => exact hf.created mem fresh
  | running l mem _ =>
    have hids := filterMap_record destroyedId f.clock (l.rental.runningRow f.clock) f.rows
    have hnone : destroyedId ((l.rental.runningRow f.clock).stamp f.clock) = none := rfl
    rw [hnone, Option.toList_none, List.append_nil] at hids
    refine ⟨hf.rented.record (fun hev => by cases hev),
      booked_record hf.booked (fun hev => by cases hev), hf.asked, fun k hk => ?_, fun k hk => ?_,
      hf.distinct⟩
    · rw [latest_record fun hev => by cases hev]
      exact hf.entered k hk
    · rw [hids]
      exact hf.unclosed k hk
  | stops l mem _ =>
    have hback : ∀ k ∈ { l with stop := some f.clock } :: f.inside.erase l,
        ∃ k' ∈ f.inside, k'.rental = k.rental ∧ k'.since = k.since := by
      intro k hk
      rcases List.mem_cons.mp hk with rfl | hk
      · exact ⟨l, mem, rfl, rfl⟩
      · exact ⟨k, List.mem_of_mem_erase hk, rfl, rfl⟩
    refine ⟨hf.rented, hf.booked, hf.asked, fun k hk => ?_, fun k hk => ?_, hf.apart mem⟩
    · obtain ⟨k', hk', hrental, hsince⟩ := hback k hk
      rw [← hrental, ← hsince]
      exact hf.entered k' hk'
    · obtain ⟨k', hk', hrental, -⟩ := hback k hk
      rw [← hrental]
      exact hf.unclosed k' hk'
  | torndown l stop ended destroyed verify mem _ _ => exact hf.torndown mem ended _

theorem Metered.Sound.charge_nonneg (hf : f.Sound) {l : Lifecycle} (hl : l ∈ f.inside) (now : ℚ) :
    0 ≤ l.rental.charge l.since now := by
  obtain ⟨e, he, hentry⟩ := (Dict.latest_spec rentedEntry f.rows _).1 _ (hf.entered l hl)
  obtain ⟨hrow, -, hev⟩ := rentedEntry_some hentry
  exact burn_nonneg (e := l.rental.rentedRow.stamp l.since) now (hrow ▸ (hf.rented e he hev).1)

def Metered.spent (f : Metered) : ℚ := bookedUsd f.rows + inFlightUsd f.rows f.clock

theorem torndown_spent (hf : f.Sound) {l : Lifecycle} (hl : l ∈ f.inside) (ended : Ended)
    (t : Teardown) :
    ({ f with
      rows := record f.clock (l.rental.destroyedRow ended t) f.rows
      inside := f.inside.erase l } : Metered).spent =
      f.spent - l.rental.charge l.since f.clock + l.rental.cost t.stop := by
  have hbooked := bookedUsd_record f.clock (l.rental.destroyedRow ended t) f.rows
  have hcost : (if (l.rental.destroyedRow ended t).event = .destroyed then
      ((l.rental.destroyedRow ended t).estCostUsd.getD 0).getD 0 else 0) =
      l.rental.cost t.stop := rfl
  have hcharge : burn (l.rental.rentedRow.stamp l.since) f.clock =
    l.rental.charge l.since f.clock := rfl
  have hopen := inFlightUsd_destroyed (l.rental.destroyedRow ended t) f.clock rfl rfl
    (hf.entered l hl) (hf.unclosed l hl)
  rw [hcost] at hbooked
  rw [hcharge] at hopen
  simp only [Metered.spent, hbooked, hopen]
  ring

theorem torndown_lowers_iff (hf : f.Sound) {l : Lifecycle} (hl : l ∈ f.inside) (ended : Ended)
    (t : Teardown) :
    ({ f with
      rows := record f.clock (l.rental.destroyedRow ended t) f.rows
      inside := f.inside.erase l } : Metered).spent < f.spent ↔
      l.rental.cost t.stop < l.rental.charge l.since f.clock := by
  rw [torndown_spent hf hl]
  constructor <;> intro h <;> linarith

theorem step_spent (h : MeterStep covered f g) (hf : f.Sound) : f.spent ≤ g.spent := by
  cases h with
  | passes d nonneg =>
    have hburn := inFlightUsd_mono hf.rented (show f.clock ≤ f.clock + d by linarith)
    simp only [Metered.spent]
    linarith
  | begins adapter offer ok => exact le_rfl
  | refused c => exact le_rfl
  | created c id mem fresh =>
    have hopen := inFlightUsd_rented (Rental.rentedRow ⟨c.adapter, c.offer, id, c.t0⟩) f.clock
      f.clock rfl rfl fresh
    have hbooked := bookedUsd_record f.clock (Rental.rentedRow ⟨c.adapter, c.offer, id, c.t0⟩)
      f.rows
    have hburn : 0 ≤ burn ((Rental.rentedRow ⟨c.adapter, c.offer, id, c.t0⟩).stamp f.clock)
      f.clock := burn_nonneg _ (hf.asked c mem)
    rw [if_neg (by nofun), add_zero] at hbooked
    simp only [Metered.spent, hbooked, hopen]
    linarith
  | running l mem _ =>
    have hopen : inFlightUsd (record f.clock (l.rental.runningRow f.clock) f.rows) f.clock =
        inFlightUsd f.rows f.clock := inFlightUsd_other _ _ _ rfl rfl
    have hbooked := bookedUsd_record f.clock (l.rental.runningRow f.clock) f.rows
    rw [if_neg (by nofun), add_zero] at hbooked
    simp only [Metered.spent, hbooked, hopen]
    exact le_rfl
  | stops l mem _ => exact le_rfl
  | torndown l stop ended destroyed verify mem _ ok =>
    rw [torndown_spent hf mem]
    have hcovered : l.rental.charge l.since f.clock ≤ l.rental.cost stop := ok
    linarith

theorem step_booked (h : MeterStep covered f g) (hf : f.Sound) :
    bookedUsd f.rows ≤ bookedUsd g.rows := by
  cases h with
  | passes | begins | refused | stops => exact le_rfl
  | created c id mem fresh =>
    have hbooked := bookedUsd_record f.clock (Rental.rentedRow ⟨c.adapter, c.offer, id, c.t0⟩)
      f.rows
    rw [if_neg (by nofun), add_zero] at hbooked
    exact hbooked.ge
  | running l mem _ =>
    have hbooked := bookedUsd_record f.clock (l.rental.runningRow f.clock) f.rows
    rw [if_neg (by nofun), add_zero] at hbooked
    exact hbooked.ge
  | torndown l stop ended destroyed verify mem _ ok =>
    have hbooked := bookedUsd_record f.clock
      (l.rental.destroyedRow ended ⟨stop, destroyed, verify⟩) f.rows
    have hcost : (if (l.rental.destroyedRow ended ⟨stop, destroyed, verify⟩).event = .destroyed
        then ((l.rental.destroyedRow ended ⟨stop, destroyed, verify⟩).estCostUsd.getD 0).getD 0
        else 0) = l.rental.cost stop := rfl
    have hcovered : l.rental.charge l.since f.clock ≤ l.rental.cost stop := ok
    have hcharge : 0 ≤ l.rental.charge l.since f.clock := hf.charge_nonneg mem f.clock
    rw [hcost] at hbooked
    linarith

def untouched : Metering where
  begins offer := 0 ≤ offer.dph
  books _ _ _ := False

theorem MeterStep.untouched_covered (h : MeterStep untouched f g) : MeterStep covered f g := by
  cases h with
  | passes d nonneg => exact .passes f d nonneg
  | begins adapter offer ok => exact .begins f adapter offer ok
  | refused c => exact .refused f c
  | created c id mem fresh => exact .created f c id mem fresh
  | running l mem working => exact .running f l mem working
  | stops l mem working => exact .stops f l mem working
  | torndown l stop ended destroyed verify mem stopping ok => exact ok.elim

theorem step_inFlight (h : MeterStep untouched f g) (hf : f.Sound) (t : ℚ) :
    inFlightUsd f.rows t ≤ inFlightUsd g.rows t := by
  cases h with
  | passes | begins | refused | stops => exact le_rfl
  | created c id mem fresh =>
    have hopen := inFlightUsd_rented (Rental.rentedRow ⟨c.adapter, c.offer, id, c.t0⟩) f.clock
      t rfl rfl fresh
    have hburn : 0 ≤ burn ((Rental.rentedRow ⟨c.adapter, c.offer, id, c.t0⟩).stamp f.clock) t :=
      burn_nonneg _ (hf.asked c mem)
    simp only [hopen]
    linarith
  | running l mem _ => exact (inFlightUsd_other (l.rental.runningRow f.clock) _ t rfl rfl).ge
  | torndown l stop ended destroyed verify mem stopping ok => exact ok.elim

theorem covered_sound {f g : Metered} (h : MeterStep covered f g) (hf : f.Sound) : g.Sound :=
  step_sound h.priced hf

theorem run_booked (hf : f.Sound) (h : MeterRun covered f g) :
    bookedUsd f.rows ≤ bookedUsd g.rows := by
  induction h with
  | refl => exact le_rfl
  | tail hrun hstep ih =>
    exact ih.trans (step_booked hstep (Transition.run_keeps covered_sound hrun hf))

theorem run_inFlight (hf : f.Sound) (h : MeterRun untouched f g) (t : ℚ) :
    inFlightUsd f.rows t ≤ inFlightUsd g.rows t := by
  have hkeep : ∀ {x y : Metered}, MeterStep untouched x y → x.Sound → y.Sound :=
    fun hs hx => covered_sound hs.untouched_covered hx
  induction h with
  | refl => exact le_rfl
  | tail hrun hstep ih =>
    exact ih.trans (step_inFlight hstep (Transition.run_keeps hkeep hrun hf) t)

theorem read_below (hf : f.Sound) (h : MeterRun covered f g) {now : ℚ} (hnow : now ≤ g.clock) :
    bookedUsd f.rows + inFlightUsd g.rows now ≤ g.spent := by
  have hg : g.Sound := Transition.run_keeps covered_sound h hf
  exact add_le_add (run_booked hf h) (inFlightUsd_mono hg.rented hnow)

theorem read_above (hf : f.Sound) (h : MeterRun untouched f g) {now : ℚ} (hnow : f.clock ≤ now) :
    f.spent ≤ bookedUsd f.rows + inFlightUsd g.rows now :=
  add_le_add le_rfl ((inFlightUsd_mono hf.rented hnow).trans (run_inFlight hf h now))

theorem torndown_between (hf : f.Sound) {l : Lifecycle} (hl : l ∈ f.inside) (ended : Ended)
    (t : Teardown) :
    spentUsd f.rows (record f.clock (l.rental.destroyedRow ended t) f.rows) f.clock =
      .ok (f.spent - l.rental.charge l.since f.clock) := by
  have hopen := inFlightUsd_destroyed (l.rental.destroyedRow ended t) f.clock rfl rfl
    (hf.entered l hl) (hf.unclosed l hl)
  have hcharge : burn (l.rental.rentedRow.stamp l.since) f.clock =
    l.rental.charge l.since f.clock := rfl
  rw [spentUsd_eq _ _ hf.booked, Metered.spent, hopen, hcharge]
  congr 1
  ring

/-- In every run in which each teardown is covered, none is booked between the two reads of a later
`spent_usd` and no price is negative, that `spent_usd` gives no less than an earlier one. The
earlier one reads the ledger at `f` and at `f'`, the later one at `g` and at `g'`. -/
theorem spent_never_lower {f f' g g' : Metered} {clock s t : ℚ}
    (h₀ : MeterRun covered { clock := clock } f) (hfirst : MeterRun covered f f')
    (hs : s ≤ f'.clock) (h : MeterRun covered f' g) (hlater : MeterRun untouched g g')
    (ht : g.clock ≤ t) :
    ∃ x y, spentUsd f.rows f'.rows s = .ok x ∧ spentUsd g.rows g'.rows t = .ok y ∧ x ≤ y := by
  have hf : f.Sound := Transition.run_keeps covered_sound h₀ (Metered.Sound.start clock)
  have hf' : f'.Sound := Transition.run_keeps covered_sound hfirst hf
  have hg : g.Sound := Transition.run_keeps covered_sound h hf'
  have hspent := Transition.run_keeps_with (J := Metered.Sound) (I := fun x => f'.spent ≤ x.spent)
    covered_sound (fun hs hx hle => hle.trans (step_spent hs hx)) h hf' le_rfl
  exact ⟨_, _, spentUsd_eq _ _ hf.booked, spentUsd_eq _ _ hg.booked,
    ((read_below hf hfirst hs).trans hspent).trans (read_above hg hlater ht)⟩

/-- The teardown began at 4620 and has taken `d` seconds. -/
def stoppingBox (d : ℚ) : Metered where
  clock := 4620 + d
  rows := record 1020 cheapBox.rentedRow []
  inside := [⟨cheapBox, 1020, some 4620⟩]

def goneBox (d : ℚ) : Metered where
  clock := 4620 + d
  rows := record (4620 + d) (cheapBox.destroyedRow {} ⟨4620, true, .gone⟩)
    (record 1020 cheapBox.rentedRow [])

theorem cheapBox_priced : (0 : ℚ) ≤ cheapBox.offer.dph := by decide +kernel

def askedBox (clock : ℚ) : Metered where
  clock := clock
  creating := [⟨.vast, cheapBox.offer, 1000⟩]

def workingBox (clock : ℚ) : Metered where
  clock := clock
  rows := record 1020 cheapBox.rentedRow []
  inside := [⟨cheapBox, 1020, none⟩]

theorem workingBox_created (G : Metering) : MeterStep G (askedBox 1020) (workingBox 1020) := by
  have hfresh : ∀ e ∈ (askedBox 1020).rows, e.instanceId ≠ some (.int 7) :=
    fun _ he => absurd he List.not_mem_nil
  have h : MeterStep G (askedBox 1020) _ :=
    .created (askedBox 1020) ⟨.vast, cheapBox.offer, 1000⟩ (.int 7) List.mem_cons_self hfresh
  simp only [askedBox, List.erase_cons_head] at h
  exact h

theorem stoppingBox_begun (G : Metering) : MeterStep G (workingBox 4620) (stoppingBox 0) := by
  have h : MeterStep G (workingBox 4620) _ :=
    .stops (workingBox 4620) ⟨cheapBox, 1020, none⟩ List.mem_cons_self rfl
  simp only [workingBox, List.erase_cons_head] at h
  rw [stoppingBox, show (4620 : ℚ) + 0 = 4620 by norm_num]
  exact h

theorem stoppingBox_reached {G : Metering} (hbegins : G.begins cheapBox.offer) {d : ℚ}
    (hd : 0 ≤ d) : MeterRun G { clock := 1000 } (stoppingBox d) := by
  have hasked : MeterStep G { clock := 1000 } (askedBox 1000) :=
    .begins { clock := 1000 } .vast cheapBox.offer hbegins
  have hcreating : MeterStep G (askedBox 1000) (askedBox (1000 + 20)) :=
    .passes (askedBox 1000) 20 (by norm_num)
  have hwork : MeterStep G (workingBox 1020) (workingBox (1020 + 3600)) :=
    .passes (workingBox 1020) 3600 (by norm_num)
  have hdestroys : MeterStep G (stoppingBox 0) (stoppingBox d) := by
    have h : MeterStep G (stoppingBox 0) _ := .passes (stoppingBox 0) d hd
    simp only [stoppingBox, add_zero] at h ⊢
    exact h
  rw [show (1000 : ℚ) + 20 = 1020 by norm_num] at hcreating
  rw [show (1020 : ℚ) + 3600 = 4620 by norm_num] at hwork
  exact (((((Relation.ReflTransGen.single hasked).tail hcreating).tail
    (workingBox_created G)).tail hwork).tail (stoppingBox_begun G)).tail hdestroys

theorem goneBox_step {G : Metering} {d : ℚ}
    (hbooks : G.books (stoppingBox d) ⟨cheapBox, 1020, some 4620⟩ 4620) :
    MeterStep G (stoppingBox d) (goneBox d) := by
  have htorndown := MeterStep.torndown (G := G) (stoppingBox d) ⟨cheapBox, 1020, some 4620⟩ 4620
    {} true .gone List.mem_cons_self rfl hbooks
  simp only [stoppingBox, List.erase_cons_head] at htorndown
  exact htorndown

theorem quick_teardown_spent : ∃ x y,
    spentUsd (stoppingBox 10).rows (stoppingBox 10).rows 4630 = .ok x ∧
    spentUsd (goneBox 10).rows (goneBox 10).rows 4631 = .ok y ∧ x ≤ y := by
  have hgone : MeterStep covered (stoppingBox 10) (goneBox 10) := goneBox_step (by
    show cheapBox.charge 1020 (4620 + 10) ≤ cheapBox.cost 4620
    decide +kernel)
  have hreading : MeterRun untouched (goneBox 10) { goneBox 10 with clock := 4620 + 10 + 2 } :=
    .single (.passes (goneBox 10) 2 (by norm_num))
  have hfirst : (4630 : ℚ) ≤ (stoppingBox 10).clock := by norm_num [stoppingBox]
  have hlater : (goneBox 10).clock ≤ 4631 := by norm_num [goneBox]
  have hspent := spent_never_lower (stoppingBox_reached cheapBox_priced (by norm_num)) .refl hfirst
    (.single hgone) hreading hlater
  exact hspent

/-- A teardown of a hundred seconds is no longer counted once its row is there; one of ten seconds
is not counted at all by the call that is between its two reads. -/
theorem slow_teardown_lowers :
    (¬ ∀ (clock : ℚ) (f g : Metered),
      MeterRun priced { clock := clock } f → MeterRun priced f g → ∀ x y,
      spentUsd f.rows f.rows f.clock = .ok x → spentUsd g.rows g.rows g.clock = .ok y → x ≤ y) ∧
    ¬ ∀ (clock : ℚ) (f g : Metered),
      MeterRun covered { clock := clock } f → MeterRun covered f g → ∀ x y,
      spentUsd f.rows f.rows f.clock = .ok x → spentUsd f.rows g.rows g.clock = .ok y → x ≤ y := by
  constructor
  · intro h
    have hreach : MeterRun priced { clock := 1000 } (stoppingBox 100) :=
      stoppingBox_reached cheapBox_priced (by norm_num)
    have hgone : MeterStep priced (stoppingBox 100) (goneBox 100) := goneBox_step trivial
    have hsound : (stoppingBox 100).Sound :=
      Transition.run_keeps step_sound hreach (Metered.Sound.start 1000)
    have hle := h 1000 _ _ hreach (.single hgone) _ _ (spentUsd_eq _ _ hsound.booked)
      (spentUsd_eq _ _ (step_sound hgone hsound).booked)
    have hlower := (torndown_lowers_iff hsound (l := ⟨cheapBox, 1020, some 4620⟩)
      List.mem_cons_self {} ⟨4620, true, .gone⟩).mpr (by decide +kernel)
    exact absurd hle (not_le.mpr hlower)
  · intro h
    have hreach : MeterRun covered { clock := 1000 } (stoppingBox 10) :=
      stoppingBox_reached cheapBox_priced (by norm_num)
    have hsound : (stoppingBox 10).Sound :=
      Transition.run_keeps covered_sound hreach (Metered.Sound.start 1000)
    have hbetween := torndown_between hsound (l := ⟨cheapBox, 1020, some 4620⟩)
      List.mem_cons_self {} ⟨4620, true, .gone⟩
    have hle := h 1000 _ (goneBox 10) hreach (.single (goneBox_step (by
      show cheapBox.charge 1020 (4620 + 10) ≤ cheapBox.cost 4620
      decide +kernel))) _ _ (spentUsd_eq _ _ hsound.booked) hbetween
    have hcharge : 0 < cheapBox.charge 1020 (stoppingBox 10).clock := by decide +kernel
    have hspent : (stoppingBox 10).spent ≤
        (stoppingBox 10).spent - cheapBox.charge 1020 (stoppingBox 10).clock := hle
    linarith

end RunFarm
