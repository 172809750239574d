import RunFarm.Python.Padded
import RunFarm.Renting.SpendRises

/-! `CappedProvider` before the `rent()` calls of several workers over one ledger. -/
set_option autoImplicit false

namespace RunFarm
open Python (Dict fixed)
open Relation (ReflTransGen)

/-- The gate of `CappedProvider.rent`. -/
def capGate (cap spent : ℚ) (offer : Offer) : Except Exc Unit :=
  if cap ≤ spent then
    .error ⟨.budgetExceeded, none, "cap $" ++ fixed 2 cap ++ " reached ($" ++ fixed 4 spent ++
      " spent + in-flight) -- refusing to rent offer " ++ offer.id ++ " @ $" ++
      fixed 3 offer.dph ++ "/hr"⟩
  else .ok ()

/-- A gate that read at `asked` what is booked. -/
structure Gate where
  adapter : Adapter
  offer : Offer
  booked : ℚ
  asked : ℚ
  deriving DecidableEq, Repr

/-- `cleared` are the calls between the gate and the inner `rent()`; `passed` counts the gates
that cleared. -/
structure Capped where
  meter : Metered
  gates : List Gate := []
  cleared : List (Adapter × Offer) := []
  passed : Nat := 0

namespace Capped

def active (f : Capped) : Nat :=
  f.cleared.length + (f.meter.creating.length + f.meter.inside.length)

def calls (f : Capped) : Nat := f.gates.length + f.active

def hopeful (cap : ℚ) (f : Capped) : Nat := f.gates.countP fun g => g.booked < cap

end Capped

/-- No `rent()` begins before its gate, and none is booked at more than `limit`. -/
def limited (limit : ℚ) : Metering where
  begins _ := False
  books _ l stop := l.rental.cost stop ≤ limit

def Metered.Within (limit : ℚ) (f : Metered) : Prop :=
  ∀ l ∈ f.inside, l.rental.charge l.since f.clock ≤ limit

/-- `spent_usd` adds up what is booked, reads the clock and then charges what is open: the
other calls go on in between. At most `workers` calls are made at a time. -/
inductive CapStep (cap limit : ℚ) (workers : Nat) : Capped → Capped → Prop
  | asks (f : Capped) (adapter : Adapter) (offer : Offer) (s : Summary) (priced : 0 ≤ offer.dph)
      (free : f.calls < workers) (booked : summary f.meter.rows = .ok s) :
      CapStep cap limit workers f { f with
        gates := ⟨adapter, offer, s.totalEstCostUsd, f.meter.clock⟩ :: f.gates }
  | refused (f : Capped) (g : Gate) (now : ℚ) (e : Exc) (mem : g ∈ f.gates)
      (since : g.asked ≤ now) (past : now ≤ f.meter.clock)
      (gate : capGate cap (g.booked + inFlightUsd f.meter.rows now) g.offer = .error e) :
      CapStep cap limit workers f { f with gates := f.gates.erase g }
  | clears (f : Capped) (g : Gate) (now : ℚ) (mem : g ∈ f.gates)
      (since : g.asked ≤ now) (past : now ≤ f.meter.clock)
      (gate : capGate cap (g.booked + inFlightUsd f.meter.rows now) g.offer = .ok ()) :
      CapStep cap limit workers f { f with
        gates := f.gates.erase g
        cleared := (g.adapter, g.offer) :: f.cleared
        passed := f.passed + 1 }
  | begins (f : Capped) (a : Adapter × Offer) (mem : a ∈ f.cleared) :
      CapStep cap limit workers f { f with
        meter := { f.meter with creating := ⟨a.1, a.2, f.meter.clock⟩ :: f.meter.creating }
        cleared := f.cleared.erase a }
  | inner (f : Capped) (m : Metered) (step : MeterStep (limited limit) f.meter m)
      (within : m.Within limit) :
      CapStep cap limit workers f { f with meter := m }

abbrev CapRun (cap limit : ℚ) (workers : Nat) : Capped → Capped → Prop :=
  ReflTransGen (CapStep cap limit workers)

theorem capGate_ok {cap spent : ℚ} {offer : Offer} :
    capGate cap spent offer = .ok () ↔ spent < cap := by
  unfold capGate
  split
  · rename_i h
    exact ⟨nofun, fun hlt => absurd h (not_le.mpr hlt)⟩
  · rename_i h
    exact ⟨fun _ => not_le.mp h, fun _ => rfl⟩

structure Settled (rows : List Row) : Prop where
  rented : Priced rows
  booked : ∀ e ∈ rows, Booked e
  closed : ∀ id e, (Dict.latest rentedEntry rows).get id = some e →
    id ∈ rows.filterMap destroyedId

def Metered.Covered (f : Metered) : Prop :=
  ∀ id e, (Dict.latest rentedEntry f.rows).get id = some e → id ∉ f.rows.filterMap destroyedId →
    ∃ l ∈ f.inside, l.rental.id = id

variable {f g : Metered} {G : Metering}

theorem Metered.Covered.step (hf : f.Covered) (h : MeterStep G f g) : g.Covered := by
  cases h with
  | passes | begins | refused => exact hf
  | created c id mem fresh =>
    intro i e hget hopen
    have hids := filterMap_record destroyedId f.clock
      (Rental.rentedRow ⟨c.adapter, c.offer, id, c.t0⟩) f.rows
    have hnone : destroyedId ((Rental.rentedRow ⟨c.adapter, c.offer, id, c.t0⟩).stamp f.clock) =
      none := rfl
    have hentry : rentedEntry ((Rental.rentedRow ⟨c.adapter, c.offer, id, c.t0⟩).stamp f.clock) =
      some (id, (Rental.rentedRow ⟨c.adapter, c.offer, id, c.t0⟩).stamp f.clock) := rfl
    rw [hnone, Option.toList_none, List.append_nil] at hids
    rw [hids] at hopen
    rw [record, Dict.latest_append, hentry] at hget
    by_cases hid : i = id
    · exact ⟨_, List.mem_cons_self, hid.symm⟩
    · rw [Dict.get_set, if_neg hid] at hget
      obtain ⟨l, hl, hlid⟩ := hf i e hget hopen
      exact ⟨l, List.mem_cons_of_mem _ hl, hlid⟩
  | running l mem _ =>
    intro i e hget hopen
    have hids := filterMap_record destroyedId f.clock (l.rental.runningRow f.clock) f.rows
    have hnone : destroyedId ((l.rental.runningRow f.clock).stamp f.clock) = none := rfl
    rw [hnone, Option.toList_none, List.append_nil] at hids
    rw [hids] at hopen
    rw [latest_record fun hev => by cases hev] at hget
    exact hf i e hget hopen
  | stops l mem _ =>
    intro i e hget hopen
    obtain ⟨k, hk, hid⟩ := hf i e hget hopen
    by_cases hkl : k = l
    · exact ⟨_, List.mem_cons_self, hkl ▸ hid⟩
    · exact ⟨k, List.mem_cons_of_mem _ ((List.mem_erase_of_ne hkl).mpr hk), hid⟩
  | torndown l stop ended destroyed verify mem _ _ =>
    intro i e hget hopen
    have hids := filterMap_record destroyedId f.clock
      (l.rental.destroyedRow ended ⟨stop, destroyed, verify⟩) f.rows
    have hown : destroyedId
        ((l.rental.destroyedRow ended ⟨stop, destroyed, verify⟩).stamp f.clock) =
      some l.rental.id := rfl
    rw [hown, Option.toList_some] at hids
    rw [hids, List.mem_append, not_or, List.mem_singleton] at hopen
    rw [latest_record fun hev => by cases hev] at hget
    obtain ⟨k, hk, hid⟩ := hf i e hget hopen.1
    have hkl : k ≠ l := by
      rintro rfl
      exact hopen.2 hid.symm
    exact ⟨k, (List.mem_erase_of_ne hkl).mpr hk, hid⟩

theorem Metered.Sound.open_perm (hf : f.Sound) (hcovered : f.Covered) :
    ((Dict.latest rentedEntry f.rows).items.filter
      fun p => p.1 ∉ f.rows.filterMap destroyedId).Perm
    (f.inside.map fun l => (l.rental.id, l.rental.rentedRow.stamp l.since)) := by
  have hitems : (Dict.latest rentedEntry f.rows).items.Nodup :=
    List.Nodup.of_map Prod.fst (Dict.latest rentedEntry f.rows).nodup
  have hinside : (f.inside.map fun l => (l.rental.id, l.rental.rentedRow.stamp l.since)).Nodup := by
    refine List.Nodup.of_map Prod.fst ?_
    rw [List.map_map]
    exact hf.distinct
  refine (List.perm_ext_iff_of_nodup (hitems.filter _) hinside).mpr fun p => ?_
  simp only [List.mem_filter, decide_eq_true_eq, List.mem_map]
  constructor
  · rintro ⟨hitem, hopen⟩
    have hget := Dict.mem_items.mp hitem
    obtain ⟨l, hl, hid⟩ := hcovered p.1 p.2 hget hopen
    have hown := hf.entered l hl
    rw [hid, hget] at hown
    exact ⟨l, hl, Prod.ext hid (Option.some.inj hown).symm⟩
  · rintro ⟨l, hl, rfl⟩
    exact ⟨Dict.mem_items.mpr (hf.entered l hl), hf.unclosed l hl⟩

theorem Metered.Sound.inFlight (hf : f.Sound) (hcovered : f.Covered) (now : ℚ) :
    inFlightUsd f.rows now = (f.inside.map fun l => l.rental.charge l.since now).sum := by
  have hsum := ((hf.open_perm hcovered).map fun p => burn p.2 now).sum_eq
  rw [List.map_map] at hsum
  rw [inFlightUsd, inFlightCharges, List.map_map]
  exact hsum

theorem Metered.Sound.inFlight_le {limit now : ℚ} (hf : f.Sound) (hcovered : f.Covered)
    (hwithin : f.Within limit) (hnow : now ≤ f.clock) :
    inFlightUsd f.rows now ≤ limit * f.inside.length := by
  refine (inFlightUsd_mono hf.rented hnow).trans ?_
  rw [hf.inFlight hcovered]
  have hle := List.sum_le_card_nsmul (f.inside.map fun l => l.rental.charge l.since f.clock) limit
    fun x hx => by
      obtain ⟨l, hl, rfl⟩ := List.mem_map.mp hx
      exact hwithin l hl
  rw [List.length_map, nsmul_eq_mul, mul_comm] at hle
  exact hle

theorem inFlightUsd_nonneg {rows : List Row} (hpriced : Priced rows) (now : ℚ) :
    0 ≤ inFlightUsd rows now := by
  rw [inFlightUsd_eq]
  refine List.sum_nonneg fun x hx => ?_
  obtain ⟨p, hp, rfl⟩ := List.mem_map.mp hx
  obtain ⟨e, he, hentry⟩ := (Dict.latest_spec rentedEntry rows p.1).1 p.2 (Dict.mem_items.mp hp)
  obtain ⟨hrow, -, hev⟩ := rentedEntry_some hentry
  unfold openCharge
  split
  · exact le_rfl
  · rw [hrow]
    exact burn_nonneg now (hpriced e he hev).1

theorem summary_reads {rows : List Row} (hbooked : ∀ e ∈ rows, Booked e) :
    ∃ s, summary rows = .ok s ∧ s.totalEstCostUsd = bookedUsd rows := by
  have hspent := spentUsd_eq rows 0 hbooked
  rw [spentUsd] at hspent
  cases hs : summary rows with
  | error e =>
    rw [hs] at hspent
    cases hspent
  | ok s =>
    rw [hs] at hspent
    exact ⟨s, rfl, add_right_cancel (Except.ok.inj hspent)⟩

theorem summary_booked {rows : List Row} {s : Summary} (hbooked : ∀ e ∈ rows, Booked e)
    (h : summary rows = .ok s) : s.totalEstCostUsd = bookedUsd rows := by
  obtain ⟨s', hs', hread⟩ := summary_reads hbooked
  rw [h] at hs'
  cases hs'
  exact hread

def Metered.load (f : Metered) : Nat := f.creating.length + f.inside.length

theorem length_erase_lt {α : Type} [BEq α] [LawfulBEq α] {a : α} {l : List α} (h : a ∈ l) :
    (l.erase a).length + 1 = l.length := by
  rw [List.length_erase_of_mem h]
  have := List.length_pos_of_mem h
  omega

theorem length_erase_le {α : Type} [BEq α] (a : α) (l : List α) :
    (l.erase a).length ≤ l.length :=
  (List.erase_sublist).length_le

theorem inner_books {limit : ℚ} (h : MeterStep (limited limit) f g) :
    bookedUsd g.rows = bookedUsd f.rows ∧ g.load ≤ f.load ∨
    bookedUsd g.rows ≤ bookedUsd f.rows + limit ∧ g.load + 1 = f.load := by
  cases h with
  | passes => exact .inl ⟨rfl, le_rfl⟩
  | begins _ _ ok => exact ok.elim
  | refused c => exact .inl ⟨rfl, Nat.add_le_add_right (length_erase_le c f.creating) _⟩
  | created c id mem _ =>
    have hbooked := bookedUsd_record f.clock (Rental.rentedRow ⟨c.adapter, c.offer, id, c.t0⟩)
      f.rows
    rw [if_neg (by nofun), add_zero] at hbooked
    refine .inl ⟨hbooked, ?_⟩
    have hless := length_erase_lt mem
    simp only [Metered.load, List.length_cons]
    omega
  | running l mem _ =>
    have hbooked := bookedUsd_record f.clock (l.rental.runningRow f.clock) f.rows
    rw [if_neg (by nofun), add_zero] at hbooked
    exact .inl ⟨hbooked, le_rfl⟩
  | stops l mem _ =>
    refine .inl ⟨rfl, ?_⟩
    have hless := length_erase_lt mem
    simp only [Metered.load, List.length_cons]
    omega
  | torndown l stop ended destroyed verify mem _ ok =>
    have hbooked := bookedUsd_record f.clock
      (l.rental.destroyedRow ended ⟨stop, destroyed, verify⟩) f.rows
    have hcost : l.rental.cost stop ≤ limit := ok
    refine .inr ⟨?_, ?_⟩
    · rw [hbooked]
      exact add_le_add_right hcost _
    · have hless := length_erase_lt mem
      simp only [Metered.load]
      omega

theorem MeterStep.limited_priced {limit : ℚ} (h : MeterStep (limited limit) f g) :
    MeterStep RunFarm.priced f g := by
  cases h with
  | passes d nonneg => exact .passes f d nonneg
  | begins adapter offer ok => exact ok.elim
  | refused c => exact .refused f c
  | created c id mem fresh => exact .created f c id mem fresh
  | running l mem working => exact .running f l mem working
  | stops l mem working => exact .stops f l mem working
  | torndown l stop ended destroyed verify mem stopping _ =>
    exact .torndown f l stop ended destroyed verify mem stopping trivial

namespace Capped

/-- The ledger can be read, and it charges at most `limit` for each call that is inside. -/
structure Sound (limit : ℚ) (f : Capped) : Prop where
  meter : f.meter.Sound
  covered : f.meter.Covered
  within : f.meter.Within limit
  asked : ∀ g ∈ f.gates, 0 ≤ g.offer.dph
  cleared : ∀ a ∈ f.cleared, 0 ≤ a.2.dph

variable {cap limit clock : ℚ} {workers : Nat} {rows : List Row} {f g : Capped}

theorem Sound.start (hrows : Settled rows) :
    Sound limit { meter := { clock := clock, rows := rows } } where
  meter :=
    { rented := hrows.rented
      booked := hrows.booked
      asked := fun _ h => by cases h
      entered := fun _ h => by cases h
      unclosed := fun _ h => by cases h
      distinct := List.nodup_nil }
  covered id e hget hopen := absurd (hrows.closed id e hget) hopen
  within _ h := by cases h
  asked _ h := by cases h
  cleared _ h := by cases h

theorem Sound.step (hf : f.Sound limit) (h : CapStep cap limit workers f g) : g.Sound limit := by
  cases h with
  | asks adapter offer s priced free booked =>
    refine ⟨hf.meter, hf.covered, hf.within, fun g hg => ?_, hf.cleared⟩
    rcases List.mem_cons.mp hg with rfl | hg
    · exact priced
    · exact hf.asked g hg
  | refused g now e mem =>
    exact ⟨hf.meter, hf.covered, hf.within,
      fun g' hg' => hf.asked g' (List.mem_of_mem_erase hg'), hf.cleared⟩
  | clears g now mem =>
    refine ⟨hf.meter, hf.covered, hf.within,
      fun g' hg' => hf.asked g' (List.mem_of_mem_erase hg'), fun a ha => ?_⟩
    rcases List.mem_cons.mp ha with rfl | ha
    · exact hf.asked g mem
    · exact hf.cleared a ha
  | begins a mem =>
    have hbegun : MeterStep priced f.meter _ := .begins f.meter a.1 a.2 (hf.cleared a mem)
    exact ⟨step_sound hbegun hf.meter, hf.covered.step hbegun, hf.within, hf.asked,
      fun a' ha' => hf.cleared a' (List.mem_of_mem_erase ha')⟩
  | inner m step within =>
    exact ⟨step_sound step.limited_priced hf.meter, hf.covered.step step, within, hf.asked,
      hf.cleared⟩

theorem Sound.spent (hf : f.Sound limit) :
    spentUsd f.meter.rows f.meter.rows f.meter.clock = .ok f.meter.spent :=
  spentUsd_eq f.meter.rows f.meter.clock hf.meter.booked

/-- Each call that is active, and each gate that may still clear, has `limit` in reserve below
the cap and the `limit` of every worker; or the cap was reached before the campaign. -/
def Reserved (cap limit : ℚ) (workers : Nat) (booked₀ : ℚ) (f : Capped) : Prop :=
  booked₀ < cap ∧
    bookedUsd f.meter.rows + limit * (f.active + f.hopeful cap) < cap + workers * limit ∨
  bookedUsd f.meter.rows = booked₀ ∧ f.active + f.hopeful cap = 0

theorem countP_erase {α : Type} [BEq α] [LawfulBEq α] {p : α → Bool} {a : α} {l : List α}
    (h : a ∈ l) : (l.erase a).countP p + (if p a then 1 else 0) = l.countP p := by
  rw [(List.perm_cons_erase h).countP_eq, List.countP_cons]

theorem Reserved.step {booked₀ : ℚ} (hlimit : 0 ≤ limit) (hsound : f.Sound limit)
    (hf : f.Reserved cap limit workers booked₀) (h : CapStep cap limit workers f g) :
    g.Reserved cap limit workers booked₀ := by
  -- what books nothing and takes nothing into the reserve
  have hless : bookedUsd g.meter.rows = bookedUsd f.meter.rows →
      g.active + g.hopeful cap ≤ f.active + f.hopeful cap →
      g.Reserved cap limit workers booked₀ := by
    intro hbooked hload
    rcases hf with ⟨hstart, hf⟩ | ⟨hbooked₀, hnone⟩
    · refine .inl ⟨hstart, ?_⟩
      have hcast : (g.active : ℚ) + g.hopeful cap ≤ f.active + f.hopeful cap := by
        exact_mod_cast hload
      have := mul_le_mul_of_nonneg_left hcast hlimit
      rw [hbooked]
      linarith
    · exact .inr ⟨hbooked.trans hbooked₀, Nat.le_zero.mp (hnone ▸ hload)⟩
  cases h with
  | asks adapter offer s priced free booked =>
    have hread : s.totalEstCostUsd = bookedUsd f.meter.rows :=
      summary_booked hsound.meter.booked booked
    by_cases hunder : bookedUsd f.meter.rows < cap
    · have hstart : booked₀ < cap := hf.elim And.left fun h => h.1 ▸ hunder
      refine .inl ⟨hstart, ?_⟩
      have hcalls : f.hopeful cap + 1 + f.active ≤ workers := by
        have hcount : f.hopeful cap ≤ f.gates.length := List.countP_le_length
        unfold calls at free
        omega
      have hcast : (f.active : ℚ) + ((f.hopeful cap : ℚ) + 1) ≤ workers := by
        exact_mod_cast (by omega : f.active + (f.hopeful cap + 1) ≤ workers)
      have hle := mul_le_mul_of_nonneg_left hcast hlimit
      have hhopeful : hopeful cap { f with
          gates := ⟨adapter, offer, s.totalEstCostUsd, f.meter.clock⟩ :: f.gates } =
          f.hopeful cap + 1 := by
        simp [hopeful, hread, hunder]
      rw [hhopeful]
      simp only [active, Nat.cast_add, Nat.cast_one] at hle ⊢
      linarith
    · refine hless rfl (le_of_eq ?_)
      simp [hopeful, active, hread, hunder]
  | refused g now e mem =>
    refine hless rfl ?_
    have hcount := countP_erase (p := fun g => decide (g.booked < cap)) mem
    simp only [hopeful, active]
    omega
  | clears g now mem since past gate =>
    refine hless rfl ?_
    have hunder : g.booked < cap := by
      have hopen := inFlightUsd_nonneg hsound.meter.rented now
      have hspent := capGate_ok.mp gate
      linarith
    have hcount := countP_erase (p := fun g => decide (g.booked < cap)) mem
    rw [if_pos (decide_eq_true hunder)] at hcount
    simp only [hopeful, active, List.length_cons]
    omega
  | begins a mem =>
    refine hless rfl ?_
    have herase := length_erase_lt mem
    simp only [hopeful, active, List.length_cons]
    omega
  | inner m step within =>
    rcases inner_books step with ⟨hbooked, hload⟩ | ⟨hbooked, hload⟩
    · refine hless hbooked ?_
      simp only [active, Metered.load, hopeful] at hload ⊢
      omega
    · rcases hf with ⟨hstart, hf⟩ | ⟨-, hnone⟩
      · refine .inl ⟨hstart, ?_⟩
        have hcast : ((f.cleared.length + m.load : ℕ) : ℚ) + 1 = f.active := by
          have hactive : f.cleared.length + m.load + 1 = f.active := by
            simp only [active, Metered.load] at hload ⊢
            omega
          exact_mod_cast hactive
        have hactive : active { f with meter := m } = f.cleared.length + m.load := rfl
        rw [hactive]
        have hhopeful : hopeful cap { f with meter := m } = f.hopeful cap := rfl
        rw [hhopeful]
        have hsplit : limit * ((f.active : ℚ) + f.hopeful cap) =
            limit * (((f.cleared.length + m.load : ℕ) : ℚ) + f.hopeful cap) + limit := by
          rw [← hcast]
          ring
        linarith
      · simp only [active, Metered.load] at hload hnone
        omega

/-- A gate read no more than `limit` for each one that cleared and is no longer active. -/
structure Spread (limit booked₀ : ℚ) (f : Capped) : Prop where
  now : bookedUsd f.meter.rows + limit * f.active ≤ booked₀ + limit * f.passed
  read : ∀ g ∈ f.gates, g.booked + limit * f.active ≤ booked₀ + limit * f.passed

theorem Spread.step {booked₀ : ℚ} (hlimit : 0 ≤ limit) (hsound : f.Sound limit)
    (hf : f.Spread limit booked₀) (h : CapStep cap limit workers f g) :
    g.Spread limit booked₀ := by
  cases h with
  | asks adapter offer s priced free booked =>
    refine ⟨hf.now, fun g hg => ?_⟩
    rcases List.mem_cons.mp hg with rfl | hg
    · have hread : s.totalEstCostUsd = bookedUsd f.meter.rows :=
        summary_booked hsound.meter.booked booked
      exact hread ▸ hf.now
    · exact hf.read g hg
  | refused g now e mem =>
    exact ⟨hf.now, fun g' hg' => hf.read g' (List.mem_of_mem_erase hg')⟩
  | clears g now mem =>
    have hmore : ∀ b : ℚ, b + limit * f.active ≤ booked₀ + limit * f.passed →
        b + limit * ((f.cleared.length + 1 + f.meter.load : ℕ) : ℚ) ≤
          booked₀ + limit * ((f.passed + 1 : ℕ) : ℚ) := by
      intro b hb
      have hactive : f.active = f.cleared.length + f.meter.load := rfl
      rw [hactive] at hb
      push_cast at hb ⊢
      linarith
    exact ⟨hmore _ hf.now, fun g' hg' => hmore _ (hf.read g' (List.mem_of_mem_erase hg'))⟩
  | begins a mem =>
    have hsame : active { f with
        meter := { f.meter with creating := ⟨a.1, a.2, f.meter.clock⟩ :: f.meter.creating }
        cleared := f.cleared.erase a } = f.active := by
      have herase := length_erase_lt mem
      simp only [active, List.length_cons]
      omega
    exact ⟨hsame ▸ hf.now, fun g hg => hsame ▸ hf.read g hg⟩
  | inner m step within =>
    have hfewer : active { f with meter := m } ≤ f.active := by
      have hload : m.load ≤ f.meter.load := by
        rcases inner_books step with ⟨-, hload⟩ | ⟨-, hload⟩ <;> omega
      exact Nat.add_le_add_left hload _
    have hactive : limit * (active { f with meter := m } : ℚ) ≤ limit * f.active :=
      mul_le_mul_of_nonneg_left (by exact_mod_cast hfewer) hlimit
    refine ⟨?_, fun g hg => ?_⟩
    · rcases inner_books step with ⟨hbooked, -⟩ | ⟨hbooked, hload⟩
      · have hnow := hf.now
        simp only at hactive ⊢
        rw [hbooked]
        linarith
      · have hone : ((active { f with meter := m } : ℕ) : ℚ) + 1 = f.active := by
          have : active { f with meter := m } + 1 = f.active := by
            simp only [active, Metered.load] at hload ⊢
            omega
          exact_mod_cast this
        have hnow := hf.now
        rw [← hone] at hnow
        simp only at hnow hbooked ⊢
        linarith
    · have hread := hf.read g hg
      linarith

theorem run_sound (hf : f.Sound limit) (h : CapRun cap limit workers f g) : g.Sound limit :=
  Transition.run_keeps (fun hs hx => Sound.step hx hs) h hf

theorem run_reserved {booked₀ : ℚ} (hlimit : 0 ≤ limit) (hf : f.Sound limit)
    (hstart : f.Reserved cap limit workers booked₀) (h : CapRun cap limit workers f g) :
    g.Reserved cap limit workers booked₀ :=
  Transition.run_keeps_with (J := Sound limit) (fun hs hx => Sound.step hx hs)
    (fun hs hx hi => Reserved.step hlimit hx hi hs) h hf hstart

theorem run_spread {booked₀ : ℚ} (hlimit : 0 ≤ limit) (hf : f.Sound limit)
    (hstart : f.Spread limit booked₀) (h : CapRun cap limit workers f g) :
    g.Spread limit booked₀ :=
  Transition.run_keeps_with (J := Sound limit) (fun hs hx => Sound.step hx hs)
    (fun hs hx hi => Spread.step hlimit hx hi hs) h hf hstart

theorem spent_settled (hrows : Settled rows) {spent₀ : ℚ}
    (h : spentUsd rows rows clock = .ok spent₀) : spent₀ = bookedUsd rows := by
  have hsound : Sound 0 { meter := { clock := clock, rows := rows } } := .start hrows
  have hopen : inFlightUsd rows clock = 0 := hsound.meter.inFlight hsound.covered clock
  rw [spentUsd_eq rows clock hrows.booked, hopen, add_zero] at h
  exact (Except.ok.inj h).symm

end Capped

/-- In every run in which no rental costs more than `limit`, what the budget counts stays below
the cap and one `limit` for each worker, wherever their reads of the ledger fall; where the cap
was reached before, nothing more is spent. -/
theorem cap_holds {cap limit clock spent₀ : ℚ} {workers : Nat} {rows : List Row} {f : Capped}
    (hlimit : 0 ≤ limit) (hrows : Settled rows) (hspent : spentUsd rows rows clock = .ok spent₀)
    (h : CapRun cap limit workers { meter := { clock := clock, rows := rows } } f) :
    ∃ x, spentUsd f.meter.rows f.meter.rows f.meter.clock = .ok x ∧
      (spent₀ < cap → x < cap + workers * limit) ∧ (cap ≤ spent₀ → x = spent₀) := by
  have hstart : Capped.Sound limit { meter := { clock := clock, rows := rows } } := .start hrows
  have hbooked := Capped.spent_settled hrows hspent
  have hf := Capped.run_sound hstart h
  have hreserved : f.Reserved cap limit workers spent₀ :=
    Capped.run_reserved hlimit hstart (.inr ⟨hbooked.symm, rfl⟩) h
  have hopen : inFlightUsd f.meter.rows f.meter.clock ≤ limit * f.meter.inside.length :=
    hf.meter.inFlight_le hf.covered hf.within le_rfl
  have hinside : limit * f.meter.inside.length ≤ limit * (f.active + f.hopeful cap) := by
    refine mul_le_mul_of_nonneg_left ?_ hlimit
    have hcount : f.meter.inside.length ≤ f.active + f.hopeful cap := by
      simp only [Capped.active]
      omega
    exact_mod_cast hcount
  refine ⟨f.meter.spent, hf.spent, fun hunder => ?_, fun hover => ?_⟩
  · rw [Metered.spent]
    rcases hreserved with ⟨-, hbound⟩ | ⟨hsame, hnone⟩
    · linarith
    · have hzero : (f.active : ℚ) + f.hopeful cap = 0 := by exact_mod_cast hnone
      have hworkers : 0 ≤ workers * limit := mul_nonneg (Nat.cast_nonneg _) hlimit
      rw [hzero, mul_zero] at hinside
      linarith
  · rcases hreserved with ⟨hunder, -⟩ | ⟨hsame, hnone⟩
    · exact absurd hover (not_le.mpr hunder)
    · have hzero : (f.active : ℚ) + f.hopeful cap = 0 := by exact_mod_cast hnone
      have hpositive := inFlightUsd_nonneg hf.meter.rented f.meter.clock
      rw [hzero, mul_zero] at hinside
      rw [Metered.spent]
      linarith

theorem Settled.nil : Settled [] where
  rented _ h := by cases h
  booked _ h := by cases h
  closed _ _ h := by cases h

def cappedBox (m : Metered) : Capped where
  meter := m
  passed := 1

theorem cappedBox_within {l : Lifecycle} {m : Metered} (hm : m.inside = [l])
    (hcharge : l.rental.charge l.since m.clock ≤ 1/2) : m.Within (1/2) := by
  intro k hk
  rw [hm] at hk
  cases List.mem_singleton.mp hk
  exact hcharge

theorem cappedBox_step {m m' : Metered} (hstep : MeterStep (limited (1/2)) m m')
    (hwithin : m'.Within (1/2)) : CapStep 1 (1/2) 1 (cappedBox m) (cappedBox m') :=
  .inner (cappedBox m) m' hstep hwithin

theorem cappedBox_reached :
    CapRun 1 (1/2) 1 { meter := { clock := 1000 } } (cappedBox (goneBox 10)) := by
  obtain ⟨s, hs, hread⟩ := summary_reads Settled.nil.booked
  have hbooked : s.totalEstCostUsd = 0 := hread
  let gate : Gate := ⟨.vast, cheapBox.offer, 0, 1000⟩
  let asking : Capped := { meter := { clock := 1000 }, gates := [gate] }
  let cleared : Capped :=
    { meter := { clock := 1000 }, cleared := [(.vast, cheapBox.offer)], passed := 1 }
  have hasks : CapStep 1 (1/2) 1 { meter := { clock := 1000 } } asking := by
    have h : CapStep 1 (1/2) 1 { meter := { clock := 1000 } } _ :=
      .asks _ .vast cheapBox.offer s cheapBox_priced (by decide) hs
    rw [hbooked] at h
    exact h
  have hclears : CapStep 1 (1/2) 1 asking cleared := by
    have h : CapStep 1 (1/2) 1 asking _ :=
      .clears asking gate 1000 List.mem_cons_self le_rfl le_rfl (capGate_ok.mpr (by decide +kernel))
    simp only [asking, gate, List.erase_cons_head] at h
    exact h
  have hbegins : CapStep 1 (1/2) 1 cleared (cappedBox (askedBox 1000)) := by
    have h : CapStep 1 (1/2) 1 cleared _ :=
      .begins cleared (.vast, cheapBox.offer) List.mem_cons_self
    simp only [cleared, List.erase_cons_head] at h
    exact h
  have hcreating : CapStep 1 (1/2) 1 (cappedBox (askedBox 1000)) (cappedBox (askedBox 1020)) := by
    have h := MeterStep.passes (G := limited (1/2)) (askedBox 1000) 20 (by norm_num)
    rw [show (askedBox 1000).clock + 20 = 1020 by norm_num [askedBox]] at h
    exact cappedBox_step h (fun _ hl => by cases hl)
  have hcreated : CapStep 1 (1/2) 1 (cappedBox (askedBox 1020)) (cappedBox (workingBox 1020)) :=
    cappedBox_step (workingBox_created _) (cappedBox_within rfl (by decide +kernel))
  have hwork : CapStep 1 (1/2) 1 (cappedBox (workingBox 1020)) (cappedBox (workingBox 4620)) := by
    have h := MeterStep.passes (G := limited (1/2)) (workingBox 1020) 3600 (by norm_num)
    rw [show (workingBox 1020).clock + 3600 = 4620 by norm_num [workingBox]] at h
    exact cappedBox_step h (cappedBox_within rfl (by decide +kernel))
  have hstops : CapStep 1 (1/2) 1 (cappedBox (workingBox 4620)) (cappedBox (stoppingBox 0)) :=
    cappedBox_step (stoppingBox_begun _) (cappedBox_within rfl (by decide +kernel))
  have hdestroys : CapStep 1 (1/2) 1 (cappedBox (stoppingBox 0)) (cappedBox (stoppingBox 10)) := by
    have h : MeterStep (limited (1/2)) (stoppingBox 0) (stoppingBox 10) := by
      have hpasses := MeterStep.passes (G := limited (1/2)) (stoppingBox 0) 10 (by norm_num)
      simp only [stoppingBox, add_zero] at hpasses ⊢
      exact hpasses
    exact cappedBox_step h (cappedBox_within rfl (by decide +kernel))
  have hgone : CapStep 1 (1/2) 1 (cappedBox (stoppingBox 10)) (cappedBox (goneBox 10)) :=
    cappedBox_step (goneBox_step (show cheapBox.cost 4620 ≤ 1/2 by decide +kernel))
      (fun _ hl => by cases hl)
  exact ((((((((Relation.ReflTransGen.single hasks).tail hclears).tail hbegins).tail
    hcreating).tail hcreated).tail hwork).tail hstops).tail hdestroys).tail hgone

theorem cappedBox_holds : ∃ x,
    spentUsd (goneBox 10).rows (goneBox 10).rows (goneBox 10).clock = .ok x ∧
    ((0 : ℚ) < 1 → x < 1 + (1 : ℕ) * (1/2)) ∧ ((1 : ℚ) ≤ 0 → x = 0) :=
  cap_holds (by norm_num) Settled.nil (by decide +kernel) cappedBox_reached

end RunFarm
