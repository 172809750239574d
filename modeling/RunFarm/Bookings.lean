import RunFarm.Spend

/-! Whether the cost rows of one instance charge any of its time twice. -/
set_option autoImplicit false

namespace RunFarm
open Python (Dict)

/-- `bookings` is what the `est_cost_usd` of the `destroyed` rows charges for, in order. -/
inductive Charges : List Row → List Booking → Prop
  | nil : Charges [] []
  | skip {e : Row} {rows : List Row} {bookings : List Booking}
      (free : e.event ≠ .destroyed ∨ e.estCostUsd = .val 0) (rest : Charges rows bookings) :
      Charges (e :: rows) bookings
  | book {e : Row} {b : Booking} {rows : List Row} {bookings : List Booking}
      (closes : e.event = .destroyed) (names : e.instanceId.map InstanceId.str = some b.id)
      (costs : e.estCostUsd = .val b.usd) (rest : Charges rows bookings) :
      Charges (e :: rows) (b :: bookings)

namespace Charges

theorem append {rows rows' : List Row} {bookings bookings' : List Booking}
    (h : Charges rows bookings) (h' : Charges rows' bookings') :
    Charges (rows ++ rows') (bookings ++ bookings') := by
  induction h with
  | nil => exact h'
  | skip free _ ih => exact .skip free ih
  | book closes names costs _ ih => exact .book closes names costs ih

theorem stamps {todo out : List Row} {bookings : List Booking}
    (hs : List.Forall₂ Stamps todo out) (h : Charges todo bookings) : Charges out bookings := by
  induction h generalizing out with
  | nil =>
    cases hs
    exact .nil
  | skip free _ ih =>
    cases hs with
    | cons he hs =>
      obtain ⟨now, rfl⟩ := he
      exact .skip free (ih hs)
  | book closes names costs _ ih =>
    cases hs with
    | cons he hs =>
      obtain ⟨now, rfl⟩ := he
      exact .book closes names costs (ih hs)

theorem total {rows : List Row} {bookings : List Booking} (h : Charges rows bookings)
    (start : ℚ) : sumOf (fun e => e.estCostUsd.getD 0) start (destroyedRows rows) =
      .ok (start + (bookings.map Booking.usd).sum) := by
  induction h generalizing start with
  | nil => simp [destroyedRows, sumOf]
  | @skip e rows bookings free _ ih =>
    by_cases he : e.event = .destroyed
    · have hcost : e.estCostUsd = .val 0 := free.resolve_left (not_not_intro he)
      simp only [destroyedRows_cons, he, if_true, sumOf, hcost, Field.getD_val, add_zero]
      exact ih start
    · simp only [destroyedRows_cons, he, if_false]
      exact ih start
  | @book e b rows bookings closes _ costs _ ih =>
    have hnext := ih (start + b.usd)
    simp only [destroyedRows_cons, closes, if_true, sumOf, costs, Field.getD_val, hnext,
      List.map_cons, List.sum_cons, add_assoc]

theorem logged {rows : List Row} {bookings : List Booking} (h : Charges rows bookings)
    {b : Booking} (hb : b ∈ bookings) :
    ∃ e ∈ rows, ∃ iid, destroyedId e = some iid ∧ iid.str = b.id := by
  induction h with
  | nil => cases hb
  | skip _ _ ih =>
    obtain ⟨e, he, hid⟩ := ih hb
    exact ⟨e, .tail _ he, hid⟩
  | @book e b' _ _ closes names _ _ ih =>
    rcases List.mem_cons.mp hb with rfl | hb
    · obtain ⟨iid, hiid, hstr⟩ := Option.map_eq_some_iff.mp names
      exact ⟨e, .head _, iid, by simp [destroyedId, hiid, closes], hstr⟩
    · obtain ⟨e', he', hid⟩ := ih hb
      exact ⟨e', .tail _ he', hid⟩

end Charges

theorem reapBooking_usd (rows : List Row) (now : ℚ) (iid : String) :
    (reapBooking rows now iid).map Booking.usd = costOf ((rentRows rows).get iid) now := by
  unfold reapBooking
  dsimp only
  cases hts : ((rentRows rows).get iid).bind Row.ts with
  | none => simp [costOf, billedOf, hts]
  | some ts => cases costOf ((rentRows rows).get iid) now <;> rfl

theorem reapBooking_id {rows : List Row} {now : ℚ} {iid : String} {b : Booking}
    (h : reapBooking rows now iid = some b) : b.id = iid := by
  unfold reapBooking at h
  dsimp only at h
  split at h
  · cases h
    rfl
  · cases h

theorem charges_killed (rows : List Row) (now : ℚ) (ids : List String) :
    Charges (ids.map (fun iid => closeRow iid true ((rentRows rows).get iid) now))
      (ids.filterMap (reapBooking rows now)) := by
  induction ids with
  | nil => exact .nil
  | cons iid ids ih =>
    have hnames := closeRow_names rows iid true now
    have hcost : (closeRow iid true ((rentRows rows).get iid) now).estCostUsd =
      .val ((costOf ((rentRows rows).get iid) now).getD 0) := rfl
    have husd := reapBooking_usd rows now iid
    cases hb : reapBooking rows now iid with
    | none =>
      rw [List.filterMap_cons_none hb]
      rw [← husd, hb] at hcost
      exact .skip (.inr hcost) ih
    | some b =>
      rw [List.filterMap_cons_some hb]
      rw [← husd, hb] at hcost
      exact .book rfl (by rw [hnames, reapBooking_id hb]) hcost ih

theorem charges_vanished (rows : List Row) (now : ℚ) (ids : List String) :
    Charges (ids.map (fun iid => closeRow iid false ((rentRows rows).get iid) now)) [] := by
  induction ids with
  | nil => exact .nil
  | cons iid ids ih => exact .skip (.inr rfl) ih

theorem charges_closing (c : ReapCall) (rows : List Row) : Charges (c.closing rows)
    ((sorted (c.killed rows)).filterMap (reapBooking rows (c.now rows))) := by
  have hkilled : ∀ iid ∈ sorted (c.killed rows),
      closeRow iid (iid ∈ c.killed rows) ((rentRows rows).get iid) (c.now rows) =
        closeRow iid true ((rentRows rows).get iid) (c.now rows) := by
    intro iid h
    rw [decide_eq_true (mem_sorted.mp h)]
  have hvanished : ∀ iid ∈ sorted (c.vanished rows),
      closeRow iid (iid ∈ c.killed rows) ((rentRows rows).get iid) (c.now rows) =
        closeRow iid false ((rentRows rows).get iid) (c.now rows) := by
    intro iid h
    rw [decide_eq_false (ReapCall.vanished_killed (mem_sorted.mp h))]
  have hboth := (charges_killed rows (c.now rows) (sorted (c.killed rows))).append
    (charges_vanished rows (c.now rows) (sorted (c.vanished rows)))
  rw [List.append_nil] at hboth
  rw [ReapCall.closing, closingRows, List.map_append, List.map_congr_left hkilled,
    List.map_congr_left hvanished]
  exact hboth

theorem charges_step {f g : Farm} (h : Step anyRun f g) (hf : Charges f.rows f.bookings) :
    Charges g.rows g.bookings := by
  have hfree {e : Row} (he : e.event ≠ .destroyed) : Charges (f.rows ++ [e]) f.bookings := by
    have hlast := hf.append (.skip (.inl he) .nil)
    rwa [List.append_nil] at hlast
  cases h with
  | rented r now _ _ => exact hfree (fun he => by cases he)
  | running r t now _ => exact hfree (fun he => by cases he)
  | torndown r ended W w now _ =>
    exact hf.append (.book rfl rfl rfl .nil)
  | died r => exact hf
  | reaped c _ =>
    obtain ⟨hwrote, hfile⟩ := c.wrote_stamps f.rows
    rw [show (f.reaped c).rows = f.rows ++ c.wrote f.rows from hfile]
    exact hf.append ((charges_closing c f.rows).stamps hwrote)

def Named (rows : List Row) (iid : String) : Prop :=
  ∃ e ∈ rows, e.instanceId.map InstanceId.str = some iid

theorem Charges.named {rows : List Row} {bookings : List Booking} (h : Charges rows bookings)
    {b : Booking} (hb : b ∈ bookings) : Named rows b.id := by
  obtain ⟨e, he, iid, hid, hstr⟩ := h.logged hb
  refine ⟨e, he, ?_⟩
  rw [(destroyedId_some hid).1]
  exact congrArg some hstr

/-- An instance id is handed out once, and no box is cleared in a `reap` call while its
driver is still inside `rent()`. -/
def afterTeardown : Guard where
  rent f r := ¬ Named f.rows r.id.str
  reap f c := ∀ r ∈ f.inside, ¬ c.Cleared f.rows r.id.str

/-- The same, and the ledger holds no `destroyed` row yet for any box that is cleared. -/
def neverTornDown : Guard where
  rent := afterTeardown.rent
  reap f c := afterTeardown.reap f c ∧
    ∀ e ∈ f.rows, ∀ iid, destroyedId e = some iid → ¬ c.Cleared f.rows iid.str

/-- No second of an instance's life is charged by two of its rows. -/
def BookedOnce (bookings : List Booking) : Prop :=
  bookings.Pairwise (fun a b => a.id = b.id → a.Apart b)

/-- Each instance has at most one booking, and none while its driver is inside `rent()`. -/
structure Single (f : Farm) : Prop where
  once : (f.bookings.map Booking.id).Nodup
  inside : (f.inside.map (·.id.str)).Nodup
  rented : ∀ r ∈ f.inside, Named f.rows r.id.str
  unbooked : ∀ r ∈ f.inside, r.id.str ∉ f.bookings.map Booking.id

theorem Single.extend {f g : Farm} (hf : Single f) {new : List Booking}
    (hrows : ∃ out, g.rows = f.rows ++ out) (hin : g.inside.Sublist f.inside)
    (hb : g.bookings = f.bookings ++ new) (hnew : (new.map Booking.id).Nodup)
    (hold : ∀ b ∈ new, b.id ∉ f.bookings.map Booking.id)
    (hopen : ∀ r ∈ g.inside, r.id.str ∉ new.map Booking.id) : Single g where
  once := by
    rw [hb, List.map_append]
    refine List.nodup_append.mpr ⟨hf.once, hnew, fun s hs s' hs' heq => ?_⟩
    obtain ⟨b, hbn, rfl⟩ := List.mem_map.mp hs'
    exact hold b hbn (heq ▸ hs)
  inside := hf.inside.sublist (hin.map _)
  rented r hr := exists_grow (hf.rented r (hin.subset hr)) hrows
  unbooked r hr := by
    rw [hb, List.map_append, List.mem_append]
    exact not_or.mpr ⟨hf.unbooked r (hin.subset hr), hopen r hr⟩

theorem reapBooking_ids (rows : List Row) (now : ℚ) (ids : List String) :
    ((ids.filterMap (reapBooking rows now)).map Booking.id).Sublist ids := by
  induction ids with
  | nil => exact .slnil
  | cons iid ids ih =>
    cases hb : reapBooking rows now iid with
    | none =>
      rw [List.filterMap_cons_none hb]
      exact ih.cons _
    | some b =>
      rw [List.filterMap_cons_some hb, List.map_cons, reapBooking_id hb]
      exact ih.cons_cons _

theorem single_step {f g : Farm} (h : Step neverTornDown f g)
    (hc : Charges f.rows f.bookings) (hf : Single f) : Single g := by
  have hrows := step_grows h
  cases h with
  | rented r now _ fresh =>
    have hnew : r.id.str ∉ f.inside.map (·.id.str) := by
      intro hin
      obtain ⟨r', hr', heq⟩ := List.mem_map.mp hin
      exact fresh (heq ▸ hf.rented r' hr')
    have hfree : r.id.str ∉ f.bookings.map Booking.id := by
      intro hb
      obtain ⟨b, hb, heq⟩ := List.mem_map.mp hb
      exact fresh (heq ▸ hc.named hb)
    refine ⟨hf.once, List.nodup_cons.mpr ⟨hnew, hf.inside⟩, fun r' hr' => ?_, fun r' hr' => ?_⟩
    · rcases List.mem_cons.mp hr' with rfl | hr'
      · exact ⟨_, List.mem_append_right _ (.head _), rfl⟩
      · exact exists_grow (hf.rented r' hr') hrows
    · rcases List.mem_cons.mp hr' with rfl | hr'
      · exact hfree
      · exact hf.unbooked r' hr'
  | running r t now mem =>
    exact hf.extend hrows (.refl _) (List.append_nil _).symm List.nodup_nil
      (fun b hb => by cases hb) (fun r hr hin => by cases hin)
  | torndown r ended W w now mem =>
    have hother : ((r :: f.inside.erase r).map (·.id.str)).Nodup :=
      ((List.perm_cons_erase mem).map _).nodup_iff.mp hf.inside
    refine hf.extend hrows List.erase_sublist rfl (List.nodup_singleton _) (fun b hb => ?_)
      (fun r' hr' hin => ?_)
    · cases List.mem_singleton.mp hb
      exact hf.unbooked r mem
    · have heq : r'.id.str = r.id.str := List.mem_singleton.mp hin
      exact (List.nodup_cons.mp hother).1 (List.mem_map.mpr ⟨r', hr', heq⟩)
  | died r =>
    exact hf.extend hrows List.erase_sublist (List.append_nil _).symm List.nodup_nil
      (fun b hb => by cases hb) (fun r hr hin => by cases hin)
  | reaped c ok =>
    have hsub := reapBooking_ids f.rows (c.now f.rows) (sorted (c.killed f.rows))
    have hkilled : ∀ s ∈ ((sorted (c.killed f.rows)).filterMap
        (reapBooking f.rows (c.now f.rows))).map Booking.id, c.Cleared f.rows s :=
      fun s hs => ReapCall.mem_killed.mp (mem_sorted.mp (hsub.subset hs))
    refine hf.extend hrows (.refl _) rfl ((sorted_nodup _).sublist hsub) (fun b hb hold => ?_)
      (fun r hr hin => ok.1 r hr (hkilled _ hin))
    obtain ⟨b', hb', heq⟩ := List.mem_map.mp hold
    obtain ⟨e, he, iid, hid, hstr⟩ := hc.logged hb'
    exact ok.2 e he iid hid (hkilled _ (by rw [hstr, heq]; exact List.mem_map_of_mem hb))

/-- While no box is cleared that a teardown was already booked for, every instance has one
booking at most, and the bookings are all that `summary` adds up. -/
theorem booked_once (f : Farm) (h : Reach neverTornDown {} f) :
    BookedOnce f.bookings ∧ ∀ s, summary f.rows = .ok s →
      s.totalEstCostUsd = Python.round ((f.bookings.map Booking.usd).sum) 6 := by
  have hcharges : Charges f.rows f.bookings :=
    Transition.run_keeps (I := fun f => Charges f.rows f.bookings) charges_step
      (Transition.run_mono Step.any h) .nil
  have hsingle : Single f :=
    Transition.run_keeps_with (J := fun f => Charges f.rows f.bookings) (I := Single)
      (fun hs => charges_step hs.any) single_step h .nil
      ⟨List.nodup_nil, List.nodup_nil, fun _ h => (by cases h), fun _ h => (by cases h)⟩
  constructor
  · have hne : f.bookings.Pairwise (fun a b => a.id ≠ b.id) := List.pairwise_map.mp hsingle.once
    exact hne.imp fun hab heq => absurd heq hab
  · intro s hs
    have htotal := hcharges.total 0
    unfold summary at hs
    cases hb : sumOf (fun e => e.billedS.getD 0) 0 (destroyedRows f.rows) with
    | error err => simp [hb, bind, Except.bind] at hs
    | ok billed =>
      simp only [hb, htotal, bind, Except.bind, pure, Except.pure, Except.ok.injEq] at hs
      rw [← hs, zero_add]

def failingTeardown : World Unit :=
  steady [cheapListed] (.error ⟨.provider, some 500, "500 server error"⟩) 4600

def secondReap : ReapCall :=
  ⟨Unit, steady [cheapListed] (.ok ()) 8200, (), { dryRun := false }, ReapCall.real_defaults⟩

def openFarm : Farm := { rows := record 1000 cheapBox.rentedRow [], inside := [cheapBox] }

def leakedFarm : Farm where
  rows := record 4610 (cheapBox.destroyedRow {} (cheapBox.teardown failingTeardown ()).1)
    openFarm.rows
  inside := openFarm.inside.erase cheapBox
  bookings := [cheapBox.booking (cheapBox.teardown failingTeardown ()).1]

def deadFarm : Farm := { openFarm with inside := openFarm.inside.erase cheapBox }

theorem openFarm_reached (G : Guard) (hG : G.rent {} cheapBox) : Reach G {} openFarm :=
  .single (.rented {} cheapBox 1000 (by norm_num) hG)

theorem unnamed_empty (iid : String) : ¬ Named [] iid := fun ⟨_, he, _⟩ => by cases he

theorem deadFarm_booked_once : BookedOnce (deadFarm.reaped secondReap).bookings := by
  have hopen : Reach neverTornDown {} openFarm := openFarm_reached _ (unnamed_empty _)
  have hdead : Reach neverTornDown {} deadFarm := hopen.tail (.died openFarm cheapBox)
  have hnobody : ∀ r ∈ deadFarm.inside, ¬ secondReap.Cleared deadFarm.rows r.id.str := by
    decide +kernel
  have hnorow : ∀ e ∈ deadFarm.rows, destroyedId e = none := by decide +kernel
  have hfirst : ∀ e ∈ deadFarm.rows, ∀ iid, destroyedId e = some iid →
      ¬ secondReap.Cleared deadFarm.rows iid.str := by
    intro e he iid hid
    rw [hnorow e he] at hid
    cases hid
  exact (booked_once _ (hdead.tail (.reaped deadFarm secondReap ⟨hnobody, hfirst⟩))).1

/-- The first hour of the leaked box is charged by its driver and again by the reaper. -/
theorem leakedBox_booked_twice : Reach afterTeardown {} (leakedFarm.reaped secondReap) ∧
    (leakedFarm.reaped secondReap).bookings =
      [⟨"7", 1000, 4600, 36/100⟩, ⟨"7", 1000, 8200, 72/100⟩] ∧
    ¬ (∀ f, Reach afterTeardown {} f → BookedOnce f.bookings) := by
  have hopen : Reach afterTeardown {} openFarm := openFarm_reached _ (unnamed_empty _)
  have hleaked : Reach afterTeardown {} leakedFarm :=
    hopen.tail (.torndown openFarm cheapBox {} failingTeardown () 4610 (.head _))
  have hnobody : ∀ r ∈ leakedFarm.inside, ¬ secondReap.Cleared leakedFarm.rows r.id.str := by
    decide +kernel
  have hreach : Reach afterTeardown {} (leakedFarm.reaped secondReap) :=
    hleaked.tail (.reaped leakedFarm secondReap hnobody)
  have hbooked : (leakedFarm.reaped secondReap).bookings =
      [⟨"7", 1000, 4600, 36/100⟩, ⟨"7", 1000, 8200, 72/100⟩] := by decide +kernel
  refine ⟨hreach, hbooked, fun h => ?_⟩
  have honce := h _ hreach
  rw [hbooked, BookedOnce, List.pairwise_cons] at honce
  rcases honce.1 _ (.head _) rfl with hle | hle <;> norm_num at hle

end RunFarm
