import RunFarm.Budget
import RunFarm.Farm

/-! Whether the budget gate can still add up a ledger the reaper has repaired. -/
set_option autoImplicit false

namespace RunFarm
open Python (Dict)

def Readable (rows : List Row) : Prop :=
  (∃ s, summary rows = .ok s) ∧ ∀ later now, ∃ x, spentUsd rows later now = .ok x

theorem readable_iff (rows : List Row) : Readable rows ↔ ∀ e ∈ rows, e.Summable := by
  unfold Readable
  rw [summary_ok]
  exact ⟨fun h => h.1, fun h => ⟨h, fun later now => (spentUsd_ok rows later now).mpr h⟩⟩

theorem summable_stamp (now : ℚ) (e : Row) : (e.stamp now).Summable ↔ e.Summable := Iff.rfl

theorem rentedRow_summable (r : Rental) : r.rentedRow.Summable := fun h => by cases h

theorem runningRow_summable (r : Rental) (t : ℚ) : (r.runningRow t).Summable := fun h => by cases h

theorem destroyedRow_summable (r : Rental) (ended : Ended) (t : Teardown) :
    (r.destroyedRow ended t).Summable := fun _ => by simp [Rental.destroyedRow]

theorem ofOption_ne_null {α : Type} (a : Option α) : Field.ofOption a ≠ .null ↔ a ≠ none := by
  cases a <;> simp [Field.ofOption]

theorem closeRow_summable (iid : String) (known : Bool) (rent : Option Row) (now : ℚ) :
    (closeRow iid known rent now).Summable ↔ known = true ∧ billedOf rent now ≠ none := by
  cases known <;> simp [Row.Summable, closeRow, ofOption_ne_null]

theorem stamps_summable {todo out : List Row} (h : List.Forall₂ Stamps todo out) :
    (∀ e ∈ out, e.Summable) ↔ ∀ e ∈ todo, e.Summable := by
  induction h with
  | nil => simp
  | cons hs _ ih =>
    obtain ⟨now, rfl⟩ := hs
    simp only [List.forall_mem_cons, ih, summable_stamp]

/-- The drivers inside `rent()` have logged their boxes, and the file keeps its promises. -/
structure Tracked (f : Farm) : Prop where
  logged : Logged f.rows
  inside : ∀ r ∈ f.inside, RentedIn f.rows r.id.str

theorem tracked_step {f g : Farm} (h : Step anyRun f g) (hf : Tracked f) : Tracked g := by
  have hrows := step_grows h
  have hkeep : ∀ r ∈ f.inside, RentedIn g.rows r.id.str := fun r hr =>
    exists_grow (hf.inside r hr) hrows
  cases h with
  | rented r now started _ =>
    refine ⟨hf.logged.rented r started, fun r' hr' => ?_⟩
    rcases List.mem_cons.mp hr' with rfl | hr'
    · exact ⟨_, List.mem_append_right _ (.head _), rfl⟩
    · exact hkeep r' hr'
  | running r t now mem =>
    refine ⟨hf.logged.other now (fun hev => by cases hev) (fun iid hid => ?_), hkeep⟩
    cases hid
    exact hf.inside r mem
  | torndown r ended W w now mem =>
    exact ⟨hf.logged.other now (fun hev => by cases hev) (fun iid hid => by cases hid),
      fun r' hr' => hkeep r' (List.mem_of_mem_erase hr')⟩
  | died r => exact ⟨hf.logged, fun r' hr' => hkeep r' (List.mem_of_mem_erase hr')⟩
  | reaped c _ =>
    refine ⟨?_, hkeep⟩
    rw [show (f.reaped c).rows = f.rows ++ c.wrote f.rows from (c.wrote_stamps f.rows).2]
    refine hf.logged.append (fun e he hev => ?_) (fun e he iid hid => ?_)
    · rw [(c.wrote_gone f.rows he).1] at hev
      cases hev
    · rw [(c.wrote_gone f.rows he).2.1] at hid
      cases hid

theorem billedOf_ne_none {q : Row} {t : ℚ} (now : ℚ) (hts : q.ts = some t) (ht : t ≠ 0) :
    billedOf (some q) now ≠ none := by
  simp [billedOf, hts, ht]

theorem file_summable {f : Farm} (h : Tracked f) (c : ReapCall) :
    (∀ e ∈ c.file f.rows, e.Summable) ↔
      (∀ e ∈ f.rows, e.Summable) ∧ c.vanished f.rows = [] := by
  obtain ⟨hwrote, hfile⟩ := c.wrote_stamps f.rows
  have hclosing : (∀ e ∈ c.closing f.rows, e.Summable) ↔ c.vanished f.rows = [] := by
    constructor
    · intro hall
      rw [List.eq_nil_iff_forall_not_mem]
      intro s hs
      have hk : s ∉ c.killed f.rows := c.vanished_killed hs
      have hrow := hall _ (List.mem_map_of_mem (List.mem_append_right _ (mem_sorted.mpr hs)))
      rw [closeRow_summable] at hrow
      exact hk (of_decide_eq_true hrow.1)
    · intro hnone e he
      obtain ⟨s, hs, rfl⟩ := List.mem_map.mp he
      have hk : s ∈ c.killed f.rows := by simpa [hnone, sorted] using hs
      obtain ⟨q, t, hget, hts, ht⟩ := h.logged.leaked (ReapCall.killed_leaked hk)
      rw [closeRow_summable, hget]
      exact ⟨decide_eq_true hk, billedOf_ne_none _ hts ht⟩
  rw [hfile, List.forall_mem_append, stamps_summable hwrote, hclosing]

/-- Every reap run finds each leaked box listed or still within the grace. -/
def accounted : Guard := ⟨fun _ _ => True, fun f c => ∀ iid, ¬ c.Overlooks f.rows iid⟩

theorem vanished_nil {rows : List Row} {c : ReapCall} :
    c.vanished rows = [] ↔ ∀ iid, ¬ c.Overlooks rows iid := by
  rw [List.eq_nil_iff_forall_not_mem]
  exact forall_congr' fun iid => not_congr ReapCall.mem_vanished

theorem tracked_empty : Tracked {} := ⟨.nil, fun _ h => (by cases h)⟩

theorem summable_record (now : ℚ) (e : Row) (rows : List Row) (he : e.Summable)
    (h : ∀ x ∈ rows, x.Summable) : ∀ x ∈ record now e rows, x.Summable := by
  intro x hx
  rcases List.mem_append.mp hx with hx | hx
  · exact h x hx
  · cases List.mem_singleton.mp hx
    exact he

theorem step_readable {f g : Farm} (h : Step accounted f g) (hf : Tracked f)
    (hread : Readable f.rows) : Readable g.rows := by
  rw [readable_iff] at hread ⊢
  cases h with
  | rented r now _ _ => exact summable_record now _ _ (rentedRow_summable r) hread
  | running r t now _ => exact summable_record now _ _ (runningRow_summable r t) hread
  | torndown r ended W w now _ =>
    exact summable_record now _ _ (destroyedRow_summable r ended _) hread
  | died r => exact hread
  | reaped c ok => exact (file_summable hf c).mpr ⟨hread, vanished_nil.mpr ok⟩

theorem step_accounted {f g : Farm} (h : Step anyRun f g) (hf : Tracked f)
    (hread : Readable g.rows) : Readable f.rows ∧ Step accounted f g := by
  rw [readable_iff] at hread
  have hkept : Readable f.rows := by
    obtain ⟨out, hout⟩ := step_grows h
    exact (readable_iff _).mpr fun e he => hread e (by simp [hout, he])
  refine ⟨hkept, ?_⟩
  cases h with
  | rented r now started _ => exact .rented f r now started trivial
  | running r t now mem => exact .running f r t now mem
  | torndown r ended W w now mem => exact .torndown f r ended W w now mem
  | died r => exact .died f r
  | reaped c _ => exact .reaped f c (vanished_nil.mp ((file_summable hf c).mp hread).2)

/-- The budget gate can read the ledger exactly after the runs in which every reap call
finds each leaked box listed or still within the grace. -/
theorem accounted_iff_readable (f : Farm) :
    Reach accounted {} f ↔ Reach anyRun {} f ∧ Readable f.rows := by
  have htracked {f : Farm} (h : Reach anyRun {} f) : Tracked f :=
    Transition.run_keeps tracked_step h tracked_empty
  have hempty : Readable ({} : Farm).rows := (readable_iff _).mpr fun _ h => by cases h
  constructor
  · intro h
    refine ⟨Transition.run_mono Step.any h, ?_⟩
    exact Transition.run_keeps_with (J := Tracked) (I := fun g => Readable g.rows)
      (fun hs => tracked_step hs.any) step_readable h tracked_empty hempty
  · rintro ⟨h, hread⟩
    induction h with
    | refl => exact .refl
    | tail hrun hs ih =>
      obtain ⟨hkept, hstep⟩ := step_accounted hs (htracked hrun) hread
      exact .tail (ih hkept) hstep

def lostFarm : Farm := { rows := record 1000 cheapBox.rentedRow [] }

def lostReap : ReapCall :=
  ⟨Unit, steady [] (.error ⟨.provider, some 404, "404 not found"⟩) 8200, (),
    { dryRun := false }, ReapCall.real_defaults⟩

theorem lostFarm_reached : Reach anyRun {} lostFarm := by
  have hrent : Reach anyRun {} { lostFarm with inside := [cheapBox] } :=
    .single (.rented {} cheapBox 1000 (by norm_num) trivial)
  have hdied : Step anyRun { lostFarm with inside := [cheapBox] }
      { lostFarm with inside := [cheapBox].erase cheapBox } := .died _ cheapBox
  rw [List.erase_cons_head] at hdied
  exact hrent.tail hdied

/-- Closing the row of a vanished box breaks every later read of the ledger. -/
theorem lostBox_unreadable : Reach anyRun {} (lostFarm.reaped lostReap) ∧
    ¬ Readable (lostFarm.reaped lostReap).rows ∧
    ¬ (∀ f, Reach anyRun {} f → Readable f.rows) := by
  have hreach : Reach anyRun {} (lostFarm.reaped lostReap) :=
    lostFarm_reached.tail (.reaped lostFarm lostReap trivial)
  have hnot : ¬ Readable (lostFarm.reaped lostReap).rows := by
    rw [readable_iff]
    decide +kernel
  exact ⟨hreach, hnot, fun h => hnot (h _ hreach)⟩

end RunFarm
