import RunFarm.ReapCall
import RunFarm.Rent
import RunFarm.Transition

/-! Whole runs over one ledger file: drivers inside `rent()`, drivers that die there, and
reap runs, in any order. -/
set_option autoImplicit false

namespace RunFarm
open Python (Dict)
open Relation (ReflTransGen)

/-- The stretch of an instance's life that the `est_cost_usd` of a row charges for. -/
structure Booking where
  id : String
  start : ℚ
  stop : ℚ
  usd : ℚ
  deriving DecidableEq, Repr

def Booking.Apart (a b : Booking) : Prop := a.stop ≤ b.start ∨ b.stop ≤ a.start

/-- A killed box is charged from its `rented` row to `now`; a vanished one for nothing. -/
def reapBooking (rows : List Row) (now : ℚ) (iid : String) : Option Booking :=
  let rent := (rentRows rows).get iid
  match rent.bind Row.ts, costOf rent now with
  | some ts, some usd => some ⟨iid, ts, now, usd⟩
  | _, _ => none

def Rental.booking (r : Rental) (t : Teardown) : Booking :=
  ⟨r.id.str, r.t0, t.stop, Python.round (r.offer.dph * (t.stop - r.t0) / 3600) 4⟩

/-- The ledger file and the drivers inside `rent()`. `bookings` is what the cost rows
charge for; nothing in the program reads it. -/
structure Farm where
  rows : List Row := []
  inside : List Rental := []
  bookings : List Booking := []

/-- Which rentals may start and which reap calls may be made. -/
structure Guard where
  rent : Farm → Rental → Prop
  reap : Farm → ReapCall → Prop

def Farm.reaped (f : Farm) (c : ReapCall) : Farm where
  rows := c.file f.rows
  inside := f.inside
  bookings := f.bookings ++
    (sorted (c.killed f.rows)).filterMap (reapBooking f.rows (c.now f.rows))

inductive Step (G : Guard) : Farm → Farm → Prop
  | rented (f : Farm) (r : Rental) (now : ℚ) (started : 1 ≤ now) (ok : G.rent f r) :
      Step G f { f with rows := record now r.rentedRow f.rows, inside := r :: f.inside }
  | running (f : Farm) (r : Rental) (t now : ℚ) (mem : r ∈ f.inside) :
      Step G f { f with rows := record now (r.runningRow t) f.rows }
  | torndown (f : Farm) (r : Rental) (ended : Ended) {σ : Type} (W : World σ) (w : σ) (now : ℚ)
      (mem : r ∈ f.inside) :
      Step G f {
        rows := record now (r.destroyedRow ended (r.teardown W w).1) f.rows
        inside := f.inside.erase r
        bookings := f.bookings ++ [r.booking (r.teardown W w).1] }
  | died (f : Farm) (r : Rental) : Step G f { f with inside := f.inside.erase r }
  | reaped (f : Farm) (c : ReapCall) (ok : G.reap f c) : Step G f (f.reaped c)

abbrev Reach (G : Guard) : Farm → Farm → Prop := ReflTransGen (Step G)

def anyRun : Guard := ⟨fun _ _ => True, fun _ _ => True⟩

theorem Step.any {G : Guard} {f g : Farm} (h : Step G f g) : Step anyRun f g := by
  cases h with
  | rented r now started _ => exact .rented f r now started trivial
  | running r t now mem => exact .running f r t now mem
  | torndown r ended W w now mem => exact .torndown f r ended W w now mem
  | died r => exact .died f r
  | reaped c _ => exact .reaped f c trivial

theorem step_grows {G : Guard} {f g : Farm} (h : Step G f g) :
    ∃ out, g.rows = f.rows ++ out := by
  cases h with
  | rented r now _ _ => exact ⟨_, rfl⟩
  | running r t now _ => exact ⟨_, rfl⟩
  | torndown r ended W w now _ => exact ⟨_, rfl⟩
  | died r => exact ⟨[], by simp⟩
  | reaped c _ => exact ⟨_, (c.wrote_stamps f.rows).2⟩

theorem exists_grow {f g : Farm} {P : Row → Prop} (h : ∃ e ∈ f.rows, P e)
    (hrows : ∃ out, g.rows = f.rows ++ out) : ∃ e ∈ g.rows, P e := by
  obtain ⟨e, he, hP⟩ := h
  obtain ⟨out, hout⟩ := hrows
  exact ⟨e, by simp [hout, he], hP⟩

end RunFarm
