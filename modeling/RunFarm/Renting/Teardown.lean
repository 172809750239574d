import RunFarm.Renting.RentCall

/-! What a `rent` does with its instance: whether it is destroyed at all, and the verdict of its
teardown. -/
set_option autoImplicit false

namespace RunFarm
open Python
open Retry (Follows Noted Tried retry_follows)

variable {σ τ : Type}

/-- What is noted before the `finally` block. -/
def Act.Early : Act → Prop
  | .destroyed _ _ | .listed _ => False
  | .recorded row _ => row.event ≠ .destroyed
  | _ => True

variable {acc : Account} {W : Market σ} {a : Adapter} {offer : Offer} {r : Rental} {w : σ}
  {log : List Act}

theorem noted_time : Follows (Noted Act.Early log) W.time W.noted.time := by
  intro w s h
  obtain ⟨rfl, hnotes⟩ := h
  exact ⟨rfl, rfl, hnotes⟩

theorem noted_record {row : Row} (h : row.event ≠ .destroyed) :
    Follows (Noted Act.Early log) (W.record row) (W.noted.record row) :=
  Retry.logged_follows fun _ => h

theorem noted_poll (r : Rental) (deadline : ℚ) :
    Follows (Noted Act.Early log) (r.poll W deadline) (r.poll W.noted deadline) := by
  have hstatus : Follows (Noted Act.Early log) (W.status r.id) (W.noted.status r.id) :=
    Retry.logged_follows fun _ => trivial
  refine noted_time.bind fun now => ?_
  by_cases hnow : now < deadline
  · simp only [hnow, if_true]
    exact hstatus.bind fun answer => .pure _
  · simp only [hnow, if_false]
    exact .pure _

theorem noted_waitRunning (r : Rental) (patience : Patience) :
    Follows (Noted Act.Early log) (r.waitRunning W patience) (r.waitRunning W.noted patience) := by
  refine noted_time.bind fun start => ?_
  have hloop : Follows (Noted Act.Early log)
      (Retry.retry (r.poll W (start + patience.seconds)) (fun _ => r.pollEnds patience)
        (fun _ => W.sleep 10) (Rental.rounds patience))
      (Retry.retry (r.poll W.noted (start + patience.seconds)) (fun _ => r.pollEnds patience)
        (fun _ => W.noted.sleep 10) (Rental.rounds patience)) :=
    retry_follows (noted_poll r _) fun _ w s h => h.move (W.sleep 10)
  exact hloop.bind fun result => .pure _

theorem noted_use (r : Rental) (I : Interp) (patience : Patience) :
    Follows (Noted Act.Early log) (r.use I W patience) (r.use I W.noted patience) := by
  refine (noted_waitRunning r patience).bind fun result => ?_
  cases result with
  | error e => exact .pure _
  | ok p =>
    cases hcoords : r.coords I p with
    | error e =>
      simp only [hcoords]
      exact .pure _
    | ok host =>
      simp only [hcoords]
      refine noted_time.bind fun now => ?_
      refine (noted_record (by simp [Rental.runningRow])).bind fun answer => ?_
      cases answer with
      | error e => exact .pure _
      | ok _ => exact Retry.logged_follows fun _ => trivial

theorem noted_begin (acc : Account) (a : Adapter) (offer : Offer) :
    Follows (Noted Act.Early log) (begin acc W a offer) (begin acc W.noted a offer) := by
  have hnet : W.toNet.Follows (Noted Act.Early log) (W.toNet.noted Act.opened) :=
    W.toNet.noted_follows log fun _ _ => trivial
  have hplace : Follows (Noted Act.Early log) (place acc W.toNet a offer)
    (place acc W.noted.toNet a offer) := place_follows hnet acc a offer
  refine noted_time.bind fun t0 => hplace.bind fun result => ?_
  cases result <;> exact .pure _

def destroyEnds : Except Exc Unit → Option Unit
  | .ok _ => some ()
  | .error e =>
    if e.kind = .provider ∧ (e.code = some 404 ∨ e.code = some 410) then some () else none

def DestroyAcked (answer : Except Exc Unit) : Prop := destroyEnds answer = some ()

theorem not_destroyAcked {answer : Except Exc Unit} :
    ¬ DestroyAcked answer ↔ destroyEnds answer = none := by
  unfold DestroyAcked
  cases destroyEnds answer <;> simp

theorem teardownDestroy_eq (V : World σ) (iid : InstanceId) (n : Nat) (w : σ) :
    teardownDestroy V iid n w =
      ((Retry.retry (V.destroy iid) (fun _ => destroyEnds) (fun _ => V.sleep 2) n w).1.isSome,
        (Retry.retry (V.destroy iid) (fun _ => destroyEnds) (fun _ => V.sleep 2) n w).2) := by
  induction n generalizing w with
  | zero => rfl
  | succ n ih =>
    cases hask : V.destroy iid w with
    | mk answer w₁ =>
      cases answer with
      | ok _ => simp [teardownDestroy, Retry.retry, destroyEnds, hask]
      | error e =>
        simp only [teardownDestroy, Retry.retry, destroyEnds, hask, ih]
        split <;> rfl

/-- The `finally` block as it was noted: the answers to the destroy calls, the listing, the row
and its write. -/
structure Finale where
  answers : List (Except Exc Unit)
  listing : Except Exc (List Instance)
  row : Row
  write : Except Foreign Unit

namespace Finale

def acts (f : Finale) (iid : InstanceId) : List Act :=
  f.answers.map (.destroyed iid) ++ [.listed f.listing, .recorded f.row f.write]

def Lists (f : Finale) (iid : InstanceId) : Prop :=
  ∃ live, f.listing = .ok live ∧ ∃ i ∈ live, i.id = iid

def Lacks (f : Finale) (iid : InstanceId) : Prop :=
  ∃ live, f.listing = .ok live ∧ ∀ i ∈ live, i.id ≠ iid

/-- No destroy was acknowledged, or the listing still shows the instance. -/
def Leaky (f : Finale) (iid : InstanceId) : Prop :=
  (∀ x ∈ f.answers, ¬ DestroyAcked x) ∨ f.Lists iid

/-- The destroy calls stop at the first that is acknowledged, and at five. -/
structure Stopped (f : Finale) : Prop where
  atMost : f.answers.length ≤ 5
  stops : ∀ x ∈ f.answers.dropLast, ¬ DestroyAcked x
  goesOn : (∃ x ∈ f.answers, DestroyAcked x) ∨ f.answers.length = 5

end Finale

theorem destroyed_iff {answers : List (Except Exc Unit)} {result : Option Unit}
    (h : Tried (fun _ => destroyEnds) 5 answers result) :
    result.isSome ↔ ∃ x ∈ answers, DestroyAcked x := by
  cases result with
  | none =>
    obtain ⟨-, hall⟩ := h.exhausted rfl
    refine iff_of_false (by simp) fun ⟨x, hx, hack⟩ => ?_
    obtain ⟨_, hnone⟩ := hall x hx
    exact not_destroyAcked.mpr hnone hack
  | some u =>
    obtain ⟨_, x, hlast, hends, -⟩ := h.answered rfl
    exact iff_of_true rfl ⟨x, List.mem_of_getLast? hlast, hends⟩

theorem stopped_of_tried {f : Finale} {result : Option Unit}
    (h : Tried (fun _ => destroyEnds) 5 f.answers result) : f.Stopped := by
  refine ⟨h.length_le, fun x hx => ?_, ?_⟩
  · obtain ⟨_, -, hnone⟩ := h.dropLast_again x hx
    exact not_destroyAcked.mpr hnone
  · cases result with
    | none => exact .inr (h.exhausted rfl).1
    | some u => exact .inl ((destroyed_iff h).mp rfl)

theorem verifyTeardown_spec (V : World σ) (iid : InstanceId) (w : σ) :
    ((verifyTeardown V iid w).1 = .gone ↔
      ∃ live, (V.listInstances w).1 = .ok live ∧ ∀ i ∈ live, i.id ≠ iid) ∧
    ((verifyTeardown V iid w).1 = .present ↔
      ∃ live, (V.listInstances w).1 = .ok live ∧ ∃ i ∈ live, i.id = iid) ∧
    (verifyTeardown V iid w).2 = (V.listInstances w).2 := by
  unfold verifyTeardown
  cases V.listInstances w with
  | mk answer w₁ =>
    cases answer with
    | error e => simp
    | ok live =>
      by_cases hlive : ∃ i ∈ live, i.id = iid
      · have hany : (live.any fun i => i.id = iid) = true := by simpa using hlive
        have hnot : ¬ ∀ i ∈ live, i.id ≠ iid := by simpa using hlive
        simp [hany, hlive, hnot]
      · have hany : (live.any fun i => i.id = iid) = false := by simpa using hlive
        have hnot : ∀ i ∈ live, ¬ i.id = iid := by simpa using hlive
        simpa [hany, hlive] using hnot

theorem verifyTeardown_noted (iid : InstanceId) (w : σ) (log : List Act) :
    verifyTeardown W.noted.toWorld iid (w, log) = ((verifyTeardown W.toWorld iid w).1,
      (W.listInstances w).2, log ++ [.listed (W.listInstances w).1]) := by
  have hlist : W.noted.toWorld.listInstances (w, log) =
      ((W.listInstances w).1, (W.listInstances w).2, log ++ [.listed (W.listInstances w).1]) := rfl
  unfold verifyTeardown
  rw [hlist]
  cases W.listInstances w with
  | mk answer w₁ => cases answer <;> rfl

def Rental.torn (r : Rental) (V : World σ) (w : σ) : Bool × σ :=
  teardownDestroy V r.id 5 (V.time w).2

theorem teardown_eq (r : Rental) (V : World σ) (w : σ) :
    r.teardown V w = (⟨(V.time w).1, (r.torn V w).1, (verifyTeardown V r.id (r.torn V w).2).1⟩,
      (verifyTeardown V r.id (r.torn V w).2).2) := rfl

theorem teardown_noted (r : Rental) (W : Market σ) (w : σ) (log : List Act) :
    ∃ answers listing,
      r.teardown W.noted.toWorld (w, log) = ((r.teardown W.toWorld w).1,
        (r.teardown W.toWorld w).2,
        log ++ answers.map (.destroyed r.id) ++ [.listed listing]) ∧
      (∀ row write, Finale.Stopped ⟨answers, listing, row, write⟩) ∧
      ((r.teardown W.toWorld w).1.destroyed = true ↔ ∃ x ∈ answers, DestroyAcked x) ∧
      ((r.teardown W.toWorld w).1.verify = .gone ↔
        ∃ live, listing = .ok live ∧ ∀ i ∈ live, i.id ≠ r.id) ∧
      ((r.teardown W.toWorld w).1.verify = .present ↔
        ∃ live, listing = .ok live ∧ ∃ i ∈ live, i.id = r.id) := by
  obtain ⟨answers, htried, hloop⟩ := Retry.retry_logged (.destroyed r.id) (W.destroy r.id)
    (fun _ => destroyEnds) (fun _ => W.sleep 2) 5 (W.time w).2 log
  have hplain : r.torn W.toWorld w = _ := teardownDestroy_eq W.toWorld r.id 5 (W.time w).2
  have hnoted : r.torn W.noted.toWorld (w, log) = ((r.torn W.toWorld w).1,
      (r.torn W.toWorld w).2, log ++ answers.map (.destroyed r.id)) := by
    have hloop' : Retry.retry (W.noted.toWorld.destroy r.id) (fun _ => destroyEnds)
        (fun _ => W.noted.toWorld.sleep 2) 5 (W.noted.time (w, log)).2 = _ := hloop
    rw [Rental.torn, teardownDestroy_eq, hloop', hplain]
  have hdestroyed : (r.torn W.toWorld w).1 = true ↔ ∃ x ∈ answers, DestroyAcked x := by
    rw [hplain]
    exact destroyed_iff htried
  obtain ⟨hgone, hpresent, hafter⟩ := verifyTeardown_spec W.toWorld r.id (r.torn W.toWorld w).2
  refine ⟨answers, (W.listInstances (r.torn W.toWorld w).2).1, ?_, ?_, ?_, ?_, ?_⟩
  · rw [teardown_eq, hnoted, verifyTeardown_noted, teardown_eq, hafter]
    rfl
  · exact fun row write => stopped_of_tried htried
  · exact hdestroyed
  · exact hgone
  · exact hpresent

theorem close_noted (r : Rental) (W : Market σ) (out : Except Exc Unit) (w : σ)
    (log : List Act) :
    ∃ f : Finale, (r.close W.noted out (w, log)).2.2 = log ++ f.acts r.id ∧ f.Stopped ∧
      f.write = (W.record f.row (r.teardown W.toWorld w).2).1 ∧
      f.row = r.destroyedRow (r.ended out) (r.teardown W.toWorld w).1 ∧
      ((r.teardown W.toWorld w).1.verify = .gone ↔ f.Lacks r.id) ∧
      ((r.teardown W.toWorld w).1.leaks = true ↔ f.Leaky r.id) ∧
      (r.close W.noted out (w, log)).1 = match f.write with
        | .error e => .error e.exc
        | .ok _ => if (r.teardown W.toWorld w).1.leaks then
            .error (r.leakRisk (r.teardown W.toWorld w).1) else out := by
  obtain ⟨answers, listing, hteardown, hstopped, hdestroyed, hgone, hpresent⟩ :=
    teardown_noted r W w log
  have hleaks : (r.teardown W.toWorld w).1.leaks = true ↔
      (∀ x ∈ answers, ¬ DestroyAcked x) ∨ ∃ live, listing = .ok live ∧ ∃ i ∈ live, i.id = r.id := by
    rw [← hpresent, Teardown.leaks, Bool.or_eq_true, Bool.not_eq_true', ← Bool.not_eq_true,
      hdestroyed, decide_eq_true_eq]
    push Not
    rfl
  generalize hrow : r.destroyedRow (r.ended out) (r.teardown W.toWorld w).1 = row
  have hwrite : W.noted.record row ((r.teardown W.toWorld w).2,
      log ++ answers.map (.destroyed r.id) ++ [.listed listing]) =
      ((W.record row (r.teardown W.toWorld w).2).1, (W.record row (r.teardown W.toWorld w).2).2,
        log ++ answers.map (.destroyed r.id) ++ [.listed listing] ++
          [.recorded row (W.record row (r.teardown W.toWorld w).2).1]) := rfl
  refine ⟨⟨answers, listing, row, (W.record row (r.teardown W.toWorld w).2).1⟩, ?_,
    hstopped _ _, rfl, rfl, hgone, hleaks, ?_⟩
  · rw [Rental.close, Retry.bind_run, hteardown]
    dsimp only
    rw [hrow, Retry.bind_run, hwrite]
    cases (W.record row (r.teardown W.toWorld w).2).1 <;> simp [Finale.acts, Retry.pure_run]
  · rw [Rental.close, Retry.bind_run, hteardown]
    dsimp only
    rw [hrow, Retry.bind_run, hwrite]
    cases (W.record row (r.teardown W.toWorld w).2).1 <;> rfl

def Rental.receipted (r : Rental) (W : Market σ) (w : σ) : σ := (W.record r.rentedRow w).2

/-- How the `try` block ended. -/
def Rental.outcome (r : Rental) (I : Interp) (W : Market σ) (patience : Patience) (w : σ) :
    Except Exc Unit × σ := r.use I W patience (r.receipted W w)

theorem begin_noted {w₁ : σ} (hbegin : begin acc W a offer w = (.ok r, w₁)) :
    ∃ early, begin acc W.noted a offer (w, []) = (.ok r, w₁, early) ∧ ∀ x ∈ early, x.Early := by
  have hfollows : Follows (Noted Act.Early []) (begin acc W a offer)
      (begin acc W.noted a offer) := noted_begin acc a offer
  obtain ⟨result, w', s', hw, hs, rfl, notes, hlog, hall⟩ := hfollows.run (Noted.refl w)
  rw [hbegin] at hw
  cases hw
  exact ⟨notes, by rw [hs, ← List.nil_append notes, ← hlog], hall⟩

theorem rent_unbuilt (patience : Patience) {w₁ : σ} {e : Exc}
    (hbegin : begin acc W a offer w = (.ok r, w₁)) (hbuilt : r.receipt = .error e) :
    (∀ x ∈ (rent acc W.noted a offer patience (w, [])).2.2, x.Early) ∧
      (rent acc W.noted a offer patience (w, [])).1 = .error e := by
  obtain ⟨early, hnoted, hall⟩ := begin_noted hbegin
  have hrent : rent acc W.noted a offer patience (w, []) = (.error e, w₁, early) := by
    rw [rent, Retry.bind_run, hnoted]
    dsimp only
    rw [Rental.hold, hbuilt]
    rfl
  rw [hrent]
  exact ⟨hall, rfl⟩

theorem rent_unreceipted (patience : Patience) {w₁ : σ} {e : Foreign}
    (hbegin : begin acc W a offer w = (.ok r, w₁)) (hbuilt : r.receipt = .ok r.rentedRow)
    (hreceipt : (W.record r.rentedRow w₁).1 = .error e) :
    (∀ x ∈ (rent acc W.noted a offer patience (w, [])).2.2, x.Early) ∧
      (rent acc W.noted a offer patience (w, [])).1 = .error e.exc := by
  obtain ⟨early, hnoted, hall⟩ := begin_noted hbegin
  have hwrite : W.noted.record r.rentedRow (w₁, early) =
      (.error e, (W.record r.rentedRow w₁).2, early ++ [.recorded r.rentedRow (.error e)]) := by
    rw [← hreceipt]
    rfl
  have hrent : rent acc W.noted a offer patience (w, []) = (.error e.exc,
      (W.record r.rentedRow w₁).2, early ++ [.recorded r.rentedRow (.error e)]) := by
    rw [rent, Retry.bind_run, hnoted]
    dsimp only
    rw [Rental.hold, hbuilt]
    dsimp only
    rw [Retry.bind_run, hwrite]
    rfl
  rw [hrent]
  refine ⟨fun x hx => ?_, rfl⟩
  rcases List.mem_append.mp hx with hx | hx
  · exact hall x hx
  · rw [List.mem_singleton.mp hx]
    simp [Act.Early, Rental.rentedRow]

theorem rent_receipted (patience : Patience) {w₁ : σ}
    (hbegin : begin acc W a offer w = (.ok r, w₁)) (hbuilt : r.receipt = .ok r.rentedRow)
    (hreceipt : (W.record r.rentedRow w₁).1 = .ok ()) :
    ∃ early, (∀ x ∈ early, x.Early) ∧ rent acc W.noted a offer patience (w, []) =
      r.close W.noted (r.outcome acc.I W patience w₁).1
        ((r.outcome acc.I W patience w₁).2, early) := by
  obtain ⟨early, hnoted, hall⟩ := begin_noted hbegin
  have hwrite : W.noted.record r.rentedRow (w₁, early) =
      (.ok (), r.receipted W w₁, early ++ [.recorded r.rentedRow (.ok ())]) := by
    rw [← hreceipt]
    rfl
  have hfollows : Follows (Noted Act.Early (early ++ [.recorded r.rentedRow (.ok ())]))
      (r.use acc.I W patience) (r.use acc.I W.noted patience) := noted_use r acc.I patience
  obtain ⟨out, w₂, s₂, hw, hs, rfl, notes, hlog, hnotes⟩ :=
    hfollows.run (Noted.refl (r.receipted W w₁))
  refine ⟨s₂.2, fun x hx => ?_, ?_⟩
  · rw [hlog, List.mem_append, List.mem_append] at hx
    rcases hx with (hx | hx) | hx
    · exact hall x hx
    · rw [List.mem_singleton.mp hx]
      simp [Act.Early, Rental.rentedRow]
    · exact hnotes x hx
  · rw [rent, Retry.bind_run, hnoted]
    dsimp only
    rw [Rental.hold, hbuilt]
    dsimp only
    rw [Retry.bind_run, hwrite]
    dsimp only
    rw [Retry.bind_run, hs, Rental.outcome, hw]

theorem begin_rental {w₁ : σ} (hbegin : begin acc W a offer w = (.ok r, w₁)) :
    r.adapter = a ∧ r.offer = offer := by
  rw [begin, Retry.bind_run, Retry.bind_run] at hbegin
  cases hplace : place acc W.toNet a offer (W.time w).2 with
  | mk result w₂ =>
    rw [hplace] at hbegin
    cases result <;> cases hbegin
    exact ⟨rfl, rfl⟩

theorem built_of (hadapter : r.adapter = a) (hoffer : r.offer = offer)
    (hgeo : a = .vast → offer.geolocation ≠ none) : r.receipt = .ok r.rentedRow := by
  unfold Rental.receipt
  split
  · rename_i hvast hnull
    exact absurd (hoffer ▸ hnull) (hgeo (hadapter ▸ hvast))
  · rfl

theorem acts_destroys {f : Finale} (hstopped : f.Stopped) (iid : InstanceId) :
    ∃ answer, Act.destroyed iid answer ∈ f.acts iid := by
  have hsome : ∃ answer, answer ∈ f.answers := by
    rcases hstopped.goesOn with ⟨x, hx, -⟩ | hlen
    · exact ⟨x, hx⟩
    · exact List.exists_mem_of_length_pos (by omega)
  obtain ⟨answer, hmem⟩ := hsome
  exact ⟨answer, List.mem_append_left _ (List.mem_map_of_mem hmem)⟩

/-- The instance of a `rent` is destroyed before the call ends exactly when its receipt could
be built and written, whatever else is raised. -/
theorem rented_destroyed_iff (acc : Account) (W : Market σ) (a : Adapter) (offer : Offer)
    (patience : Patience) (r : Rental) (w w₁ : σ)
    (hbegin : begin acc W a offer w = (.ok r, w₁)) :
    (∃ answer, Act.destroyed r.id answer ∈
      (rent acc W.noted a offer patience (w, [])).2.2) ↔
      (a = .vast → offer.geolocation ≠ none) ∧ (W.record r.rentedRow w₁).1 = .ok () := by
  obtain ⟨hadapter, hoffer⟩ := begin_rental hbegin
  by_cases hgeo : a = .vast → offer.geolocation ≠ none
  · have hbuilt := built_of hadapter hoffer hgeo
    cases hreceipt : (W.record r.rentedRow w₁).1 with
    | error e =>
      obtain ⟨hearly, -⟩ := rent_unreceipted patience hbegin hbuilt hreceipt
      exact iff_of_false (fun ⟨_, hmem⟩ => hearly _ hmem) nofun
    | ok _ =>
      obtain ⟨early, -, hrent⟩ := rent_receipted patience hbegin hbuilt hreceipt
      obtain ⟨f, htrace, hstopped, -⟩ := close_noted r W (r.outcome acc.I W patience w₁).1
        (r.outcome acc.I W patience w₁).2 early
      obtain ⟨answer, hmem⟩ := acts_destroys hstopped r.id
      refine iff_of_true ⟨answer, ?_⟩ ⟨hgeo, rfl⟩
      rw [hrent, htrace]
      exact List.mem_append_right _ hmem
  · obtain ⟨hvast, hnull⟩ : a = .vast ∧ offer.geolocation = none := by simpa using hgeo
    have hraises : ∃ e, r.receipt = .error e := by
      rw [Rental.receipt, hadapter, hoffer, hvast, hnull]
      exact ⟨_, rfl⟩
    obtain ⟨e, hraises⟩ := hraises
    obtain ⟨hearly, -⟩ := rent_unbuilt patience hbegin hraises
    exact iff_of_false (fun ⟨_, hmem⟩ => hearly _ hmem) fun h => hgeo h.1

/-- The receipt can be built, and the ledger takes what is written to it. -/
def Market.Writes (W : Market σ) (r : Rental) : Prop :=
  r.receipt = .ok r.rentedRow ∧ ∀ row w, (W.record row w).1 = .ok ()

/-- With ledger writes that succeed: the destroy calls stop at the first that is acknowledged
and at five, one `destroyed` row is written, which says `gone` exactly when the listing after
them lacks the instance, and `rent` raises `LeakRisk` exactly when none was acknowledged or
the listing has the instance, and ends as the body did otherwise. -/
theorem teardown_verdict (acc : Account) (W : Market σ) (a : Adapter) (offer : Offer)
    (patience : Patience) (r : Rental) (w w₁ : σ) (hwrites : W.Writes r)
    (hbegin : begin acc W a offer w = (.ok r, w₁)) :
    ∃ (early : List Act) (f : Finale), (∀ x ∈ early, x.Early) ∧
      (rent acc W.noted a offer patience (w, [])).2.2 = early ++ f.acts r.id ∧ f.Stopped ∧
      f.row.event = .destroyed ∧ f.row.instanceId = some r.id ∧ f.write = .ok () ∧
      (f.row.verify = some .gone ↔ f.Lacks r.id) ∧
      (f.Leaky r.id → ∃ e, (rent acc W.noted a offer patience (w, [])).1 = .error e ∧
        e.kind = .leakRisk) ∧
      (¬ f.Leaky r.id → (rent acc W.noted a offer patience (w, [])).1 =
        (r.outcome acc.I W patience w₁).1) ∧
      ((∀ e, (r.outcome acc.I W patience w₁).1 = .error e → e.kind ≠ .leakRisk) →
        ((∃ e, (rent acc W.noted a offer patience (w, [])).1 = .error e ∧ e.kind = .leakRisk) ↔
          f.Leaky r.id)) := by
  obtain ⟨early, hearly, hrent⟩ := rent_receipted patience hbegin hwrites.1 (hwrites.2 _ w₁)
  obtain ⟨f, htrace, hstopped, hwrite, hrow, hgone, hleaks, hout⟩ := close_noted r W
    (r.outcome acc.I W patience w₁).1 (r.outcome acc.I W patience w₁).2 early
  rw [hwrites.2] at hwrite
  rw [hwrite] at hout
  rw [hrent]
  have hleak : f.Leaky r.id → ∃ e, (r.close W.noted (r.outcome acc.I W patience w₁).1
      ((r.outcome acc.I W patience w₁).2, early)).1 = .error e ∧ e.kind = .leakRisk := by
    intro hleaky
    rw [hout]
    simp only [hleaks.mpr hleaky, if_true]
    exact ⟨_, rfl, rfl⟩
  have hown : ¬ f.Leaky r.id → (r.close W.noted (r.outcome acc.I W patience w₁).1
      ((r.outcome acc.I W patience w₁).2, early)).1 = (r.outcome acc.I W patience w₁).1 := by
    intro hsafe
    rw [hout]
    simp only [mt hleaks.mp hsafe, Bool.false_eq_true, if_false]
  have hevent : f.row.event = .destroyed := by rw [hrow]; rfl
  have hid : f.row.instanceId = some r.id := by rw [hrow]; rfl
  have hverify : f.row.verify = some .gone ↔ f.Lacks r.id := by
    rw [hrow, ← hgone]
    simp [Rental.destroyedRow]
  refine ⟨early, f, hearly, htrace, hstopped, hevent, hid, hwrite, hverify, hleak, hown,
    fun hbody => ⟨fun ⟨e, he, hkind⟩ => ?_, hleak⟩⟩
  by_contra hsafe
  rw [hown hsafe] at he
  exact hbody e he hkind

def plainAccount : Account where
  I := .insertion (fun q => toString q) (fun _ => "") (fun _ => "")
  key := ⟨"id_ed25519.pub", .ok "ssh-ed25519 AAAA"⟩

def diskFull : Foreign := ⟨⟨.other "OSError", none, "No space left on device"⟩, rfl⟩

def quietMarket (write : Except Foreign Unit) : Market σ where
  urlopen _ w := (.answered (some (.ok (.dict [(.str "new_contract", .int 7)]))), w)
  sleep _ w := w
  time w := (0, w)
  listInstances w := (.ok [], w)
  destroy _ w := (.ok (), w)
  record _ w := (write, w)
  status _ w := (.ok ⟨"running", "", "10.0.0.1", .ok 22⟩, w)
  body _ w := (.ok (), w)

def tenMinutes : Patience := ⟨600, "600"⟩

def quietRental : Rental := ⟨.vast, cheapBox.offer, .int 7, 0⟩

theorem quiet_begins (write : Except Foreign Unit) :
    begin plainAccount (quietMarket write) .vast cheapBox.offer () = (.ok quietRental, ()) := by
  rfl

theorem quiet_destroyed : ∃ answer, Act.destroyed (.int 7) answer ∈
    (rent plainAccount (quietMarket (.ok ())).noted .vast cheapBox.offer tenMinutes
      ((), [])).2.2 :=
  (rented_destroyed_iff plainAccount (quietMarket (.ok ())) .vast cheapBox.offer tenMinutes
    quietRental () () (quiet_begins _)).mpr ⟨by decide, rfl⟩

/-- The disk is full when the receipt is written: the instance runs on. -/
theorem fullDisk_keeps : ¬ ∀ (acc : Account) (W : Market Unit) (a : Adapter) (offer : Offer)
    (patience : Patience) (r : Rental) (w w₁ : Unit), begin acc W a offer w = (.ok r, w₁) →
    ∃ answer, Act.destroyed r.id answer ∈ (rent acc W.noted a offer patience (w, [])).2.2 := by
  intro h
  obtain ⟨answer, hmem⟩ := h plainAccount (quietMarket (.error diskFull)) .vast cheapBox.offer
    tenMinutes quietRental () () (quiet_begins _)
  have hacts : (rent plainAccount (quietMarket (.error diskFull)).noted .vast cheapBox.offer
      tenMinutes ((), [])).2.2 =
      [.opened (askRequest 9) (.answered (some (.ok (.dict [(.str "new_contract", .int 7)])))),
        .recorded quietRental.rentedRow (.error diskFull)] := rfl
  rw [hacts] at hmem
  simp at hmem

theorem quiet_verdict : ∃ (early : List Act) (f : Finale), (∀ x ∈ early, x.Early) ∧
    (rent plainAccount (quietMarket (.ok ())).noted .vast cheapBox.offer tenMinutes
      ((), [])).2.2 = early ++ f.acts (.int 7) ∧ f.Stopped := by
  obtain ⟨early, f, hearly, htrace, hstopped, -⟩ := teardown_verdict plainAccount
    (quietMarket (.ok ())) .vast cheapBox.offer tenMinutes quietRental () () ⟨rfl, fun _ _ => rfl⟩
    (quiet_begins _)
  exact ⟨early, f, hearly, htrace, hstopped⟩

end RunFarm
