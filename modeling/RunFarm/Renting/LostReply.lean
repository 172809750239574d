import RunFarm.Renting.Unavailable

/-! The `create` of Vast over a channel that may lose the reply: what the server holds when `rent`
says that there is no instance. -/
set_option autoImplicit false

namespace RunFarm
open Python

/-- What becomes of one request: what the client sees of it, and the instance that the server
made. A name that was not resolved has kept the request here. -/
structure Delivery where
  seen : Opened
  made : Option Int
  unsent : ∀ errno text, seen = .unresolved errno text → made = none

/-- The number of requests so far, and the instances that they made. -/
structure Server where
  requests : Nat := 0
  created : List Int := []
  deriving DecidableEq

/-- A network with the deliveries `ds`, one after the other. -/
def lossy (ds : Nat → Delivery) : Net Server where
  urlopen _ s :=
    ((ds s.requests).seen, ⟨s.requests + 1, s.created ++ (ds s.requests).made.toList⟩)
  sleep _ s := s

def Market.lossy (W : Market Server) (ds : Nat → Delivery) : Market Server :=
  { W with urlopen := (RunFarm.lossy ds).urlopen, sleep := (RunFarm.lossy ds).sleep }

/-- What `rent` fails over on: `create` wraps it, and it is no HTTP 401 or 403. -/
def Opened.FailsOver (o : Opened) : Prop :=
  o.Wrapped ∧ o.code ≠ some 401 ∧ o.code ≠ some 403

/-- Delivery number `k`, counted from request `n`, is the one that the call ends with. -/
structure Decides (ds : Nat → Delivery) (n left k : Nat) : Prop where
  bound : k ≤ left
  before : ∀ j < k, (ds (n + j)).seen.pastResolution = false
  ends : k < left → (ds (n + k)).seen.pastResolution = true

variable {ds : Nat → Delivery} {acc : Account} {offer : Offer} {s : Server} {e : Exc}

theorem Delivery.made_none {d : Delivery} (h : d.seen.pastResolution = false) :
    d.made = none := by
  cases hseen : d.seen with
  | unresolved errno text => exact d.unsent errno text hseen
  | _ => simp [hseen, Opened.pastResolution] at h

theorem lossy_retry (ds : Nat → Delivery) (r : Request) (left : Nat) (s : Server)
    (pause : Nat → ℚ) : ∃ k, Decides ds s.requests left k ∧
      Retry.retry ((lossy ds).urlopen r) (Opened.ends r false)
          (fun k => (lossy ds).sleep (pause k)) (left + 1) s =
        (some ((ds (s.requests + k)).seen.conclude r),
          ⟨s.requests + k + 1, s.created ++ (ds (s.requests + k)).made.toList⟩) := by
  induction left generalizing s with
  | zero =>
    refine ⟨0, ⟨by simp, by simp, by simp⟩, ?_⟩
    simp [Retry.retry, lossy, Opened.ends]
  | succ left ih =>
    cases hpast : (ds s.requests).seen.pastResolution with
    | true =>
      refine ⟨0, ⟨by simp, by simp, fun _ => hpast⟩, ?_⟩
      simp [Retry.retry, lossy, Opened.ends, transient_once, hpast]
    | false =>
      have hmade : (ds s.requests).made = none := Delivery.made_none hpast
      obtain ⟨k, hk, hrun⟩ := ih ⟨s.requests + 1, s.created⟩
      have hshift : ∀ j, s.requests + 1 + j = s.requests + (j + 1) := fun j => by omega
      simp only [hshift] at hrun
      refine ⟨k + 1, ⟨by have := hk.bound; omega, fun j hj => ?_, fun hlt => ?_⟩, ?_⟩
      · cases j with
        | zero => simpa using hpast
        | succ j => simpa only [hshift] using hk.before j (by omega)
      · simpa only [hshift] using hk.ends (by omega)
      · rw [Retry.retry]
        simp only [lossy, Opened.ends, transient_once, hpast, hmade] at hrun ⊢
        simpa using hrun

theorem Decides.unique {n left k k' : Nat} (h : Decides ds n left k) (hle : k' ≤ left)
    (hbefore : ∀ j < k', (ds (n + j)).seen.pastResolution = false)
    (hmade : (ds (n + k')).made ≠ none) : k' = k := by
  rcases Nat.lt_trichotomy k' k with hlt | heq | hgt
  · exact absurd (Delivery.made_none (h.before k' hlt)) hmade
  · exact heq
  · have hends := h.ends (by omega)
    rw [hbefore k hgt] at hends
    cases hends

theorem refused_failsOver (offer : Offer) {I : Interp} {r : Request} {o : Opened}
    (h : afterReq I (o.conclude r) = .error e) :
    (refused .vast offer e).Unavailable ↔ o.FailsOver := by
  obtain ⟨hkind, hun⟩ := afterReq_kind h
  rw [refused_unavailable .vast offer hun]
  by_cases hw : o.Wrapped
  · obtain ⟨text, hwrapped⟩ := afterReq_wrapped I r hw
    rw [h, Except.error.injEq] at hwrapped
    simp [hwrapped, Exc.Auth, providerError, Opened.FailsOver, hw]
  · exact iff_of_false (fun hc => hw (hkind.mp hc.2.1)) fun hc => hw hc.1

theorem vastCreate_lossy (I : Interp) (ds : Nat → Delivery) (s : Server) {ask : Int}
    (hask : intOf offer.id = some ask) :
    ∃ k, Decides ds s.requests 4 k ∧
      (vastCreate I (lossy ds) offer.id s).1 =
        afterReq I ((ds (s.requests + k)).seen.conclude (askRequest ask)) ∧
      (vastCreate I (lossy ds) offer.id s).2.created =
        s.created ++ (ds (s.requests + k)).made.toList := by
  obtain ⟨k, hk, hrun⟩ := lossy_retry ds (askRequest ask) 4 s
    fun left => backoff (4 - left)
  refine ⟨k, hk, ?_⟩
  have hreq : req (lossy ds) (askRequest ask) false 5 s =
      ((ds (s.requests + k)).seen.conclude (askRequest ask),
        ⟨s.requests + k + 1, s.created ++ (ds (s.requests + k)).made.toList⟩) := by
    have hfive : atLeastOne 5 = 4 + 1 := rfl
    unfold req
    rw [hfive, Nat.add_sub_cancel, hrun]
  simp only [vastCreate, hask, hreq]
  cases (ds (s.requests + k)).seen.conclude (askRequest ask) <;> exact ⟨rfl, rfl⟩

theorem place_lossy (acc : Account) (ds : Nat → Delivery) (s : Server) {ask : Int}
    (hask : intOf offer.id = some ask) :
    ∃ k, Decides ds s.requests 4 k ∧
      (place acc (lossy ds) .vast offer s).2.created =
        s.created ++ (ds (s.requests + k)).made.toList ∧
      ((∃ e, (place acc (lossy ds) .vast offer s).1 = .error e ∧ e.Unavailable) ↔
        (ds (s.requests + k)).seen.FailsOver) := by
  obtain ⟨k, hk, hresult, hcreated⟩ := vastCreate_lossy acc.I ds s hask
  refine ⟨k, hk, ?_⟩
  unfold place create
  cases hcreate : vastCreate acc.I (lossy ds) offer.id s with
  | mk result s' =>
    rw [hcreate] at hresult hcreated
    cases result with
    | ok n =>
      refine ⟨hcreated, iff_of_false (by simp) fun hfails => ?_⟩
      obtain ⟨text, hwrapped⟩ := afterReq_wrapped acc.I (askRequest ask) hfails.1
      rw [← hresult] at hwrapped
      cases hwrapped
    | error x =>
      refine ⟨hcreated, ?_⟩
      rw [← refused_failsOver offer hresult.symm]
      simp

/-- A `rent` that says that there is no instance ends there, with the server as it was. -/
def SaysNone (acc : Account) (W : Market Server) (offer : Offer) (patience : Patience)
    (w : Server) : Prop :=
  ∀ e s, begin acc W .vast offer w = (.error e, s) → e.Unavailable →
    rent acc W .vast offer patience w = (.error e, s) ∧ s.created = (W.time w).2.created

theorem saysNone_iff (W : Market Server) (patience : Patience) (w : Server) :
    SaysNone acc (W.lossy ds) offer patience w ↔
      ((∃ e, (place acc (lossy ds) .vast offer (W.time w).2).1 = .error e ∧ e.Unavailable) →
        (place acc (lossy ds) .vast offer (W.time w).2).2.created = (W.time w).2.created) := by
  have hbegin : begin acc (W.lossy ds) .vast offer w =
      ((place acc (lossy ds) .vast offer (W.time w).2).1.map fun iid =>
        ⟨.vast, offer, iid, (W.time w).1⟩, (place acc (lossy ds) .vast offer (W.time w).2).2) :=
    begin_eq (W.lossy ds)
  cases hplace : place acc (lossy ds) .vast offer (W.time w).2 with
  | mk result s =>
    rw [hplace] at hbegin
    constructor
    · rintro htold ⟨e, he, hun⟩
      obtain rfl : result = .error e := he
      exact (htold e s hbegin hun).2
    · intro hempty e s' hfails hun
      rw [hbegin] at hfails
      cases result with
      | ok iid => cases hfails
      | error x =>
        cases hfails
        refine ⟨?_, hempty ⟨e, rfl, hun⟩⟩
        rw [rent, Retry.bind_run, hbegin]
        rfl

/-- A `rent` without an instance leaves none at the server exactly when no request that made one
ends with a fault that `rent` fails over on. -/
theorem unavailable_empty_iff (acc : Account) (W : Market Server) (ds : Nat → Delivery)
    (offer : Offer) (patience : Patience) (w : Server) :
    SaysNone acc (W.lossy ds) offer patience w ↔
      (intOf offer.id ≠ none → ∀ k < 5,
        (∀ j < k, (ds ((W.time w).2.requests + j)).seen.pastResolution = false) →
        (ds ((W.time w).2.requests + k)).made ≠ none →
        ¬ (ds ((W.time w).2.requests + k)).seen.FailsOver) := by
  rw [saysNone_iff]
  cases hask : intOf offer.id with
  | none =>
    refine iff_of_true (fun _ => ?_) fun hsome => absurd rfl hsome
    simp [place, create, vastCreate, hask]
  | some ask =>
    obtain ⟨k, hk, hcreated, hfails⟩ := place_lossy acc ds (W.time w).2 hask
    rw [hcreated, hfails]
    constructor
    · intro hempty _ k' hk' hbefore hmade hover
      obtain rfl : k' = k := hk.unique (by omega) hbefore hmade
      have hnone := hempty hover
      cases hm : (ds ((W.time w).2.requests + k')).made with
      | none => exact hmade hm
      | some iid => simp [hm] at hnone
    · intro hclean hover
      have hnone : (ds ((W.time w).2.requests + k)).made = none := by
        by_contra hmade
        have hbound := hk.bound
        exact hclean (by simp) k (by omega) hk.before hmade hover
      simp [hnone]

def timedOutReply : Delivery where
  seen := .urlError "timed out"
  made := some 7
  unsent := by simp

/-- The executor fails over to the next offer, and the instance runs on. -/
theorem lostReply_strands : ¬ ∀ (acc : Account) (W : Market Server) (ds : Nat → Delivery)
    (offer : Offer) (patience : Patience) (w : Server),
    SaysNone acc (W.lossy ds) offer patience w := by
  intro h
  have htold := h plainAccount (quietMarket (.ok ())) (fun _ => timedOutReply) cheapBox.offer
    tenMinutes {}
  obtain ⟨-, hcreated⟩ := htold _ _ rfl rfl
  cases hcreated

end RunFarm
