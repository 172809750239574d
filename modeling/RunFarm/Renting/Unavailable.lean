import RunFarm.Renting.Teardown

/-! When a `rent` that has no instance says so: what each adapter makes of a failed `create`,
and what the server may hold then. -/
set_option autoImplicit false

namespace RunFarm
open Python

variable {σ : Type} {acc : Account} {N : Net σ} {offer : Offer} {w : σ} {e : Exc}

/-- The `create` of Vast ends with a `VastError` on this outcome. -/
def Opened.Wrapped : Opened → Prop
  | .answered none => True
  | .answered (some (.ok (.dict es))) => (contractOf es).truthy = false
  | .answered _ => False
  | .http _ detail => ∃ text, detail = .ok text
  | .unresolved _ _ | .urlError _ | .osError _ => True
  | .raises _ => False

def Exc.Auth (e : Exc) : Prop := e.kind = .provider ∧ (e.code = some 401 ∨ e.code = some 403)

def Exc.Unavailable (e : Exc) : Prop := e.kind = .rentUnavailable

/-- `create` is left with this where `_req` gives `result`. -/
def afterReq (I : Interp) : Except Exc Value → Except Exc Int
  | .error e => .error e
  | .ok res => createdId I res

theorem foreign_kind (e : Foreign) : e.exc.kind ≠ .provider ∧ e.exc.kind ≠ .rentUnavailable := by
  have h := e.notOwn
  constructor <;> intro heq <;> simp [heq, ExcKind.own] at h

theorem intFailed_kind (text : String) (e : IntError) :
    (intFailed text e).kind ≠ .provider ∧ (intFailed text e).kind ≠ .rentUnavailable := by
  cases e <;> simp [intFailed]

theorem truthy_toInt {es : List (Key × Value)} {I : Interp} (h : createdId I (.dict es) = .error e)
    (htruthy : (contractOf es).truthy = true) :
    e.kind ≠ .provider ∧ e.kind ≠ .rentUnavailable := by
  simp only [createdId, htruthy, if_true] at h
  cases hint : (contractOf es).toInt with
  | ok n => simp [hint] at h
  | error x =>
    simp only [hint, Except.error.injEq] at h
    rw [← h]
    exact intFailed_kind _ x

def Opened.code : Opened → Option Int
  | .http code _ => some code
  | _ => none

theorem createdId_falsy (I : Interp) {es : List (Key × Value)}
    (h : (contractOf es).truthy = false) :
    ∃ text, createdId I (.dict es) = .error (providerError text) := by
  simp only [createdId, h, Bool.false_eq_true, if_false]
  exact ⟨_, rfl⟩

theorem afterReq_wrapped (I : Interp) (r : Request) {o : Opened} (hw : o.Wrapped) :
    ∃ text, afterReq I (o.conclude r) = .error (providerError text o.code) := by
  cases o with
  | answered body =>
    cases body with
    | none => exact createdId_falsy I (rfl : (contractOf []).truthy = false)
    | some body =>
      cases body with
      | error x => exact hw.elim
      | ok v =>
        cases v with
        | dict es => exact createdId_falsy I hw
        | _ => exact hw.elim
  | http code detail =>
    obtain ⟨text, rfl⟩ := hw
    exact ⟨_, rfl⟩
  | unresolved errno text => exact ⟨_, rfl⟩
  | urlError reason => exact ⟨_, rfl⟩
  | osError x => exact ⟨_, rfl⟩
  | raises x => exact hw.elim

theorem afterReq_unwrapped {I : Interp} {r : Request} {o : Opened} (hw : ¬ o.Wrapped)
    (h : afterReq I (o.conclude r) = .error e) :
    e.kind ≠ .provider ∧ e.kind ≠ .rentUnavailable := by
  cases o with
  | answered body =>
    cases body with
    | none => exact absurd trivial hw
    | some body =>
      cases body with
      | error x =>
        cases h
        exact foreign_kind x
      | ok v =>
        cases v with
        | dict es =>
          have htruthy : (contractOf es).truthy = true := by simpa [Opened.Wrapped] using hw
          exact truthy_toInt h htruthy
        | _ =>
          cases h
          simp [noAttribute]
  | http code detail =>
    cases detail with
    | ok text => exact absurd ⟨text, rfl⟩ hw
    | error x =>
      cases h
      exact foreign_kind x
  | raises x =>
    cases h
    exact foreign_kind x
  | _ => exact absurd trivial hw

theorem afterReq_kind {I : Interp} {r : Request} {o : Opened}
    (h : afterReq I (o.conclude r) = .error e) :
    (e.kind = .provider ↔ o.Wrapped) ∧ e.kind ≠ .rentUnavailable := by
  by_cases hw : o.Wrapped
  · obtain ⟨text, hwrapped⟩ := afterReq_wrapped I r hw
    rw [h, Except.error.injEq] at hwrapped
    simp [hwrapped, providerError, hw]
  · obtain ⟨hkind, hun⟩ := afterReq_unwrapped hw h
    exact ⟨iff_of_false hkind hw, hun⟩

def vastOutcomes (acc : Account) (N : Net σ) (offer : Offer) (w : σ) : List Opened :=
  (vastCreate acc.I N.logged offer.id (w, [])).2.2

/-- What decides a `create` of Vast: the ask id, or the outcome of its last attempt. -/
def WrappedCreate (acc : Account) (N : Net σ) (offer : Offer) (w : σ) : Prop :=
  intOf offer.id = none ∨ ∃ o, (vastOutcomes acc N offer w).getLast? = some o ∧ o.Wrapped

theorem vastCreate_eq {ask : Int} (hask : intOf offer.id = some ask) :
    (vastCreate acc.I N offer.id w).1 = afterReq acc.I (req N (askRequest ask) false 5 w).1 ∧
      vastOutcomes acc N offer w = (req N.logged (askRequest ask) false 5 (w, [])).2.2 := by
  unfold vastOutcomes vastCreate
  simp only [hask]
  constructor
  · cases req N (askRequest ask) false 5 w with
    | mk result s => cases result <;> rfl
  · cases req N.logged (askRequest ask) false 5 (w, []) with
    | mk result s => cases result <;> rfl

theorem vastCreate_kind (h : (vastCreate acc.I N offer.id w).1 = .error e) :
    (e.kind = .provider ↔ WrappedCreate acc N offer w) ∧ e.kind ≠ .rentUnavailable := by
  cases hask : intOf offer.id with
  | none =>
    simp only [vastCreate, hask, Except.error.injEq] at h
    rw [← h]
    exact ⟨iff_of_true rfl (.inl hask), nofun⟩
  | some ask =>
    obtain ⟨hcreate, hlog⟩ : (vastCreate acc.I N offer.id w).1 = _ ∧
        vastOutcomes acc N offer w = _ := vastCreate_eq hask
    obtain ⟨o, hlast, hreq⟩ := req_last N (askRequest ask) false 5 w
    rw [hcreate, hreq] at h
    obtain ⟨hkind, hun⟩ := afterReq_kind h
    refine ⟨hkind.trans ⟨fun hw => .inr ⟨o, by rw [hlog, hlast], hw⟩, ?_⟩, hun⟩
    rintro (hnone | ⟨o', hlast', hw⟩)
    · rw [hask] at hnone
      cases hnone
    · rw [hlog, hlast] at hlast'
      cases hlast'
      exact hw

theorem podReq_kind {r : Request} (h : (podReq N r w).1 = .error e) :
    e.kind ≠ .rentUnavailable := by
  unfold podReq at h
  cases hopen : N.urlopen r w with
  | mk o w₁ =>
    rw [hopen] at h
    cases o with
    | answered body =>
      rcases body with _ | (x | v)
      · cases h
      · cases h
        exact (foreign_kind x).2
      · cases h
    | http code detail =>
      cases detail with
      | ok text =>
        cases h
        nofun
      | error x =>
        cases h
        exact (foreign_kind x).2
    | unresolved errno text =>
      cases h
      nofun
    | urlError reason =>
      cases h
      nofun
    | osError x =>
      cases h
      exact (foreign_kind x).2
    | raises x =>
      cases h
      exact (foreign_kind x).2

theorem pubkey_kind {I : Interp} {key : Pubkey} (h : key.read I = .error e) :
    e.kind ≠ .rentUnavailable := by
  unfold Pubkey.read at h
  split at h
  · split at h
    · cases h
      nofun
    · cases h
      exact (foreign_kind _).2
  · split at h
    · cases h
    · cases h
      nofun

theorem podEnds_kind {I : Interp} {answer : Except Exc Value}
    (hanswer : ∀ x, answer = .error x → x.kind ≠ .rentUnavailable)
    (h : podEnds I answer = some (.error e)) : e.kind ≠ .rentUnavailable := by
  cases answer with
  | error x =>
    have hx : x = e := by
      simp only [podEnds] at h
      split at h
      · split at h
        · cases h
        · cases h
          rfl
      · cases h
        rfl
    exact hx ▸ hanswer x rfl
  | ok v =>
    cases v with
    | dict es =>
      simp only [podEnds] at h
      split at h <;> cases h
    | _ =>
      cases h
      nofun

theorem podCreate_kind (h : (podCreate acc.I N acc.key w).1 = .error e) :
    e.kind ≠ .rentUnavailable := by
  unfold podCreate at h
  cases hkey : acc.key.read acc.I with
  | error x =>
    rw [hkey] at h
    cases h
    exact pubkey_kind hkey
  | ok body =>
    rw [hkey] at h
    dsimp only at h
    cases hloop : Retry.retry (podAttempt acc.I N) (fun _ => podEnds acc.I)
        (fun _ s => (N.sleep 3 s.1, s.2)) 6 (w, "") with
    | mk result s =>
      rw [hloop] at h
      cases result with
      | none =>
        cases h
        nofun
      | some result =>
        obtain rfl : result = .error e := h
        obtain ⟨s', left, hends⟩ := Retry.retry_some (congrArg Prod.fst hloop)
        refine podEnds_kind (fun x hx => ?_) hends
        unfold podAttempt at hx
        cases hreq : podReq N ⟨"POST", podsUrl⟩ s'.1 with
        | mk answer w' =>
          rw [hreq] at hx
          cases answer with
          | ok v => cases hx
          | error y =>
            cases hx
            exact podReq_kind (by rw [hreq])

theorem create_kind {a : Adapter} (h : (create acc N a offer w).1 = .error e) :
    e.kind ≠ .rentUnavailable ∧
      (a = .vast → (e.kind = .provider ↔ WrappedCreate acc N offer w)) := by
  cases a with
  | vast =>
    rw [create_vast] at h
    have hvast : (vastCreate acc.I N offer.id w).1 = .error e := map_eq_error.mp h
    obtain ⟨hkind, hun⟩ := vastCreate_kind hvast
    exact ⟨hun, fun _ => hkind⟩
  | runpod =>
    rw [create_runpod] at h
    have hpod : (podCreate acc.I N acc.key w).1 = .error e := map_eq_error.mp h
    exact ⟨podCreate_kind hpod, nofun⟩

theorem refused_unavailable (a : Adapter) (offer : Offer) (h : e.kind ≠ .rentUnavailable) :
    (refused a offer e).Unavailable ↔ a = .vast ∧ e.kind = .provider ∧ ¬ e.Auth := by
  cases a with
  | vast =>
    unfold refused Exc.Auth
    by_cases hkind : e.kind = .provider
    · by_cases hcode : e.code = some 401 ∨ e.code = some 403
      · have hnot : ¬ (e.kind = .provider ∧ e.code ≠ some 401 ∧ e.code ≠ some 403) := by tauto
        rw [if_neg hnot]
        simp [Exc.Unavailable, hkind, hcode]
      · have hyes : e.kind = .provider ∧ e.code ≠ some 401 ∧ e.code ≠ some 403 := by tauto
        rw [if_pos hyes]
        simp [Exc.Unavailable, hkind, hcode]
    · rw [if_neg fun hc => hkind hc.1]
      exact iff_of_false h fun hc => hkind hc.2.1
  | runpod => exact iff_of_false h fun hc => by cases hc.1

theorem begin_eq {a : Adapter} (W : Market σ) : begin acc W a offer w =
    ((place acc W.toNet a offer (W.time w).2).1.map fun iid => ⟨a, offer, iid, (W.time w).1⟩,
      (place acc W.toNet a offer (W.time w).2).2) := by
  rw [begin, Retry.bind_run, Retry.bind_run]
  cases place acc W.toNet a offer (W.time w).2 with
  | mk result s => cases result <;> rfl

theorem rent_of_create {W : Market σ} {a : Adapter} (patience : Patience)
    (h : (create acc W.toNet a offer (W.time w).2).1 = .error e) :
    (rent acc W a offer patience w).1 = .error (refused a offer e) := by
  have hplace : (place acc W.toNet a offer (W.time w).2).1 = .error (refused a offer e) := by
    rw [place_eq, h]
    rfl
  have hbegin : (begin acc W a offer w).1 = .error (refused a offer e) := by
    rw [begin_eq, hplace]
    rfl
  rw [rent, Retry.bind_run, hbegin]
  rfl

/-- A failure of `create` that is no HTTP 401 or 403 reaches the executor as `RentUnavailable`
exactly when the adapter is Vast's and the failure one that its `create` wraps. -/
theorem failover_iff (acc : Account) (W : Market σ) (a : Adapter) (offer : Offer)
    (patience : Patience) (w : σ) (e : Exc)
    (hfail : (create acc W.toNet a offer (W.time w).2).1 = .error e) (hauth : ¬ e.Auth) :
    (∃ e', (rent acc W a offer patience w).1 = .error e' ∧ e'.Unavailable) ↔
      a = .vast ∧ WrappedCreate acc W.toNet offer (W.time w).2 := by
  obtain ⟨hun, hkind⟩ := create_kind hfail
  rw [rent_of_create patience hfail]
  have hsame : (∃ e', (.error (refused a offer e) : Except Exc Unit) = .error e' ∧
      e'.Unavailable) ↔ (refused a offer e).Unavailable := by simp
  rw [hsame, refused_unavailable a offer hun]
  constructor
  · rintro ⟨hvast, hprovider, -⟩
    exact ⟨hvast, (hkind hvast).mp hprovider⟩
  · rintro ⟨hvast, hwrapped⟩
    exact ⟨hvast, (hkind hvast).mpr hwrapped, hauth⟩

def stuckMarket (o : Opened) : Market Unit :=
  { quietMarket (.ok ()) with urlopen := fun _ w => (o, w) }

theorem timeout_fails : (∃ e', (rent plainAccount (stuckMarket (.urlError "timed out")) .vast
    cheapBox.offer tenMinutes ()).1 = .error e' ∧ e'.Unavailable) := by
  refine (failover_iff plainAccount (stuckMarket (.urlError "timed out")) .vast cheapBox.offer
    tenMinutes () (providerError
      "PUT https://console.vast.ai/api/v0/asks/9/ -> URLError: timed out") ?_ ?_).mpr
    ⟨rfl, .inr ⟨.urlError "timed out", rfl, trivial⟩⟩
  · rfl
  · rintro ⟨-, h | h⟩ <;> cases h

/-- The same fault at RunPod ends the leg: the offer is not failed over. -/
theorem podTimeout_escapes : ¬ ∀ (acc : Account) (W : Market Unit) (a : Adapter) (offer : Offer)
    (patience : Patience) (w : Unit) (e : Exc),
    (create acc W.toNet a offer (W.time w).2).1 = .error e → ¬ e.Auth →
    ∃ e', (rent acc W a offer patience w).1 = .error e' ∧ e'.Unavailable := by
  intro h
  obtain ⟨e', hrent, hun⟩ := h plainAccount (stuckMarket (.urlError "timed out")) .runpod
    cheapBox.offer tenMinutes () ⟨.other "URLError", none, "<urlopen error timed out>"⟩ rfl
    (fun hauth => by cases hauth.1)
  cases hrent
  cases hun

end RunFarm
