import RunFarm.Reap
import RunFarm.Renting.Unavailable

/-! What leaves the `_req` of Vast: the decoded response, a `VastError`, or another exception. -/
set_option autoImplicit false

namespace RunFarm
open Python

variable {σ : Type}

def Opened.decoded : Opened → Option Value
  | .answered none => some (.dict [])
  | .answered (some (.ok v)) => some v
  | _ => none

/-- No handler of `_req` takes what this raises: a body that does not decode, the head of an
error response that cannot be read, and an exception that is no transport fault. -/
def Opened.Escapes : Opened → Prop
  | .answered (some (.error _)) => True
  | .http _ (.error _) => True
  | .raises _ => True
  | _ => False

/-- A call of `_req` that ended with this attempt, as its callers branch on it: `rent` hands a
`VastError` on as `RentUnavailable` unless it names the key, and `reap` tries it again. -/
structure Uniform (result : Except Exc Value) (o : Opened) : Prop where
  returned : ∀ v, result = .ok v → o.decoded = some v
  raised : ∀ e, result = .error e → e.kind = .provider ∧ e.code = o.code
  rent : ∀ e offer, result = .error e → (refused .vast offer e).Unavailable ∨ e.Auth
  teardown : ∀ e, result = .error e → classify e ≠ .bug

variable {o : Opened} {r : Request}

theorem classify_of_provider {e : Exc} (h : e.kind = .provider) : classify e ≠ .bug := by
  unfold classify
  cases e.code with
  | some code =>
    dsimp only
    split
    · simp
    · split <;> simp
  | none =>
    have hbug : e.kind.isBug = false := by rw [h]; rfl
    simp only [hbug, Bool.false_eq_true, if_false]
    split
    · simp
    · split <;> simp

theorem refused_provider {e : Exc} (offer : Offer) (h : e.kind = .provider) :
    (refused .vast offer e).Unavailable ∨ e.Auth := by
  by_cases hauth : e.Auth
  · exact .inr hauth
  · exact .inl ((refused_unavailable .vast offer (by rw [h]; simp)).mpr ⟨rfl, h, hauth⟩)

theorem conclude_error {e : Exc} (hends : ¬ o.Escapes) (h : o.conclude r = .error e) :
    e.kind = .provider ∧ e.code = o.code := by
  cases o with
  | answered body =>
    cases body with
    | none => cases h
    | some body =>
      cases body with
      | ok v => cases h
      | error x => exact absurd trivial hends
  | http code detail =>
    cases detail with
    | ok text =>
      cases h
      exact ⟨rfl, rfl⟩
    | error x => exact absurd trivial hends
  | raises x => exact absurd trivial hends
  | _ =>
    cases h
    exact ⟨rfl, rfl⟩

theorem conclude_ok {v : Value} (h : o.conclude r = .ok v) : o.decoded = some v := by
  cases o with
  | answered body =>
    cases body with
    | none =>
      cases h
      rfl
    | some body =>
      cases body with
      | ok v' =>
        cases h
        rfl
      | error x => cases h
  | http code detail => cases detail <;> cases h
  | _ => cases h

theorem conclude_escapes (h : o.Escapes) : ∃ x : Foreign, o.conclude r = .error x.exc := by
  cases o with
  | answered body =>
    cases body with
    | none => exact h.elim
    | some body =>
      cases body with
      | ok v => exact h.elim
      | error x => exact ⟨x, rfl⟩
  | http code detail =>
    cases detail with
    | ok text => exact h.elim
    | error x => exact ⟨x, rfl⟩
  | raises x => exact ⟨x, rfl⟩
  | _ => exact h.elim

theorem uniform_conclude : Uniform (o.conclude r) o ↔ ¬ o.Escapes := by
  constructor
  · intro huniform hescapes
    obtain ⟨x, hx⟩ := conclude_escapes (r := r) hescapes
    exact (foreign_kind x).1 (huniform.raised x.exc hx).1
  · intro hends
    refine ⟨fun v => conclude_ok, fun e => conclude_error hends, fun e offer he => ?_,
      fun e he => ?_⟩
    · exact refused_provider offer (conclude_error hends he).1
    · exact classify_of_provider (conclude_error hends he).1

/-- A call ends uniformly exactly when its last attempt does not escape. -/
theorem uniform_iff (N : Net σ) (r : Request) (idempotent : Bool) (tries : Int) (w : σ) :
    (∀ o, (req N.logged r idempotent tries (w, [])).2.2.getLast? = some o →
      Uniform (req N r idempotent tries w).1 o) ↔
    ∀ o, (req N.logged r idempotent tries (w, [])).2.2.getLast? = some o → ¬ o.Escapes := by
  obtain ⟨o, hlast, hresult⟩ := req_last N r idempotent tries w
  rw [hlast, hresult]
  constructor
  · rintro huniform _ ⟨⟩
    exact uniform_conclude.mp (huniform o rfl)
  · rintro hends _ ⟨⟩
    exact uniform_conclude.mpr (hends o rfl)

/-- What `json.loads` raises for the page of a proxy. -/
def notJson : Foreign where
  exc := ⟨.valueError, none, "Expecting value: line 1 column 1 (char 0)"⟩
  notOwn := rfl

def proxyPage : Net Unit where
  urlopen _ w := (.answered (some (.error notJson)), w)
  sleep _ w := w

theorem decode_error_escapes : ¬ (∀ (N : Net Unit) (r : Request) (idempotent : Bool)
    (tries : Int) (w : Unit) (o : Opened),
    (req N.logged r idempotent tries (w, [])).2.2.getLast? = some o →
      Uniform (req N r idempotent tries w).1 o) := by
  intro h
  have huniform := h proxyPage (askRequest 7) false 5 () _ rfl
  exact absurd (huniform.raised notJson.exc rfl).1 (by decide)

end RunFarm
