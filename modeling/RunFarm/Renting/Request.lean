import Mathlib.Algebra.Order.Ring.Rat
import RunFarm.Protocols
import RunFarm.Python.Coerce
import RunFarm.Retry

/-! The request functions of the two adapters, `_req`, over what the network answers. -/
set_option autoImplicit false

namespace RunFarm
open Python
open Retry (Follows Noted retry_follows)

def ExcKind.own : ExcKind → Bool
  | .provider | .hostProbeFailed | .rentUnavailable | .leakRisk | .budgetExceeded => true
  | _ => false

structure Foreign where
  exc : Exc
  notOwn : exc.kind.own = false

def ExcKind.className : ExcKind → String
  | .provider => "RuntimeError"
  | .hostProbeFailed => "HostProbeFailed"
  | .rentUnavailable => "RentUnavailable"
  | .leakRisk => "LeakRisk"
  | .budgetExceeded => "BudgetExceeded"
  | .timeout => "TimeoutError"
  | .typeError => "TypeError"
  | .keyError => "KeyError"
  | .attributeError => "AttributeError"
  | .indexError => "IndexError"
  | .nameError => "NameError"
  | .valueError => "ValueError"
  | .other name => name

structure Request where
  method : String
  url : String

/-- How one `urlopen` with the reading of its response ends. `unresolved` and `urlError` are a
`URLError`, the first with a `gaierror` in it; `osError` is a timeout or a `ConnectionError`.
A `detail` is the decoded head of the response to an HTTP error, if it can be read. -/
inductive Opened where
  | answered (body : Option (Except Foreign Value))
  | http (code : Int) (detail : Except Foreign String)
  | unresolved (errno : Int) (text : String)
  | urlError (reason : String)
  | osError (e : Foreign)
  | raises (e : Foreign)

structure Net (σ : Type) where
  urlopen : Request → σ → Opened × σ
  sleep : ℚ → σ → σ

def retryHttp : List Int := [408, 425, 429, 500, 502, 503, 504]

def eaiAgain : Int := -3

/-- `_transient`, of the faults that `_req` catches. -/
def Opened.transient (idempotent : Bool) : Opened → Bool
  | .http code _ => idempotent && code ∈ retryHttp
  | .unresolved errno _ => errno = eaiAgain
  | .urlError _ | .osError _ => idempotent
  | .answered _ | .raises _ => false

def providerError (text : String) (code : Option Int := none) : Exc := ⟨.provider, code, text⟩

/-- `url.split("?")[0]`. -/
def Request.endpoint (r : Request) : String :=
  String.ofList (r.url.toList.takeWhile (· ≠ '?'))

def Request.failed (r : Request) (what : String) : String :=
  r.method ++ " " ++ r.endpoint ++ " -> " ++ what

def httpError (r : Request) (code : Int) : Except Foreign String → Exc
  | .ok detail => providerError (r.failed ("HTTP " ++ toString code ++ ": " ++ detail)) (some code)
  | .error e => e.exc

/-- `json.loads(body) if body else {}`. -/
def loaded : Option (Except Foreign Value) → Except Exc Value
  | none => .ok (.dict [])
  | some (.ok v) => .ok v
  | some (.error e) => .error e.exc

def Opened.conclude (r : Request) : Opened → Except Exc Value
  | .answered body => loaded body
  | .http code detail => .error (httpError r code detail)
  | .unresolved _ text => .error (providerError (r.failed ("URLError: " ++ text)))
  | .urlError reason => .error (providerError (r.failed ("URLError: " ++ reason)))
  | .osError e => .error (providerError (r.failed (e.exc.kind.className ++ ": " ++ e.exc.text)))
  | .raises e => .error e.exc

def backoff (attempt : Nat) : ℚ := min 8 (1 / 2 * 2 ^ attempt)

def atLeastOne (tries : Int) : Nat := (max 1 tries).toNat

variable {σ τ : Type}

/-- An attempt ends the call unless its fault is transient and another is left. -/
def Opened.ends (r : Request) (idempotent : Bool) (left : Nat) (o : Opened) :
    Option (Except Exc Value) :=
  if o.transient idempotent && left ≠ 0 then none else some (o.conclude r)

/-- `_req` of the Vast adapter. -/
def req (N : Net σ) (r : Request) (idempotent : Bool) (tries : Int) (w : σ) :
    Except Exc Value × σ :=
  match Retry.retry (N.urlopen r) (Opened.ends r idempotent)
      (fun left => N.sleep (backoff (atLeastOne tries - 1 - left))) (atLeastOne tries) w with
  | (some result, w) => (result, w)
  | (none, w) => (.error (providerError (r.method ++ " " ++ r.endpoint ++ " failed after " ++
      toString tries ++ " tries")), w)

/-- `_req` of the RunPod adapter: one attempt, and only an HTTP error is wrapped. -/
def podReq (N : Net σ) (r : Request) (w : σ) : Except Exc Value × σ :=
  match N.urlopen r w with
  | (.answered body, w) => (loaded body, w)
  | (.http code detail, w) => (.error (httpError r code detail), w)
  | (.unresolved _ text, w) =>
    (.error ⟨.other "URLError", none, "<urlopen error " ++ text ++ ">"⟩, w)
  | (.urlError reason, w) =>
    (.error ⟨.other "URLError", none, "<urlopen error " ++ reason ++ ">"⟩, w)
  | (.osError e, w) | (.raises e, w) => (.error e.exc, w)

def Net.noted {κ : Type} (note : Request → Opened → κ) (N : Net σ) : Net (σ × List κ) where
  urlopen r := Retry.logged (note r) (N.urlopen r)
  sleep secs s := (N.sleep secs s.1, s.2)

def Net.logged (N : Net σ) : Net (σ × List Opened) := N.noted fun _ o => o

/-- A request that only a temporary resolver failure keeps from being sent. -/
def Opened.pastResolution : Opened → Bool
  | .unresolved errno _ => errno ≠ eaiAgain
  | _ => true

variable {N : Net σ} {r : Request} {idempotent : Bool} {tries : Int} {w : σ} {o : Opened}

theorem one_le_atLeastOne (tries : Int) : 1 ≤ atLeastOne tries := by
  unfold atLeastOne
  omega

theorem ends_none {left : Nat} : o.ends r idempotent left = none ↔
    o.transient idempotent = true ∧ left ≠ 0 := by
  unfold Opened.ends
  split <;> simp_all

theorem transient_once : o.transient false = !o.pastResolution := by
  cases o <;> simp [Opened.transient, Opened.pastResolution]

theorem req_answers (N : Net σ) (r : Request) (idempotent : Bool) (tries : Int) (w : σ)
    (log : List Opened) :
    ∃ os, Retry.Tried (Opened.ends r idempotent) (atLeastOne tries) os
        (some (req N r idempotent tries w).1) ∧
      req N.logged r idempotent tries (w, log) =
        ((req N r idempotent tries w).1, (req N r idempotent tries w).2, log ++ os) ∧
      ∀ o ∈ os, ∃ w', (N.urlopen r w').1 = o := by
  obtain ⟨os, htried, hrun, hasked⟩ := Retry.retry_answers (fun o => o) (N.urlopen r)
    (Opened.ends r idempotent) (fun left => N.sleep (backoff (atLeastOne tries - 1 - left)))
    (atLeastOne tries) w log
  rw [List.map_id'] at hrun
  have hlogged : Retry.retry (N.logged.urlopen r) (Opened.ends r idempotent)
      (fun left => N.logged.sleep (backoff (atLeastOne tries - 1 - left))) (atLeastOne tries)
      (w, log) = _ := hrun
  unfold req
  rw [hlogged]
  cases hres : Retry.retry (N.urlopen r) (Opened.ends r idempotent)
      (fun left => N.sleep (backoff (atLeastOne tries - 1 - left))) (atLeastOne tries) w with
  | mk result w' =>
    rw [hres] at htried
    cases result with
    | some result => exact ⟨os, htried, rfl, hasked⟩
    | none =>
      -- the last attempt ends the call, so the loop does not run out
      obtain ⟨_, hsome⟩ := htried.isSome (fun o => by simp [ends_none]) (one_le_atLeastOne tries)
      cases hsome

theorem req_logged (N : Net σ) (r : Request) (idempotent : Bool) (tries : Int) (w : σ)
    (log : List Opened) :
    ∃ os, Retry.Tried (Opened.ends r idempotent) (atLeastOne tries) os
        (some (req N r idempotent tries w).1) ∧
      req N.logged r idempotent tries (w, log) =
        ((req N r idempotent tries w).1, (req N r idempotent tries w).2, log ++ os) := by
  obtain ⟨os, htried, hrun, _⟩ := req_answers N r idempotent tries w log
  exact ⟨os, htried, hrun⟩

theorem count_le_one {os : List Opened} (h : ∀ o ∈ os.dropLast, o.pastResolution = false) :
    os.countP Opened.pastResolution ≤ 1 := by
  cases os using List.reverseRecOn with
  | nil => simp
  | append_singleton os o =>
    rw [List.dropLast_concat] at h
    have hnone : os.countP Opened.pastResolution = 0 := by
      rw [List.countP_eq_zero]
      simpa using h
    have hlast : [o].countP Opened.pastResolution ≤ 1 := List.countP_le_length
    rw [List.countP_append]
    omega

structure Attempts (idempotent : Bool) (tries : Int) (os : List Opened) : Prop where
  some : os ≠ []
  bound : os.length ≤ atLeastOne tries
  retried : ∀ o ∈ os.dropLast, o.transient idempotent = true
  once : idempotent = false → os.countP Opened.pastResolution ≤ 1

theorem attempts_of_tried {os : List Opened} {result : Except Exc Value}
    (h : Retry.Tried (Opened.ends r idempotent) (atLeastOne tries) os (Option.some result)) :
    Attempts idempotent tries os := by
  have hretried : ∀ o ∈ os.dropLast, o.transient idempotent = true := fun o ho => by
    obtain ⟨left, -, hnone⟩ := h.dropLast_again o ho
    exact (ends_none.mp hnone).1
  refine ⟨?_, h.length_le, hretried, ?_⟩
  · rintro rfl
    obtain ⟨_, _, hlast, -⟩ := h.answered rfl
    cases hlast
  · rintro rfl
    refine count_le_one fun o ho => ?_
    have ht := hretried o ho
    rw [transient_once] at ht
    simpa using ht

theorem req_attempts (N : Net σ) (r : Request) (idempotent : Bool) (tries : Int) (w : σ) :
    Attempts idempotent tries (req N.logged r idempotent tries (w, [])).2.2 := by
  obtain ⟨os, htried, hrun⟩ := req_logged N r idempotent tries w []
  rw [hrun]
  exact attempts_of_tried htried

theorem req_last (N : Net σ) (r : Request) (idempotent : Bool) (tries : Int) (w : σ) :
    ∃ o, (req N.logged r idempotent tries (w, [])).2.2.getLast? = some o ∧
      (req N r idempotent tries w).1 = o.conclude r := by
  obtain ⟨os, htried, hrun⟩ := req_logged N r idempotent tries w []
  obtain ⟨left, o, hlast, hends, -⟩ := htried.answered rfl
  refine ⟨o, by rw [hrun]; exact hlast, ?_⟩
  unfold Opened.ends at hends
  split at hends
  · cases hends
  · exact (Option.some.inj hends).symm

structure Net.Follows (R : σ → τ → Prop) (N : Net σ) (N' : Net τ) : Prop where
  urlopen : ∀ r, Retry.Follows R (N.urlopen r) (N'.urlopen r)
  sleep : ∀ secs w t, R w t → R (N.sleep secs w) (N'.sleep secs t)

theorem Net.noted_follows {κ : Type} {note : Request → Opened → κ} {Q : κ → Prop} (log : List κ)
    (hnote : ∀ r o, Q (note r o)) : N.Follows (Noted Q log) (N.noted note) where
  urlopen r := Retry.logged_follows (hnote r)
  sleep secs _ _ h := h.move (N.sleep secs)

section
variable {R : σ → τ → Prop} {N' : Net τ}

theorem req_follows (h : N.Follows R N') (r : Request) (idempotent : Bool) (tries : Int) :
    Follows R (req N r idempotent tries) (req N' r idempotent tries) := by
  intro w t hR
  have hloop : Follows R
      (Retry.retry (N.urlopen r) (Opened.ends r idempotent)
        (fun left => N.sleep (backoff (atLeastOne tries - 1 - left))) (atLeastOne tries))
      (Retry.retry (N'.urlopen r) (Opened.ends r idempotent)
        (fun left => N'.sleep (backoff (atLeastOne tries - 1 - left))) (atLeastOne tries)) :=
    retry_follows (h.urlopen r) fun left => h.sleep _
  obtain ⟨result, w', t', hw, ht, hR'⟩ := hloop.run hR
  unfold req
  rw [hw, ht]
  cases result <;> exact ⟨rfl, hR'⟩

theorem podReq_follows (h : N.Follows R N') (r : Request) :
    Follows R (podReq N r) (podReq N' r) := by
  intro w t hR
  obtain ⟨o, w', t', hw, ht, hR'⟩ := (h.urlopen r).run hR
  unfold podReq
  rw [hw, ht]
  cases o <;> exact ⟨rfl, hR'⟩

end

end RunFarm
