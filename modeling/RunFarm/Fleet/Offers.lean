import RunFarm.Fleet.Leg

/-! `_OfferPool`: the offers that the legs of one run share. -/
set_option autoImplicit false

namespace RunFarm

structure OfferPool where
  queue : List Offer
  refills : Nat := 0
  deriving DecidableEq, Repr

namespace OfferPool

/-- `self._q.popleft() if self._q else None`. -/
def pop (p : OfferPool) : OfferPool × Option Offer :=
  match p.queue with
  | [] => (p, none)
  | offer :: rest => ({ p with queue := rest }, some offer)

/-- The next `get` queries the provider. -/
def drained (p : OfferPool) (maxRefills : Int) : Prop :=
  p.queue = [] ∧ p.refills < maxRefills

instance (p : OfferPool) (maxRefills : Int) : Decidable (p.drained maxRefills) :=
  inferInstanceAs (Decidable (_ ∧ _))

/-- `answer` is what the provider's `offers` gives if it is queried. -/
def get (p : OfferPool) (maxRefills : Int) (answer : Except Raised (List Offer)) :
    OfferPool × Except Raised (Option Offer) :=
  if p.drained maxRefills then
    let p := { p with refills := p.refills + 1 }
    match answer with
    | .error e => (p, .error e)
    | .ok offers =>
      let popped := pop { p with queue := p.queue ++ offers }
      (popped.1, .ok popped.2)
  else
    let popped := p.pop
    (popped.1, .ok popped.2)

/-- Every further `get` gives `None`. -/
structure Spent (p : OfferPool) (maxRefills : Int) : Prop where
  queue : p.queue = []
  refills : maxRefills ≤ p.refills

variable {p p' : OfferPool} {maxRefills : Int} {answer : Except Raised (List Offer)}
  {result : Except Raised (Option Offer)}

theorem Spent.get (h : p.Spent maxRefills) (answer : Except Raised (List Offer)) :
    p.get maxRefills answer = (p, .ok none) := by
  have hnot : ¬ p.drained maxRefills := fun hd => by
    have := hd.2
    have := h.refills
    omega
  rw [OfferPool.get, if_neg hnot]
  simp [pop, h.queue]

/-- The kinds of `get`, each with what it leaves. -/
inductive Got (maxRefills : Int) (p : OfferPool) (answer : Except Raised (List Offer)) :
    OfferPool → Except Raised (Option Offer) → Prop where
  | next (offer : Offer) (rest : List Offer) (queue : p.queue = offer :: rest) :
      Got maxRefills p answer { p with queue := rest } (.ok (some offer))
  | none (spent : p.Spent maxRefills) : Got maxRefills p answer p (.ok none)
  | refilled (offer : Offer) (rest : List Offer) (drained : p.drained maxRefills)
      (found : answer = .ok (offer :: rest)) :
      Got maxRefills p answer ⟨rest, p.refills + 1⟩ (.ok (some offer))
  | empty (drained : p.drained maxRefills) (found : answer = .ok []) :
      Got maxRefills p answer ⟨[], p.refills + 1⟩ (.ok none)
  | raised (e : Raised) (drained : p.drained maxRefills) (failed : answer = .error e) :
      Got maxRefills p answer ⟨[], p.refills + 1⟩ (.error e)

theorem get_got (p : OfferPool) (maxRefills : Int) (answer : Except Raised (List Offer)) :
    Got maxRefills p answer (p.get maxRefills answer).1 (p.get maxRefills answer).2 := by
  obtain ⟨queue, refills⟩ := p
  unfold OfferPool.get
  split
  · rename_i hdrained
    obtain rfl : queue = [] := hdrained.1
    cases answer with
    | error e => exact .raised e hdrained rfl
    | ok offers =>
      cases offers with
      | nil => exact .empty hdrained rfl
      | cons offer rest => exact .refilled offer rest hdrained rfl
  · rename_i hnot
    cases queue with
    | nil => exact .none ⟨rfl, by simpa [drained] using hnot⟩
    | cons offer rest => exact .next offer rest rfl

theorem spent_of_last (hrefills : maxRefills ≤ p.refills) (hqueue : p.queue.length ≤ 1)
    (h : p.get maxRefills answer = (p', result)) : p'.Spent maxRefills := by
  have hgot := get_got p maxRefills answer
  rw [h] at hgot
  cases hgot with
  | next offer rest queue =>
    rw [queue, List.length_cons] at hqueue
    have hrest : rest.length = 0 := by omega
    exact ⟨List.eq_nil_of_length_eq_zero hrest, hrefills⟩
  | none spent => exact spent
  | refilled offer rest drained | empty drained | raised e drained =>
    have := drained.2
    omega

theorem get_smaller (h : p.get maxRefills answer = (p', result))
    (hresult : result ≠ .ok none) :
    p.refills < p'.refills ∧ p'.refills ≤ maxRefills ∨
      p'.refills = p.refills ∧ p'.queue.length < p.queue.length := by
  have hgot := get_got p maxRefills answer
  rw [h] at hgot
  cases hgot with
  | next offer rest queue => exact .inr ⟨rfl, by simp [queue]⟩
  | none spent => exact absurd rfl hresult
  | refilled offer rest drained found => exact .inl ⟨by simp, drained.2⟩
  | empty drained found => exact absurd rfl hresult
  | raised e drained failed => exact .inl ⟨by simp, drained.2⟩

/-- `n` offers can be had: one more listing, or these that are left. -/
def Serves (p : OfferPool) (maxRefills : Int) (n : Nat) : Prop :=
  p.refills < maxRefills ∨ n ≤ p.queue.length

instance (p : OfferPool) (maxRefills : Int) (n : Nat) : Decidable (p.Serves maxRefills n) :=
  inferInstanceAs (Decidable (_ ∨ _))

theorem Serves.get {n : Nat} (h : p.Serves maxRefills (n + 1)) {offers : List Offer}
    (hoffers : offers.length = n + 1) : ∃ p' offer,
      p.get maxRefills (.ok offers) = (p', .ok (some offer)) ∧ p'.Serves maxRefills n := by
  have hgot := get_got p maxRefills (.ok offers)
  cases hget : p.get maxRefills (.ok offers) with
  | mk p' result =>
    rw [hget] at hgot
    cases hgot with
    | next offer rest queue =>
      rw [Serves, queue, List.length_cons] at h
      exact ⟨_, offer, rfl, h.imp_right Nat.le_of_succ_le_succ⟩
    | none spent =>
      have hnone := spent.refills
      rw [Serves, spent.queue, List.length_nil] at h
      omega
    | refilled offer rest drained found =>
      cases found
      rw [List.length_cons] at hoffers
      have hlen : n ≤ rest.length := by omega
      exact ⟨_, offer, rfl, .inr hlen⟩
    | empty drained found =>
      cases found
      cases hoffers
    | raised e drained failed => cases failed

end OfferPool

end RunFarm
