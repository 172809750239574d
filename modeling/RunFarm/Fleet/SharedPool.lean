import RunFarm.Fleet.Endings

/-! The offers of all listings, handed out to the legs of one run. -/
set_option autoImplicit false

namespace RunFarm
open Transition

structure Handout where
  calls : List (List Offer)
  handed : List Offer := []
  deriving DecidableEq, Repr

namespace OfferPool

variable {p p' : OfferPool} {maxRefills : Int} {answer : Except Raised (List Offer)}
  {result : Except Raised (Option Offer)} {t : Handout}

/-- What a `get` adds; a listing that raised brings no offer. -/
def watch (p : OfferPool) (maxRefills : Int) (answer : Except Raised (List Offer)) (t : Handout) :
    Handout where
  calls := if p.drained maxRefills then t.calls ++ [answer.toOption.getD []] else t.calls
  handed := match (p.get maxRefills answer).2 with
    | .ok (some offer) => t.handed ++ [offer]
    | _ => t.handed

/-- What was listed is handed out in order, or waits in the queue. -/
structure Accounts (maxRefills : Int) (p : OfferPool) (t : Handout) : Prop where
  listed : t.calls.flatten = t.handed ++ p.queue
  calls : t.calls.length = 1 + p.refills
  refills : p.refills ≤ max 0 maxRefills

theorem Accounts.start (maxRefills : Int) (offers : List Offer) :
    Accounts maxRefills { queue := offers } { calls := [offers] } :=
  ⟨by simp, rfl, le_max_left ..⟩

theorem Accounts.get (h : Accounts maxRefills p t) (answer : Except Raised (List Offer)) :
    Accounts maxRefills (p.get maxRefills answer).1 (p.watch maxRefills answer t) := by
  have hquiet : ∀ {p' : OfferPool} {handed : List Offer}, ¬ p.drained maxRefills →
      (p.watch maxRefills answer t).handed = handed → p'.refills = p.refills →
      handed ++ p'.queue = t.handed ++ p.queue →
      Accounts maxRefills p' (p.watch maxRefills answer t) := by
    intro p' handed hnot hhanded hrefills hqueue
    have hcalls : (p.watch maxRefills answer t).calls = t.calls := by simp [watch, hnot]
    exact ⟨by rw [hcalls, hhanded, hqueue, h.listed], by rw [hcalls, hrefills, h.calls],
      hrefills ▸ h.refills⟩
  have hlists : ∀ {p' : OfferPool} {handed : List Offer}, p.drained maxRefills →
      (p.watch maxRefills answer t).handed = handed → p'.refills = p.refills + 1 →
      handed ++ p'.queue = t.handed ++ answer.toOption.getD [] →
      Accounts maxRefills p' (p.watch maxRefills answer t) := by
    intro p' handed hdrained hhanded hrefills hqueue
    have hcalls : (p.watch maxRefills answer t).calls =
        t.calls ++ [answer.toOption.getD []] := by simp [watch, hdrained]
    refine ⟨?_, ?_, hrefills ▸ (Int.add_one_le_iff.mpr hdrained.2).trans (le_max_right ..)⟩
    · rw [hcalls, hhanded, hqueue, List.flatten_append, h.listed, hdrained.1]
      simp
    · rw [hcalls, List.length_append, h.calls, hrefills, List.length_singleton]
      omega
  have hgot := get_got p maxRefills answer
  cases hget : p.get maxRefills answer with
  | mk p' result =>
    rw [hget] at hgot
    cases hgot with
    | next offer rest queue =>
      refine hquiet (fun hd => ?_) (by rw [watch, hget]) rfl (by simp [queue])
      rw [hd.1] at queue
      cases queue
    | none spent =>
      exact hquiet (fun hd => absurd hd.2 (not_lt.mpr spent.refills)) (by rw [watch, hget])
        rfl rfl
    | refilled offer rest drained found =>
      exact hlists drained (by rw [watch, hget]) rfl (by simp [found, Except.toOption])
    | empty drained found =>
      exact hlists drained (by rw [watch, hget]) rfl (by simp [found, Except.toOption])
    | raised e drained failed =>
      exact hlists drained (by rw [watch, hget]) rfl (by simp [failed, Except.toOption])

theorem get_none (h : p.get maxRefills answer = (p', .ok none)) :
    p.queue = [] ∧ p'.queue = [] ∧
      (maxRefills ≤ p.refills ∨ answer = .ok [] ∧ p'.refills = p.refills + 1) := by
  have hgot := get_got p maxRefills answer
  rw [h] at hgot
  cases hgot with
  | none spent => exact ⟨spent.queue, spent.queue, .inl spent.refills⟩
  | empty drained found => exact ⟨drained.1, rfl, .inr ⟨found, rfl⟩⟩

end OfferPool

variable {α : Type} {R : FleetRun α} {s s' : Threads R.size} {e : ThreadEvent R.size}
  {t t' : Handout} {events : List (ThreadEvent R.size)}

namespace Threads

def seen (R : FleetRun α) (s : Threads R.size) (t : Handout) : ThreadEvent R.size → Handout
  | .worked _ (.asked answer) => s.pool.watch R.maxRefills answer t
  | _ => t

/-- A step of the run, and what it adds to the listings and the offers handed out. -/
def watched (R : FleetRun α) (s : Threads R.size × Handout) (e : ThreadEvent R.size) :
    Option (Threads R.size × Handout) :=
  (s.1.step R e).map fun s' => (s', s.1.seen R s.2 e)

end Threads

/-- `rent` is called once for an offer handed out, at most. -/
structure Shared (R : FleetRun α) (s : Threads R.size × Handout) : Prop where
  accounts : s.1.pool.Accounts R.maxRefills s.2
  rented : s.1.rented.length = s.2.handed.length

theorem WorkStep.shared {i : Fin R.size} {we : WorkEvent} {pool : OfferPool}
    {live : List InstanceId} {task : LegTask} (h : Shared R (s, t))
    (hstep : WorkStep R.maxRefills (R.leg i) s.pool s.live (s.tasks i) we pool live task) :
    Shared R (s.put i pool live task, s.seen R t (.worked i we)) := by
  have hquiet : pool = s.pool → (s.put i pool live task).rented = s.rented →
      Shared R (s.put i pool live task, t) := by
    intro hpool hrented
    exact ⟨hpool ▸ h.accounts, hrented ▸ h.rented⟩
  have hkept : ∀ {tried : Nat} {e : Raised}, task = afterFailure (R.leg i) tried e →
      (s.put i pool live task).rented = s.rented := by
    intro tried e htask
    rcases afterFailure_kinds (R.leg i) tried e with ⟨hf, -⟩ | ⟨-, hf | hf⟩ <;>
      rw [htask, hf] <;> rfl
  generalize s.tasks i = task₀ at hstep
  cases hstep with
  | offered tried answer pool' offer hgot =>
    have haccounts := h.accounts.get answer
    have hhanded : (s.seen R t (.worked i (.asked answer))).handed = t.handed ++ [offer] := by
      rw [Threads.seen, OfferPool.watch, hgot]
    rw [hgot] at haccounts
    refine ⟨haccounts, ?_⟩
    have hrented := h.rented
    simp only [Threads.put, hhanded, List.length_append, List.length_singleton] at hrented ⊢
    omega
  | drained tried answer pool' hgot | broke tried answer pool' e hgot =>
    have haccounts := h.accounts.get answer
    have hhanded : (s.pool.watch R.maxRefills answer t).handed = t.handed := by
      rw [OfferPool.watch, hgot]
    rw [hgot] at haccounts
    exact ⟨haccounts, h.rented.trans (congrArg List.length hhanded.symm)⟩
  | hosted => exact hquiet rfl rfl
  | closed => exact hquiet rfl rfl
  | refused tried offer e => exact hquiet rfl (hkept rfl)
  | died tried offer host e => exact hquiet rfl (hkept rfl)

theorem Shared.step {x x' : Threads R.size × Handout} (h : Shared R x)
    (hs : Threads.watched R x e = some x') : Shared R x' := by
  obtain ⟨s', hstep, heq⟩ := Option.map_eq_some_iff.mp hs
  -- a step of the main thread, or of the handler
  have hquiet : s'.pool = x.1.pool → s'.rented = x.1.rented → Shared R (s', x.2) := by
    intro hpool hrented
    exact ⟨hpool ▸ h.accounts, hrented ▸ h.rented⟩
  cases thread_step hstep with
  | worked i we pool live task hwork =>
    have hshared := hwork.shared h
    exact heq ▸ hshared
  | _ => exact heq ▸ hquiet rfl rfl

def FleetRun.listed (R : FleetRun α) (offers : List Offer) : Threads R.size × Handout :=
  (R.init offers, { calls := [offers] })

theorem Shared.start (R : FleetRun α) (offers : List Offer) : Shared R (R.listed offers) :=
  ⟨.start _ _, rfl⟩

theorem watched_run {s : Threads R.size} (t : Handout)
    (h : exec (Threads.step R) s events = some s') :
    ∃ t', exec (Threads.watched R) (s, t) events = some (s', t') := by
  induction events generalizing s t with
  | nil =>
    cases h
    exact ⟨t, rfl⟩
  | cons e events ih =>
    obtain ⟨s₁, hfirst, hrest⟩ := exec_cons_some h
    obtain ⟨t₁, hwatched⟩ : ∃ t₁, Threads.watched R (s, t) e = some (s₁, t₁) := by
      rw [Threads.watched, hfirst, Option.map_some]
      exact ⟨_, rfl⟩
    obtain ⟨t', hrun⟩ := ih t₁ hrest
    exact ⟨t', by rw [exec_cons_of hwatched, hrun]⟩

def ThreadEvent.worker {n : Nat} : ThreadEvent n → Prop
  | .worked _ _ => True
  | _ => False

def Threads.failovers (R : FleetRun α) (s : Threads R.size) : Nat ×ₗ Nat ×ₗ Nat :=
  toLex ((R.maxRefills - s.pool.refills).toNat,
    toLex (s.pool.queue.length, ∑ i, (s.tasks i).rank))

theorem failovers_of_pool
    (h : s.pool.refills < s'.pool.refills ∧ s'.pool.refills ≤ R.maxRefills ∨
      s'.pool.refills = s.pool.refills ∧ s'.pool.queue.length < s.pool.queue.length) :
    s'.failovers R < s.failovers R := by
  rw [Threads.failovers, Threads.failovers, Prod.Lex.toLex_lt_toLex, Prod.Lex.toLex_lt_toLex]
  rcases h with ⟨hmore, hmax⟩ | ⟨hsame, hshorter⟩
  · refine .inl ?_
    dsimp only
    omega
  · exact .inr ⟨by rw [hsame], .inl hshorter⟩

theorem failovers_of_lower (hpool : s'.pool = s.pool)
    (h : ∑ i, (s'.tasks i).rank < ∑ i, (s.tasks i).rank) :
    s'.failovers R < s.failovers R := by
  rw [Threads.failovers, Threads.failovers, hpool, Prod.Lex.toLex_lt_toLex,
    Prod.Lex.toLex_lt_toLex]
  exact .inr ⟨rfl, .inr ⟨rfl, h⟩⟩

theorem failovers_of_tasks (hpool : s'.pool = s.pool)
    (h : ∑ i, (s'.tasks i).rank ≤ ∑ i, (s.tasks i).rank) :
    s'.failovers R ≤ s.failovers R := by
  rw [Threads.failovers, Threads.failovers, hpool]
  exact Prod.Lex.toLex_le_toLex.mpr (.inr ⟨rfl, Prod.Lex.toLex_le_toLex.mpr (.inr ⟨rfl, h⟩)⟩)

theorem failovers_step (hstaffed : Staffed R s) (hs : s.step R e = some s') :
    s'.failovers R ≤ s.failovers R ∧ (e.worker → s'.failovers R < s.failovers R) := by
  -- a step that is not a worker's
  have hmain : s'.pool = s.pool → (∑ i, (s'.tasks i).rank ≤ ∑ i, (s.tasks i).rank) →
      ¬ e.worker → s'.failovers R ≤ s.failovers R ∧
        (e.worker → s'.failovers R < s.failovers R) :=
    fun hpool hsum hnot => ⟨failovers_of_tasks hpool hsum, fun hw => absurd hw hnot⟩
  cases thread_step hs with
  | submitted k hk hsub =>
    have hsubmitted := hstaffed.submitted
    rw [hsub] at hsubmitted
    have hsum := sum_update s.tasks ⟨k, hk⟩ .waiting
    rw [(hsubmitted.2 ⟨k, hk⟩).mpr le_rfl] at hsum
    refine hmain rfl ?_ id
    simp only [LegTask.rank] at hsum ⊢
    omega
  | cancelled x k hk hcancelling htask =>
    have hsum := sum_update s.tasks ⟨k, hk⟩ .cancelled
    rw [htask] at hsum
    refine hmain rfl ?_ id
    simp only [LegTask.rank] at hsum ⊢
    omega
  | took i htask =>
    have hsum := sum_update s.tasks i (.asking 0)
    rw [htask] at hsum
    refine hmain rfl ?_ id
    simp only [LegTask.rank] at hsum ⊢
    omega
  | worked i we pool live task hstep =>
    have hlower : (s.put i pool live task).failovers R < s.failovers R := by
      rcases hstep.lowers with hsmaller | ⟨hpool, hless⟩
      · exact failovers_of_pool hsmaller
      · have hsum := sum_update s.tasks i task
        refine failovers_of_lower hpool ?_
        rw [show (s.put i pool live task).tasks = Function.update s.tasks i task from rfl]
        omega
    exact ⟨hlower.le, fun _ => hlower⟩
  | _ => exact hmain rfl le_rfl id

theorem workers_cease {states : Nat → Threads R.size} {events : Nat → ThreadEvent R.size}
    (hs : Staffed R (states 0))
    (hstep : ∀ k, (states k).step R (events k) = some (states (k + 1))) :
    ∃ n, ∀ k, n ≤ k → ¬ (events k).worker :=
  events_cease (I := Staffed R) (P := ThreadEvent.worker)
    (fun hs h => (failovers_step h hs).1) (fun hs h => h.step hs)
    (fun he hs h => (failovers_step h hs).2 he) hs hstep

/-- The listings are as many as the refills allow, their offers go out one by one in the order
of the listings, and each is rented once at most. -/
structure FairShare (maxRefills : Int) (rents : Nat) (t : Handout) : Prop where
  listings : t.calls.length ≤ 1 + max 0 maxRefills
  order : t.handed <+: t.calls.flatten
  rents : rents ≤ t.calls.flatten.length

theorem Shared.fair {x : Threads R.size × Handout} (h : Shared R x) :
    FairShare R.maxRefills x.1.rented.length x.2 := by
  have hcalls := h.accounts.calls
  have hrefills := h.accounts.refills
  have hlisted := h.accounts.listed
  refine ⟨by omega, ⟨_, hlisted.symm⟩, ?_⟩
  rw [hlisted, List.length_append, h.rented]
  omega

/-- `get` answers `None` only where the pool is empty after every refill that it was allowed, and
the failover loop of every leg ends: whatever the provider lists and whatever happens on the
workers and in signal handlers, a leg that runs can go on, and there are only so many steps. -/
theorem failover_ends_and_shares (R : FleetRun α) (offers : List Offer) :
    (∀ events s, exec (Threads.step R) (R.init offers) events = some s →
      ∃ t, exec (Threads.watched R) (R.listed offers) events = some (s, t) ∧
        FairShare R.maxRefills s.rented.length t ∧
        ∀ i, (s.tasks i).running = true → ∃ we, (s.step R (.worked i we)).isSome = true) ∧
    (∀ (p p' : OfferPool) (answer : Except Raised (List Offer)),
      p.get R.maxRefills answer = (p', .ok none) → p.queue = [] ∧ p'.queue = [] ∧
        (R.maxRefills ≤ p.refills ∨ answer = .ok [] ∧ p'.refills = p.refills + 1)) ∧
    ∀ (states : Nat → Threads R.size) (events : Nat → ThreadEvent R.size),
      states 0 = R.init offers →
      (∀ k, (states k).step R (events k) = some (states (k + 1))) →
      ∃ n, ∀ k, n ≤ k → ∀ i we, events k ≠ .worked i we := by
  refine ⟨fun events s hrun => ?_, fun p p' answer hget => OfferPool.get_none hget, ?_⟩
  · obtain ⟨t, hwatched⟩ := watched_run { calls := [offers] } hrun
    have hshared := exec_keeps (fun hs h => h.step hs) hwatched (Shared.start R offers)
    exact ⟨t, hwatched, hshared.fair, fun i hi => running_works hi⟩
  · intro states events hstart hstep
    obtain ⟨n, hn⟩ := workers_cease (hstart ▸ Staffed.start R offers) hstep
    refine ⟨n, fun k hk i we heq => hn k hk ?_⟩
    rw [heq]
    trivial

def negativeRefills : FleetRun Unit where
  legs := [{ label := "L1" }]
  unique := by decide
  disk _ := Python.Dict.empty
  maxRefills := -1

theorem negativeRefills_listed : ¬ ∀ (R : FleetRun Unit) (offers : List Offer)
    (events : List (ThreadEvent R.size)) (s : Threads R.size) (t : Handout),
    exec (Threads.watched R) (R.listed offers) events = some (s, t) →
      t.calls.length ≤ 1 + R.maxRefills := by
  intro h
  exact absurd (h negativeRefills [] [] _ _ rfl) (by decide)

end RunFarm
