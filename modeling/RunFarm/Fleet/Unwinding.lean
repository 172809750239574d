import RunFarm.Fleet.LateRents

/-! What still happens after the signal handler has raised, and after a `BudgetExceeded`. -/
set_option autoImplicit false

namespace RunFarm
open Files Python Transition

variable {α : Type} {R : FleetRun α} {s s' t : Threads R.size} {e : ThreadEvent R.size}

theorem nothingLeft_draining {x : Option Stop} (h : s.main = .draining x) :
    s.NothingLeft R ↔ ∀ i, s.tasks i ≠ .waiting := by
  refine ⟨fun hleft => hleft.waiting, fun hwaiting => ⟨hwaiting, fun k hk => ?_⟩⟩
  rw [h] at hk
  cases hk

/-- In every run, at the moment the handler has destroyed the live hosts and raised: no leg that
is not started rents any more, whatever happens, if and only if no submitted leg waits or there
is no offer for it. -/
theorem interrupted_rents_iff (R : FleetRun α) (offers : List Offer)
    (before : List (ThreadEvent R.size)) (s' s : Threads R.size)
    (hbefore : exec (Threads.step R) (R.init offers) before = some s')
    (hraise : s'.step R .unwound = some s) :
    (∀ after t, exec (Threads.step R) s after = some t →
      ∀ i, (s.tasks i).unstarted = true → i ∉ t.rented) ↔
    (∀ i, s.tasks i ≠ .waiting) ∨ ¬ s.pool.Serves R.maxRefills (s.need R) := by
  have hstaffed := (run_staffed hbefore).step hraise
  have hmain : s.main = .draining (some .interrupted) := by
    cases thread_step hraise
    rfl
  rw [← nothingLeft_draining hmain, ← noLateRent_iff hstaffed (Q := fun _ => True)
    (fun _ _ => trivial) (by rw [hmain]; rfl)]
  exact ⟨fun h t ⟨after, _, hrun⟩ => h after t hrun,
    fun h after t hrun => h t ⟨after, fun _ _ => trivial, hrun⟩⟩

def sampleRun : FleetRun Unit where
  legs := [{ label := "L1" }, { label := "L2" }]
  unique := by decide
  disk _ := Dict.empty
  maxParallel := 1
  maxRefills := 0

def first : Fin sampleRun.size := ⟨0, by decide⟩

def second : Fin sampleRun.size := ⟨1, by decide⟩

def signalled : List (ThreadEvent sampleRun.size) :=
  [.submitted, .submitted, .listened [], .took first, .worked first (.asked (.ok [])),
    .worked first (.hosted (.text "h1")), .signalled, .destroyed]

def takenOver : List (ThreadEvent sampleRun.size) :=
  [.worked first (.raised hostError), .took second, .worked second (.asked (.ok []))]

theorem waiting_leg_rents : ¬ ∀ (R : FleetRun Unit) (offers : List Offer)
    (before : List (ThreadEvent R.size)) (s' s : Threads R.size),
    exec (Threads.step R) (R.init offers) before = some s' → s'.step R .unwound = some s →
    ∀ after t, exec (Threads.step R) s after = some t →
      ∀ i, (s.tasks i).unstarted = true → i ∉ t.rented := by
  intro h
  have := h sampleRun [anyOffer, anyOffer] signalled _ _ rfl rfl takenOver _ rfl second (by decide)
  exact this (by decide)

theorem second_in_vain : ∃ s,
    exec (Threads.step sampleRun) (sampleRun.init [anyOffer]) (signalled ++ [.unwound]) = some s ∧
    ∀ after t, exec (Threads.step sampleRun) s after = some t → second ∉ t.rented := by
  refine ⟨_, rfl, fun after t hrun => ?_⟩
  exact (interrupted_rents_iff sampleRun [anyOffer] signalled _ _ rfl rfl).mpr
    (.inr (by decide)) after t hrun second (by decide)

end RunFarm
