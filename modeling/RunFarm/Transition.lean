import Mathlib.Logic.Relation
import Mathlib.Order.WellFounded

/-! Runs of a step relation or of a step function, and the inductions that safety proofs
over them use. -/
set_option autoImplicit false

namespace Transition
open Relation (ReflTransGen)

section
variable {α : Type} {step wide : α → α → Prop} {I J : α → Prop} {a b : α}

theorem run_keeps (hstep : ∀ {x y}, step x y → I x → I y) (h : ReflTransGen step a b)
    (ha : I a) : I b := by
  induction h with
  | refl => exact ha
  | tail _ hs ih => exact hstep hs ih

theorem run_keeps_with (hJ : ∀ {x y}, step x y → J x → J y)
    (hstep : ∀ {x y}, step x y → J x → I x → I y) (h : ReflTransGen step a b)
    (hJa : J a) (ha : I a) : I b :=
  (run_keeps (I := fun x => J x ∧ I x) (fun hs hx => ⟨hJ hs hx.1, hstep hs hx.1 hx.2⟩)
    h ⟨hJa, ha⟩).2

theorem run_mono (hsub : ∀ {x y}, step x y → wide x y) (h : ReflTransGen step a b) :
    ReflTransGen wide a b :=
  ReflTransGen.mono (fun _ _ hs => hsub hs) a b h

end

section
variable {σ ε : Type} {step : σ → ε → Option σ} {I : σ → Prop} {G : σ → ε → Prop}
  {s s' : σ} {events : List ε}

/-- The state after all the events, if each of them can happen. -/
def exec (step : σ → ε → Option σ) (s : σ) (events : List ε) : Option σ :=
  events.foldlM step s

@[simp] theorem exec_nil (step : σ → ε → Option σ) (s : σ) : exec step s [] = some s := rfl

theorem exec_cons_some {e : ε} (h : exec step s (e :: events) = some s') :
    ∃ s₁, step s e = some s₁ ∧ exec step s₁ events = some s' :=
  Option.bind_eq_some_iff.mp h

theorem exec_cons_of {e : ε} {s₁ : σ} (hs : step s e = some s₁) :
    exec step s (e :: events) = exec step s₁ events := by
  simp [exec, hs]

theorem exec_append (step : σ → ε → Option σ) (s : σ) (a b : List ε) :
    exec step s (a ++ b) = (exec step s a).bind (fun s' => exec step s' b) := by
  induction a generalizing s with
  | nil => rfl
  | cons e a ih =>
    cases hs : step s e with
    | none => simp [exec, hs]
    | some s₁ => rw [List.cons_append, exec_cons_of hs, exec_cons_of hs, ih]

def Along (G : σ → ε → Prop) (step : σ → ε → Option σ) : σ → List ε → Prop
  | _, [] => True
  | s, e :: events => G s e ∧ ∀ s₁ ∈ step s e, Along G step s₁ events

instance Along.decidable [∀ s e, Decidable (G s e)] (step : σ → ε → Option σ) :
    (s : σ) → (events : List ε) → Decidable (Along G step s events)
  | _, [] => inferInstanceAs (Decidable True)
  | s, e :: events =>
    have : ∀ s₁, Decidable (Along G step s₁ events) := fun s₁ => Along.decidable step s₁ events
    inferInstanceAs (Decidable (G s e ∧ ∀ s₁ ∈ step s e, Along G step s₁ events))

theorem Along.append {a b : List ε} (h : Along G step s (a ++ b))
    (hs : exec step s a = some s') : Along G step s a ∧ Along G step s' b := by
  induction a generalizing s with
  | nil =>
    cases hs
    exact ⟨trivial, h⟩
  | cons e a ih =>
    obtain ⟨s₁, hfirst, hrest⟩ := exec_cons_some hs
    obtain ⟨_, hb⟩ := ih (h.2 s₁ hfirst) hrest
    refine ⟨⟨h.1, fun s₂ hs₂ => ?_⟩, hb⟩
    rw [Option.mem_def, hfirst] at hs₂
    cases hs₂
    exact (ih (h.2 s₁ hfirst) hrest).1

theorem Along.and_mem {P : ε → Prop} (h : Along G step s events) (hP : ∀ e ∈ events, P e) :
    Along (fun s e => G s e ∧ P e) step s events := by
  induction events generalizing s with
  | nil => trivial
  | cons e events ih =>
    refine ⟨⟨h.1, hP e (.head _)⟩, fun s₁ hfirst => ?_⟩
    exact ih (h.2 s₁ hfirst) fun e' he' => hP e' (.tail _ he')

theorem Along.imp {G' : σ → ε → Prop} (hG : ∀ {s e}, I s → G s e → G' s e)
    (hstep : ∀ {s e s'}, G s e → step s e = some s' → I s → I s') (hs : I s)
    (h : Along G step s events) : Along G' step s events := by
  induction events generalizing s with
  | nil => trivial
  | cons e events ih =>
    exact ⟨hG hs h.1, fun s₁ hfirst => ih (hstep h.1 hfirst hs) (h.2 s₁ hfirst)⟩

theorem exists_break [∀ s e, Decidable (G s e)] (h : exec step s events = some s')
    (hnot : ¬ Along G step s events) : ∃ before e behind s₁ s₂,
      events = before ++ e :: behind ∧ Along G step s before ∧
      exec step s before = some s₁ ∧ step s₁ e = some s₂ ∧ exec step s₂ behind = some s' ∧
      ¬ G s₁ e := by
  induction events generalizing s with
  | nil => exact absurd trivial hnot
  | cons e events ih =>
    obtain ⟨s₁, hfirst, hrest⟩ := exec_cons_some h
    by_cases hG : G s e
    · have hlater : ¬ Along G step s₁ events := by
        refine fun hall => hnot ⟨hG, fun s₂ hs₂ => ?_⟩
        rw [Option.mem_def, hfirst] at hs₂
        cases hs₂
        exact hall
      obtain ⟨before, e', behind, t₁, t₂, hsplit, halong, hbefore, hbreak⟩ := ih hrest hlater
      refine ⟨e :: before, e', behind, t₁, t₂, by rw [hsplit, List.cons_append],
        ⟨hG, fun s₂ hs₂ => ?_⟩, ?_, hbreak⟩
      · rw [Option.mem_def, hfirst] at hs₂
        cases hs₂
        exact halong
      · rw [exec_cons_of hfirst, hbefore]
    · exact ⟨[], e, events, s, s₁, rfl, trivial, rfl, hfirst, hrest, hG⟩

theorem exec_keeps_along (hstep : ∀ {s e s'}, G s e → step s e = some s' → I s → I s')
    (hG : Along G step s events) (h : exec step s events = some s') (hs : I s) : I s' := by
  induction events generalizing s with
  | nil =>
    cases h
    exact hs
  | cons e events ih =>
    obtain ⟨s₁, hfirst, hrest⟩ := exec_cons_some h
    exact ih (hG.2 s₁ hfirst) hrest (hstep hG.1 hfirst hs)

theorem exec_keeps (hstep : ∀ {s e s'}, step s e = some s' → I s → I s')
    (h : exec step s events = some s') (hs : I s) : I s' := by
  induction events generalizing s with
  | nil =>
    cases h
    exact hs
  | cons e events ih =>
    obtain ⟨s₁, hfirst, hrest⟩ := exec_cons_some h
    exact ih hrest (hstep hfirst hs)

theorem exec_keeps_mem {P : ε → Prop}
    (hstep : ∀ {s e s'}, P e → step s e = some s' → I s → I s') (hP : ∀ e ∈ events, P e)
    (h : exec step s events = some s') (hs : I s) : I s' := by
  induction events generalizing s with
  | nil =>
    cases h
    exact hs
  | cons e events ih =>
    obtain ⟨s₁, hfirst, hrest⟩ := exec_cons_some h
    obtain ⟨he, hP⟩ := List.forall_mem_cons.mp hP
    exact ih hP hrest (hstep he hfirst hs)

/-- `t` is reached from `s` by events of one kind. -/
def Via (P : ε → Prop) (step : σ → ε → Option σ) (s t : σ) : Prop :=
  ∃ events, (∀ e ∈ events, P e) ∧ exec step s events = some t

namespace Via

variable {P P' : ε → Prop} {t u : σ} {e : ε}

theorem refl (s : σ) : Via P step s s := ⟨[], by simp, rfl⟩

theorem single (he : P e) (hs : step s e = some t) : Via P step s t :=
  ⟨[e], by simpa using he, by rw [exec_cons_of hs]; rfl⟩

theorem trans (h : Via P step s t) (h' : Via P step t u) : Via P step s u := by
  obtain ⟨events, hP, hrun⟩ := h
  obtain ⟨events', hP', hrun'⟩ := h'
  refine ⟨events ++ events', List.forall_mem_append.mpr ⟨hP, hP'⟩, ?_⟩
  rw [exec_append, hrun, Option.bind_some, hrun']

theorem mono (hsub : ∀ e, P e → P' e) (h : Via P step s t) : Via P' step s t :=
  h.imp fun _ ⟨hP, hrun⟩ => ⟨fun e he => hsub e (hP e he), hrun⟩

theorem keeps (hstep : ∀ {s e s'}, P e → step s e = some s' → I s → I s')
    (h : Via P step s t) (hs : I s) : I t := by
  obtain ⟨events, hP, hrun⟩ := h
  exact exec_keeps_mem hstep hP hrun hs

end Via

theorem exec_turns (h : exec step s events = some s') (hs : ¬ I s) (hs' : I s') :
    ∃ before e behind s₁ s₂, events = before ++ e :: behind ∧
      exec step s before = some s₁ ∧ step s₁ e = some s₂ ∧ exec step s₂ behind = some s' ∧
      ¬ I s₁ ∧ I s₂ := by
  induction events generalizing s with
  | nil =>
    cases h
    exact absurd hs' hs
  | cons e events ih =>
    obtain ⟨s₁, hfirst, hrest⟩ := exec_cons_some h
    by_cases hI : I s₁
    · exact ⟨[], e, events, s, s₁, rfl, rfl, hfirst, hrest, hs, hI⟩
    · obtain ⟨before, e', behind, t₁, t₂, hsplit, hbefore, hturn⟩ := ih hrest hI
      refine ⟨e :: before, e', behind, t₁, t₂, by rw [hsplit, List.cons_append], ?_, hturn⟩
      rw [exec_cons_of hfirst, hbefore]

end

section
variable {σ ε μ : Type} {step : σ → ε → Option σ} {I final : σ → Prop} {P : ε → Prop} {s : σ}
  [LT μ] [WellFoundedLT μ] {rank : σ → μ}

def Endless (P : ε → Prop) (step : σ → ε → Option σ) (s : σ) : Prop :=
  ∃ (states : Nat → σ) (events : Nat → ε), states 0 = s ∧
    ∀ k, P (events k) ∧ step (states k) (events k) = some (states (k + 1))

theorem not_endless (hkeep : ∀ {s e s'}, P e → step s e = some s' → I s → I s')
    (hrank : ∀ {s e s'}, P e → step s e = some s' → I s → rank s' < rank s) (hs : I s) :
    ¬ Endless P step s := by
  rintro ⟨states, events, hstart, hstep⟩
  have hI : ∀ k, I (states k) := by
    intro k
    induction k with
    | zero => exact hstart ▸ hs
    | succ k ih => exact hkeep (hstep k).1 (hstep k).2 ih
  have hdown : ∀ k, rank (states (k + 1)) < rank (states k) :=
    fun k => hrank (hstep k).1 (hstep k).2 (hI k)
  obtain ⟨k, hk⟩ := WellFounded.not_rel_apply_succ (r := (· < ·)) (fun k => rank (states k))
  exact hk (hdown k)

theorem exec_finishes (hkeep : ∀ {s e s'}, P e → step s e = some s' → I s → I s')
    (hrank : ∀ {s e s'}, P e → step s e = some s' → I s → rank s' < rank s)
    (hprogress : ∀ {s}, I s → final s ∨ ∃ e, P e ∧ (step s e).isSome = true) (hs : I s) :
    ∃ t, Via P step s t ∧ final t := by
  induction hm : rank s using WellFoundedLT.induction generalizing s with
  | ind m ih =>
    rcases hprogress hs with hfinal | ⟨e, he, hsome⟩
    · exact ⟨s, .refl s, hfinal⟩
    · obtain ⟨s', hstep⟩ := Option.isSome_iff_exists.mp hsome
      obtain ⟨t, hvia, hfinal⟩ := ih (rank s') (hm ▸ hrank he hstep hs) (hkeep he hstep hs) rfl
      exact ⟨t, .trans (.single he hstep) hvia, hfinal⟩

end

section
variable {σ ε μ : Type} {step : σ → ε → Option σ} {I : σ → Prop} {P : ε → Prop}
  [LinearOrder μ] [WellFoundedLT μ] {rank : σ → μ}

theorem events_cease (hle : ∀ {s e s'}, step s e = some s' → I s → rank s' ≤ rank s)
    (hkeep : ∀ {s e s'}, step s e = some s' → I s → I s')
    (hrank : ∀ {s e s'}, P e → step s e = some s' → I s → rank s' < rank s)
    {states : Nat → σ} {events : Nat → ε} (hs : I (states 0))
    (hstep : ∀ k, step (states k) (events k) = some (states (k + 1))) :
    ∃ n, ∀ k, n ≤ k → ¬ P (events k) := by
  have hI : ∀ k, I (states k) := by
    intro k
    induction k with
    | zero => exact hs
    | succ k ih => exact hkeep (hstep k) ih
  have hdown : ∀ n k, n ≤ k → rank (states k) ≤ rank (states n) := by
    intro n k hk
    induction k, hk using Nat.le_induction with
    | base => exact le_rfl
    | succ k _ ih => exact (hle (hstep k) (hI k)).trans ih
  -- nothing lowers the rank after the state where it is least
  let ranks : Nat → μ := fun k => rank (states k)
  refine ⟨Function.argmin ranks, fun k hk he => ?_⟩
  have hlower : ranks (k + 1) < ranks (Function.argmin ranks) :=
    (hrank he (hstep k) (hI k)).trans_le (hdown _ k hk)
  exact Function.not_lt_argmin ranks (k + 1) hlower

end

end Transition
