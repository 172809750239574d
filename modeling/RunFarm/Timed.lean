import Mathlib.Algebra.Group.Defs
import Mathlib.Order.Lattice
import RunFarm.Program

/-! Programs that take time, on a clock that only they move. -/
set_option autoImplicit false

namespace Program

variable {σ ε α κ T : Type}

def Instant (now : σ → T) (p : Prog σ ε α) : Prop :=
  ∀ t, Runs (now · = t) p (fun _ s => now s = t) (fun _ s => now s = t) Never

def Reads (now : σ → T) (p : Prog σ ε T) : Prop :=
  ∀ t, Runs (now · = t) p (fun a s => a = t ∧ now s = t) (fun _ => Never) Never

def At (now : σ → T) (I : T → List κ → Prop) (s : σ × List κ) : Prop := I (now s.1) s.2

section
variable {now : σ → T} {p : Prog σ ε α} {I : T → List κ → Prop}
  {note : Except (Stop ε) α → κ} {Q : T → α → σ → Prop} {E : T → ε → σ → Prop}

theorem runs_beside (h : ∀ t, Runs (now · = t) p (Q t) (E t) Never) :
    Runs (At now I) p.beside (fun a s => ∃ t, I t s.2 ∧ Q t a s.1)
      (fun e s => ∃ t, I t s.2 ∧ E t e s.1) Never := by
  intro s hs
  have hrun := h (now s.1) s.1 rfl
  unfold Prog.beside
  cases hp : p s.1 with
  | mk r s' =>
    rw [hp] at hrun
    rcases r with stop | a
    · cases stop with
      | raised e => exact ⟨_, hs, hrun⟩
      | stuck => exact hrun
    · exact ⟨_, hs, hrun⟩

theorem runs_noting (h : ∀ t, Runs (now · = t) p (Q t) (E t) Never) :
    Runs (At now I) (p.noting note)
      (fun a s => ∃ t l, I t l ∧ Q t a s.1 ∧ s.2 = l ++ [note (.ok a)])
      (fun e s => ∃ t l, I t l ∧ E t e s.1 ∧ s.2 = l ++ [note (.error (.raised e))]) Never := by
  intro s hs
  have hrun := h (now s.1) s.1 rfl
  unfold Prog.noting
  cases hp : p s.1 with
  | mk r s' =>
    rw [hp] at hrun
    rcases r with stop | a
    · cases stop with
      | raised e => exact ⟨_, _, hs, hrun, rfl⟩
      | stuck => exact hrun
    · exact ⟨_, _, hs, hrun, rfl⟩

theorem Reads.beside {p : Prog σ ε T} {F : ε → σ × List κ → Prop} (h : Reads now p) :
    Runs (At now I) p.beside (fun a => At now fun t l => t = a ∧ I t l) F Never := by
  refine (runs_beside h).mono (fun _ hs => hs) (fun a s hs => ?_) (fun e s hs => ?_) fun _ hs => hs
  · obtain ⟨t, hI, rfl, hnow⟩ := hs
    rw [At, hnow]
    exact ⟨rfl, hI⟩
  · obtain ⟨t, -, hno⟩ := hs
    exact hno.elim

theorem Instant.noting (h : Instant now p) :
    Runs (At now I) (p.noting note)
      (fun a => At now fun t l => ∃ l₀, I t l₀ ∧ l = l₀ ++ [note (.ok a)])
      (fun e => At now fun t l => ∃ l₀, I t l₀ ∧ l = l₀ ++ [note (.error (.raised e))]) Never := by
  refine (runs_noting h).mono (fun _ hs => hs) (fun a s hs => ?_) (fun e s hs => ?_) fun _ hs => hs
  · obtain ⟨t, l, hI, hnow, hl⟩ := hs
    rw [At, hnow]
    exact ⟨l, hI, hl⟩
  · obtain ⟨t, l, hI, hnow, hl⟩ := hs
    rw [At, hnow]
    exact ⟨l, hI, hl⟩

end

section
variable [AddMonoid T] [LinearOrder T]

/-- The program takes `d` at most. -/
def Within (now : σ → T) (d : T) (p : Prog σ ε α) : Prop :=
  ∀ t, Runs (now · = t) p (fun _ s => t ≤ now s ∧ now s ≤ t + d)
    (fun _ s => t ≤ now s ∧ now s ≤ t + d) Never

def Sleeps (now : σ → T) (sleep : T → Prog σ ε Unit) : Prop :=
  ∀ t d, Runs (now · = t) (sleep d) (fun _ s => 0 ≤ d ∧ now s = t + d)
    (fun _ s => d < 0 ∧ now s = t) Never

variable {now : σ → T} {d : T} {p : Prog σ ε α} {sleep : T → Prog σ ε Unit}
  {I : T → List κ → Prop} {note : Except (Stop ε) α → κ}

theorem Sleeps.beside {F : T → List κ → Prop} (h : Sleeps now sleep) (hF : ∀ t l, I t l → F t l) :
    Runs (At now I) (sleep d).beside
      (fun _ => At now fun t l => ∃ t₀, I t₀ l ∧ 0 ≤ d ∧ t = t₀ + d) (fun _ => At now F) Never := by
  refine (runs_beside fun t => h t d).mono (fun _ hs => hs) (fun a s hs => ?_) (fun e s hs => ?_)
    fun _ hs => hs
  · obtain ⟨t, hI, hd, hnow⟩ := hs
    exact ⟨t, hI, hd, hnow⟩
  · obtain ⟨t, hI, -, hnow⟩ := hs
    rw [At, hnow]
    exact hF _ _ hI

theorem Within.noting (h : Within now d p) :
    Runs (At now I) (p.noting note)
      (fun a => At now fun t l => ∃ t₀ l₀, I t₀ l₀ ∧ t₀ ≤ t ∧ t ≤ t₀ + d ∧ l = l₀ ++ [note (.ok a)])
      (fun e => At now fun t l => ∃ t₀ l₀, I t₀ l₀ ∧ t₀ ≤ t ∧ t ≤ t₀ + d ∧
        l = l₀ ++ [note (.error (.raised e))]) Never := by
  refine (runs_noting h).mono (fun _ hs => hs) (fun a s hs => ?_) (fun e s hs => ?_) fun _ hs => hs
  · obtain ⟨t, l, hI, ⟨hlow, hhigh⟩, hl⟩ := hs
    exact ⟨t, l, hI, hlow, hhigh, hl⟩
  · obtain ⟨t, l, hI, ⟨hlow, hhigh⟩, hl⟩ := hs
    exact ⟨t, l, hI, hlow, hhigh, hl⟩

end

end Program
