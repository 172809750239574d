import Mathlib.Logic.Basic

/-! Programs over an outside state: they return, they raise, or they are in a loop that is not at
its end. A triple says what a program leaves when it returns and when it does not. -/
set_option autoImplicit false

namespace Program

variable {σ τ ε α β κ : Type}

inductive Stop (ε : Type) where
  | raised (e : ε)
  | stuck

def Prog (σ ε α : Type) : Type := σ → Except (Stop ε) α × σ

namespace Prog

def andThen (p : Prog σ ε α) (f : α → Prog σ ε β) : Prog σ ε β := fun s =>
  match p s with
  | (.ok a, s) => f a s
  | (.error stop, s) => (.error stop, s)

instance : Monad (Prog σ ε) where
  pure a := fun s => (.ok a, s)
  bind := andThen

theorem pure_apply (a : α) (s : σ) : (pure a : Prog σ ε α) s = (.ok a, s) := rfl

theorem bind_apply (p : Prog σ ε α) (f : α → Prog σ ε β) (s : σ) : (p >>= f) s =
    match p s with
    | (.ok a, s) => f a s
    | (.error stop, s) => (.error stop, s) := rfl

def raise (e : ε) : Prog σ ε α := fun s => (.error (.raised e), s)

def stuck : Prog σ ε α := fun s => (.error .stuck, s)

/-- `try` with one `except` clause. -/
def catching (p : Prog σ ε α) (handle : ε → Prog σ ε α) : Prog σ ε α := fun s =>
  match p s with
  | (.error (.raised e), s) => handle e s
  | r => r

/-- `try` with a `finally`, whose own exception replaces what came before it. -/
def finishing (p : Prog σ ε α) (cleanup : Prog σ ε Unit) : Prog σ ε α := fun s =>
  match p s with
  | (.error .stuck, s) => (.error .stuck, s)
  | (r, s) =>
    match cleanup s with
    | (.ok (), s) => (r, s)
    | (.error stop, s) => (.error stop, s)

def beside (p : Prog σ ε α) : Prog (σ × List κ) ε α := fun s =>
  ((p s.1).1, (p s.1).2, s.2)

def noting (note : Except (Stop ε) α → κ) (p : Prog σ ε α) : Prog (σ × List κ) ε α := fun s =>
  ((p s.1).1, (p s.1).2, s.2 ++ [note (p s.1).1])

end Prog

/-- From a state with `P` the program returns with `Q`, or it does not return and leaves `E`. -/
def Triple (P : σ → Prop) (p : Prog σ ε α) (Q : α → σ → Prop) (E : σ → Prop) : Prop :=
  ∀ s, P s → match p s with
    | (.ok a, s') => Q a s'
    | (.error _, s') => E s'

namespace Triple

variable {P P' E E' : σ → Prop} {Q Q' : α → σ → Prop} {R : β → σ → Prop} {p : Prog σ ε α}
  {f : α → Prog σ ε β}

theorem ret {a : α} (h : ∀ s, P s → Q a s) : Triple P (pure a : Prog σ ε α) Q E :=
  fun s hs => h s hs

theorem raise {e : ε} (h : ∀ s, P s → E s) : Triple P (Prog.raise e : Prog σ ε α) Q E :=
  fun s hs => h s hs

theorem stuck (h : ∀ s, P s → E s) : Triple P (Prog.stuck : Prog σ ε α) Q E :=
  fun s hs => h s hs

theorem bind (hp : Triple P p Q E) (hf : ∀ a, Triple (Q a) (f a) R E) :
    Triple P (p >>= f) R E := by
  intro s hs
  have hfirst := hp s hs
  change match p.andThen f s with
    | (.ok b, s') => R b s'
    | (.error _, s') => E s'
  unfold Prog.andThen
  cases hrun : p s with
  | mk r s' =>
    rw [hrun] at hfirst
    cases r with
    | ok a => exact hf a s' hfirst
    | error stop => exact hfirst

theorem mono (h : Triple P' p Q' E') (hP : ∀ s, P s → P' s) (hQ : ∀ a s, Q' a s → Q a s)
    (hE : ∀ s, E' s → E s) : Triple P p Q E := by
  intro s hs
  have hrun := h s (hP s hs)
  cases hp : p s with
  | mk r s' =>
    rw [hp] at hrun
    cases r with
    | ok a => exact hQ a s' hrun
    | error stop => exact hE s' hrun

theorem pre (h : Triple P' p Q E) (hP : ∀ s, P s → P' s) : Triple P p Q E :=
  h.mono hP (fun _ _ hq => hq) (fun _ he => he)

theorem ite {c : Prop} [Decidable c] {q : Prog σ ε α} (ht : c → Triple P p Q E)
    (hf : ¬ c → Triple P q Q E) : Triple P (if c then p else q) Q E := by
  split
  · exact ht ‹_›
  · exact hf ‹_›

theorem catching {handle : ε → Prog σ ε α} (hp : Triple P p Q E)
    (hhandle : ∀ e, Triple E (handle e) Q E) : Triple P (p.catching handle) Q E := by
  intro s hs
  have hfirst := hp s hs
  unfold Prog.catching
  cases hrun : p s with
  | mk r s' =>
    rw [hrun] at hfirst
    rcases r with stop | a
    · cases stop with
      | raised e => exact hhandle e s' hfirst
      | stuck => exact hfirst
    · exact hfirst

theorem finishing {cleanup : Prog σ ε Unit} (hp : Triple P p Q E)
    (hQ : ∀ a, Triple (Q a) cleanup (fun _ => Q a) E)
    (hE : Triple E cleanup (fun _ => E) E) : Triple P (p.finishing cleanup) Q E := by
  intro s hs
  have hfirst := hp s hs
  unfold Prog.finishing
  cases hrun : p s with
  | mk r s' =>
    rw [hrun] at hfirst
    rcases r with stop | a
    · cases stop with
      | stuck => exact hfirst
      | raised e =>
        have hclean := hE s' hfirst
        dsimp only
        cases hc : cleanup s' with
        | mk r' s'' =>
          rw [hc] at hclean
          cases r' <;> exact hclean
    · have hclean := hQ a s' hfirst
      dsimp only
      cases hc : cleanup s' with
      | mk r' s'' =>
        rw [hc] at hclean
        cases r' <;> exact hclean

end Triple

/-- From a state with `P` the program returns with `Q`, raises with `E`, or is in a loop that is
not at its end, with `S`. -/
def Runs (P : σ → Prop) (p : Prog σ ε α) (Q : α → σ → Prop) (E : ε → σ → Prop) (S : σ → Prop) :
    Prop :=
  ∀ s, P s → match p s with
    | (.ok a, s') => Q a s'
    | (.error (.raised e), s') => E e s'
    | (.error .stuck, s') => S s'

def Never : σ → Prop := fun _ => False

namespace Runs

variable {P P' S S' : σ → Prop} {Q Q' : α → σ → Prop} {R : β → σ → Prop} {E E' : ε → σ → Prop}
  {p : Prog σ ε α} {f : α → Prog σ ε β}

theorem ret {a : α} (h : ∀ s, P s → Q a s) : Runs P (pure a : Prog σ ε α) Q E S :=
  fun s hs => h s hs

theorem raise {e : ε} (h : ∀ s, P s → E e s) : Runs P (Prog.raise e : Prog σ ε α) Q E S :=
  fun s hs => h s hs

theorem stuck (h : ∀ s, P s → S s) : Runs P (Prog.stuck : Prog σ ε α) Q E S :=
  fun s hs => h s hs

theorem bind (hp : Runs P p Q E S) (hf : ∀ a, Runs (Q a) (f a) R E S) :
    Runs P (p >>= f) R E S := by
  intro s hs
  have hfirst := hp s hs
  rw [Prog.bind_apply]
  cases hrun : p s with
  | mk r s' =>
    rw [hrun] at hfirst
    rcases r with stop | a
    · cases stop with
      | raised e => exact hfirst
      | stuck => exact hfirst
    · exact hf a s' hfirst

theorem mono (h : Runs P' p Q' E' S') (hP : ∀ s, P s → P' s) (hQ : ∀ a s, Q' a s → Q a s)
    (hE : ∀ e s, E' e s → E e s) (hS : ∀ s, S' s → S s) : Runs P p Q E S := by
  intro s hs
  have hrun := h s (hP s hs)
  cases hp : p s with
  | mk r s' =>
    rw [hp] at hrun
    rcases r with stop | a
    · cases stop with
      | raised e => exact hE e s' hrun
      | stuck => exact hS s' hrun
    · exact hQ a s' hrun

theorem pre (h : Runs P' p Q E S) (hP : ∀ s, P s → P' s) : Runs P p Q E S :=
  h.mono hP (fun _ _ hq => hq) (fun _ _ he => he) (fun _ hs => hs)

theorem given {c : Prop} (hc : ∀ s, P s → c) (h : c → Runs P p Q E S) : Runs P p Q E S :=
  fun s hs => h (hc s hs) s hs

theorem ite {c : Prop} [Decidable c] {q : Prog σ ε α} (ht : c → Runs P p Q E S)
    (hf : ¬ c → Runs P q Q E S) : Runs P (if c then p else q) Q E S := by
  split
  · exact ht ‹_›
  · exact hf ‹_›

theorem catching {handle : ε → Prog σ ε α} (hp : Runs P p Q E' S)
    (hhandle : ∀ e, Runs (E' e) (handle e) Q E S) : Runs P (p.catching handle) Q E S := by
  intro s hs
  have hfirst := hp s hs
  unfold Prog.catching
  cases hrun : p s with
  | mk r s' =>
    rw [hrun] at hfirst
    rcases r with stop | a
    · cases stop with
      | raised e => exact hhandle e s' hfirst
      | stuck => exact hfirst
    · exact hfirst

theorem finishing {cleanup : Prog σ ε Unit} (hp : Runs P p Q' E' S)
    (hQ : ∀ a, Runs (Q' a) cleanup (fun _ => Q a) E S)
    (hE : ∀ e, Runs (E' e) cleanup (fun _ => E e) E S) : Runs P (p.finishing cleanup) Q E S := by
  intro s hs
  have hfirst := hp s hs
  unfold Prog.finishing
  cases hrun : p s with
  | mk r s' =>
    rw [hrun] at hfirst
    rcases r with stop | a
    · cases stop with
      | stuck => exact hfirst
      | raised e =>
        have hclean := hE e s' hfirst
        dsimp only
        cases hc : cleanup s' with
        | mk r' s'' =>
          rw [hc] at hclean
          rcases r' with stop' | u
          · cases stop' <;> exact hclean
          · exact hclean
    · have hclean := hQ a s' hfirst
      dsimp only
      cases hc : cleanup s' with
      | mk r' s'' =>
        rw [hc] at hclean
        rcases r' with stop' | u
        · cases stop' <;> exact hclean
        · exact hclean

end Runs

def Seen (I : List κ → Prop) (s : σ × List κ) : Prop := I s.2

namespace Triple

variable {I F : List κ → Prop} {K : α → List κ → Prop}

theorem beside (p : Prog σ ε α) (hF : ∀ l, I l → F l) :
    Triple (Seen I) (p.beside : Prog (σ × List κ) ε α) (fun _ => Seen I) (Seen F) := by
  intro s hs
  unfold Prog.beside
  cases hp : p s.1 with
  | mk r s' =>
    cases r with
    | ok a => exact hs
    | error stop => exact hF _ hs

theorem noting_of {note : Except (Stop ε) α → κ} {R : α → Prop} (p : Prog σ ε α)
    (hR : ∀ s a s', p s = (.ok a, s') → R a) (hK : ∀ l a, I l → R a → K a (l ++ [note (.ok a)]))
    (hF : ∀ l stop, I l → F (l ++ [note (.error stop)])) :
    Triple (Seen I) (p.noting note) (fun a => Seen (K a)) (Seen F) := by
  intro s hs
  unfold Prog.noting
  cases hp : p s.1 with
  | mk r s' =>
    cases r with
    | ok a => exact hK _ a hs (hR _ a s' hp)
    | error stop => exact hF _ stop hs

theorem noting {note : Except (Stop ε) α → κ} (p : Prog σ ε α)
    (hK : ∀ l a, I l → K a (l ++ [note (.ok a)]))
    (hF : ∀ l stop, I l → F (l ++ [note (.error stop)])) :
    Triple (Seen I) (p.noting note) (fun a => Seen (K a)) (Seen F) :=
  noting_of (R := fun _ => True) p (fun _ _ _ _ => trivial) (fun l a hl _ => hK l a hl) hF

end Triple

namespace Runs

variable {I S : List κ → Prop} {K : α → List κ → Prop} {F : ε → List κ → Prop}

theorem seen_beside (p : Prog σ ε α) (hK : ∀ a l, I l → K a l) (hF : ∀ e l, I l → F e l)
    (hS : ∀ l, I l → S l) :
    Runs (Seen I) (p.beside : Prog (σ × List κ) ε α) (fun a => Seen (K a)) (fun e => Seen (F e))
      (Seen S) := by
  intro s hs
  unfold Prog.beside
  cases hp : p s.1 with
  | mk r s' =>
    rcases r with stop | a
    · cases stop with
      | raised e => exact hF e _ hs
      | stuck => exact hS _ hs
    · exact hK a _ hs

theorem seen_noting {note : Except (Stop ε) α → κ} (p : Prog σ ε α)
    (hK : ∀ a l, I l → K a (l ++ [note (.ok a)]))
    (hF : ∀ e l, I l → F e (l ++ [note (.error (.raised e))]))
    (hS : ∀ l, I l → S (l ++ [note (.error .stuck)])) :
    Runs (Seen I) (p.noting note) (fun a => Seen (K a)) (fun e => Seen (F e)) (Seen S) := by
  intro s hs
  unfold Prog.noting
  cases hp : p s.1 with
  | mk r s' =>
    rcases r with stop | a
    · cases stop with
      | raised e => exact hF e _ hs
      | stuck => exact hS _ hs
    · exact hK a _ hs

end Runs

def Throughout (G : List κ → κ → Prop) (notes : List κ) : Prop :=
  ∀ before note after, notes = before ++ note :: after → G before note

theorem throughout_nil (G : List κ → κ → Prop) : Throughout G [] := by
  intro before note after h
  simp at h

theorem throughout_snoc {G : List κ → κ → Prop} {notes : List κ} {x : κ} :
    Throughout G (notes ++ [x]) ↔ Throughout G notes ∧ G notes x := by
  constructor
  · intro h
    refine ⟨fun before note after hsplit => ?_, h notes x [] rfl⟩
    exact h before note (after ++ [x]) (by simp [hsplit])
  · rintro ⟨hall, hlast⟩ before note after hsplit
    rcases List.eq_nil_or_concat after with rfl | ⟨after', y, rfl⟩
    · obtain ⟨rfl, hx⟩ := List.append_inj' hsplit rfl
      cases hx
      exact hlast
    · have hshift : notes ++ [x] = (before ++ note :: after') ++ [y] := by simpa using hsplit
      obtain ⟨rfl, -⟩ := List.append_inj' hshift rfl
      exact hall before note after' rfl

end Program
