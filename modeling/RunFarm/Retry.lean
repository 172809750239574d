import Mathlib.Data.List.Basic

/-! A loop that asks again until an answer ends it, a bounded number of times, the answers that
it gets on the way, and a world that notes them. -/
set_option autoImplicit false

namespace Retry

variable {σ τ ρ α κ : Type}

/-- `left` attempts; `done` is given how many are left after this one. -/
def retry (ask : σ → ρ × σ) (done : Nat → ρ → Option α) (pause : Nat → σ → σ) :
    Nat → σ → Option α × σ
  | 0, w => (none, w)
  | left + 1, w =>
    match ask w with
    | (r, w) =>
      match done left r with
      | some a => (some a, w)
      | none => retry ask done pause left (pause left w)

/-- The answers of a loop that may ask `left` times, and its result. -/
inductive Tried (done : Nat → ρ → Option α) : Nat → List ρ → Option α → Prop where
  | out : Tried done 0 [] none
  | stop {left : Nat} {r : ρ} {a : α} (ends : done left r = some a) :
      Tried done (left + 1) [r] (some a)
  | again {left : Nat} {r : ρ} {rs : List ρ} {result : Option α} (goesOn : done left r = none)
      (rest : Tried done left rs result) : Tried done (left + 1) (r :: rs) result

def logged (note : ρ → κ) (ask : σ → ρ × σ) (s : σ × List κ) : ρ × (σ × List κ) :=
  ((ask s.1).1, (ask s.1).2, s.2 ++ [note (ask s.1).1])

variable {ask : σ → ρ × σ} {done : Nat → ρ → Option α} {pause : Nat → σ → σ} {n : Nat}
  {rs : List ρ} {result : Option α} {w : σ}

theorem retry_answers (note : ρ → κ) (ask : σ → ρ × σ) (done : Nat → ρ → Option α)
    (pause : Nat → σ → σ) (n : Nat) (w : σ) (log : List κ) :
    ∃ rs, Tried done n rs (retry ask done pause n w).1 ∧
      retry (logged note ask) done (fun k s => (pause k s.1, s.2)) n (w, log) =
        ((retry ask done pause n w).1, (retry ask done pause n w).2, log ++ rs.map note) ∧
      ∀ r ∈ rs, ∃ w', (ask w').1 = r := by
  induction n generalizing w log with
  | zero => exact ⟨[], .out, by simp [retry], by simp⟩
  | succ n ih =>
    cases hask : ask w with
    | mk r w₁ =>
      have hfirst : ∃ w', (ask w').1 = r := ⟨w, by rw [hask]⟩
      cases hdone : done n r with
      | some a =>
        refine ⟨[r], ?_, ?_, by simpa using hfirst⟩
        · simp only [retry, hask, hdone]
          exact .stop hdone
        · simp [retry, logged, hask, hdone]
      | none =>
        obtain ⟨rs, htried, hrun, hasked⟩ := ih (pause n w₁) (log ++ [note r])
        refine ⟨r :: rs, ?_, ?_, List.forall_mem_cons.mpr ⟨hfirst, hasked⟩⟩
        · simp only [retry, hask, hdone]
          exact .again hdone htried
        · simp [retry, logged, hask, hdone, hrun]

theorem retry_logged (note : ρ → κ) (ask : σ → ρ × σ) (done : Nat → ρ → Option α)
    (pause : Nat → σ → σ) (n : Nat) (w : σ) (log : List κ) :
    ∃ rs, Tried done n rs (retry ask done pause n w).1 ∧
      retry (logged note ask) done (fun k s => (pause k s.1, s.2)) n (w, log) =
        ((retry ask done pause n w).1, (retry ask done pause n w).2, log ++ rs.map note) := by
  obtain ⟨rs, htried, hrun, _⟩ := retry_answers note ask done pause n w log
  exact ⟨rs, htried, hrun⟩

theorem retry_map {ask' : σ → τ × σ} (g : τ → ρ) (h : ∀ w, ask w = (g (ask' w).1, (ask' w).2)) :
    retry ask' (fun left r => done left (g r)) pause n w = retry ask done pause n w := by
  induction n generalizing w with
  | zero => rfl
  | succ n ih =>
    simp only [retry, h w]
    cases done n (g (ask' w).1) with
    | some a => rfl
    | none => exact ih

/-- `g` answers as `f` does, from states that are related, and leaves related states. -/
def Follows (R : σ → τ → Prop) (f : σ → ρ × σ) (g : τ → ρ × τ) : Prop :=
  ∀ w t, R w t → (f w).1 = (g t).1 ∧ R (f w).2 (g t).2

theorem Follows.run {R : σ → τ → Prop} {f : σ → ρ × σ} {g : τ → ρ × τ} {t : τ}
    (h : Follows R f g) (hR : R w t) :
    ∃ r w' t', f w = (r, w') ∧ g t = (r, t') ∧ R w' t' := by
  obtain ⟨hfst, hsnd⟩ := h w t hR
  exact ⟨(f w).1, (f w).2, (g t).2, rfl, by rw [hfst], hsnd⟩

theorem bind_run {β : Type} (f : StateM σ ρ) (k : ρ → StateM σ β) (w : σ) :
    (f >>= k) w = k (f w).1 (f w).2 := rfl

theorem pure_run {β : Type} (b : β) (w : σ) : (Pure.pure b : StateM σ β) w = (b, w) := rfl

section
variable {β : Type} {R : σ → τ → Prop} {f : StateM σ ρ} {g : StateM τ ρ}

theorem Follows.pure (b : β) :
    Follows R (Pure.pure b : StateM σ β) (Pure.pure b : StateM τ β) :=
  fun _ _ hR => ⟨rfl, hR⟩

theorem Follows.bind {k : ρ → StateM σ β} {k' : ρ → StateM τ β} (h : Follows R f g)
    (hk : ∀ r, Follows R (k r) (k' r)) : Follows R (f >>= k) (g >>= k') := by
  intro w t hR
  obtain ⟨r, w', t', hw, ht, hR'⟩ := h.run hR
  rw [bind_run, bind_run, hw, ht]
  exact hk r w' t' hR'

end

theorem retry_follows {R : σ → τ → Prop} {ask' : τ → ρ × τ} {pause' : Nat → τ → τ}
    (hask : Follows R ask ask') (hpause : ∀ k w t, R w t → R (pause k w) (pause' k t)) :
    Follows R (retry ask done pause n) (retry ask' done pause' n) := by
  induction n with
  | zero => exact fun w t h => ⟨rfl, h⟩
  | succ n ih =>
    intro w t h
    obtain ⟨hfst, hsnd⟩ := hask w t h
    simp only [retry, hfst]
    cases done n (ask' t).1 with
    | some a => exact ⟨rfl, hsnd⟩
    | none => exact ih _ _ (hpause n _ _ hsnd)

/-- The state is the one of the plain run, and the notes since `log` are of one kind. -/
def Noted (Q : κ → Prop) (log : List κ) (w : σ) (s : σ × List κ) : Prop :=
  s.1 = w ∧ ∃ notes, s.2 = log ++ notes ∧ ∀ x ∈ notes, Q x

variable {Q : κ → Prop} {log : List κ}

theorem Noted.refl (w : σ) : Noted Q log w (w, log) := ⟨rfl, [], by simp, by simp⟩

theorem Noted.snoc {s : σ × List κ} {x : κ} (h : Noted Q log w s) (hx : Q x) (w' : σ) :
    Noted Q log w' (w', s.2 ++ [x]) := by
  obtain ⟨-, notes, hlog, hall⟩ := h
  refine ⟨rfl, notes ++ [x], by rw [hlog, List.append_assoc], fun y hy => ?_⟩
  rcases List.mem_append.mp hy with hy | hy
  · exact hall y hy
  · rwa [List.mem_singleton.mp hy]

theorem Noted.move {s : σ × List κ} (h : Noted Q log w s) (f : σ → σ) :
    Noted Q log (f w) (f s.1, s.2) := by
  obtain ⟨rfl, hnotes⟩ := h
  exact ⟨rfl, hnotes⟩

theorem logged_follows {note : ρ → κ} (hnote : ∀ r, Q (note r)) :
    Follows (Noted Q log) ask (logged note ask) := by
  intro w s h
  obtain ⟨rfl, -⟩ := id h
  exact ⟨rfl, h.snoc (hnote _) _⟩

theorem retry_some {a : α} (h : (retry ask done pause n w).1 = some a) :
    ∃ w' left, done left (ask w').1 = some a := by
  induction n generalizing w with
  | zero => cases h
  | succ n ih =>
    cases hdone : done n (ask w).1 with
    | some b =>
      simp only [retry, hdone, Option.some.injEq] at h
      exact ⟨w, n, by rw [hdone, h]⟩
    | none =>
      simp only [retry, hdone] at h
      exact ih h

namespace Tried

theorem length_le (h : Tried done n rs result) : rs.length ≤ n := by
  induction h with
  | out => simp
  | stop ends => simp
  | again goesOn rest ih =>
    simp only [List.length_cons]
    omega

theorem dropLast_again (h : Tried done n rs result) :
    ∀ r ∈ rs.dropLast, ∃ left, left + 1 ≤ n ∧ done left r = none := by
  induction h with
  | out => simp
  | stop ends => simp
  | @again left r rs result goesOn rest ih =>
    intro r' hr'
    cases rs with
    | nil => simp at hr'
    | cons r₂ rs =>
      rw [List.dropLast_cons_of_ne_nil (by simp), List.mem_cons] at hr'
      rcases hr' with rfl | hr'
      · exact ⟨left, by omega, goesOn⟩
      · obtain ⟨k, hk, hnone⟩ := ih r' hr'
        exact ⟨k, by omega, hnone⟩

theorem exhausted (h : Tried done n rs result) (hnone : result = none) :
    rs.length = n ∧ ∀ r ∈ rs, ∃ left, done left r = none := by
  induction h with
  | out => simp
  | stop ends => cases hnone
  | @again left r rs result goesOn rest ih =>
    obtain ⟨hlen, hall⟩ := ih hnone
    refine ⟨by simp [hlen], fun r' hr' => ?_⟩
    rcases List.mem_cons.mp hr' with rfl | hr'
    · exact ⟨left, goesOn⟩
    · exact hall r' hr'

theorem answered {a : α} (h : Tried done n rs result) (hsome : result = some a) :
    ∃ left r, rs.getLast? = some r ∧ done left r = some a ∧ left + rs.length = n := by
  induction h with
  | out => cases hsome
  | @stop left r a' ends =>
    cases hsome
    exact ⟨left, r, rfl, ends, rfl⟩
  | @again left r rs result goesOn rest ih =>
    obtain ⟨k, r', hlast, hdone, hlen⟩ := ih hsome
    refine ⟨k, r', ?_, hdone, by simp only [List.length_cons]; omega⟩
    cases rs with
    | nil => cases hlast
    | cons r₂ rs => rwa [List.getLast?_cons_cons]

theorem isSome (hlast : ∀ r, done 0 r ≠ none) (h : Tried done n rs result) (hn : 1 ≤ n) :
    ∃ a, result = some a := by
  induction h with
  | out => omega
  | @stop left r a ends => exact ⟨a, rfl⟩
  | @again left r rs result goesOn rest ih =>
    cases left with
    | zero => exact absurd goesOn (hlast r)
    | succ left => exact ih (by omega)

end Tried

end Retry
