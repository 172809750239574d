import RunFarm.Reap

/-! What the provider answers to the `destroy` calls of a reap run: the run is the same in
a world that notes its answers down, and they say which boxes it takes for killed. -/
set_option autoImplicit false

namespace RunFarm

/-- The same world, which notes down what it answers to each `destroy`. -/
def World.noting {σ : Type} (W : World σ) :
    World (σ × List (InstanceId × Except Exc Unit)) where
  listInstances s := ((W.listInstances s.1).1, (W.listInstances s.1).2, s.2)
  destroy iid s :=
    let (answer, w) := W.destroy iid s.1
    (answer, w, s.2 ++ [(iid, answer)])
  time s := ((W.time s.1).1, (W.time s.1).2, s.2)
  sleep n s := (W.sleep n s.1, s.2)

def acknowledges : Except Exc Unit → Bool
  | .ok _ => true
  | .error e => classify e = .gone

def Acknowledged (answers : List (InstanceId × Except Exc Unit)) (iid : String) : Prop :=
  ∃ a ∈ answers, a.1.str = iid ∧ acknowledges a.2 = true

instance (answers : List (InstanceId × Except Exc Unit)) (iid : String) :
    Decidable (Acknowledged answers iid) :=
  inferInstanceAs (Decidable (∃ a ∈ answers, a.1.str = iid ∧ acknowledges a.2 = true))

theorem acknowledged_append {a b : List (InstanceId × Except Exc Unit)} {iid : String} :
    Acknowledged (a ++ b) iid ↔ Acknowledged a iid ∨ Acknowledged b iid := by
  simp only [Acknowledged, List.mem_append, or_and_right, exists_or]

theorem acknowledged_single {id : InstanceId} {answer : Except Exc Unit} {iid : String} :
    Acknowledged [(id, answer)] iid ↔ id.str = iid ∧ acknowledges answer = true := by
  simp [Acknowledged]

section
variable {σ : Type} (W : World σ)

theorem destroyFrom_noting (iid : InstanceId) (attempt left : Nat) (w : σ)
    (notes : List (InstanceId × Except Exc Unit)) :
    ∃ new, destroyFrom W.noting iid attempt left (w, notes) =
        ((destroyFrom W iid attempt left w).1, (destroyFrom W iid attempt left w).2,
          notes ++ new) ∧
      ∀ s, Acknowledged new s ↔
        iid.str = s ∧ (destroyFrom W iid attempt left w).1 ≠ .failed := by
  induction left generalizing attempt w notes with
  | zero => exact ⟨[], by simp [destroyFrom], fun s => by simp [Acknowledged, destroyFrom]⟩
  | succ left ih =>
    have hnote : W.noting.destroy iid (w, notes) =
        ((W.destroy iid w).1, (W.destroy iid w).2, notes ++ [(iid, (W.destroy iid w).1)]) := rfl
    unfold destroyFrom
    rw [hnote]
    cases hanswer : W.destroy iid w with
    | mk answer w₁ =>
      have hlast (status : DestroyStatus) (h : acknowledges answer = true ↔ status ≠ .failed) :
          ∃ new, (status, w₁, notes ++ [(iid, answer)]) = (status, w₁, notes ++ new) ∧
            ∀ s, Acknowledged new s ↔ iid.str = s ∧ status ≠ .failed :=
        ⟨[(iid, answer)], rfl, fun s => by rw [acknowledged_single, h]⟩
      cases answer with
      | ok u => exact hlast .destroyed (by simp [acknowledges])
      | error e =>
        dsimp only
        cases hclass : classify e with
        | gone => exact hlast .gone (by simp [acknowledges, hclass])
        | auth => exact hlast .failed (by simp [acknowledges, hclass])
        | bug => exact hlast .failed (by simp [acknowledges, hclass])
        | transient =>
          dsimp only
          have hno : acknowledges (.error e) = false := by simp [acknowledges, hclass]
          by_cases hleft : left = 0
          · simp only [hleft, if_true]
            exact hlast .failed (by simp [hno])
          · simp only [hleft, if_false]
            obtain ⟨new, hrun, hnew⟩ :=
              ih (attempt + 1) (W.sleep (2 ^ attempt) w₁) (notes ++ [(iid, .error e)])
            refine ⟨(iid, .error e) :: new, ?_, fun s => ?_⟩
            · rw [List.append_assoc] at hrun
              exact hrun
            · rw [← hnew s, ← List.singleton_append, acknowledged_append, acknowledged_single]
              simp [hno]

theorem destroyAll_noting (retries : Nat) (targets : List Instance) (o : Outcomes) (w : σ)
    (notes : List (InstanceId × Except Exc Unit)) :
    ∃ new, destroyAll W.noting retries targets o (w, notes) =
        ((destroyAll W retries targets o w).1, (destroyAll W retries targets o w).2,
          notes ++ new) ∧
      ∀ s, s ∈ (destroyAll W retries targets o w).1.killed ↔
        s ∈ o.killed ∨ Acknowledged new s := by
  induction targets generalizing o w notes with
  | nil => exact ⟨[], by simp [destroyAll], fun s => by simp [destroyAll, Acknowledged]⟩
  | cons i targets ih =>
    obtain ⟨first, hfirst, hack⟩ := destroyFrom_noting W i.id 0 retries w notes
    obtain ⟨rest, hrest, hkilled⟩ := ih (o.add i (destroyFrom W i.id 0 retries w).1)
      (destroyFrom W i.id 0 retries w).2 (notes ++ first)
    refine ⟨first ++ rest, ?_, fun s => ?_⟩
    · simp only [destroyAll, destroyWithRetry, hfirst, hrest, List.append_assoc]
    · simp only [destroyAll, destroyWithRetry]
      rw [hkilled, killed_add, acknowledged_append, hack, or_assoc]

theorem keepOlder_noting (olderThan : ℚ) (l : List Instance) (w : σ)
    (notes : List (InstanceId × Except Exc Unit)) :
    keepOlder W.noting olderThan l (w, notes) =
      ((keepOlder W olderThan l w).1, (keepOlder W olderThan l w).2, notes) := by
  induction l generalizing w with
  | nil => rfl
  | cons i rest ih =>
    unfold keepOlder
    cases i.start with
    | none => exact ih w
    | some start =>
      have htime : W.noting.time (w, notes) = ((W.time w).1, (W.time w).2, notes) := rfl
      simp only [htime, ih (W.time w).2]

theorem targetsOf_noting (args : ReapArgs) (ledger : Option (List Row)) (live : List Instance)
    (w : σ) (notes : List (InstanceId × Except Exc Unit)) :
    targetsOf W.noting args ledger live (w, notes) =
      ((targetsOf W args ledger live w).1, (targetsOf W args ledger live w).2, notes) := by
  unfold targetsOf
  cases args.olderThan with
  | none => rfl
  | some olderThan => exact keepOlder_noting W olderThan _ w notes

def listedFor (args : ReapArgs) (w : σ) : Except Exc (List Instance) × σ :=
  match args.live with
  | some live => (.ok live, w)
  | none => W.listInstances w

theorem listing_ledger (args : ReapArgs) (rows : List Row) (w : σ) :
    listing W args (some rows) w = listedFor W args w := by
  unfold listing listedFor
  cases args.live with
  | some live => simp
  | none =>
    cases W.listInstances w with
    | mk result w₁ => cases result <;> simp

theorem sweep_noting {args : ReapArgs} (hreal : args.dryRun = false) (rows : List Row) (w : σ) :
    ∃ answers, sweep W.noting args (some rows) (w, []) =
        ((sweep W args (some rows) w).1, (sweep W args (some rows) w).2, answers) ∧
      match (sweep W args (some rows) w).1 with
      | .ok s => ∀ iid, iid ∈ s.outcomes.killed ↔ Acknowledged answers iid
      | .error _ => answers = [] := by
  have hlist : listedFor W.noting args (w, []) =
      ((listedFor W args w).1, (listedFor W args w).2, []) := by
    unfold listedFor
    cases args.live <;> rfl
  unfold sweep
  rw [listing_ledger, listing_ledger, hlist]
  cases listedFor W args w with
  | mk result w₁ =>
    cases result with
    | error e => exact ⟨[], rfl, rfl⟩
    | ok live =>
      obtain ⟨answers, hrun, hkilled⟩ := destroyAll_noting W args.retries
        (targetsOf W args (some rows) live w₁).1 {} (targetsOf W args (some rows) live w₁).2 []
      refine ⟨answers, ?_, ?_⟩
      · simp [targetsOf_noting, hreal, hrun]
      · simpa [hreal, Outcomes.killed] using hkilled

end

end RunFarm
