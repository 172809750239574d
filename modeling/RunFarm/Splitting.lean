import Mathlib.Algebra.Order.Ring.Rat
import Mathlib.Data.Int.CardIntervalMod
import Mathlib.Data.Rat.Floor
import RunFarm.Apportion
import RunFarm.Protocols

/-! `split_configs`: the configs of a campaign over its executors, in turn or by weight. -/
set_option autoImplicit false

namespace RunFarm

variable {κ ε : Type}

/-- `buckets[i % len(executors)].append(c)`, for each config. -/
def deal (n : Nat) (buckets : List (List κ)) (configs : List (κ × Nat)) : List (List κ) :=
  configs.foldl (fun buckets c => buckets.modify (c.2 % n) (· ++ [c.1])) buckets

def exactShares (weights : List ℚ) (n : Nat) : List ℚ := weights.map fun w => w / weights.sum * n

/-- `configs[pos:pos + n]`, for each of the counts. -/
def slices (configs : List κ) : Nat → List Nat → List (List κ)
  | _, [] => []
  | pos, n :: counts => (configs.drop pos).take n :: slices configs (pos + n) counts

def AcceptedWeights (weights : List ℚ) (executors : List ε) : Prop :=
  weights.length = executors.length ∧ 0 < weights.sum ∧ ∀ w ∈ weights, 0 ≤ w

instance (weights : List ℚ) (executors : List ε) : Decidable (AcceptedWeights weights executors) :=
  inferInstanceAs (Decidable (_ ∧ _))

def valueError (text : String) : Exc := ⟨.valueError, none, text⟩

/-- The shares are not negative, so `int` takes their floors. -/
def splitConfigs (configs : List κ) (executors : List ε) (weights : Option (List ℚ)) :
    Except Exc (List (ε × List κ)) :=
  if executors = [] then .error (valueError "need at least one executor")
  else match weights with
    | none => .ok (executors.zip
        (deal executors.length (List.replicate executors.length []) configs.zipIdx))
    | some weights =>
      if AcceptedWeights weights executors then .ok (executors.zip
        (slices configs 0 (Apportion.seats configs.length (exactShares weights configs.length))))
      else .error (valueError ("weights must be one non-negative value per executor with " ++
        "positive sum (a negative weight gives nonsense bucket counts)"))

variable {configs : List κ} {executors : List ε} {weights : List ℚ}

@[simp] theorem length_deal (n : Nat) (buckets : List (List κ)) (cs : List (κ × Nat)) :
    (deal n buckets cs).length = buckets.length := by
  induction cs generalizing buckets with
  | nil => rfl
  | cons c cs ih =>
    have hstep := ih (buckets.modify (c.2 % n) (· ++ [c.1]))
    rw [List.length_modify] at hstep
    exact hstep

theorem getD_deal {n : Nat} {buckets : List (List κ)} {i : Nat} (hi : i < buckets.length)
    (cs : List (κ × Nat)) : (deal n buckets cs).getD i [] =
      buckets.getD i [] ++ (cs.filter (fun c => c.2 % n = i)).map Prod.fst := by
  induction cs generalizing buckets with
  | nil => simp [deal]
  | cons c cs ih =>
    have hfit : i < (buckets.modify (c.2 % n) (· ++ [c.1])).length := by simpa using hi
    have hstep := ih hfit
    simp only [deal, List.foldl_cons] at hstep ⊢
    rw [hstep]
    by_cases hc : c.2 % n = i
    · subst hc
      simp [List.getD_eq_getElem?_getD, hi]
    · simp [List.getD_eq_getElem?_getD, hc]

theorem flatten_modify {buckets : List (List κ)} {i : Nat} (hi : i < buckets.length) (c : κ) :
    (buckets.modify i (· ++ [c])).flatten.Perm (buckets.flatten ++ [c]) := by
  induction buckets generalizing i with
  | nil => simp at hi
  | cons bucket buckets ih =>
    cases i with
    | zero =>
      simp only [List.modify_zero_cons, List.flatten_cons, List.append_assoc]
      exact List.perm_append_comm.append_left bucket
    | succ i =>
      simp only [List.modify_succ_cons, List.flatten_cons, List.append_assoc]
      exact (ih (by simpa using hi)).append_left bucket

theorem deal_perm {n : Nat} {buckets : List (List κ)} (hn : 0 < n) (hlen : buckets.length = n)
    (cs : List (κ × Nat)) :
    (deal n buckets cs).flatten.Perm (buckets.flatten ++ cs.map Prod.fst) := by
  induction cs generalizing buckets with
  | nil => simp [deal]
  | cons c cs ih =>
    have hi : c.2 % n < buckets.length := by
      rw [hlen]
      exact Nat.mod_lt _ hn
    have hfit : (buckets.modify (c.2 % n) (· ++ [c.1])).length = n := by simpa using hlen
    have hstep := ih hfit
    simp only [deal, List.foldl_cons] at hstep ⊢
    refine hstep.trans ?_
    simpa using (flatten_modify hi c.1).append_right (cs.map Prod.fst)

theorem countP_range (P : Nat → Prop) [DecidablePred P] (k : Nat) :
    (List.range k).countP (fun j => P j) = k.count P := by
  induction k with
  | zero => rfl
  | succ k ih => simp [List.range_succ, ih, Nat.count_succ, List.countP_cons]

theorem length_dealt {n : Nat} (hn : 0 < n) {i : Nat} (hi : i < n) (configs : List κ) :
    ((deal n (List.replicate n []) configs.zipIdx).getD i []).length =
      configs.length / n + if i < configs.length % n then 1 else 0 := by
  have hcount := Nat.count_modEq_card configs.length hn i
  simp only [Nat.ModEq, Nat.mod_eq_of_lt hi] at hcount
  rw [getD_deal (by simpa using hi)]
  have hplaces : (configs.zipIdx.filter fun c => c.2 % n = i).length =
      (List.range configs.length).countP fun j => j % n = i := by
    rw [← List.countP_eq_length_filter, List.range_eq_range', ← List.zipIdx_map_snd 0 configs,
      List.countP_map]
    rfl
  simp only [List.length_append, List.length_map, hplaces, countP_range]
  simpa [List.getD_eq_getElem?_getD, hi] using hcount

theorem length_slices (configs : List κ) (pos : Nat) (counts : List Nat) :
    (slices configs pos counts).length = counts.length := by
  induction counts generalizing pos with
  | nil => rfl
  | cons n counts ih => simp [slices, ih]

theorem flatten_slices (configs : List κ) (pos : Nat) (counts : List Nat) :
    (slices configs pos counts).flatten = (configs.drop pos).take counts.sum := by
  induction counts generalizing pos with
  | nil => simp [slices]
  | cons n counts ih =>
    rw [slices, List.flatten_cons, ih, List.sum_cons, List.take_add, List.drop_drop]

theorem getD_slices (configs : List κ) (pos : Nat) {counts : List Nat}
    (hfit : pos + counts.sum ≤ configs.length) (i : Nat) :
    ((slices configs pos counts).getD i []).length = counts.getD i 0 := by
  induction counts generalizing pos i with
  | nil => simp [slices]
  | cons n counts ih =>
    rw [List.sum_cons] at hfit
    cases i with
    | zero =>
      simp [slices]
      omega
    | succ i =>
      have hstep := ih (pos + n) (by omega) i
      simpa [slices] using hstep

theorem AcceptedWeights.shares (h : AcceptedWeights weights executors) (n : Nat) :
    Apportion.Shares n (exactShares weights n) := by
  obtain ⟨-, htotal, hnonneg⟩ := h
  constructor
  · intro x hx
    obtain ⟨w, hw, rfl⟩ := List.mem_map.mp hx
    have := hnonneg w hw
    positivity
  · have hsum : ∀ ws : List ℚ, (ws.map fun w => w / weights.sum * n).sum =
        ws.sum / weights.sum * n := by
      intro ws
      induction ws with
      | nil => simp
      | cons w ws ih =>
        rw [List.map_cons, List.sum_cons, ih, List.sum_cons]
        ring
    rw [exactShares, hsum, div_self htotal.ne', one_mul]

/-- The configs of the executor at place `i`. -/
def bucket (assignments : List (ε × List κ)) (i : Nat) : List κ :=
  (assignments.map Prod.snd).getD i []

theorem splitConfigs_ok {weights : Option (List ℚ)} {assignments : List (ε × List κ)}
    (h : splitConfigs configs executors weights = .ok assignments) :
    executors ≠ [] ∧ ∃ buckets : List (List κ), assignments = executors.zip buckets ∧
      buckets.length = executors.length ∧
      ((weights = none ∧ buckets =
          deal executors.length (List.replicate executors.length []) configs.zipIdx) ∨
        ∃ ws, weights = some ws ∧ AcceptedWeights ws executors ∧ buckets =
          slices configs 0 (Apportion.seats configs.length (exactShares ws configs.length))) := by
  unfold splitConfigs at h
  split at h
  · cases h
  · rename_i hex
    split at h
    · cases h
      exact ⟨hex, _, rfl, by simp, .inl ⟨rfl, rfl⟩⟩
    · split at h
      · rename_i ws hws
        cases h
        refine ⟨hex, _, rfl, ?_, .inr ⟨ws, rfl, hws, rfl⟩⟩
        rw [length_slices, Apportion.length_seats, exactShares, List.length_map, hws.1]
      · cases h

theorem map_snd_zip {buckets : List (List κ)} (hlen : buckets.length = executors.length) :
    (executors.zip buckets).map Prod.snd = buckets := by
  rw [List.map_snd_zip (by omega)]

theorem deal_even (hex : executors ≠ []) {a b : List κ}
    (ha : a ∈ deal executors.length (List.replicate executors.length []) configs.zipIdx)
    (hb : b ∈ deal executors.length (List.replicate executors.length []) configs.zipIdx) :
    a.length ≤ b.length + 1 := by
  have hn : 0 < executors.length := List.length_pos_of_ne_nil hex
  have hlen : ∀ c ∈ deal executors.length (List.replicate executors.length []) configs.zipIdx,
      configs.length / executors.length ≤ c.length ∧
        c.length ≤ configs.length / executors.length + 1 := by
    intro c hc
    obtain ⟨i, hi, rfl⟩ := List.mem_iff_getElem.mp hc
    have hplace : i < executors.length := by simpa using hi
    have hcount := length_dealt hn hplace configs
    rw [List.getD_eq_getElem _ _ hi] at hcount
    rw [hcount]
    split <;> omega
  have := hlen a ha
  have := hlen b hb
  omega

theorem slices_share (h : AcceptedWeights weights executors) (configs : List κ) :
    (slices configs 0
      (Apportion.seats configs.length (exactShares weights configs.length))).flatten = configs ∧
    ∀ i < executors.length,
      |(((slices configs 0 (Apportion.seats configs.length
        (exactShares weights configs.length))).getD i []).length : ℚ) -
          weights.getD i 0 / weights.sum * configs.length| < 1 ∧
      (weights.getD i 0 = 0 → (slices configs 0 (Apportion.seats configs.length
        (exactShares weights configs.length))).getD i [] = []) := by
  have hshares := h.shares configs.length
  have htotal := hshares.sum_seats
  refine ⟨by simp [flatten_slices, htotal], fun i hi => ?_⟩
  have hplace : i < (exactShares weights configs.length).length := by
    rw [exactShares, List.length_map, h.1]
    exact hi
  have hshare : (exactShares weights configs.length).getD i 0 =
      weights.getD i 0 / weights.sum * configs.length := by
    have hw : i < weights.length := h.1 ▸ hi
    simp [exactShares, List.getD_eq_getElem?_getD, hw]
  have hlength := getD_slices configs 0 (by rw [htotal]; omega) i
  have hnear := hshares.seats_near hplace
  rw [hshare] at hnear
  refine ⟨by rw [hlength]; exact hnear, fun hzero => ?_⟩
  refine List.eq_nil_of_length_eq_zero ?_
  rw [hlength]
  exact hshares.seats_zero hplace (by rw [hshare, hzero]; simp)

/-- No config is dropped or assigned twice: in turn the buckets are even, by weight each is less
than one config away from its share. -/
theorem split_configs_partitions (configs : List κ) (executors : List ε)
    (weights : Option (List ℚ)) (assignments : List (ε × List κ))
    (h : splitConfigs configs executors weights = .ok assignments) :
    assignments.map Prod.fst = executors ∧
    (assignments.map Prod.snd).flatten.Perm configs ∧
    (weights = none →
      (∀ i < executors.length, bucket assignments i =
        (configs.zipIdx.filter fun c => c.2 % executors.length = i).map Prod.fst) ∧
      ∀ a ∈ assignments, ∀ b ∈ assignments, a.2.length ≤ b.2.length + 1) ∧
    ∀ ws, weights = some ws →
      (assignments.map Prod.snd).flatten = configs ∧
      ∀ i < executors.length,
        |((bucket assignments i).length : ℚ) - ws.getD i 0 / ws.sum * configs.length| < 1 ∧
        (ws.getD i 0 = 0 → bucket assignments i = []) := by
  obtain ⟨hex, buckets, rfl, hlen, hkind⟩ := splitConfigs_ok h
  refine ⟨List.map_fst_zip (by omega), ?_⟩
  simp only [bucket, map_snd_zip hlen]
  rcases hkind with ⟨rfl, rfl⟩ | ⟨ws, rfl, haccepted, rfl⟩
  · refine ⟨?_, fun _ => ⟨fun i hi => ?_, fun a ha b hb => ?_⟩, fun ws hws => by cases hws⟩
    · have hn := List.length_pos_of_ne_nil hex
      have hempty : (List.replicate executors.length ([] : List κ)).length = executors.length :=
        List.length_replicate
      simpa using deal_perm hn hempty configs.zipIdx
    · rw [getD_deal (by simpa using hi)]
      simp [List.getD_eq_getElem?_getD, hi]
    · exact deal_even hex (List.of_mem_zip ha).2 (List.of_mem_zip hb).2
  · obtain ⟨hall, hbuckets⟩ := slices_share haccepted configs
    refine ⟨by rw [hall], fun hnone => (by cases hnone), fun ws' hws => ?_⟩
    cases hws
    exact ⟨hall, hbuckets⟩

theorem threeToOne_partitions :
    |((bucket [("vast", [0, 1, 2, 3]), ("modal", [4])] 0).length : ℚ) - 3 / 4 * 5| < 1 := by
  have hsplit : splitConfigs [0, 1, 2, 3, 4] ["vast", "modal"] (some [3, 1]) =
      .ok [("vast", [0, 1, 2, 3]), ("modal", [4])] := by decide +kernel
  have hshare := (split_configs_partitions _ _ _ _ hsplit).2.2.2 [3, 1] rfl
  have hfirst := (hshare.2 0 (by decide)).1
  norm_num at hfirst ⊢
  exact hfirst

end RunFarm
