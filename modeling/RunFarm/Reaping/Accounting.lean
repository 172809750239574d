import RunFarm.Answers
import RunFarm.Retry

/-! What a `reap` call destroys and what it reports: the `destroy` calls of a run are the attempts
on its targets, one target after the other, and each target is in one bucket. -/
set_option autoImplicit false

namespace RunFarm

/-- Whether an answer ends the attempts, with `left` of them still to make. -/
def verdict (left : Nat) : Except Exc Unit → Option DestroyStatus
  | .ok _ => some .destroyed
  | .error e =>
    match classify e with
    | .gone => some .gone
    | .auth | .bug => some .failed
    | .transient => if left = 0 then some .failed else none

/-- The `k`-th reading of the clock from here. -/
def readClock {σ : Type} (W : World σ) : Nat → σ → ℚ
  | 0, w => (W.time w).1
  | k + 1, w => readClock W k (W.time w).2

/-- The answers to the attempts on one target and the status they end in. -/
structure DestroyTried (retries : Nat) (answers : List (Except Exc Unit)) (status : DestroyStatus) :
    Prop where
  bound : answers.length ≤ retries
  goesOn : ∀ answer ∈ answers.dropLast, ∃ e, answer = .error e ∧ classify e = .transient
  destroyed : status = .destroyed ↔ answers.getLast? = some (.ok ())
  gone : status = .gone ↔ ∃ e, answers.getLast? = some (.error e) ∧ classify e = .gone
  failed : status = .failed → answers.length = retries ∨
    ∃ e, answers.getLast? = some (.error e) ∧ (classify e = .auth ∨ classify e = .bug)

/-- One target of a run, the answers of the provider and its bucket. -/
structure Reaped where
  target : Instance
  answers : List (Except Exc Unit)
  status : DestroyStatus

namespace Reaped

def calls (r : Reaped) : List (InstanceId × Except Exc Unit) := r.answers.map (r.target.id, ·)

def ids (status : DestroyStatus) (rs : List Reaped) : List InstanceId :=
  (rs.filter (·.status = status)).map (·.target.id)

def dph (rs : List Reaped) : ℚ := ((rs.filter (·.status ≠ .failed)).map (·.target.dph)).sum

end Reaped

/-- The instance passes every filter that is given. Its age is read off the clock while the
listing is filtered. -/
structure Passes {σ : Type} (W : World σ) (args : ReapArgs) (ledger : Option (List Row)) (w : σ)
    (live : List Instance) (i : Instance) : Prop where
  listed : i ∈ live
  leaked : ∀ rows, ledger = some rows → i.id.str ∈ leakedIds rows
  label : ∀ label, args.label = some label → i.label = some label
  old : ∀ olderThan, args.olderThan = some olderThan → ∃ start k, i.start = some start ∧
    k < live.length ∧ olderThan ≤ max 0 (readClock W k w - start)

section
variable {σ : Type} (W : World σ)

theorem destroyFrom_retry (iid : InstanceId) (attempt left : Nat) (w : σ) :
    destroyFrom W iid attempt left w =
      ((Retry.retry (W.destroy iid) verdict
          (fun k => W.sleep (2 ^ (attempt + left - 1 - k))) left w).1.getD .failed,
        (Retry.retry (W.destroy iid) verdict
          (fun k => W.sleep (2 ^ (attempt + left - 1 - k))) left w).2) := by
  induction left generalizing attempt w with
  | zero => rfl
  | succ left ih =>
    unfold destroyFrom Retry.retry
    cases W.destroy iid w with
    | mk answer w₁ =>
      cases answer with
      | ok u => rfl
      | error e =>
        cases hclass : classify e with
        | gone => simp [verdict, hclass]
        | auth => simp [verdict, hclass]
        | bug => simp [verdict, hclass]
        | transient =>
          by_cases hleft : left = 0
          · simp [verdict, hclass, hleft]
          · have hpause : attempt + (left + 1) - 1 - left = attempt := by omega
            have htotal : attempt + 1 + left - 1 = attempt + (left + 1) - 1 := by omega
            simp only [verdict, hclass, hleft, if_false, hpause]
            rw [ih, htotal]

theorem destroyTried_of_tried {retries : Nat} {answers : List (Except Exc Unit)}
    {result : Option DestroyStatus} (h : Retry.Tried verdict retries answers result) :
    DestroyTried retries answers (result.getD .failed) := by
  have hgoesOn : ∀ answer ∈ answers.dropLast,
      ∃ e, answer = .error e ∧ classify e = .transient := by
    intro answer hmem
    obtain ⟨left, _, hnone⟩ := h.dropLast_again answer hmem
    cases answer with
    | ok u => cases hnone
    | error e => cases hclass : classify e <;> simp_all [verdict]
  cases result with
  | none =>
    have hzero : retries = 0 := by
      by_contra hpos
      obtain ⟨status, hstatus⟩ := h.isSome
        (fun r => by cases r <;> simp [verdict]; split <;> simp) (by omega)
      cases hstatus
    have hnil : answers = [] := by
      have hlen := h.length_le
      exact List.length_eq_zero_iff.mp (by omega)
    subst hzero hnil
    exact ⟨by simp, hgoesOn, by simp, by simp, by simp⟩
  | some status =>
    obtain ⟨left, answer, hlast, hends, hlen⟩ := h.answered rfl
    rw [Option.getD_some]
    cases answer with
    | ok u =>
      cases hends
      exact ⟨h.length_le, hgoesOn, by simp [hlast], by simp [hlast], by simp⟩
    | error e =>
      cases hclass : classify e with
      | transient =>
        have hleft : left = 0 ∧ status = .failed := by
          simp only [verdict, hclass] at hends
          split at hends <;> simp_all
        obtain ⟨rfl, rfl⟩ := hleft
        exact ⟨h.length_le, hgoesOn, by simp [hlast], by simp [hlast, hclass],
          fun _ => .inl (by omega)⟩
      | gone =>
        obtain rfl : status = .gone := by simpa [verdict, hclass, eq_comm] using hends
        exact ⟨h.length_le, hgoesOn, by simp [hlast], by simp [hlast, hclass], by simp⟩
      | auth =>
        obtain rfl : status = .failed := by simpa [verdict, hclass, eq_comm] using hends
        exact ⟨h.length_le, hgoesOn, by simp [hlast], by simp [hlast, hclass],
          fun _ => .inr ⟨e, hlast, .inl hclass⟩⟩
      | bug =>
        obtain rfl : status = .failed := by simpa [verdict, hclass, eq_comm] using hends
        exact ⟨h.length_le, hgoesOn, by simp [hlast], by simp [hlast, hclass],
          fun _ => .inr ⟨e, hlast, .inr hclass⟩⟩

theorem destroyWithRetry_attempts (iid : InstanceId) (retries : Nat) (w : σ)
    (notes : List (InstanceId × Except Exc Unit)) :
    ∃ answers, DestroyTried retries answers (destroyWithRetry W iid retries w).1 ∧
      destroyWithRetry W.noting iid retries (w, notes) =
        ((destroyWithRetry W iid retries w).1, (destroyWithRetry W iid retries w).2,
          notes ++ answers.map (iid, ·)) := by
  unfold destroyWithRetry
  rw [destroyFrom_retry, destroyFrom_retry]
  obtain ⟨answers, htried, hrun⟩ := Retry.retry_logged (fun answer => (iid, answer))
    (W.destroy iid) verdict (fun k => W.sleep (2 ^ (0 + retries - 1 - k))) retries w notes
  refine ⟨answers, destroyTried_of_tried htried, ?_⟩
  have hnoting : Retry.retry (W.noting.destroy iid) verdict
      (fun k => W.noting.sleep (2 ^ (0 + retries - 1 - k))) retries (w, notes) = _ := hrun
  rw [hnoting]

theorem destroyAll_reaped (retries : Nat) (targets : List Instance) (o : Outcomes) (w : σ)
    (notes : List (InstanceId × Except Exc Unit)) :
    ∃ rs : List Reaped, rs.map Reaped.target = targets ∧
      (∀ r ∈ rs, DestroyTried retries r.answers r.status) ∧
      (destroyAll W retries targets o w).1 =
        rs.foldl (fun o r => o.add r.target r.status) o ∧
      destroyAll W.noting retries targets o (w, notes) =
        ((destroyAll W retries targets o w).1, (destroyAll W retries targets o w).2,
          notes ++ rs.flatMap Reaped.calls) := by
  induction targets generalizing o w notes with
  | nil => exact ⟨[], rfl, by simp, rfl, by simp [destroyAll]⟩
  | cons i targets ih =>
    obtain ⟨answers, htried, hone⟩ := destroyWithRetry_attempts W i.id retries w notes
    obtain ⟨rs, htargets, hall, hfold, hrest⟩ := ih
      (o.add i (destroyWithRetry W i.id retries w).1) (destroyWithRetry W i.id retries w).2
      (notes ++ answers.map (i.id, ·))
    refine ⟨⟨i, answers, (destroyWithRetry W i.id retries w).1⟩ :: rs, ?_, ?_, ?_, ?_⟩
    · simp [htargets]
    · exact List.forall_mem_cons.mpr ⟨htried, hall⟩
    · simp only [destroyAll, hfold, List.foldl_cons]
    · simp only [destroyAll, hone, hrest, List.flatMap_cons, Reaped.calls, List.append_assoc]

theorem reaped_buckets (rs : List Reaped) (o : Outcomes) :
    rs.foldl (fun o r => o.add r.target r.status) o =
      { destroyed := o.destroyed ++ Reaped.ids .destroyed rs
        gone := o.gone ++ Reaped.ids .gone rs
        failed := o.failed ++ Reaped.ids .failed rs
        reclaimed := o.reclaimed + Reaped.dph rs } := by
  induction rs generalizing o with
  | nil => simp [Reaped.ids, Reaped.dph]
  | cons r rs ih =>
    rw [List.foldl_cons, ih]
    cases hstatus : r.status <;>
      simp [Outcomes.add, Reaped.ids, Reaped.dph, hstatus, add_assoc]

theorem reaped_length (rs : List Reaped) :
    rs.length = (Reaped.ids .destroyed rs).length + (Reaped.ids .gone rs).length +
      (Reaped.ids .failed rs).length := by
  induction rs with
  | nil => simp [Reaped.ids]
  | cons r rs ih =>
    simp only [Reaped.ids, List.length_map] at ih
    cases hstatus : r.status <;> simp [Reaped.ids, hstatus, ih] <;> omega

theorem keepOlder_reads (olderThan : ℚ) (l : List Instance) (w : σ) {i : Instance}
    (h : i ∈ (keepOlder W olderThan l w).1) :
    ∃ start k, i.start = some start ∧ k < l.length ∧
      olderThan ≤ max 0 (readClock W k w - start) := by
  induction l generalizing w with
  | nil => simp [keepOlder] at h
  | cons j rest ih =>
    unfold keepOlder at h
    cases hstart : j.start with
    | none =>
      simp only [hstart] at h
      obtain ⟨start, k, hi, hk, hold⟩ := ih w h
      exact ⟨start, k, hi, by simp only [List.length_cons]; omega, hold⟩
    | some start =>
      simp only [hstart] at h
      have hrest : i ∈ (keepOlder W olderThan rest (W.time w).2).1 →
          ∃ start k, i.start = some start ∧ k < (j :: rest).length ∧
            olderThan ≤ max 0 (readClock W k w - start) := by
        intro hi
        obtain ⟨start, k, hi, hk, hold⟩ := ih _ hi
        exact ⟨start, k + 1, hi, by simp only [List.length_cons]; omega, hold⟩
      split at h
      · rename_i hold
        rcases List.mem_cons.mp h with rfl | h
        · exact ⟨start, 0, hstart, by simp, hold⟩
        · exact hrest h
      · exact hrest h

theorem byLedger_sub (ledger : Option (List Row)) (live : List Instance) {i : Instance} :
    i ∈ byLedger ledger live ↔
      i ∈ live ∧ ∀ rows, ledger = some rows → i.id.str ∈ leakedIds rows := by
  cases ledger <;> simp [byLedger]

theorem byLabel_sub (label : Option String) (live : List Instance) {i : Instance} :
    i ∈ byLabel label live ↔ i ∈ live ∧ ∀ l, label = some l → i.label = some l := by
  cases label <;> simp [byLabel]

theorem byLedger_length (ledger : Option (List Row)) (live : List Instance) :
    (byLedger ledger live).length ≤ live.length := by
  cases ledger with
  | none => exact le_rfl
  | some rows => exact List.length_filter_le _ _

theorem byLabel_length (label : Option String) (live : List Instance) :
    (byLabel label live).length ≤ live.length := by
  cases label with
  | none => exact le_rfl
  | some label => exact List.length_filter_le _ _

theorem targetsOf_passes (args : ReapArgs) (ledger : Option (List Row)) (live : List Instance)
    (w : σ) {i : Instance} (h : i ∈ (targetsOf W args ledger live w).1) :
    Passes W args ledger w live i := by
  have hscope : i ∈ byLabel args.label (byLedger ledger live) := by
    unfold targetsOf at h
    dsimp only at h
    split at h
    · exact h
    · exact keepOlder_sub W _ _ w h
  obtain ⟨hledger, hlabel⟩ := (byLabel_sub _ _).mp hscope
  obtain ⟨hlive, hleaked⟩ := (byLedger_sub _ _).mp hledger
  refine ⟨hlive, hleaked, hlabel, fun olderThan hold => ?_⟩
  simp only [targetsOf, hold] at h
  obtain ⟨start, k, hstart, hk, hage⟩ := keepOlder_reads W olderThan _ w h
  refine ⟨start, k, hstart, ?_, hage⟩
  exact lt_of_lt_of_le hk ((byLabel_length _ _).trans (byLedger_length _ _))

structure Accounts (report : Report) (rs : List Reaped) : Prop where
  targeted : report.targeted = rs.length
  destroyed : report.outcomes.destroyed = Reaped.ids .destroyed rs
  gone : report.outcomes.gone = Reaped.ids .gone rs
  failed : report.outcomes.failed = Reaped.ids .failed rs
  total : report.targeted = report.outcomes.destroyed.length + report.outcomes.gone.length +
    report.outcomes.failed.length
  reclaimed : report.dphReclaimed = Reaped.dph rs

theorem listing_noting (args : ReapArgs) (ledger : Option (List Row)) (w : σ)
    (notes : List (InstanceId × Except Exc Unit)) :
    listing W.noting args ledger (w, notes) =
      ((listing W args ledger w).1, (listing W args ledger w).2, notes) := by
  unfold listing
  have hlist : ∀ w, W.noting.listInstances (w, notes) =
      ((W.listInstances w).1, (W.listInstances w).2, notes) := fun _ => rfl
  cases args.live with
  | some live =>
    dsimp only
    split
    · rw [hlist]
    · rfl
  | none =>
    simp only [hlist]
    cases W.listInstances w with
    | mk result w₁ =>
      cases result with
      | error e => rfl
      | ok live =>
        dsimp only
        split
        · rw [hlist]
        · rfl

theorem sweep_reaped {args : ReapArgs} {ledger : Option (List Row)} {w w₁ : σ}
    {live : List Instance} (h : listing W args ledger w = (.ok live, w₁))
    (notes : List (InstanceId × Except Exc Unit)) :
    ∃ rs : List Reaped,
      rs.map Reaped.target = (if args.dryRun then [] else (targetsOf W args ledger live w₁).1) ∧
      (∀ r ∈ rs, DestroyTried args.retries r.answers r.status) ∧
      (sweep W args ledger w).1 = .ok ⟨live, (targetsOf W args ledger live w₁).1,
        rs.foldl (fun o r => o.add r.target r.status) {}⟩ ∧
      sweep W.noting args ledger (w, notes) =
        ((sweep W args ledger w).1, (sweep W args ledger w).2,
          notes ++ rs.flatMap Reaped.calls) := by
  unfold sweep
  rw [listing_noting, h]
  dsimp only
  rw [targetsOf_noting]
  cases hdry : args.dryRun with
  | true => exact ⟨[], by simp, by simp, by simp, by simp⟩
  | false =>
    obtain ⟨rs, htargets, hall, hfold, hrun⟩ := destroyAll_reaped W args.retries
      (targetsOf W args ledger live w₁).1 {} (targetsOf W args ledger live w₁).2 notes
    refine ⟨rs, by simpa using htargets, hall, ?_, ?_⟩
    · simp only [Bool.false_eq_true, if_false, hfold]
    · simp only [Bool.false_eq_true, if_false, hrun]

theorem recordAll_noting (todo : List Row) (w : σ) (notes : List (InstanceId × Except Exc Unit))
    (rows : List Row) : recordAll W.noting todo (w, notes) rows =
      (((recordAll W todo w rows).1, notes), (recordAll W todo w rows).2) := by
  induction todo generalizing w rows with
  | nil => rfl
  | cons row todo ih =>
    have htime : W.noting.time (w, notes) = ((W.time w).1, (W.time w).2, notes) := rfl
    simp only [recordAll, htime, ih]

theorem reap_noting {args : ReapArgs} {ledger : Option (List Row)} {w : σ}
    {notes notes' : List (InstanceId × Except Exc Unit)}
    (h : sweep W.noting args ledger (w, notes) =
      ((sweep W args ledger w).1, (sweep W args ledger w).2, notes')) :
    reap W.noting args ledger (w, notes) = ((reap W args ledger w).1,
      (reap W args ledger w).2.1, (reap W args ledger w).2.2, notes') := by
  unfold reap
  rw [h]
  cases sweep W args ledger w with
  | mk result w' =>
    cases result with
    | error e => rfl
    | ok s =>
      have htime : W.noting.time (w', notes') = ((W.time w').1, (W.time w').2, notes') := rfl
      cases ledger with
      | none => rfl
      | some rows =>
        dsimp only
        split
        · rfl
        · simp only [htime, closeLedgerRows, recordAll_noting]
          split <;> rfl

theorem reap_dry {args : ReapArgs} (hdry : args.dryRun = true) (ledger : Option (List Row))
    (w : σ) : (reap W args ledger w).2.1 = ledger := by
  unfold reap
  cases sweep W args ledger w with
  | mk result w' =>
    cases result with
    | error e => rfl
    | ok s =>
      cases ledger with
      | none => rfl
      | some rows => simp [hdry]

theorem reap_report {args : ReapArgs} {ledger : Option (List Row)} {w : σ} {s : Sweep}
    (h : (sweep W args ledger w).1 = .ok s) : ∃ report, (reap W args ledger w).1 = .ok report ∧
      report.live = s.live.length ∧ report.targeted = s.targets.length ∧
      report.outcomes = s.outcomes ∧
      (args.dryRun = false → report.dphReclaimed = s.outcomes.reclaimed) := by
  unfold reap
  cases hs : sweep W args ledger w with
  | mk result w' =>
    rw [hs] at h
    cases h
    have hreclaimed : args.dryRun = false →
        (if args.dryRun = true then (s.targets.map Instance.dph).sum else s.outcomes.reclaimed) =
          s.outcomes.reclaimed := fun hreal => by simp [hreal]
    cases ledger with
    | none => exact ⟨_, rfl, rfl, rfl, rfl, hreclaimed⟩
    | some rows =>
      dsimp only
      split
      · exact ⟨_, rfl, rfl, rfl, rfl, hreclaimed⟩
      · split
        · exact ⟨_, rfl, rfl, rfl, rfl, hreclaimed⟩
        · exact ⟨_, rfl, rfl, rfl, rfl, hreclaimed⟩

/-- For any world, arguments and ledger: the `destroy` calls are the attempts on the targets in
their order, the targets are listed and pass every given filter, each is in the bucket of its
status, and a dry run calls and writes nothing. -/
theorem reap_accounts (args : ReapArgs) (ledger : Option (List Row)) (w : σ) :
    ∃ rs : List Reaped,
      reap W.noting args ledger (w, []) = ((reap W args ledger w).1,
        (reap W args ledger w).2.1, (reap W args ledger w).2.2, rs.flatMap Reaped.calls) ∧
      (∀ r ∈ rs, DestroyTried args.retries r.answers r.status) ∧
      (args.dryRun = true → rs = [] ∧ (reap W args ledger w).2.1 = ledger) ∧
      match listing W args ledger w with
      | (.error e, _) =>
        rs = [] ∧ (reap W args ledger w).1 = .error e ∧ (reap W args ledger w).2.1 = ledger
      | (.ok live, w₁) =>
        (∀ r ∈ rs, Passes W args ledger w₁ live r.target) ∧
        ∃ report, (reap W args ledger w).1 = .ok report ∧ report.live = live.length ∧
          (args.dryRun = false → Accounts report rs) := by
  cases hlisting : listing W args ledger w with
  | mk result w₁ =>
    cases result with
    | error e =>
      have hsweep : sweep W args ledger w = (.error e, w₁) := by
        unfold sweep
        rw [hlisting]
      have hnoting : sweep W.noting args ledger (w, []) =
          ((sweep W args ledger w).1, (sweep W args ledger w).2, []) := by
        unfold sweep
        rw [listing_noting, hlisting]
      refine ⟨[], reap_noting W hnoting, by simp, fun hdry => ⟨rfl, reap_dry W hdry _ _⟩, rfl, ?_⟩
      rw [reap_error hsweep]
      exact ⟨rfl, rfl⟩
    | ok live =>
      obtain ⟨rs, htargets, hall, hswept, hnoting⟩ := sweep_reaped W hlisting []
      obtain ⟨report, hreport, hlive, htargeted, houtcomes, hreclaimed⟩ := reap_report W hswept
      refine ⟨rs, reap_noting W hnoting, hall, fun hdry => ⟨?_, reap_dry W hdry _ _⟩, ?_, report,
        hreport, hlive, fun hreal => ?_⟩
      · simpa [hdry] using htargets
      · intro r hr
        have hmem : r.target ∈ rs.map Reaped.target := List.mem_map_of_mem hr
        rw [htargets] at hmem
        split at hmem
        · simp at hmem
        · exact targetsOf_passes W args ledger live w₁ hmem
      · have hlength : rs.length = (targetsOf W args ledger live w₁).1.length := by
          rw [← List.length_map Reaped.target, htargets]
          simp [hreal]
        have hcount : report.targeted = rs.length := by rw [htargeted, hlength]
        rw [reaped_buckets] at houtcomes
        have hparts := reaped_length rs
        refine ⟨hcount, ?_, ?_, ?_, ?_, ?_⟩
        · simp [houtcomes]
        · simp [houtcomes]
        · simp [houtcomes]
        · rw [hcount, hparts]
          simp [houtcomes]
        · rw [hreclaimed hreal, reaped_buckets]
          simp

end

end RunFarm
