import Mathlib.Data.List.Sort
import Mathlib.Data.List.Dedup
import Mathlib.Data.String.Basic
import RunFarm.Ledger

set_option autoImplicit false

namespace RunFarm
open Python (Dict)

/-- A listed instance. `label` is `raw["label"]` and `start` the start time
`_instance_age_s` finds in `raw`. -/
structure Instance where
  id : InstanceId
  status : String
  dph : ℚ
  label : Option String
  start : Option ℚ
  deriving DecidableEq, Repr

/-- What the process calls outside itself: one provider's API and the clock. Every
call may change the outside state `σ`. -/
structure World (σ : Type) where
  listInstances : σ → Except Exc (List Instance) × σ
  destroy : InstanceId → σ → Except Exc Unit × σ
  time : σ → ℚ × σ
  sleep : ℚ → σ → σ

def steady (listed : List Instance) (answer : Except Exc Unit) (now : ℚ) : World Unit where
  listInstances w := (.ok listed, w)
  destroy _ w := (answer, w)
  time w := (now, w)
  sleep _ w := w

def seenId (e : Row) : Option String :=
  match e.instanceId with
  | none => none
  | some iid => if e.event = .rented ∨ e.event = .running then some iid.str else none

def confirmedGoneId (e : Row) : Option String :=
  match e.instanceId with
  | none => none
  | some iid => if e.event = .destroyed ∧ e.verify = some .gone then some iid.str else none

/-- `leaked_ids`, as a list without duplicates. -/
def leakedIds (rows : List Row) : List String :=
  let confirmedGone := rows.filterMap confirmedGoneId
  (rows.filterMap seenId).dedup.filter (· ∉ confirmedGone)

theorem mem_leakedIds {rows : List Row} {s : String} :
    s ∈ leakedIds rows ↔ (∃ e ∈ rows, seenId e = some s) ∧
      ∀ e ∈ rows, confirmedGoneId e ≠ some s := by
  simp only [leakedIds, List.mem_filter, List.mem_dedup, List.mem_filterMap,
    decide_eq_true_eq]
  constructor
  · rintro ⟨hs, hg⟩
    exact ⟨hs, fun e he h => hg ⟨e, he, h⟩⟩
  · rintro ⟨hs, hg⟩
    exact ⟨hs, fun ⟨e, he, h⟩ => hg e he h⟩

def closeGraceS : ℚ := 120

def rentRow (e : Row) : Option (String × Row) :=
  match e.instanceId with
  | none => none
  | some iid => if e.event = .rented then some (iid.str, e) else none

def rentRows (rows : List Row) : Dict String Row := Dict.latest rentRow rows

theorem rentRow_some {e q : Row} {s : String} (h : rentRow e = some (s, q)) :
    q = e ∧ e.event = .rented ∧ ∃ iid, e.instanceId = some iid ∧ iid.str = s := by
  unfold rentRow at h
  split at h
  · contradiction
  · rename_i iid hid
    split at h
    · rename_i hev
      cases h
      exact ⟨rfl, hev, iid, hid, rfl⟩
    · contradiction

/-- `billed` of a close: `None` when the start is missing or zero. -/
def billedOf (rent : Option Row) (now : ℚ) : Option ℚ :=
  match rent.bind Row.ts with
  | none => none
  | some ts => if ts = 0 then none else some (Python.round (now - ts) 1)

def costOf (rent : Option Row) (now : ℚ) : Option ℚ :=
  match billedOf rent now, rent.bind Row.dph with
  | some billed, some dph =>
    if billed = 0 ∨ dph = 0 then none else some (Python.round (billed / 3600 * dph) 4)
  | _, _ => none

def closeRow (iid : String) (known : Bool) (rent : Option Row) (now : ℚ) : Row :=
  { event := .destroyed
    instanceId := some ((rent.bind Row.instanceId).getD (.text iid))
    offerId := rent.bind Row.offerId
    provider := rent.bind Row.provider
    outcome := .val "ok"
    destroyed := some true
    verify := some .gone
    estCostUsd := .val (if known then (costOf rent now).getD 0 else 0)
    reconciled := some true
    billedS := if known then .ofOption (billedOf rent now) else .null
    costUnknown := if known then none else some true
    billedSUpperBound := if known then none else billedOf rent now
    estCostUsdUpperBound := if known then none else costOf rent now
    reason := some (if known then
        "closed by reap: destroyed here, never recorded by the driver that rented it"
      else
        "closed by reap: absent from the live listing, so gone, but destroyed outside " ++
        "this ledger -- its billed time is not recoverable from here") }

def sorted (ids : List String) : List String := ids.dedup.insertionSort (· ≤ ·)

@[simp] theorem mem_sorted {ids : List String} {s : String} : s ∈ sorted ids ↔ s ∈ ids := by
  simp [sorted]

theorem sorted_nodup (ids : List String) : (sorted ids).Nodup :=
  (List.perm_insertionSort (· ≤ ·) ids.dedup).nodup_iff.mpr ids.nodup_dedup

def closingRows (destroyed vanished : List String) (rents : Dict String Row) (now : ℚ) :
    List Row :=
  (sorted destroyed ++ sorted vanished).map
    (fun iid => closeRow iid (iid ∈ destroyed) (rents.get iid) now)

def recordAll {σ : Type} (W : World σ) : List Row → σ → List Row → σ × List Row
  | [], w, rows => (w, rows)
  | row :: todo, w, rows =>
    let (now, w) := W.time w
    recordAll W todo w (record now row rows)

def closeLedgerRows {σ : Type} (W : World σ) (destroyed vanished : List String)
    (rents : Dict String Row) (now : ℚ) (w : σ) (rows : List Row) :
    List InstanceId × σ × List Row :=
  let todo := closingRows destroyed vanished rents now
  (todo.filterMap Row.instanceId, recordAll W todo w rows)

inductive Classified where
  | transient | gone | auth | bug
  deriving DecidableEq, Repr

def goneSigns : List String :=
  ["404", "410", "not found", "notfound", "no_such", "does not exist"]

def authSigns : List String := ["401", "403", "forbidden", "unauthor"]

def ExcKind.isBug : ExcKind → Bool
  | .typeError | .keyError | .attributeError | .indexError | .nameError | .valueError => true
  | _ => false

def mentions (signs : List String) (s : String) : Bool :=
  signs.any (fun t => t.toList <:+: s.toList)

def classify (e : Exc) : Classified :=
  match e.code with
  | some code =>
    if code = 404 ∨ code = 410 then .gone
    else if code = 401 ∨ code = 403 then .auth
    else .transient
  | none =>
    let s := e.text.toLower
    if e.kind.isBug then .bug
    else if mentions goneSigns s then .gone
    else if mentions authSigns s then .auth
    else .transient

inductive DestroyStatus where
  | destroyed | gone | failed
  deriving DecidableEq, Repr

/-- The loop of `_destroy_with_retry`, with `left` of its attempts still to make. -/
def destroyFrom {σ : Type} (W : World σ) (iid : InstanceId) (attempt : Nat) :
    Nat → σ → DestroyStatus × σ
  | 0, w => (.failed, w)
  | left + 1, w =>
    match W.destroy iid w with
    | (.ok _, w) => (.destroyed, w)
    | (.error e, w) =>
      match classify e with
      | .gone => (.gone, w)
      | .auth | .bug => (.failed, w)
      | .transient =>
        if left = 0 then (.failed, w)
        else destroyFrom W iid (attempt + 1) left (W.sleep (2 ^ attempt) w)

def destroyWithRetry {σ : Type} (W : World σ) (iid : InstanceId) (retries : Nat) (w : σ) :
    DestroyStatus × σ :=
  destroyFrom W iid 0 retries w

structure Outcomes where
  destroyed : List InstanceId := []
  gone : List InstanceId := []
  failed : List InstanceId := []
  reclaimed : ℚ := 0
  deriving DecidableEq, Repr

def Outcomes.add (o : Outcomes) (i : Instance) : DestroyStatus → Outcomes
  | .destroyed => { o with destroyed := o.destroyed ++ [i.id], reclaimed := o.reclaimed + i.dph }
  | .gone => { o with gone := o.gone ++ [i.id], reclaimed := o.reclaimed + i.dph }
  | .failed => { o with failed := o.failed ++ [i.id] }

def destroyAll {σ : Type} (W : World σ) (retries : Nat) :
    List Instance → Outcomes → σ → Outcomes × σ
  | [], o, w => (o, w)
  | i :: targets, o, w =>
    let (status, w) := destroyWithRetry W i.id retries w
    destroyAll W retries targets (o.add i status) w

def Outcomes.killed (o : Outcomes) : List String := (o.destroyed ++ o.gone).map InstanceId.str

/-- The `older_than` filter: an instance of unknown age is dropped, and the clock is
read once for each of the others. -/
def keepOlder {σ : Type} (W : World σ) (olderThan : ℚ) : List Instance → σ → List Instance × σ
  | [], w => ([], w)
  | i :: rest, w =>
    match i.start with
    | none => keepOlder W olderThan rest w
    | some start =>
      let (now, w) := W.time w
      let (kept, w) := keepOlder W olderThan rest w
      (if olderThan ≤ max 0 (now - start) then i :: kept else kept, w)

structure ReapArgs where
  label : Option String := none
  olderThan : Option ℚ := none
  dryRun : Bool := true
  retries : Nat := 4
  live : Option (List Instance) := none
  closeLedger : Bool := true

/-- The listing `reap` works on: the caller's, or a fresh one; an age or label scope
without a ledger lists again before it destroys. -/
def listing {σ : Type} (W : World σ) (args : ReapArgs) (ledger : Option (List Row)) (w : σ) :
    Except Exc (List Instance) × σ :=
  let first : Except Exc (List Instance) × σ := match args.live with
    | some live => (.ok live, w)
    | none => W.listInstances w
  match first with
  | (.error e, w) => (.error e, w)
  | (.ok live, w) =>
    if !args.dryRun && ledger.isNone && (args.label.isSome || args.olderThan.isSome) then
      W.listInstances w
    else (.ok live, w)

def byLedger (ledger : Option (List Row)) (live : List Instance) : List Instance :=
  match ledger with
  | none => live
  | some rows => live.filter (fun i => i.id.str ∈ leakedIds rows)

def byLabel (label : Option String) (live : List Instance) : List Instance :=
  match label with
  | none => live
  | some label => live.filter (fun i => i.label = some label)

def targetsOf {σ : Type} (W : World σ) (args : ReapArgs) (ledger : Option (List Row))
    (live : List Instance) (w : σ) : List Instance × σ :=
  let kept := byLabel args.label (byLedger ledger live)
  match args.olderThan with
  | none => (kept, w)
  | some olderThan => keepOlder W olderThan kept w

structure Sweep where
  live : List Instance
  targets : List Instance
  outcomes : Outcomes
  deriving DecidableEq, Repr

/-- `reap` down to the end of its destroy loop. -/
def sweep {σ : Type} (W : World σ) (args : ReapArgs) (ledger : Option (List Row)) (w : σ) :
    Except Exc Sweep × σ :=
  match listing W args ledger w with
  | (.error e, w) => (.error e, w)
  | (.ok live, w) =>
    let (targets, w) := targetsOf W args ledger live w
    if args.dryRun then (.ok ⟨live, targets, {}⟩, w)
    else
      let (outcomes, w) := destroyAll W args.retries targets {} w
      (.ok ⟨live, targets, outcomes⟩, w)

/-- `vanished`: the ids still open that are neither listed nor just killed, once the
grace is over. -/
def vanishedAmong (stillOpen : List String) (rents : Dict String Row) (live : List Instance)
    (killed : List String) (now : ℚ) : List String :=
  stillOpen.filter (fun iid =>
    iid ∉ live.map (·.id.str) ∧ iid ∉ killed ∧
      closeGraceS < now - (((rents.get iid).bind Row.ts).getD 0))

def vanishedIds (rows : List Row) (live : List Instance) (killed : List String) (now : ℚ) :
    List String :=
  vanishedAmong (leakedIds rows) (rentRows rows) live killed now

theorem mem_vanishedIds {rows : List Row} {live : List Instance} {killed : List String}
    {now : ℚ} {iid : String} : iid ∈ vanishedIds rows live killed now ↔
      iid ∈ leakedIds rows ∧ iid ∉ live.map (·.id.str) ∧ iid ∉ killed ∧
        closeGraceS < now - (((rentRows rows).get iid).bind Row.ts).getD 0 := by
  simp only [vanishedIds, vanishedAmong, List.mem_filter, decide_eq_true_eq]

structure Report where
  live : Nat
  targeted : Nat
  outcomes : Outcomes
  closed : List InstanceId
  dphReclaimed : ℚ
  dryRun : Bool
  deriving DecidableEq, Repr

/-- `reap`. The ledger file is its rows; without `ledger` there is no file. -/
def reap {σ : Type} (W : World σ) (args : ReapArgs) (ledger : Option (List Row)) (w : σ) :
    Except Exc Report × Option (List Row) × σ :=
  match sweep W args ledger w with
  | (.error e, w) => (.error e, ledger, w)
  | (.ok s, w) =>
    let report : Report :=
      { live := s.live.length, targeted := s.targets.length, outcomes := s.outcomes
        closed := []
        dphReclaimed := if args.dryRun then (s.targets.map Instance.dph).sum
          else s.outcomes.reclaimed
        dryRun := args.dryRun }
    match ledger with
    | none => (.ok report, none, w)
    | some rows =>
      if args.dryRun || !args.closeLedger then (.ok report, some rows, w)
      else
        let (now, w) := W.time w
        let killed := s.outcomes.killed
        let vanished := vanishedIds rows s.live killed now
        if killed.isEmpty && vanished.isEmpty then (.ok report, some rows, w)
        else
          let (closed, w, rows) := closeLedgerRows W killed vanished (rentRows rows) now w rows
          (.ok { report with closed := closed }, some rows, w)

def Stamps (row written : Row) : Prop := ∃ now, written = row.stamp now

theorem recordAll_rows {σ : Type} (W : World σ) (todo : List Row) (w : σ) (rows : List Row) :
    ∃ out, List.Forall₂ Stamps todo out ∧ (recordAll W todo w rows).2 = rows ++ out := by
  induction todo generalizing w rows with
  | nil => exact ⟨[], .nil, by simp [recordAll]⟩
  | cons row todo ih =>
    obtain ⟨out, hout, heq⟩ := ih (W.time w).2 (record (W.time w).1 row rows)
    refine ⟨row.stamp (W.time w).1 :: out, .cons ⟨_, rfl⟩ hout, ?_⟩
    rw [recordAll, heq, record, List.append_assoc]
    rfl

theorem killed_add (o : Outcomes) (i : Instance) (status : DestroyStatus) {s : String} :
    s ∈ (o.add i status).killed ↔ s ∈ o.killed ∨ i.id.str = s ∧ status ≠ .failed := by
  cases status <;> simp [Outcomes.add, Outcomes.killed] <;> grind

theorem destroyAll_killed {σ : Type} (W : World σ) (retries : Nat) (targets : List Instance)
    (o : Outcomes) (w : σ) {s : String} (h : s ∈ (destroyAll W retries targets o w).1.killed) :
    s ∈ o.killed ∨ ∃ i ∈ targets, i.id.str = s := by
  induction targets generalizing o w with
  | nil => exact .inl h
  | cons i targets ih =>
    rcases ih _ _ h with hk | ⟨j, hj, rfl⟩
    · rcases (killed_add o i _).mp hk with hk | ⟨rfl, _⟩
      · exact .inl hk
      · exact .inr ⟨i, by simp, rfl⟩
    · exact .inr ⟨j, by simp [hj], rfl⟩

theorem keepOlder_sub {σ : Type} (W : World σ) (olderThan : ℚ) (l : List Instance) (w : σ)
    {i : Instance} (h : i ∈ (keepOlder W olderThan l w).1) : i ∈ l := by
  induction l generalizing w with
  | nil => exact h
  | cons j rest ih =>
    unfold keepOlder at h
    split at h
    · exact .tail _ (ih _ h)
    · dsimp only at h
      split at h
      · rcases List.mem_cons.mp h with rfl | h
        · exact .head _
        · exact .tail _ (ih _ h)
      · exact .tail _ (ih _ h)

theorem targetsOf_leaked {σ : Type} (W : World σ) (args : ReapArgs) (rows : List Row)
    (live : List Instance) (w : σ) {i : Instance}
    (h : i ∈ (targetsOf W args (some rows) live w).1) :
    i ∈ live ∧ i.id.str ∈ leakedIds rows := by
  have hscoped : ∀ j ∈ byLabel args.label (byLedger (some rows) live),
      j ∈ live ∧ j.id.str ∈ leakedIds rows := by
    intro j hj
    unfold byLabel at hj
    split at hj <;> simp [byLedger] at hj <;> simp [hj]
  unfold targetsOf at h
  dsimp only at h
  split at h
  · exact hscoped i h
  · exact hscoped i (keepOlder_sub W _ _ w h)

theorem sweep_killed {σ : Type} {W : World σ} {args : ReapArgs} {rows : List Row} {w w' : σ}
    {s : Sweep} (h : sweep W args (some rows) w = (.ok s, w')) {iid : String}
    (hk : iid ∈ s.outcomes.killed) :
    iid ∈ s.live.map (·.id.str) ∧ iid ∈ leakedIds rows := by
  unfold sweep at h
  split at h
  · cases h
  · rename_i live w₁ _
    dsimp only at h
    split at h
    · cases h
      simp [Outcomes.killed] at hk
    · cases h
      rcases destroyAll_killed W _ _ _ _ hk with hk | ⟨i, hi, rfl⟩
      · simp [Outcomes.killed] at hk
      · obtain ⟨hlive, hleak⟩ := targetsOf_leaked W args rows live w₁ hi
        exact ⟨List.mem_map_of_mem hlive, hleak⟩

/-- What a finished sweep closes at `now`. -/
def Sweep.closing (s : Sweep) (rows : List Row) (now : ℚ) : List Row :=
  let killed := s.outcomes.killed
  closingRows killed (vanishedIds rows s.live killed now) (rentRows rows) now

theorem reap_error {σ : Type} {W : World σ} {args : ReapArgs} {ledger : Option (List Row)}
    {w w' : σ} {e : Exc} (h : sweep W args ledger w = (.error e, w')) :
    reap W args ledger w = (.error e, ledger, w') := by simp [reap, h]

theorem reap_rows {σ : Type} {W : World σ} {args : ReapArgs} {rows : List Row} {w w' : σ}
    {s : Sweep} (hreal : args.dryRun = false) (hclose : args.closeLedger = true)
    (h : sweep W args (some rows) w = (.ok s, w')) :
    ∃ out, List.Forall₂ Stamps (s.closing rows (W.time w').1) out ∧
      (reap W args (some rows) w).2.1 = some (rows ++ out) := by
  simp only [reap, h, hreal, hclose, Bool.not_true, Bool.or_false, Bool.false_eq_true, if_false]
  by_cases hnone : (s.outcomes.killed.isEmpty &&
      (vanishedIds rows s.live s.outcomes.killed (W.time w').1).isEmpty) = true
  · obtain ⟨hk, hv⟩ := Bool.and_eq_true_iff.mp hnone
    refine ⟨[], ?_, by simp [hnone]⟩
    rw [List.isEmpty_iff] at hk hv
    rw [Sweep.closing, hv, hk]
    exact .nil
  · rw [if_neg hnone]
    obtain ⟨out, hout, heq⟩ := recordAll_rows W (s.closing rows (W.time w').1) (W.time w').2 rows
    exact ⟨out, hout, congrArg some heq⟩

end RunFarm
