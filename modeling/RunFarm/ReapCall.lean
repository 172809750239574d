import RunFarm.Answers

set_option autoImplicit false

namespace RunFarm
open Python (Dict)

/-- One `reap(ledger=..., dry_run=False)` call and the outside world it meets. -/
structure ReapCall where
  σ : Type
  world : World σ
  before : σ
  args : ReapArgs
  real : args.dryRun = false ∧ args.closeLedger = true

theorem ReapCall.real_defaults : ({ dryRun := false } : ReapArgs).dryRun = false ∧
    ({ dryRun := false } : ReapArgs).closeLedger = true := ⟨rfl, rfl⟩

theorem closeRow_unseen (iid : String) (known : Bool) (rent : Option Row) (now : ℚ) :
    seenId (closeRow iid known rent now) = none := by
  unfold seenId closeRow
  simp only [reduceCtorEq, or_self, if_false]

theorem closeRow_names (rows : List Row) (iid : String) (known : Bool) (now : ℚ) :
    (closeRow iid known ((rentRows rows).get iid) now).instanceId.map InstanceId.str =
      some iid := by
  cases hget : (rentRows rows).get iid with
  | none => rfl
  | some q =>
    obtain ⟨e, _, hrent⟩ := (Dict.latest_spec rentRow rows iid).1 q hget
    obtain ⟨rfl, _, i, hi, hstr⟩ := rentRow_some hrent
    have hid : (closeRow iid known (some q) now).instanceId =
        some (q.instanceId.getD (.text iid)) :=
      rfl
    rw [hid, hi]
    exact congrArg some hstr

theorem stamps_mem {todo out : List Row} (h : List.Forall₂ Stamps todo out) {e : Row}
    (he : e ∈ out) : ∃ q ∈ todo, Stamps q e := by
  induction h with
  | nil => cases he
  | @cons q r todo out hs _ ih =>
    rcases List.mem_cons.mp he with rfl | he
    · exact ⟨q, .head _, hs⟩
    · obtain ⟨q', hq', hs'⟩ := ih he
      exact ⟨q', .tail _ hq', hs'⟩

namespace ReapCall

def swept (c : ReapCall) (rows : List Row) : Except Exc Sweep × c.σ :=
  RunFarm.sweep c.world c.args (some rows) c.before

def now (c : ReapCall) (rows : List Row) : ℚ := (c.world.time (c.swept rows).2).1

def killed (c : ReapCall) (rows : List Row) : List String :=
  match (c.swept rows).1 with
  | .ok s => s.outcomes.killed
  | .error _ => []

def vanished (c : ReapCall) (rows : List Row) : List String :=
  match (c.swept rows).1 with
  | .ok s => vanishedIds rows s.live s.outcomes.killed (c.now rows)
  | .error _ => []

def file (c : ReapCall) (rows : List Row) : List Row :=
  ((reap c.world c.args (some rows) c.before).2.1).getD rows

def closing (c : ReapCall) (rows : List Row) : List Row :=
  closingRows (c.killed rows) (c.vanished rows) (rentRows rows) (c.now rows)

theorem file_rows (c : ReapCall) (rows : List Row) :
    ∃ out, List.Forall₂ Stamps (c.closing rows) out ∧ c.file rows = rows ++ out := by
  cases hs : RunFarm.sweep c.world c.args (some rows) c.before with
  | mk result w' =>
    cases result with
    | error e =>
      refine ⟨[], ?_, by simp [file, reap_error hs]⟩
      simp [closing, killed, vanished, swept, hs, closingRows, sorted]
    | ok s =>
      obtain ⟨out, hout, heq⟩ := reap_rows c.real.1 c.real.2 hs
      refine ⟨out, ?_, by simp [file, heq]⟩
      simpa [closing, killed, vanished, swept, now, hs, Sweep.closing] using hout

theorem killed_leaked {c : ReapCall} {rows : List Row} {s : String} (h : s ∈ c.killed rows) :
    s ∈ leakedIds rows := by
  unfold killed swept at h
  cases hs : RunFarm.sweep c.world c.args (some rows) c.before with
  | mk result w' =>
    cases result with
    | error e => simp [hs] at h
    | ok sw =>
      rw [hs] at h
      exact (sweep_killed hs h).2

/-- What the provider answers to the `destroy` calls, in order. -/
def answers (c : ReapCall) (rows : List Row) : List (InstanceId × Except Exc Unit) :=
  (RunFarm.sweep c.world.noting c.args (some rows) (c.before, [])).2.2

/-- The provider acknowledges in the call that the box is destroyed or gone already. -/
def Cleared (c : ReapCall) (rows : List Row) (iid : String) : Prop :=
  Acknowledged (c.answers rows) iid

instance (c : ReapCall) (rows : List Row) (iid : String) : Decidable (c.Cleared rows iid) :=
  inferInstanceAs (Decidable (Acknowledged _ _))

theorem mem_killed {c : ReapCall} {rows : List Row} {iid : String} :
    iid ∈ c.killed rows ↔ c.Cleared rows iid := by
  obtain ⟨answers, hnoted, hkilled⟩ := sweep_noting c.world c.real.1 rows c.before
  have hanswers : c.answers rows = answers := congrArg (·.2.2) hnoted
  unfold killed swept Cleared
  rw [hanswers]
  cases hs : (RunFarm.sweep c.world c.args (some rows) c.before).1 with
  | error e =>
    rw [hs] at hkilled
    simp [show answers = [] from hkilled, Acknowledged]
  | ok s =>
    rw [hs] at hkilled
    exact hkilled iid

def listed (c : ReapCall) : Except Exc (List Instance) := (listedFor c.world c.args c.before).1

theorem swept_listed (c : ReapCall) (rows : List Row) :
    (c.swept rows).1.map Sweep.live = c.listed := by
  unfold swept listed sweep
  rw [listing_ledger]
  cases listedFor c.world c.args c.before with
  | mk result w =>
    cases result with
    | error e => rfl
    | ok live => cases hreal : c.args.dryRun <;> rfl

/-- A leaked box that the listing misses and whose grace is over when the clock is read. -/
def Overlooks (c : ReapCall) (rows : List Row) (iid : String) : Prop :=
  ∃ live, c.listed = .ok live ∧ iid ∈ leakedIds rows ∧ iid ∉ live.map (·.id.str) ∧
    closeGraceS < c.now rows - (((rentRows rows).get iid).bind Row.ts).getD 0

theorem mem_vanished {c : ReapCall} {rows : List Row} {iid : String} :
    iid ∈ c.vanished rows ↔ c.Overlooks rows iid := by
  have hlist := c.swept_listed rows
  cases hs : (c.swept rows).1 with
  | error e =>
    rw [hs] at hlist
    simp [vanished, Overlooks, hs, ← hlist, Except.map]
  | ok s =>
    rw [hs] at hlist
    have hsweep : RunFarm.sweep c.world c.args (some rows) c.before =
      (.ok s, (c.swept rows).2) := Prod.ext hs rfl
    have hlisted (hk : iid ∈ s.outcomes.killed) : iid ∈ s.live.map (·.id.str) :=
      (sweep_killed hsweep hk).1
    simp only [vanished, Overlooks, hs, ← hlist, Except.map, mem_vanishedIds, Except.ok.injEq,
      exists_eq_left']
    constructor
    · intro h
      exact ⟨h.1, h.2.1, h.2.2.2⟩
    · intro h
      exact ⟨h.1, h.2.1, fun hk => h.2.1 (hlisted hk), h.2.2⟩

theorem vanished_killed {c : ReapCall} {rows : List Row} {iid : String}
    (h : iid ∈ c.vanished rows) : iid ∉ c.killed rows := by
  obtain ⟨s, hs, hv⟩ : ∃ s, (c.swept rows).1 = .ok s ∧
      iid ∈ vanishedIds rows s.live s.outcomes.killed (c.now rows) := by
    unfold vanished at h
    split at h
    · exact ⟨_, ‹_›, h⟩
    · cases h
  simp only [killed, hs]
  exact (mem_vanishedIds.mp hv).2.2.1

def wrote (c : ReapCall) (rows : List Row) : List Row := (c.file rows).drop rows.length

theorem wrote_stamps (c : ReapCall) (rows : List Row) :
    List.Forall₂ Stamps (c.closing rows) (c.wrote rows) ∧ c.file rows = rows ++ c.wrote rows := by
  obtain ⟨out, hout, hfile⟩ := c.file_rows rows
  have hwrote : c.wrote rows = out := by rw [wrote, hfile, List.drop_left]
  rw [hwrote]
  exact ⟨hout, hfile⟩

end ReapCall

def Closes (rows : List Row) (iid : String) : Prop :=
  ∃ e ∈ rows, e.event = .destroyed ∧ e.instanceId.map InstanceId.str = some iid

theorem stamps_closes {todo out : List Row} (h : List.Forall₂ Stamps todo out) (iid : String) :
    Closes out iid ↔ Closes todo iid := by
  induction h with
  | nil => rfl
  | cons hs _ ih =>
    obtain ⟨now, rfl⟩ := hs
    simp only [Closes, List.exists_mem_cons_iff] at ih ⊢
    exact or_congr Iff.rfl ih

theorem confirmedGoneId_of {e : Row} (hev : e.event = .destroyed)
    (hgone : e.verify = some .gone) : confirmedGoneId e = e.instanceId.map InstanceId.str := by
  unfold confirmedGoneId
  cases e.instanceId <;> simp [hev, hgone]

namespace ReapCall

variable (c : ReapCall) (rows : List Row)

theorem wrote_closes (iid : String) :
    Closes (c.wrote rows) iid ↔ c.Cleared rows iid ∨ c.Overlooks rows iid := by
  rw [stamps_closes (c.wrote_stamps rows).1, ← mem_killed, ← mem_vanished]
  constructor
  · intro hclosed
    obtain ⟨e, he, -, hid⟩ := hclosed
    obtain ⟨s, hs, rfl⟩ := List.mem_map.mp he
    rw [closeRow_names] at hid
    cases hid
    simpa using hs
  · intro hin
    exact ⟨_, List.mem_map_of_mem (by simpa using hin), rfl, closeRow_names rows iid _ _⟩

theorem wrote_gone {e : Row} (he : e ∈ c.wrote rows) : e.event = .destroyed ∧
    seenId e = none ∧ confirmedGoneId e = e.instanceId.map InstanceId.str := by
  obtain ⟨q, hq, now, rfl⟩ := stamps_mem (c.wrote_stamps rows).1 he
  obtain ⟨s, _, rfl⟩ := List.mem_map.mp hq
  have hunseen := closeRow_unseen s (s ∈ c.killed rows) ((rentRows rows).get s) (c.now rows)
  exact ⟨rfl, hunseen, confirmedGoneId_of rfl rfl⟩

theorem leaked_file (iid : String) :
    iid ∈ leakedIds (c.file rows) ↔ iid ∈ leakedIds rows ∧ ¬ Closes (c.wrote rows) iid := by
  rw [(c.wrote_stamps rows).2, mem_leakedIds, mem_leakedIds]
  constructor
  · intro h
    obtain ⟨⟨e, he, hseen⟩, hnone⟩ := h
    have hold : e ∈ rows := by
      rcases List.mem_append.mp he with he | he
      · exact he
      · rw [(c.wrote_gone rows he).2.1] at hseen
        cases hseen
    refine ⟨⟨⟨e, hold, hseen⟩, fun r hr => hnone r (List.mem_append_left _ hr)⟩, fun hclosed => ?_⟩
    obtain ⟨r, hr, -, hid⟩ := hclosed
    exact hnone r (List.mem_append_right _ hr) ((c.wrote_gone rows hr).2.2.trans hid)
  · intro h
    obtain ⟨⟨⟨e, he, hseen⟩, hnone⟩, hopen⟩ := h
    refine ⟨⟨e, List.mem_append_left _ he, hseen⟩, fun r hr hgone => ?_⟩
    rcases List.mem_append.mp hr with hr | hr
    · exact hnone r hr hgone
    · obtain ⟨hev, -, hid⟩ := c.wrote_gone rows hr
      exact hopen ⟨r, hr, hev, hid ▸ hgone⟩

end ReapCall

end RunFarm
