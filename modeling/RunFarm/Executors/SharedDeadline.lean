import RunFarm.Fleet.RunCommand
import RunFarm.Timed

/-! One deadline for all attempts at a command, of a fleet leg and of a worker. -/
set_option autoImplicit false

namespace RunFarm
open Program

/-- What an executor asks of a host, with its answer: an attempt with its timeout and the code that
came back, a read of its status, and a look for a worker. -/
inductive AttemptNote where
  | ran (timeout : ℚ) (rc : Option Int)
  | status (dead : Bool)
  | probe (gone : Bool)
  deriving DecidableEq

/-- The attempts so far and the code of the last one, whether the host was found dead, and whether
no probe has answered `GONE` since. -/
structure Tries where
  starts : Nat := 0
  last : Option Int := none
  dead : Bool := false
  pending : Bool := false

def Tries.step (a : Tries) : AttemptNote → Tries
  | .ran _ rc => { a with starts := a.starts + 1, last := rc, pending := true }
  | .status dead => { a with dead := a.dead || dead }
  | .probe gone => { a with pending := a.pending && !gone }

def triesOf (notes : List AttemptNote) : Tries := notes.foldl Tries.step {}

@[simp] theorem triesOf_snoc (notes : List AttemptNote) (note : AttemptNote) :
    triesOf (notes ++ [note]) = (triesOf notes).step note := by
  simp [triesOf]

/-- The command may be started: for the first time, or after the channel was lost over a host that
was never found dead. -/
structure MayStart (probes : Bool) (a : Tries) : Prop where
  lost : a.starts = 0 ∨ a.last = some sshTransportRc
  alive : a.dead = false
  clear : probes = true → a.pending = false

def Allowed (probes : Bool) (before : List AttemptNote) : AttemptNote → Prop
  | .ran timeout _ => 0 < timeout ∧ MayStart probes (triesOf before)
  | _ => True

/-- The limits of one call that started at `start`. -/
structure Budget where
  start : ℚ
  runTimeout : ℚ
  attempts : Nat
  probes : Bool

namespace Budget

def deadline (b : Budget) : ℚ := b.start + b.runTimeout

/-- The call is within its limits: a timeout that is negative leaves no time. -/
structure Kept (b : Budget) (t : ℚ) (l : List AttemptNote) : Prop where
  begun : b.start ≤ t
  ended : t ≤ b.start + max 0 b.runTimeout
  starts : (triesOf l).starts ≤ b.attempts
  allowed : Throughout (Allowed b.probes) l

def Code (b : Budget) (rc : Int) (t : ℚ) (l : List AttemptNote) : Prop :=
  rc = 124 ∧ b.deadline ≤ t ∨ (triesOf l).last = some rc

/-- Before attempt `i`. -/
structure Ready (b : Budget) (i : Nat) (t : ℚ) (l : List AttemptNote) : Prop
    extends Kept b t l where
  count : (triesOf l).starts = i
  may : MayStart b.probes (triesOf l)

/-- Attempt `i` lost its channel. -/
structure Lost (b : Budget) (i : Nat) (t : ℚ) (l : List AttemptNote) : Prop
    extends Kept b t l where
  count : (triesOf l).starts = i
  last : (triesOf l).last = some sshTransportRc
  alive : (triesOf l).dead = false

variable {b : Budget} {i : Nat} {t t' d : ℚ} {l : List AttemptNote} {x : AttemptNote}

theorem Kept.start (b : Budget) : b.Kept b.start [] :=
  ⟨le_rfl, le_add_of_nonneg_right (le_max_left _ _), Nat.zero_le _, throughout_nil _⟩

theorem Ready.start (b : Budget) : b.Ready 0 b.start [] :=
  ⟨.start b, rfl, .inl rfl, rfl, fun _ => rfl⟩

theorem Kept.later (h : b.Kept t l) (hlow : t ≤ t') (hhigh : t' ≤ max t b.deadline) :
    b.Kept t' l := by
  refine ⟨h.begun.trans hlow, hhigh.trans (max_le h.ended ?_), h.starts, h.allowed⟩
  exact add_le_add_right (le_max_right _ _) b.start

theorem Kept.nap (h : b.Kept t l) (hpos : 0 ≤ d) (hclamp : d ≤ max 0 (b.deadline - t)) :
    b.Kept (t + d) l := by
  refine h.later (le_add_of_nonneg_right hpos) ?_
  calc t + d ≤ t + max 0 (b.deadline - t) := add_le_add_right hclamp t
    _ = max t b.deadline := by rw [← max_add_add_left, add_zero, add_sub_cancel]

theorem Kept.note (h : b.Kept t l) (hquiet : ∀ timeout rc, x ≠ .ran timeout rc) :
    b.Kept t (l ++ [x]) := by
  refine ⟨h.begun, h.ended, ?_, throughout_snoc.mpr ⟨h.allowed, ?_⟩⟩
  · rw [triesOf_snoc]
    cases x with
    | ran timeout rc => exact absurd rfl (hquiet timeout rc)
    | status dead => exact h.starts
    | probe gone => exact h.starts
  · cases x with
    | ran timeout rc => exact absurd rfl (hquiet timeout rc)
    | status dead => trivial
    | probe gone => trivial

theorem Ready.ran (h : b.Ready i t l) (hleft : 0 < b.deadline - t) (hi : i < b.attempts)
    (hlow : t ≤ t') (hhigh : t' ≤ t + (b.deadline - t)) (rc : Option Int) :
    b.Kept t' (l ++ [.ran (b.deadline - t) rc]) := by
  have hclose : t' ≤ max t b.deadline := le_max_of_le_right (by linarith)
  have hlater := h.toKept.later hlow hclose
  refine ⟨hlater.begun, hlater.ended, ?_, throughout_snoc.mpr ⟨h.allowed, hleft, h.may⟩⟩
  rw [triesOf_snoc]
  simp only [Tries.step, h.count]
  omega

theorem Lost.status (h : b.Lost i t l) : b.Lost i t (l ++ [.status false]) := by
  refine ⟨h.toKept.note (by simp), ?_, ?_, ?_⟩ <;> rw [triesOf_snoc]
  · exact h.count
  · exact h.last
  · simp [Tries.step, h.alive]

theorem Lost.probe (h : b.Lost i t l) (gone : Bool) : b.Lost i t (l ++ [.probe gone]) := by
  refine ⟨h.toKept.note (by simp), ?_, ?_, ?_⟩ <;> rw [triesOf_snoc]
  · exact h.count
  · exact h.last
  · exact h.alive

theorem Lost.later (h : b.Lost i t l) (hlow : t ≤ t') (hhigh : t' ≤ max t b.deadline) :
    b.Lost i t' l :=
  ⟨h.toKept.later hlow hhigh, h.count, h.last, h.alive⟩

theorem Lost.nap (h : b.Lost i t l) (hpos : 0 ≤ d) (hclamp : d ≤ max 0 (b.deadline - t)) :
    b.Lost i (t + d) l :=
  ⟨h.toKept.nap hpos hclamp, h.count, h.last, h.alive⟩

theorem Lost.code (h : b.Lost i t l) : b.Code sshTransportRc t l := .inr h.last

theorem Lost.ready (h : b.Lost i t l) (hclear : b.probes = true → (triesOf l).pending = false) :
    b.Ready i t l :=
  ⟨h.toKept, h.count, .inr h.last, h.alive, hclear⟩

theorem Ready.lost (h : b.Ready i t l) (hleft : 0 < b.deadline - t) (hi : i < b.attempts)
    (hlow : t ≤ t') (hhigh : t' ≤ t + (b.deadline - t)) :
    b.Lost (i + 1) t' (l ++ [.ran (b.deadline - t) (some sshTransportRc)]) := by
  refine ⟨h.ran hleft hi hlow hhigh _, ?_, ?_, ?_⟩ <;> rw [triesOf_snoc]
  · simp [Tries.step, h.count]
  · rfl
  · exact h.may.alive

end Budget

section
variable {σ ε C : Type}

def codeOf {α : Type} (rc : α → Int) : Except (Stop ε) α → Option Int
  | .ok a => some (rc a)
  | .error _ => none

def saysDead : Except (Stop ε) (Option String) → Bool
  | .ok reason => ProviderExecutor.truthy reason
  | .error _ => false

def saysGone : Except (Stop Exc) SshAnswer → Bool
  | .ok answer => answer.rc = 0 ∧ "GONE".toList <:+: answer.out.toList
  | .error _ => false

def CommandBoxes.noting (B : CommandBoxes σ ε) : CommandBoxes (σ × List AttemptNote) ε where
  once timeout := (B.once timeout).noting fun r => .ran timeout (codeOf Prod.fst r)
  deadReason := B.deadReason.map fun p => p.noting fun r => .status (saysDead r)
  time := B.time.beside
  sleep d := (B.sleep d).beside

def Boxes.timing (B : Boxes C σ) : Boxes C (σ × List AttemptNote) where
  offers := B.offers.beside
  rent offer := (B.rent offer).beside
  teardown host := (B.teardown host).beside
  ssh host command timeout := match command with
    | .ready => (B.ssh host .ready timeout).beside
    | .worker k c => (B.ssh host (.worker k c) timeout).noting fun r =>
        .ran timeout (codeOf SshAnswer.rc r)
    | .probe => (B.ssh host .probe timeout).noting fun r => .probe (saysGone r)
  deadReason := B.deadReason.map fun p host => (p host).noting fun r => .status (saysDead r)
  time := B.time.beside
  monotonic := B.monotonic.beside
  sleep d := (B.sleep d).beside
  makedirs := B.makedirs.beside
  scpDown host := (B.scpDown host).beside

theorem timing_probe (B : Boxes C σ) (host : Host) (timeout : ℚ) :
    B.timing.ssh host .probe timeout =
      (B.ssh host .probe timeout).noting fun r => .probe (saysGone r) := rfl

theorem timing_worker (B : Boxes C σ) (host : Host) (k : Nat) (c : C) (timeout : ℚ) :
    B.timing.ssh host (.worker k c) timeout =
      (B.ssh host (.worker k c) timeout).noting fun r => .ran timeout (codeOf SshAnswer.rc r) := rfl

/-- The host of a leg, on a clock: an attempt takes its timeout at most, a status read no time,
and a nap as long as it is told. -/
structure TimedCommand (ε : Type) where
  σ : Type
  boxes : CommandBoxes σ ε
  now : σ → ℚ
  once : ∀ timeout, 0 < timeout → Within now timeout (boxes.once timeout)
  dead : ∀ p ∈ boxes.deadReason, Instant now p
  time : Reads now boxes.time
  sleep : Sleeps now boxes.sleep

structure TimedBoxes (C : Type) where
  σ : Type
  boxes : Boxes C σ
  now : σ → ℚ
  ssh : ∀ host command timeout, 0 < timeout → Within now timeout (boxes.ssh host command timeout)
  dead : ∀ p ∈ boxes.deadReason, ∀ host, Instant now (p host)
  time : Reads now boxes.time
  sleep : Sleeps now boxes.sleep

end

section
variable {σ ε : Type} {now : σ → ℚ} {b : Budget} {i : Nat}

def StatusKnown (b : Budget) (i : Nat) (dead : Option String) (t : ℚ)
    (l : List AttemptNote) : Prop :=
  b.Kept t l ∧ b.Code sshTransportRc t l ∧ (ProviderExecutor.truthy dead = false → b.Lost i t l)

theorem Budget.Lost.known {t : ℚ} {l : List AttemptNote} (h : b.Lost i t l) (dead : Option String) :
    StatusKnown b i dead t l := ⟨h.toKept, h.code, fun _ => h⟩

theorem dead_runs {p : Prog σ ε (Option String)} (h : Instant now p) :
    Runs (At now (b.Lost i))
      ((p.noting fun r => AttemptNote.status (saysDead r)).catching fun _ => pure none)
      (fun dead => At now (StatusKnown b i dead)) (fun _ => At now b.Kept) Never := by
  have hread : Runs (At now (b.Lost i)) (p.noting fun r => AttemptNote.status (saysDead r))
      (fun dead => At now (StatusKnown b i dead)) (fun _ => At now (b.Lost i)) Never := by
    refine h.noting.mono (fun _ hs => hs) (fun dead s hs => ?_) (fun e s hs => ?_) fun _ hs => hs
    · obtain ⟨l, hlost, hl⟩ := hs
      rw [At, hl]
      cases hdead : ProviderExecutor.truthy dead with
      | false =>
        have hstatus := hlost.status
        rw [show saysDead (.ok dead) = false from hdead]
        exact hstatus.known dead
      | true =>
        refine ⟨hlost.toKept.note (by simp), .inr ?_, fun hno => ?_⟩
        · rw [triesOf_snoc]
          exact hlost.last
        · rw [hdead] at hno
          cases hno
    · obtain ⟨l, hlost, hl⟩ := hs
      rw [At, hl]
      exact hlost.status
  exact hread.catching fun e => .ret fun s hs => hs.known none

end

section
variable {ε : Type} {b : Budget} {i : Nat}

def Budget.Returned (b : Budget) (r : Int × String) (t : ℚ) (l : List AttemptNote) : Prop :=
  b.Kept t l ∧ b.Code r.1 t l

theorem hostDead_runs (T : TimedCommand ε) :
    Runs (At T.now (b.Lost i)) (CommandLimits.hostDead T.boxes.noting)
      (fun dead => At T.now (StatusKnown b i dead)) (fun _ => At T.now b.Kept) Never := by
  unfold CommandLimits.hostDead CommandBoxes.noting
  cases hdead : T.boxes.deadReason with
  | none => exact .ret fun s hs => hs.known none
  | some p => exact dead_runs (T.dead p hdead)

/-- What an attempt with code `rc` leaves. -/
def Budget.Tried (b : Budget) (i : Nat) (rc : Int) (t : ℚ) (l : List AttemptNote) : Prop :=
  b.Kept t l ∧ (triesOf l).last = some rc ∧ (rc = sshTransportRc → b.Lost (i + 1) t l)

theorem once_runs {α σ : Type} {now : σ → ℚ} {p : Prog σ ε α} {t₀ : ℚ} (rc : α → Int)
    (h : Within now (b.deadline - t₀) p) (hleft : 0 < b.deadline - t₀) (hi : i < b.attempts) :
    Runs (At now fun t l => t = t₀ ∧ b.Ready i t l)
      (p.noting fun r => AttemptNote.ran (b.deadline - t₀) (codeOf rc r))
      (fun a => At now (b.Tried i (rc a))) (fun _ => At now b.Kept) Never := by
  refine h.noting.mono (fun _ hs => hs) (fun a s hs => ?_) (fun e s hs => ?_) fun _ hs => hs
  · obtain ⟨t, l, ⟨rfl, hready⟩, hlow, hhigh, hl⟩ := hs
    rw [At, hl]
    refine ⟨hready.ran hleft hi hlow hhigh _, by rw [triesOf_snoc]; rfl, fun hrc => ?_⟩
    rw [codeOf, hrc]
    exact hready.lost hleft hi hlow hhigh
  · obtain ⟨t, l, ⟨rfl, hready⟩, hlow, hhigh, hl⟩ := hs
    rw [At, hl]
    exact hready.ran hleft hi hlow hhigh _

theorem attemptFrom_step (limits : CommandLimits) (T : TimedCommand ε) (hprobes : b.probes = false)
    (left : Nat) (last : Int × String) (hi : i < b.attempts)
    (hrest : ∀ last, left ≠ 0 →
      Runs (At T.now (b.Ready (i + 1)))
        (limits.attemptFrom T.boxes.noting b.deadline left (i + 1) last)
        (fun r => At T.now (b.Returned r)) (fun _ => At T.now b.Kept) Never) :
    Runs (At T.now (b.Ready i)) (limits.attemptFrom T.boxes.noting b.deadline (left + 1) i last)
      (fun r => At T.now (b.Returned r)) (fun _ => At T.now b.Kept) Never := by
  unfold CommandLimits.attemptFrom
  refine .bind T.time.beside fun now => .ite (fun hover => .ret fun s hs => ?_) fun hleft => ?_
  · obtain ⟨rfl, hready⟩ := hs
    exact ⟨hready.toKept, .inl ⟨rfl, by linarith⟩⟩
  rw [not_le] at hleft
  refine .bind (once_runs Prod.fst (T.once _ hleft) hleft hi) fun ⟨rc, out⟩ => ?_
  refine .ite (fun _ => .ret fun s hs => ⟨hs.1, .inr hs.2.1⟩) fun hgoes => ?_
  rw [not_or, not_not] at hgoes
  obtain ⟨rfl, hmore⟩ := hgoes
  refine .bind ((hostDead_runs T).pre fun s hs => hs.2.2 rfl) fun dead => ?_
  refine .ite (fun _ => .ret fun s hs => ⟨hs.1, hs.2.1⟩) fun halive => ?_
  refine .bind T.time.beside fun now => .bind T.time.beside fun _ => ?_
  refine .bind (T.sleep.beside fun t l hl => hl.2.2.1) fun _ => ?_
  refine (hrest _ hmore).pre fun s hs => ?_
  obtain ⟨t, ⟨-, rfl, -, -, hlost⟩, hpos, hnow⟩ := hs
  have hnap := (hlost (by simpa using halive)).nap hpos (min_le_right _ _)
  rw [At, hnow]
  exact hnap.ready fun hp => by rw [hprobes] at hp; cases hp

theorem attemptFrom_runs (limits : CommandLimits) (T : TimedCommand ε) (hprobes : b.probes = false)
    (left : Nat) (last : Int × String) (hcount : i + (left + 1) = b.attempts) :
    Runs (At T.now (b.Ready i)) (limits.attemptFrom T.boxes.noting b.deadline (left + 1) i last)
      (fun r => At T.now (b.Returned r)) (fun _ => At T.now b.Kept) Never := by
  induction left generalizing i last with
  | zero =>
    exact attemptFrom_step limits T hprobes 0 last (by omega) fun _ hmore => absurd rfl hmore
  | succ left ih =>
    exact attemptFrom_step limits T hprobes (left + 1) last (by omega) fun last _ =>
      ih last (by omega)

end

section
variable {C : Type} {b : Budget} {i rounds : Nat} {deadline : ℚ}

theorem ProviderExecutor.hostDead_runs (T : TimedBoxes C) (host : Host) :
    Runs (At T.now (b.Lost i)) (ProviderExecutor.hostDead T.boxes.timing host)
      (fun dead => At T.now (StatusKnown b i dead)) (fun _ => At T.now b.Kept) Never := by
  unfold ProviderExecutor.hostDead Boxes.timing
  cases hdead : T.boxes.deadReason with
  | none => exact .ret fun s hs => hs.known none
  | some p => exact dead_runs (T.dead p hdead host)

/-- A loop that looks for the worker until `deadline` has `rounds` to go at least. -/
structure Polling (b : Budget) (i : Nat) (backoff deadline : ℚ) (rounds : Nat) (t : ℚ)
    (l : List AttemptNote) : Prop extends Budget.Lost b i t l where
  close : deadline ≤ max t b.deadline
  more : 0 < rounds
  left : deadline - t ≤ max 0 ((rounds - 1 : ℚ) * backoff)

theorem Polling.probe {backoff t t' : ℚ} {l : List AttemptNote}
    (h : Polling b i backoff deadline rounds t l) (hlow : t ≤ t') (hhigh : t' ≤ deadline)
    (gone : Bool) : Polling b i backoff deadline rounds t' (l ++ [.probe gone]) := by
  refine ⟨(h.toLost.later hlow (hhigh.trans h.close)).probe gone, ?_, h.more, ?_⟩
  · exact h.close.trans (max_le_max_right _ hlow)
  · exact (sub_le_sub_left hlow deadline).trans h.left

theorem Polling.nap {backoff t nap : ℚ} {l : List AttemptNote}
    (h : Polling b i backoff deadline (rounds + 1) t l) (hleft : 0 < deadline - t)
    (hnap : nap = min backoff (max 0 (deadline - t))) (hpos : 0 < nap) :
    Polling b i backoff deadline rounds (t + nap) l := by
  have hbackoff : 0 < backoff := hpos.trans_le (hnap ▸ min_le_left _ _)
  have hmore := h.left
  rw [max_eq_right hleft.le] at hnap
  push_cast at hmore
  rw [add_sub_cancel_right] at hmore
  have hclose : nap ≤ max 0 (b.deadline - t) := by
    have hle := h.close
    rw [hnap]
    refine (min_le_right _ _).trans ?_
    rcases le_max_iff.mp hle with hle | hle
    · linarith
    · exact le_max_of_le_right (by linarith)
  refine ⟨h.toLost.nap hpos.le hclose, h.close.trans (max_le_max_right _ (by linarith)), ?_, ?_⟩
  · by_contra hnone
    obtain rfl : rounds = 0 := by omega
    simp only [Nat.cast_zero, zero_mul, max_self] at hmore
    linarith
  · rcases min_choice backoff (deadline - t) with hmin | hmin
    · have hpositive : 0 < (rounds : ℚ) * backoff := by
        by_contra hnot
        rw [max_eq_left (not_lt.mp hnot)] at hmore
        linarith
      rw [max_eq_right hpositive.le] at hmore
      refine le_max_of_le_right ?_
      rw [hnap, hmin]
      linarith
    · refine le_max_of_le_left ?_
      rw [hnap, hmin]
      linarith

/-- `_worker_gone` says so only where a probe did. -/
def Looked (b : Budget) (i : Nat) (gone : Bool) (t : ℚ) (l : List AttemptNote) : Prop :=
  b.Lost i t l ∧ (gone = true → (triesOf l).pending = false)

theorem pollGone_runs (ex : ProviderExecutor C) (T : TimedBoxes C) (host : Host) :
    Runs (At T.now (Polling b i ex.reattachBackoffS deadline rounds))
      (ex.pollGone T.boxes.timing host deadline rounds)
      (fun gone => At T.now (Looked b i gone)) (fun _ => At T.now b.Kept) Never := by
  induction rounds with
  | zero => exact .stuck fun s hs => absurd hs.more (lt_irrefl 0)
  | succ rounds ih =>
    unfold ProviderExecutor.pollGone
    refine .bind T.time.beside fun now => .ite (fun _ => .ret fun s hs => ?_) fun hleft => ?_
    · exact ⟨hs.2.toLost, by simp⟩
    rw [not_le] at hleft
    have htimeout : 0 < min 30 (deadline - now) := lt_min (by norm_num) hleft
    -- an answer that is not `GONE` leaves the loop where it was
    have hlook : Runs (At T.now fun t l => t = now ∧
        Polling b i ex.reattachBackoffS deadline (rounds + 1) t l)
        (T.boxes.timing.ssh host .probe (min 30 (deadline - now)))
        (fun answer => At T.now fun t l =>
          Polling b i ex.reattachBackoffS deadline (rounds + 1) t l ∧
          (answer.rc = 0 ∧ "GONE".toList <:+: answer.out.toList → (triesOf l).pending = false))
        (fun _ => At T.now b.Kept) Never := by
      rw [timing_probe]
      refine (T.ssh host .probe _ htimeout).noting.mono (fun _ hs => hs) (fun answer s hs => ?_)
        (fun e s hs => ?_) fun _ hs => hs
      · obtain ⟨t, l, ⟨rfl, hpoll⟩, hlow, hhigh, hl⟩ := hs
        have hend : T.now s.1 ≤ deadline := by
          have := min_le_right 30 (deadline - t)
          linarith
        rw [At, hl]
        refine ⟨hpoll.probe hlow hend _, fun hgone => ?_⟩
        have hsays : saysGone (.ok answer) = true := decide_eq_true hgone
        simp [Tries.step, hsays]
      · obtain ⟨t, l, ⟨rfl, hpoll⟩, hlow, hhigh, hl⟩ := hs
        have hend : T.now s.1 ≤ deadline := by
          have := min_le_right 30 (deadline - t)
          linarith
        rw [At, hl]
        exact (hpoll.probe hlow hend _).toKept
    refine .bind hlook fun answer => .ite (fun hgone => .ret fun s hs => ?_) fun _ => ?_
    · exact ⟨hs.1.toLost, fun _ => hs.2 hgone⟩
    refine .bind T.time.beside fun now => .ite (fun _ => .ret fun s hs => ?_) fun hnap => ?_
    · exact ⟨hs.2.1.toLost, by simp⟩
    rw [not_le] at hnap
    refine .bind (T.sleep.beside fun t l hl => hl.2.1.toKept) fun _ => ih.pre fun s hs => ?_
    obtain ⟨t, ⟨rfl, hpoll, -⟩, -, hnow⟩ := hs
    have hpos : 0 < deadline - t := by
      by_contra hnot
      rw [max_eq_left (not_lt.mp hnot)] at hnap
      exact absurd (hnap.trans_le (min_le_right _ _)) (lt_irrefl 0)
    rw [At, hnow]
    exact hpoll.nap hpos rfl hnap

theorem workerGone_runs (ex : ProviderExecutor C) (T : TimedBoxes C) (host : Host) (now : ℚ)
    (rounds : Nat) :
    Runs (At T.now fun t l => t = now ∧ b.Lost i t l)
      (ex.workerGone T.boxes.timing (rounds + 4) host
        (min (ex.reattachBackoffS * 3) (max 0 (b.deadline - now))))
      (fun gone => At T.now (Looked b i gone)) (fun _ => At T.now b.Kept) Never := by
  unfold ProviderExecutor.workerGone
  refine .bind T.time.beside fun now' => (pollGone_runs ex T host).pre fun s hs => ?_
  obtain ⟨rfl, rfl, hlost⟩ := hs
  refine ⟨hlost, ?_, by omega, ?_⟩
  · calc T.now s.1 + min (ex.reattachBackoffS * 3) (max 0 (b.deadline - T.now s.1))
      _ ≤ T.now s.1 + max 0 (b.deadline - T.now s.1) := add_le_add_right (min_le_right _ _) _
      _ = max (T.now s.1) b.deadline := by rw [← max_add_add_left, add_zero, add_sub_cancel]
  · rw [add_sub_cancel_left]
    refine (min_le_left _ _).trans ?_
    rcases le_or_gt 0 ex.reattachBackoffS with hpos | hneg
    · refine le_max_of_le_right ?_
      push_cast
      nlinarith [(Nat.cast_nonneg rounds : (0 : ℚ) ≤ rounds)]
    · exact le_max_of_le_left (by linarith)

theorem ProviderExecutor.attemptFrom_step (ex : ProviderExecutor C) (T : TimedBoxes C)
    (host : Host) (k : Nat) (c : C) (rounds left : Nat) (last : Int × String) (hi : i < b.attempts)
    (hrest : ∀ last, left ≠ 0 → Runs (At T.now (b.Ready (i + 1)))
      (ex.attemptFrom T.boxes.timing (rounds + 4) host k c b.deadline left (i + 1) last)
      (fun r => At T.now (b.Returned r)) (fun _ => At T.now b.Kept) Never) :
    Runs (At T.now (b.Ready i))
      (ex.attemptFrom T.boxes.timing (rounds + 4) host k c b.deadline (left + 1) i last)
      (fun r => At T.now (b.Returned r)) (fun _ => At T.now b.Kept) Never := by
  unfold ProviderExecutor.attemptFrom
  refine .bind T.time.beside fun now => .ite (fun hover => .ret fun s hs => ?_) fun hleft => ?_
  · obtain ⟨rfl, hready⟩ := hs
    exact ⟨hready.toKept, .inl ⟨rfl, by linarith⟩⟩
  rw [not_le] at hleft
  rw [timing_worker]
  refine .bind (once_runs SshAnswer.rc (T.ssh host (.worker k c) _ hleft) hleft hi) fun answer => ?_
  refine .ite (fun _ => .ret fun s hs => ⟨hs.1, .inr hs.2.1⟩) fun hgoes => ?_
  rw [not_or, not_not] at hgoes
  obtain ⟨hrc, hmore⟩ := hgoes
  refine .bind ((ProviderExecutor.hostDead_runs T host).pre fun s hs => hs.2.2 hrc) fun dead => ?_
  rw [hrc]
  refine .ite (fun _ => .ret fun s hs => ⟨hs.1, hs.2.1⟩) fun halive => ?_
  refine .bind T.time.beside fun now => .bind ((workerGone_runs ex T host now rounds).pre
    fun s hs => ⟨hs.1, hs.2.2.2 (by simpa using halive)⟩) fun gone => ?_
  refine .ite (fun _ => .ret fun s hs => ⟨hs.1.toKept, hs.1.code⟩) fun hgone => ?_
  have hgone : gone = true := by simpa using hgone
  refine .bind T.time.beside fun now => ?_
  have hagain := hrest (answer.rc, answer.out) hmore
  rw [hrc] at hagain
  dsimp only
  refine .ite (fun hpos => ?_) fun _ => hagain.pre fun s hs => hs.2.1.ready fun _ => hs.2.2 hgone
  refine .bind (T.sleep.beside fun t l hl => hl.2.1.toKept) fun _ => hagain.pre fun s hs => ?_
  obtain ⟨t, ⟨rfl, hlost, hclear⟩, -, hnow⟩ := hs
  have hnapped := hlost.nap hpos.le (min_le_right _ _)
  rw [At, hnow]
  exact hnapped.ready fun _ => hclear hgone

theorem ProviderExecutor.attemptFrom_runs (ex : ProviderExecutor C) (T : TimedBoxes C)
    (host : Host) (k : Nat) (c : C) (rounds left : Nat) (last : Int × String)
    (hcount : i + (left + 1) = b.attempts) :
    Runs (At T.now (b.Ready i))
      (ex.attemptFrom T.boxes.timing (rounds + 4) host k c b.deadline (left + 1) i last)
      (fun r => At T.now (b.Returned r)) (fun _ => At T.now b.Kept) Never := by
  induction left generalizing i last with
  | zero =>
    exact attemptFrom_step ex T host k c rounds 0 last (by omega) fun _ hmore => absurd rfl hmore
  | succ left ih =>
    exact attemptFrom_step ex T host k c rounds (left + 1) last (by omega) fun last _ =>
      ih last (by omega)

end

/-- A call that started at `start` ends within its time, whether it returns or raises, and every
attempt that it made was due. -/
structure MeetsDeadline {σ ε : Type} (b : Budget) (now : σ → ℚ)
    (run : Except (Stop ε) (Int × String) × σ × List AttemptNote) : Prop where
  ends : run.1 ≠ .error .stuck
  kept : b.Kept (now run.2.1) run.2.2
  code : ∀ rc out, run.1 = .ok (rc, out) → b.Code rc (now run.2.1) run.2.2

theorem meetsDeadline_of {σ ε : Type} {b : Budget} {now : σ → ℚ}
    {p : Prog (σ × List AttemptNote) ε (Int × String)} {w : σ} (hstart : now w = b.start)
    (h : Runs (At now fun t l => t = b.start ∧ b.Ready 0 t l) p (fun r => At now (b.Returned r))
      (fun _ => At now b.Kept) Never) : MeetsDeadline b now (p (w, [])) := by
  have hrun := h (w, []) ⟨hstart, show b.Ready 0 (now w) [] from hstart ▸ .start b⟩
  cases hp : p (w, []) with
  | mk r s =>
    rw [hp] at hrun
    rcases r with stop | ⟨rc, out⟩
    · cases stop with
      | raised e => exact ⟨by simp, hrun, by simp⟩
      | stuck => exact hrun.elim
    · refine ⟨by simp, hrun.1, fun rc' out' heq => ?_⟩
      cases heq
      exact hrun.2

/-- For the command of a leg, and for a worker, where four rounds of the loop that looks for a
worker are enough. -/
theorem shared_deadline :
    (∀ (ε : Type) (limits : CommandLimits) (T : TimedCommand ε) (reattachable : Bool) (w : T.σ),
      MeetsDeadline ⟨T.now w, limits.runTimeout,
          1 + (if reattachable then limits.reattachAttempts else 0), false⟩ T.now
        (limits.runCommand T.boxes.noting reattachable (w, []))) ∧
    ∀ (C : Type) (ex : ProviderExecutor C) (T : TimedBoxes C) (rounds : Nat) (host : Host)
      (k : Nat) (c : C) (w : T.σ),
      MeetsDeadline ⟨T.now w, ex.runTimeout, 1 + ex.reattachAttempts, true⟩ T.now
        (ex.runWorker T.boxes.timing (rounds + 4) host k c (w, [])) := by
  refine ⟨fun ε limits T reattachable w => meetsDeadline_of rfl ?_,
    fun C ex T rounds host k c w => meetsDeadline_of rfl ?_⟩
  · let b : Budget := ⟨T.now w, limits.runTimeout,
      (if reattachable then limits.reattachAttempts else 0) + 1, false⟩
    refine .bind T.time.beside fun now => .given (c := now = T.now w)
      (fun s hs => hs.1.symm.trans hs.2.1) fun hnow => ?_
    subst hnow
    have hcount : 0 + ((if reattachable then limits.reattachAttempts else 0) + 1) = b.attempts :=
      Nat.zero_add _
    rw [Nat.add_comm 1]
    refine (attemptFrom_runs (b := b) limits T rfl _ _ hcount).pre fun s hs => ?_
    exact hs.2.2
  · let b : Budget := ⟨T.now w, ex.runTimeout, ex.reattachAttempts + 1, true⟩
    refine .bind T.time.beside fun now => .given (c := now = T.now w)
      (fun s hs => hs.1.symm.trans hs.2.1) fun hnow => ?_
    subst hnow
    have hcount : 0 + (ex.reattachAttempts + 1) = b.attempts := Nat.zero_add _
    rw [Nat.add_comm 1]
    refine (ex.attemptFrom_runs (b := b) T host k c rounds _ _ hcount).pre fun s hs => ?_
    exact hs.2.2

def lossyCommand : TimedCommand Exc where
  σ := ℚ
  boxes :=
    { once := fun timeout t => (.ok (sshTransportRc, "transport died"), t + min 40 timeout)
      deadReason := none
      time := fun t => (.ok t, t)
      sleep := fun nap t =>
        if nap < 0 then
          (.error (.raised ⟨.valueError, none, "sleep length must be non-negative"⟩), t)
        else (.ok (), t + nap) }
  now := id
  once timeout hpos t s hs := by
    subst hs
    exact ⟨le_add_of_nonneg_right (le_min (by norm_num) hpos.le),
      add_le_add_right (min_le_right _ _) _⟩
  dead p hp := by cases hp
  time t s hs := by
    subst hs
    exact ⟨rfl, rfl⟩
  sleep t d s hs := by
    subst hs
    rcases lt_or_ge d 0 with hneg | hpos
    · simp [hneg]
    · simpa [not_lt.mpr hpos] using hpos

/-- A worker loses its channel after 40 s; the second look at its host, each of 5 s, finds no worker
there. The state is the clock and the number of looks. -/
def lossyBoxes : TimedBoxes Nat where
  σ := ℚ × Nat
  boxes :=
    { offers := pure []
      rent := fun _ => pure ⟨"a", "host", 22⟩
      teardown := fun _ => pure ()
      ssh := fun _ command timeout s =>
        match command with
        | .ready => (.ok ⟨0, "", true⟩, s)
        | .worker _ _ => (.ok ⟨sshTransportRc, "transport died", false⟩, s.1 + min 40 timeout, s.2)
        | .probe => (.ok ⟨0, if s.2 = 0 then "ALIVE\n" else "GONE\n", true⟩,
            s.1 + min 5 timeout, s.2 + 1)
      deadReason := some fun _ => pure none
      time := fun s => (.ok s.1, s)
      monotonic := fun s => (.ok s.1, s)
      sleep := fun nap s =>
        if nap < 0 then
          (.error (.raised ⟨.valueError, none, "sleep length must be non-negative"⟩), s)
        else (.ok (), s.1 + nap, s.2)
      makedirs := pure ()
      scpDown := fun _ => pure () }
  now := Prod.fst
  ssh host command timeout hpos t s hs := by
    subst hs
    have hmin (d : ℚ) (hd : 0 ≤ d) :
        s.1 ≤ s.1 + min d timeout ∧ s.1 + min d timeout ≤ s.1 + timeout :=
      ⟨le_add_of_nonneg_right (le_min hd hpos.le), add_le_add_right (min_le_right _ _) _⟩
    cases command with
    | ready => exact ⟨le_rfl, le_add_of_nonneg_right hpos.le⟩
    | worker k c => exact hmin 40 (by norm_num)
    | probe => exact hmin 5 (by norm_num)
  dead p hp host t s hs := by
    cases hp
    exact hs
  time t s hs := by
    subst hs
    exact ⟨rfl, rfl⟩
  sleep t d s hs := by
    subst hs
    rcases lt_or_ge d 0 with hneg | hpos
    · simp [hneg]
    · simpa [not_lt.mpr hpos] using hpos

def lossyLimits : CommandLimits :=
  { seconds := fun _ => "100", runTimeout := 100, reattachBackoffS := 10 }

def lossyExecutor : ProviderExecutor Nat :=
  { runName := toString, jsonLoads := fun _ => .error "", str := fun _ => ""
    seconds := fun _ => "100", provider := "vast", hostSpec := "", runTimeout := 100
    reattachAttempts := 3, reattachBackoffS := 10 }

/-- Of four attempts the time allows two; the second worker is started after a look that found
none, and after it there is no time for another look. -/
theorem lossy_deadlines :
    MeetsDeadline ⟨0, 100, 4, false⟩ lossyCommand.now
      (lossyLimits.runCommand lossyCommand.boxes.noting true ((0 : ℚ), [])) ∧
    (lossyLimits.runCommand lossyCommand.boxes.noting true ((0 : ℚ), [])).2.2 =
      [.ran 100 (some 255), .ran 50 (some 255)] ∧
    MeetsDeadline ⟨0, 100, 4, true⟩ lossyBoxes.now
      (lossyExecutor.runWorker lossyBoxes.boxes.timing 4 ⟨"a", "host", 22⟩ 0 0
        (((0 : ℚ), (0 : Nat)), [])) ∧
    (lossyExecutor.runWorker lossyBoxes.boxes.timing 4 ⟨"a", "host", 22⟩ 0 0
        (((0 : ℚ), (0 : Nat)), [])).2.2 =
      [.ran 100 (some 255), .status false, .probe false, .probe true, .ran 30 (some 255),
        .status false] := by
  refine ⟨shared_deadline.1 Exc lossyLimits lossyCommand true (0 : ℚ), by decide +kernel, ?_,
    by decide +kernel⟩
  exact shared_deadline.2 Nat lossyExecutor lossyBoxes 0 ⟨"a", "host", 22⟩ 0 0 ((0 : ℚ), (0 : Nat))

end RunFarm
