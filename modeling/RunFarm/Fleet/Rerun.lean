import RunFarm.Fleet.RunLeg

/-! When `_run_leg` rents again for work that is finished. -/
set_option autoImplicit false

namespace RunFarm
open Program

variable {α σ : Type}

/-- What `_run_leg` meets: the answer of the offer pool, a `rent`, the code of a command that
returned, whether the host is dead, and what a later step or the teardown raised, if it did. -/
inductive LegNote where
  | got (answer : Except (Stop Raised) (Option Offer))
  | rent
  | command (rc : Option Int)
  | status (dead : Bool)
  | raised (e : Option Raised)

def raisedBy {β : Type} : Except (Stop Raised) β → Option Raised
  | .error (.raised e) => some e
  | _ => none

def LegBoxes.noting (B : LegBoxes σ) : LegBoxes (σ × List LegNote) where
  jitter := B.jitter.beside
  get := B.get.noting .got
  rent offer := (B.rent offer).noting fun _ => .rent
  leave host := (B.leave host).noting fun r => .raised (raisedBy r)
  track host := (B.track host).noting fun r => .raised (raisedBy r)
  untrack host := (B.untrack host).noting fun r => .raised (raisedBy r)
  waitReady host := (B.waitReady host).beside
  ship host := (B.ship host).beside
  restore host := (B.restore host).beside
  startFetching host := (B.startFetching host).beside
  stopFetching := B.stopFetching.noting fun r => .raised (raisedBy r)
  runCommand host := (B.runCommand host).noting fun r => .command (r.toOption.map Prod.fst)
  hostDead host := (B.hostDead host).noting fun r =>
    .status ((r.toOption.map ProviderExecutor.truthy).getD true)
  fetch host := (B.fetch host).noting fun r => .raised (raisedBy r)
  complete := B.complete.noting fun r => .raised (raisedBy r)
  validate := B.validate.noting fun r => .raised (raisedBy r)
  verdict := B.verdict.noting fun r => .raised (raisedBy r)

theorem LegBoxes.noting_runCommand (B : LegBoxes σ) (host : Host) : B.noting.runCommand host =
    (B.runCommand host).noting fun r => .command (r.toOption.map Prod.fst) := rfl

theorem LegBoxes.noting_hostDead (B : LegBoxes σ) (host : Host) : B.noting.hostDead host =
    (B.hostDead host).noting fun r =>
      .status ((r.toOption.map ProviderExecutor.truthy).getD true) := rfl

theorem LegBoxes.noting_rent (B : LegBoxes σ) (offer : Offer) : B.noting.rent offer =
    (B.rent offer).noting fun _ => .rent := rfl

structure LegWatch where
  finished : Bool := false
  flying : Option Raised := none

def LegWatch.step (w : LegWatch) : LegNote → LegWatch
  | .got _ | .rent => w
  | .command rc => { w with finished := w.finished || rc = some 0 }
  | .status dead => { w with finished := w.finished || !dead }
  | .raised e => { w with flying := e.or w.flying }

def LegWatch.failsOver (w : LegWatch) : Bool :=
  w.flying.any fun e => ProviderExecutor.failsOver e.exc

def legWatch (notes : List LegNote) : LegWatch := notes.foldl LegWatch.step {}

@[simp] theorem legWatch_snoc (notes : List LegNote) (note : LegNote) :
    legWatch (notes ++ [note]) = (legWatch notes).step note := by
  simp [legWatch]

namespace Rerun

def goesOn : Except (Stop Raised) (Option Offer) → Bool
  | .ok offer => offer.isSome
  | .error (.raised e) => e.exc.kind ≠ .budgetExceeded
  | .error .stuck => false

/-- Where something that fails over was raised after the work was finished, the pool has no more
offers. -/
def Spared (before : List LegNote) : LegNote → Prop
  | .got answer => (legWatch before).finished = true → (legWatch before).failsOver = true →
      goesOn answer = false
  | _ => True

def NotAgain (before : List LegNote) : LegNote → Prop
  | .rent => (legWatch before).finished = false
  | _ => True

/-- No host is rented for work that is finished, and the leg ends with its result unless the budget
stops it. -/
structure WorkKept (notes : List LegNote) (result : Except (Stop Raised) LegResult) : Prop where
  once : Throughout NotAgain notes
  ends : (legWatch notes).finished = true → ∀ e, result = .error (.raised e) →
    e.exc.kind = .budgetExceeded

def Repeated (l : List LegNote) : Prop := ¬ Throughout Spared l ∧ ¬ Throughout NotAgain l

structure Clean (A : LegWatch → Prop) (l : List LegNote) : Prop where
  spared : Throughout Spared l
  once : Throughout NotAgain l
  watch : A (legWatch l)

structure Offered (l : List LegNote) : Prop where
  lost : ¬ Throughout Spared l
  once : Throughout NotAgain l
  finished : (legWatch l).finished = true

def Holds (A : LegWatch → Prop) (l : List LegNote) : Prop := Repeated l ∨ Clean A l

def Fresh (w : LegWatch) : Prop := w.finished = false

def Flying (e : Raised) (w : LegWatch) : Prop := w.finished = true → w.flying = some e

def Looping (w : LegWatch) : Prop := w.finished = true → w.failsOver = true

variable {A A' : LegWatch → Prop} {l : List LegNote} {x : LegNote} {e : Raised}

theorem Repeated.snoc (h : Repeated l) (x : LegNote) : Repeated (l ++ [x]) :=
  ⟨fun hall => h.1 (throughout_snoc.mp hall).1, fun hall => h.2 (throughout_snoc.mp hall).1⟩

theorem Holds.imp (h : Holds A l) (hA : ∀ w, A w → A' w) : Holds A' l :=
  h.imp_right fun hc => ⟨hc.spared, hc.once, hA _ hc.watch⟩

theorem Holds.any (h : Holds A l) : Holds (fun _ => True) l := h.imp fun _ _ => trivial

theorem Holds.snoc (h : Holds A l) (hspared : Spared l x) (honce : NotAgain l x)
    (hA : ∀ w, A w → A' (w.step x)) : Holds A' (l ++ [x]) := by
  rcases h with hrerun | hclean
  · exact .inl (hrerun.snoc x)
  · refine .inr ⟨throughout_snoc.mpr ⟨hclean.spared, hspared⟩,
      throughout_snoc.mpr ⟨hclean.once, honce⟩, ?_⟩
    rw [legWatch_snoc]
    exact hA _ hclean.watch

theorem Holds.kept (h : Holds A l) : Holds A (l ++ [.raised none]) :=
  h.snoc trivial trivial fun _ hw => hw

theorem Holds.raises (h : Holds A l) (e : Raised) : Holds (Flying e) (l ++ [.raised (some e)]) :=
  h.snoc trivial trivial fun _ _ _ => rfl

theorem Holds.flies (h : Holds Fresh l) (e : Raised) : Holds (Flying e) l :=
  h.imp fun w hw hfinished => by
    rw [hw] at hfinished
    cases hfinished

/-- From notes with `A` a program leaves notes with `K`, or with its exception in flight. -/
def Leaves {β : Type} (A : LegWatch → Prop) (p : Prog (σ × List LegNote) Raised β)
    (K : β → LegWatch → Prop) : Prop :=
  Runs (Program.Seen (Holds A)) p (fun b => Program.Seen (Holds (K b)))
    (fun e => Program.Seen (Holds (Flying e))) (Program.Seen (Holds fun _ => True))

section
variable (B : LegBoxes σ) (leg : FleetLeg α) {β : Type}

theorem before_leaves (p : Prog σ Raised β) :
    Leaves Fresh (p.beside : Prog (σ × List LegNote) Raised β) fun _ => Fresh :=
  .seen_beside p (fun _ _ h => h) (fun e _ h => h.flies e) fun _ h => h.any

theorem after_leaves (p : Prog σ Raised β) :
    Leaves A (p.noting fun r => LegNote.raised (raisedBy r)) fun _ => A :=
  .seen_noting p (fun _ _ h => h.kept) (fun e _ h => h.raises e) fun _ h => h.kept.any

theorem cleanup_leaves {p : Prog (σ × List LegNote) Raised β} {K : β → LegWatch → Prop}
    {cleanup : Prog (σ × List LegNote) Raised Unit} (h : Leaves A p K)
    (hcleanup : ∀ A, Leaves A cleanup fun _ => A) : Leaves A (p.finishing cleanup) K :=
  Runs.finishing h (fun _ => hcleanup _) fun _ => hcleanup _

theorem ifResumable_leaves {p : Prog (σ × List LegNote) Raised Unit}
    (h : Leaves A p fun _ => A) :
    Leaves A (ifResumable leg p) fun _ => A :=
  .ite (fun _ => h) fun _ => .ret fun _ h => h

theorem judged_leaves : Leaves (fun _ => True) (judged B.noting leg) fun _ _ => True := by
  refine .bind (after_leaves B.complete) fun complete => .ite (fun _ => ?_)
    fun _ => .ret fun _ h => h
  refine .bind (after_leaves B.validate) fun bad => ?_
  cases bad with
  | some bad => exact .ret fun _ h => h
  | none =>
    refine .bind (after_leaves B.verdict) fun why => ?_
    cases why with
    | some why => exact .ret fun _ h => h
    | none => exact .ret fun _ h => h

def Commanded (rc : Int) (w : LegWatch) : Prop := rc ≠ 0 → Fresh w

theorem command_leaves (host : Host) :
    Leaves Fresh (B.noting.runCommand host) fun r => Commanded r.1 := by
  rw [LegBoxes.noting_runCommand]
  have hlost : ∀ l, Holds Fresh l → Holds Fresh (l ++ [.command none]) := by
    refine fun l h => h.snoc trivial trivial fun w hw => ?_
    simp [LegWatch.step, Fresh, show w.finished = false from hw]
  refine .seen_noting (B.runCommand host) (fun r l h => ?_) (fun e l h => (hlost l h).flies e)
    fun l h => (hlost l h).any
  refine h.snoc trivial trivial fun w hw hrc => ?_
  simp [LegWatch.step, Fresh, Except.toOption, hrc, show w.finished = false from hw]

theorem status_leaves (host : Host) :
    Leaves Fresh (B.noting.hostDead host) fun dead w =>
      ProviderExecutor.truthy dead = true → Fresh w := by
  rw [LegBoxes.noting_hostDead]
  have hunknown : ∀ l, Holds Fresh l → Holds Fresh (l ++ [.status true]) := by
    refine fun l h => h.snoc trivial trivial fun w hw => ?_
    simp [LegWatch.step, Fresh, show w.finished = false from hw]
  refine .seen_noting (B.hostDead host) (fun r l h => ?_) (fun e l h => (hunknown l h).flies e)
    fun l h => (hunknown l h).any
  refine h.snoc trivial trivial fun w hw hdead => ?_
  simp [LegWatch.step, Fresh, Except.toOption, hdead, show w.finished = false from hw]

theorem onHost_leaves (host : Host) : Leaves Fresh (onHost B.noting leg host) fun _ _ => True := by
  unfold onHost
  refine .bind (before_leaves (B.waitReady host)) fun _ => ?_
  refine .bind (before_leaves (B.ship host)) fun _ => ?_
  refine .bind (ifResumable_leaves leg (before_leaves (B.restore host))) fun _ => ?_
  refine .bind (ifResumable_leaves leg (before_leaves (B.startFetching host))) fun _ => ?_
  have hstop : ∀ A, Leaves A (ifResumable leg B.noting.stopFetching) fun _ => A :=
    fun A => ifResumable_leaves leg (after_leaves B.stopFetching)
  refine .bind (cleanup_leaves (command_leaves B host) hstop) fun ⟨rc, out⟩ => ?_
  refine .ite (fun hrc => ?_) fun _ => ?_
  · refine .bind ((status_leaves B host).pre fun s hs => hs.imp fun w hw => hw hrc) fun dead => ?_
    exact .ite (fun hdead => .raise fun s hs => (hs.imp fun w hw => hw hdead).flies _)
      fun _ => .ret fun s hs => hs.any
  · refine .bind ((after_leaves (B.fetch host)).pre fun s hs => hs.any) fun _ => judged_leaves B leg

def Taken (l : List LegNote) : Prop := Holds Fresh l ∨ Offered l

theorem onOffer_leaves (offer : Offer) :
    Runs (Program.Seen Taken) (onOffer B.noting leg offer)
      (fun _ => Program.Seen (Holds fun _ => True)) (fun e => Program.Seen (Holds (Flying e)))
      (Program.Seen (Holds fun _ => True)) := by
  -- the rental that repeats the work
  have hrent : ∀ l, Taken l → Holds Fresh (l ++ [.rent]) := by
    rintro l (hfresh | hoffered)
    · rcases hfresh with hrerun | hclean
      · exact .inl (hrerun.snoc _)
      · refine .inr ⟨throughout_snoc.mpr ⟨hclean.spared, trivial⟩,
          throughout_snoc.mpr ⟨hclean.once, hclean.watch⟩, ?_⟩
        rw [legWatch_snoc]
        exact hclean.watch
    · refine .inl ⟨fun hall => hoffered.lost (throughout_snoc.mp hall).1, fun hall => ?_⟩
      have hagain := (throughout_snoc.mp hall).2
      rw [NotAgain, hoffered.finished] at hagain
      cases hagain
  unfold onOffer
  rw [LegBoxes.noting_rent]
  refine .bind (.seen_noting (B.rent offer) (K := fun _ => Holds Fresh) (fun _ l h => hrent l h)
    (fun e l h => (hrent l h).flies e) fun l h => (hrent l h).any) fun host => ?_
  refine cleanup_leaves (.bind (after_leaves (B.track host)) fun _ => ?_) fun A =>
    after_leaves (B.leave host)
  exact cleanup_leaves (onHost_leaves B leg host) fun A => after_leaves (B.untrack host)

/-- What is left of the notes when the leg stops with an exception. -/
def Stopped (e : Raised) (l : List LegNote) : Prop :=
  Holds (fun w => w.finished = true → e.exc.kind = .budgetExceeded) l ∨
    Offered l ∧ e.exc.kind ≠ .budgetExceeded

theorem get_leaves : Runs (Program.Seen (Holds Looping)) B.noting.get
    (fun offer => Program.Seen fun l => if offer.isSome then Taken l else Holds (fun _ => True) l)
    (fun e => Program.Seen (Stopped e)) (Program.Seen (Holds fun _ => True)) := by
  have hquiet : ∀ l answer, goesOn answer = false → Holds Looping l →
      Holds Looping (l ++ [.got answer]) :=
    fun _ _ hno h => h.snoc (fun _ _ => hno) trivial fun _ hw => hw
  -- an answer that goes on, where the work is finished or is not
  have hgoes : ∀ l answer, goesOn answer = true → Holds Looping l →
      Holds Fresh (l ++ [.got answer]) ∨ Offered (l ++ [.got answer]) := by
    intro l answer hyes h
    rcases h with hrerun | hclean
    · exact .inl (.inl (hrerun.snoc _))
    · cases hfinished : (legWatch l).finished with
      | false =>
        refine .inl (.inr ⟨throughout_snoc.mpr ⟨hclean.spared, fun hf => ?_⟩,
          throughout_snoc.mpr ⟨hclean.once, trivial⟩, ?_⟩)
        · rw [hfinished] at hf
          cases hf
        · rw [legWatch_snoc]
          exact hfinished
      | true =>
        refine .inr ⟨fun hall => ?_, throughout_snoc.mpr ⟨hclean.once, trivial⟩, ?_⟩
        · have hno := (throughout_snoc.mp hall).2 hfinished (hclean.watch hfinished)
          rw [hyes] at hno
          cases hno
        · rw [legWatch_snoc]
          exact hfinished
  refine .seen_noting B.get (fun offer l h => ?_) (fun e l h => ?_) fun l h => ?_
  · cases offer with
    | none => exact (hquiet l _ rfl h).any
    | some offer => exact hgoes l _ rfl h
  · by_cases hbudget : e.exc.kind = .budgetExceeded
    · exact .inl ((hquiet l _ (by simp [goesOn, hbudget]) h).imp fun _ _ _ => hbudget)
    · have hyes : goesOn (.error (.raised e)) = true := by simp [goesOn, hbudget]
      rcases hgoes l _ hyes h with hfresh | hoffered
      · refine .inl (hfresh.imp fun w hw hfinished => ?_)
        rw [hw] at hfinished
        cases hfinished
      · exact .inr ⟨hoffered, hbudget⟩
  · exact (hquiet l (.error .stuck) rfl h).any

theorem tryOffers_leaves (rounds tried : Nat) :
    Runs (Program.Seen (Holds Looping)) (tryOffers B.noting leg rounds tried)
      (fun _ => Program.Seen (Holds fun _ => True)) (fun e => Program.Seen (Stopped e))
      (Program.Seen (Holds fun _ => True)) := by
  induction rounds generalizing tried with
  | zero => exact .stuck fun s hs => hs.any
  | succ rounds ih =>
    unfold tryOffers
    refine .bind (get_leaves B) fun offer => ?_
    cases offer with
    | none => exact .ret fun s hs => hs
    | some offer =>
      refine .catching (onOffer_leaves B leg offer) fun e => ?_
      have hagain (hfails : ProviderExecutor.failsOver e.exc = true) :
          Runs (Program.Seen (Holds (Flying e))) (tryOffers B.noting leg rounds (tried + 1))
            (fun _ => Program.Seen (Holds fun _ => True)) (fun e => Program.Seen (Stopped e))
            (Program.Seen (Holds fun _ => True)) := by
        refine (ih (tried + 1)).pre fun s hs => hs.imp fun w hw hfinished => ?_
        simp [LegWatch.failsOver, hw hfinished, hfails]
      split
      · rename_i hbudget
        exact .raise fun s hs => .inl (hs.imp fun w hw _ => hbudget)
      · rename_i hkind
        exact hagain (by simp [ProviderExecutor.failsOver, hkind])
      · rename_i hkind
        exact hagain (by simp [ProviderExecutor.failsOver, hkind])
      · rename_i hkind
        exact hagain (by simp [ProviderExecutor.failsOver, hkind])
      · exact .ret fun s hs => hs.any

theorem runLeg_leaves (rounds : Nat) :
    Runs (Program.Seen (Holds Fresh)) (runLeg B.noting leg rounds)
      (fun _ => Program.Seen (Holds fun _ => True)) (fun e => Program.Seen (Stopped e))
      (Program.Seen (Holds fun _ => True)) := by
  have hfresh : ∀ w, Fresh w → Looping w := by
    intro w hw hfinished
    rw [hw] at hfinished
    cases hfinished
  refine .bind (.seen_beside B.jitter (fun _ _ h => h.imp hfresh) (fun e l h => .inl ?_)
    fun _ h => h.any) fun _ => tryOffers_leaves B leg rounds 0
  refine h.imp fun w hw hfinished => ?_
  rw [hw] at hfinished
  cases hfinished

end

theorem workKept_of_clean {result : Except (Stop Raised) LegResult} (h : Clean A l)
    (hends : A (legWatch l) → (legWatch l).finished = true → ∀ e, result = .error (.raised e) →
      e.exc.kind = .budgetExceeded) : WorkKept l result ↔ Throughout Spared l :=
  ⟨fun _ => h.spared, fun _ => ⟨h.once, hends h.watch⟩⟩

theorem workKept_of_rerun {result : Except (Stop Raised) LegResult} (h : Repeated l) :
    WorkKept l result ↔ Throughout Spared l :=
  ⟨fun hkept => absurd hkept.once h.2, fun hspared => absurd hspared h.1⟩

/-- Finished work is not rented for again, and the leg ends with its result, exactly where nothing
that the failover clause catches is raised on the finished host, or the pool is empty then. -/
theorem finished_work_iff (B : LegBoxes σ) (leg : FleetLeg α) (rounds : Nat) (w : σ) :
    WorkKept (runLeg B.noting leg rounds (w, [])).2.2 (runLeg B.noting leg rounds (w, [])).1 ↔
      Throughout Spared (runLeg B.noting leg rounds (w, [])).2.2 := by
  have hrun := runLeg_leaves B leg rounds (w, [])
    (.inr ⟨throughout_nil _, throughout_nil _, rfl⟩)
  cases hleg : runLeg B.noting leg rounds (w, []) with
  | mk result s =>
    rw [hleg] at hrun
    rcases result with stop | r
    · cases stop with
      | raised e =>
        rcases hrun with (hrerun | hclean) | ⟨hoffered, hkind⟩
        · exact workKept_of_rerun hrerun
        · refine workKept_of_clean hclean fun hbudget hfinished e' heq => ?_
          cases heq
          exact hbudget hfinished
        · exact ⟨fun hkept => absurd (hkept.ends hoffered.finished e rfl) hkind,
            fun hspared => absurd hspared hoffered.lost⟩
      | stuck =>
        rcases hrun with hrerun | hclean
        · exact workKept_of_rerun hrerun
        · exact workKept_of_clean hclean fun _ _ e heq => by cases heq
    · rcases hrun with hrerun | hclean
      · exact workKept_of_rerun hrerun
      · exact workKept_of_clean hclean fun _ _ e heq => by cases heq

def mountTimedOut : Raised := ⟨⟨.timeout, none, "[Errno 110] Connection timed out"⟩, "TimeoutError"⟩

def stalledFetch : LegBoxes (List Offer) where
  jitter := pure ()
  get offers := (.ok offers.head?, offers.tail)
  rent offer := pure ⟨offer.id, "host", 22⟩
  leave _ := pure ()
  track _ := pure ()
  untrack _ := pure ()
  waitReady _ := pure ()
  ship _ := pure ()
  restore _ := pure ()
  startFetching _ := pure ()
  stopFetching := pure ()
  runCommand _ := pure (0, "")
  hostDead _ := pure none
  fetch _ := .raise mountTimedOut
  complete := pure false
  validate := pure none
  verdict := pure none

def quickHost : CommandBoxes (List Offer) Raised where
  once _ := pure (0, "")
  deadReason := none
  time := pure 0
  sleep _ := pure ()

/-- The fetch stalls after the executor's own `_run_command`. -/
def stalledBoxes : LegBoxes (List Offer) :=
  stalledFetch.commanding { seconds := fun _ => "9000" } (fun _ => quickHost) false

theorem stalledBoxes_eq : stalledBoxes = stalledFetch := by
  have hcommand : CommandLimits.runCommand { seconds := fun _ => "9000" } quickHost false =
      pure (0, "") := by
    funext offers
    have hlate : ¬ (9000 : ℚ) ≤ 0 := by norm_num
    simp [CommandLimits.runCommand, CommandLimits.attemptFrom, quickHost, Prog.bind_apply,
      Prog.pure_apply, sshTransportRc, hlate]
  simp only [stalledBoxes, LegBoxes.commanding, hcommand]
  rfl

def nearOffer : Offer := ⟨"1", 1, "RTX_4090", none, some "", "vast"⟩

def farOffer : Offer := ⟨"2", 1, "RTX_4090", none, some "", "vast"⟩

def seedLeg : FleetLeg Unit := { label := "seed-1", fetch := "out" }

theorem stalled_onOffer (offer : Offer) (offers : List Offer) (l : List LegNote) :
    onOffer stalledFetch.noting seedLeg offer (offers, l) =
      (.error (.raised mountTimedOut), offers, l ++ [.rent, .raised none, .command (some 0),
        .raised (some mountTimedOut), .raised none, .raised none]) := by
  simp [onOffer, onHost, ifResumable, seedLeg, stalledFetch, LegBoxes.noting, Prog.bind_apply,
    Prog.pure_apply, Prog.beside, Prog.noting, Prog.finishing, Prog.raise, raisedBy,
    Except.toOption]

theorem stalled_tryOffers (rounds tried : Nat) (offer : Offer) (offers : List Offer)
    (l : List LegNote) :
    tryOffers stalledFetch.noting seedLeg (rounds + 1) tried (offer :: offers, l) =
      tryOffers stalledFetch.noting seedLeg rounds (tried + 1) (offers, l ++
        [.got (.ok (some offer)), .rent, .raised none, .command (some 0),
          .raised (some mountTimedOut), .raised none, .raised none]) := by
  have hget : stalledFetch.noting.get (offer :: offers, l) =
      (.ok (some offer), offers, l ++ [.got (.ok (some offer))]) := rfl
  rw [tryOffers, Prog.bind_apply, hget]
  simp only [Prog.catching, stalled_onOffer, List.append_assoc]
  rfl

/-- The second offer is rented for the finished leg. -/
theorem stalledFetch_reruns : ¬ WorkKept
    (runLeg stalledBoxes.noting seedLeg 2 ([nearOffer, farOffer], [])).2.2
    (runLeg stalledBoxes.noting seedLeg 2 ([nearOffer, farOffer], [])).1 := by
  have hjitter : stalledFetch.noting.jitter ([nearOffer, farOffer], []) =
      (.ok (), [nearOffer, farOffer], []) := rfl
  have hnotes : (runLeg stalledFetch.noting seedLeg 2 ([nearOffer, farOffer], [])).2.2 =
      [.got (.ok (some nearOffer)), .rent, .raised none, .command (some 0),
        .raised (some mountTimedOut), .raised none, .raised none, .got (.ok (some farOffer))] ++
      .rent :: [.raised none, .command (some 0), .raised (some mountTimedOut), .raised none,
        .raised none] := by
    rw [runLeg, Prog.bind_apply, hjitter]
    simp only [stalled_tryOffers]
    rfl
  rw [stalledBoxes_eq]
  intro hkept
  have hfresh := hkept.once _ _ _ hnotes
  cases hfresh

end Rerun

end RunFarm
