import RunFarm.Interleaving

/-! With no driver at work, a whole `reap` call is one run of the interleaved steps: time
passes, boxes go, and the ledger file ends as `reap` leaves it. -/
set_option autoImplicit false

namespace RunFarm
open Python (Dict)
open Relation (ReflTransGen)

def Ages (a b : ℚ × List String) : Prop := a.1 ≤ b.1 ∧ ∃ gone, b.2 = a.2.diff gone

theorem Ages.refl (a : ℚ × List String) : Ages a a := ⟨le_rfl, [], rfl⟩

theorem Ages.trans {a b c : ℚ × List String} (h : Ages a b) (h' : Ages b c) : Ages a c := by
  obtain ⟨hle, gone, hgone⟩ := h
  obtain ⟨hle', gone', hgone'⟩ := h'
  exact ⟨hle.trans hle', gone ++ gone', by rw [hgone', hgone, List.diff_append]⟩

/-- The clock and the live ids of a world in which only these things happen by themselves,
and whose clock tells the time. -/
structure View {σ : Type} (W : World σ) where
  see : σ → ℚ × List String
  lists : ∀ w, Ages (see w) (see (W.listInstances w).2)
  destroys : ∀ iid w, Ages (see w) (see (W.destroy iid w).2)
  sleeps : ∀ s w, Ages (see w) (see (W.sleep s w))
  times : ∀ w, Ages (see w) (see (W.time w).2) ∧ (W.time w).1 = (see (W.time w).2).1

def View.campaign {σ : Type} {W : World σ} (V : View W) (w : σ) (rows : List Row)
    (reap : Reaping) : Campaign :=
  { clock := (V.see w).1, rows := rows, live := (V.see w).2, reap := reap }

/-- The steps of the reap run, while nothing is rented or logged: time passes and boxes go. -/
inductive Alone : Campaign → Campaign → Prop
  | reaps {f g : Campaign} (h : Reaps f g) : Alone f g
  | gone (f : Campaign) (iid : String) : Alone f { f with live := f.live.erase iid }
  | tick (f : Campaign) (s : ℚ) (forward : 0 ≤ s) : Alone f { f with clock := f.clock + s }

theorem goes_by (f : Campaign) (gone : List String) :
    ReflTransGen Alone f { f with live := f.live.diff gone } := by
  induction gone generalizing f with
  | nil => exact .refl
  | cons iid gone ih =>
    rw [List.diff_cons]
    exact .head (.gone f iid) (ih _)

section
variable {σ : Type} {W : World σ} (V : View W)

theorem View.waits {w w' : σ} (h : Ages (V.see w) (V.see w')) (rows : List Row) (pc : Reaping) :
    ReflTransGen Alone (V.campaign w rows pc) (V.campaign w' rows pc) := by
  obtain ⟨hle, gone, hgone⟩ := h
  have htick : Alone (V.campaign w rows pc)
      { V.campaign w rows pc with clock := (V.see w).1 + ((V.see w').1 - (V.see w).1) } :=
    .tick _ _ (sub_nonneg.mpr hle)
  rw [add_sub_cancel] at htick
  have hrun := goes_by { V.campaign w rows pc with clock := (V.see w').1 } gone
  simp only [View.campaign, ← hgone] at htick hrun ⊢
  exact .head htick hrun

theorem destroyFrom_ages (iid : InstanceId) (attempt left : Nat) (w : σ) :
    Ages (V.see w) (V.see (destroyFrom W iid attempt left w).2) := by
  induction left generalizing attempt w with
  | zero => exact .refl _
  | succ left ih =>
    have hone := V.destroys iid w
    unfold destroyFrom
    cases hanswer : W.destroy iid w with
    | mk answer w₁ =>
      rw [hanswer] at hone
      cases answer with
      | ok u => exact hone
      | error e =>
        dsimp only
        cases classify e with
        | transient =>
          dsimp only
          split
          · exact hone
          · exact hone.trans ((V.sleeps (2 ^ attempt) w₁).trans (ih _ _))
        | _ => exact hone

theorem destroyAll_moves (rows : List Row) (at₀ : ℚ) (live : List Instance) (retries : Nat)
    (targets : List Instance) (o : Outcomes) (w : σ) :
    ReflTransGen Alone (V.campaign w rows (.destroying at₀ live targets o))
      (V.campaign (destroyAll W retries targets o w).2 rows
        (.destroying at₀ live [] (destroyAll W retries targets o w).1)) := by
  induction targets generalizing o w with
  | nil => exact .refl
  | cons i targets ih =>
    have hwait := V.waits (destroyFrom_ages V i.id 0 retries w) rows
      (.destroying at₀ live (i :: targets) o)
    have hstep : Alone
        (V.campaign (destroyWithRetry W i.id retries w).2 rows
          (.destroying at₀ live (i :: targets) o))
        (V.campaign (destroyWithRetry W i.id retries w).2 rows
          (.destroying at₀ live targets (o.add i (destroyWithRetry W i.id retries w).1))) :=
      .reaps (.destroy _ at₀ live i targets o _ _ rfl (.inl rfl))
    exact (hwait.tail hstep).trans (ih _ _)

theorem recordAll_moves (vanished : List String) (todo : List Row) (rows : List Row) (w : σ) :
    ReflTransGen Alone (V.campaign w rows (.closing vanished todo))
      (V.campaign (recordAll W todo w rows).1 (recordAll W todo w rows).2
        (.closing vanished [])) := by
  induction todo generalizing rows w with
  | nil => exact .refl
  | cons row todo ih =>
    obtain ⟨hage, hnow⟩ := V.times w
    have hwait := V.waits hage rows (.closing vanished (row :: todo))
    have hstep : Alone (V.campaign (W.time w).2 rows (.closing vanished (row :: todo)))
        (V.campaign (W.time w).2 (record (W.time w).1 row rows) (.closing vanished todo)) := by
      rw [hnow]
      exact .reaps (.close _ vanished row todo rfl)
    exact (hwait.tail hstep).trans (ih _ _)

theorem closing_moves (rows : List Row) (at₀ : ℚ) (live : List Instance) (o : Outcomes) (w : σ) :
    ReflTransGen Alone (V.campaign w rows (.destroying at₀ live [] o))
      (V.campaign (W.time w).2 rows
        (.closing (vanishedIds rows live o.killed (W.time w).1)
          (closingRows o.killed (vanishedIds rows live o.killed (W.time w).1) (rentRows rows)
            (W.time w).1))) := by
  obtain ⟨hage, hnow⟩ := V.times w
  have hwait := V.waits hage rows (.destroying at₀ live [] o)
  rw [hnow]
  exact ((hwait.tail (.reaps (.readClock _ at₀ live o rfl))).tail
    (.reaps (.readRents _ live o.killed _ rfl))).tail
    (.reaps (.readLeaked _ live o.killed _ _ _ rfl rfl))

variable {args : ReapArgs} (hreal : args.dryRun = false ∧ args.closeLedger = true)
  (hwhole : args.label = none ∧ args.olderThan = none)
include hreal hwhole

/-- What `reap` does from its listing on is a run of the steps of `Reaps`, with nothing but
the passing of time and the going of boxes in between. -/
theorem reap_moves (rows : List Row) (at₀ : ℚ) {w w₁ : σ} {live : List Instance}
    (hlist : listing W args (some rows) w = (.ok live, w₁)) :
    ∃ vanished, ReflTransGen Alone (V.campaign w₁ rows (.listed at₀ live))
      (V.campaign (reap W args (some rows) w).2.2
        ((reap W args (some rows) w).2.1.getD rows) (.closing vanished [])) := by
  have htargets : targetsOf W args (some rows) live w₁ = (byLedger (some rows) live, w₁) := by
    simp [targetsOf, byLabel, hwhole]
  cases hdestroy : destroyAll W args.retries (byLedger (some rows) live) {} w₁ with
  | mk o w₂ =>
    have hsweep : sweep W args (some rows) w =
        (.ok ⟨live, byLedger (some rows) live, o⟩, w₂) := by
      simp [sweep, hlist, htargets, hreal, hdestroy]
    have hdestroyed := destroyAll_moves V rows at₀ live args.retries
      (byLedger (some rows) live) {} w₁
    rw [hdestroy] at hdestroyed
    have hbefore : ReflTransGen Alone (V.campaign w₁ rows (.listed at₀ live)) _ :=
      (ReflTransGen.head (.reaps (.target _ at₀ live rfl)) hdestroyed).trans
        (closing_moves V rows at₀ live o w₂)
    simp only [reap, hsweep, hreal, Bool.not_true, Bool.or_false, Bool.false_eq_true, if_false]
    split
    case isTrue hnone =>
      -- nothing was killed and nothing has vanished, so no row is to be written
      obtain ⟨hkilled, hvanished⟩ := Bool.and_eq_true_iff.mp hnone
      rw [List.isEmpty_iff] at hkilled hvanished
      have hempty (rents : Dict String Row) (now : ℚ) :
          closingRows o.killed (vanishedIds rows live o.killed (W.time w₂).1) rents now = [] := by
        rw [hvanished, hkilled]
        rfl
      rw [hempty] at hbefore
      exact ⟨_, hbefore⟩
    case isFalse => exact ⟨_, hbefore.trans (recordAll_moves V _ _ rows _)⟩

/-- A call that lists for itself, when its listing shows what a listing shows. -/
theorem reap_undisturbed (rows : List Row) {w w₁ : σ} {live : List Instance}
    (hown : args.live = none) (hlist : W.listInstances w = (.ok live, w₁))
    (shows : Lists (V.campaign w₁ rows .idle) live) :
    ∃ vanished, ReflTransGen Alone (V.campaign w rows .idle)
      (V.campaign (reap W args (some rows) w).2.2
        ((reap W args (some rows) w).2.1.getD rows) (.closing vanished [])) := by
  have hage := V.lists w
  rw [hlist] at hage
  have hlisted : Alone (V.campaign w₁ rows .idle)
      (V.campaign w₁ rows (.listed (V.see w₁).1 live)) := .reaps (.list _ live rfl shows)
  have hlisting : listing W args (some rows) w = (.ok live, w₁) := by
    simp [listing, hown, hlist]
  obtain ⟨vanished, hrun⟩ := reap_moves V hreal hwhole rows (V.see w₁).1 hlisting
  exact ⟨vanished, ((V.waits hage rows .idle).tail hlisted).trans hrun⟩

end

def listingWorld : World (ℚ × List String) where
  listInstances w := (.ok (w.2.map fun iid =>
    { id := .text iid, status := "running", dph := 1, label := none, start := none }), w)
  destroy iid w := (.ok (), (w.1 + 1, w.2.diff [iid.str]))
  time w := (w.1, w)
  sleep s w := (w.1 + max 0 s, w.2)

def listingView : View listingWorld where
  see := id
  lists _ := .refl _
  destroys iid w := ⟨by simp [listingWorld], [iid.str], rfl⟩
  sleeps s w := ⟨le_add_of_nonneg_right (le_max_left 0 s), [], rfl⟩
  times w := ⟨.refl _, rfl⟩

def leakedTwo : List Row :=
  ["a", "b"].map fun iid => { event := .rented, ts := some 1, instanceId := some (.text iid) }

theorem leakedTwo_undisturbed : ∃ vanished,
    ReflTransGen Alone (listingView.campaign (1000, ["a"]) leakedTwo .idle)
      (listingView.campaign (reap listingWorld { dryRun := false } (some leakedTwo)
          (1000, ["a"])).2.2
        ((reap listingWorld { dryRun := false } (some leakedTwo) (1000, ["a"])).2.1.getD leakedTwo)
        (.closing vanished [])) := by
  refine reap_undisturbed listingView ⟨rfl, rfl⟩ ⟨rfl, rfl⟩ leakedTwo rfl rfl ?_
  intro iid hlive _ _ _ _ _
  rw [List.map_map]
  exact List.mem_map.mpr ⟨iid, hlive, rfl⟩

end RunFarm
