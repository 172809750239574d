import RunFarm.Executors.Provider

/-! How many workers a rented host may have. Within one config the executor starts a worker anew
only when it has seen none. From one config to the next it does not look. -/
set_option autoImplicit false

namespace RunFarm
open Program Python

/-- A rental, a worker command for the config at a place, with whether its own exit code came back
(`none` when the call raised), and a `pgrep`, with whether it saw no worker. -/
inductive HostNote where
  | rent
  | worker (k : Nat) (own : Option Bool)
  | probe (gone : Bool)
  deriving DecidableEq, Repr

def exitedItself : Except (Stop Exc) SshAnswer → Option Bool
  | .ok answer => some answer.own
  | .error _ => none

def sawNone : Except (Stop Exc) SshAnswer → Bool
  | .ok answer => answer.rc = 0 ∧ "GONE".toList <:+: answer.out.toList
  | .error _ => false

variable {C σ : Type}

def Boxes.noting (B : Boxes C σ) : Boxes C (σ × List HostNote) where
  offers := B.offers.beside
  rent offer := (B.rent offer).noting fun _ => .rent
  teardown host := (B.teardown host).beside
  ssh host command timeout :=
    match command with
    | .ready => (B.ssh host .ready timeout).beside
    | .worker k c => (B.ssh host (.worker k c) timeout).noting fun r => .worker k (exitedItself r)
    | .probe => (B.ssh host .probe timeout).noting fun r => .probe (sawNone r)
  deadReason := B.deadReason.map fun deadReason host => (deadReason host).beside
  time := B.time.beside
  monotonic := B.monotonic.beside
  sleep s := (B.sleep s).beside
  makedirs := B.makedirs.beside
  scpDown host := (B.scpDown host).beside

theorem noting_probe (B : Boxes C σ) (host : Host) (timeout : ℚ) :
    B.noting.ssh host .probe timeout =
      (B.ssh host .probe timeout).noting fun r => .probe (sawNone r) := rfl

theorem noting_rent (B : Boxes C σ) (offer : Offer) :
    B.noting.rent offer = (B.rent offer).noting fun _ => .rent := rfl

theorem noting_worker (B : Boxes C σ) (host : Host) (k : Nat) (c : C) (timeout : ℚ) :
    B.noting.ssh host (.worker k c) timeout =
      (B.ssh host (.worker k c) timeout).noting fun r => .worker k (exitedItself r) := rfl

/-- A host: the config whose worker was started last, whether a worker may run that has neither
returned its own exit code nor been seen to be gone, and whether the last start raised. A rental is
a host of its own. -/
structure OnHost where
  last : Option Nat := none
  pending : Bool := false
  raised : Bool := false
  deriving DecidableEq, Repr

def OnHost.step (h : OnHost) : HostNote → OnHost
  | .rent => {}
  | .worker k own => ⟨some k, h.pending || own ≠ some true, own.isNone⟩
  | .probe gone => { h with pending := h.pending && !gone }

def hostAfter (notes : List HostNote) : OnHost := notes.foldl OnHost.step {}

/-- A worker is started only when no other may run. -/
def OneWorker (notes : List HostNote) : Prop :=
  Throughout (fun before note => ∀ k own, note = .worker k own →
    (hostAfter before).pending = false) notes

def CleanReattaches (notes : List HostNote) : Prop :=
  Throughout (fun before note => ∀ k own, note = .worker k own →
    (hostAfter before).last = some k → (hostAfter before).pending = false) notes

def InOrder (notes : List HostNote) : Prop :=
  Throughout (fun before note => ∀ k own j, note = .worker k own →
    (hostAfter before).last = some j → j ≤ k) notes

def LeftAfterRaise (notes : List HostNote) : Prop :=
  Throughout (fun before note => ∀ k own, note = .worker k own →
    (hostAfter before).raised = false) notes

def Boxes.Gives (B : Boxes C σ) (own : Bool) : Prop :=
  ∃ host k c timeout w answer w',
    B.ssh host (.worker k c) timeout w = (.ok answer, w') ∧ answer.own = own

/-- What every run shows of `n` configs. -/
structure Regular (B : Boxes C σ) (n : Nat) (notes : List HostNote) : Prop where
  reattaches : CleanReattaches notes
  inOrder : InOrder notes
  leaves : LeftAfterRaise notes
  places : ∀ k own, .worker k own ∈ notes → k < n ∧ ∀ b, own = some b → B.Gives b

def HostNote.isProbe : HostNote → Bool
  | .probe _ => true
  | _ => false

/-- Each answer to a worker command for a config before the last of `n` is the worker's own exit
code, or a `pgrep` before the next worker command saw none. -/
def Answered (n : Nat) : List HostNote → Prop
  | [] => True
  | .worker k own :: notes =>
    (k + 1 < n → own = some false → .probe true ∈ notes.takeWhile HostNote.isProbe) ∧
      Answered n notes
  | .rent :: notes => Answered n notes
  | .probe _ :: notes => Answered n notes

/-- Every answer to a worker command has a code and an origin that `A` allows. -/
def Boxes.Answers (B : Boxes C σ) (A : Int → Bool → Prop) : Prop :=
  ∀ host k c timeout w answer w', B.ssh host (.worker k c) timeout w = (.ok answer, w') →
    A answer.rc answer.own

@[simp] theorem hostAfter_snoc (notes : List HostNote) (note : HostNote) :
    hostAfter (notes ++ [note]) = (hostAfter notes).step note := by
  simp [hostAfter]

theorem pending_open {notes : List HostNote} (hone : OneWorker notes)
    (hpending : (hostAfter notes).pending = true) : ∃ j own before probes,
      notes = before ++ .worker j own :: probes ∧ own ≠ some true ∧
        (hostAfter notes).last = some j ∧ (hostAfter notes).raised = own.isNone ∧
          ∀ note ∈ probes, note = .probe false := by
  induction notes using List.reverseRecOn with
  | nil => cases hpending
  | append_singleton notes note ih =>
    obtain ⟨hbefore, hlast⟩ := throughout_snoc.mp hone
    rw [hostAfter_snoc] at hpending ⊢
    cases note with
    | rent => cases hpending
    | worker k own =>
      have hfree := hlast k own rfl
      have hown : own ≠ some true := by simpa [OnHost.step, hfree] using hpending
      exact ⟨k, own, notes, [], by simp, hown, rfl, rfl, by simp⟩
    | probe gone =>
      simp only [OnHost.step, Bool.and_eq_true, Bool.not_eq_true'] at hpending
      obtain ⟨j, own, before, probes, rfl, hown, hj, hraised, hprobes⟩ := ih hbefore hpending.1
      refine ⟨j, own, before, probes ++ [.probe gone], by simp, hown, hj, hraised, ?_⟩
      intro note hnote
      rcases List.mem_append.mp hnote with hnote | hnote
      · exact hprobes note hnote
      · rw [List.mem_singleton.mp hnote, hpending.2]

theorem Answered.worker {n k : Nat} {before after : List HostNote}
    (h : Answered n (before ++ .worker k (some false) :: after)) (hk : k + 1 < n) :
    .probe true ∈ after.takeWhile HostNote.isProbe := by
  induction before with
  | nil => exact h.1 hk rfl
  | cons note before ih =>
    cases note with
    | rent => exact ih h
    | worker j own' => exact ih h.2
    | probe gone => exact ih h

theorem takeWhile_probes {probes after : List HostNote} {k : Nat} {own : Option Bool}
    (h : ∀ note ∈ probes, note = .probe false) :
    (probes ++ .worker k own :: after).takeWhile HostNote.isProbe = probes := by
  rw [List.takeWhile_append_of_pos]
  · simp [HostNote.isProbe]
  · intro note hnote
    rw [h note hnote]
    rfl

theorem Regular.answered {B : Boxes C σ} {n : Nat} {notes : List HostNote} (h : Regular B n notes)
    (hanswered : Answered n notes) : OneWorker notes := by
  have hprefix : ∀ before after, notes = before ++ after → OneWorker before := by
    intro before
    induction before using List.reverseRecOn with
    | nil => exact fun _ _ => throughout_nil _
    | append_singleton before note ih =>
      intro after hsplit
      have hnext : notes = before ++ note :: after := by simpa using hsplit
      have hone := ih (note :: after) hnext
      refine throughout_snoc.mpr ⟨hone, fun k own hnote => ?_⟩
      subst hnote
      by_contra hpending
      obtain ⟨j, own', front, probes, rfl, hown', hlast, hraised, hprobes⟩ :=
        pending_open hone (by simpa using hpending)
      have hanswer : own' = some false := by
        have hgone := h.leaves _ _ after hnext k own rfl
        rw [hraised] at hgone
        cases own' with
        | none => cases hgone
        | some b => simpa using hown'
      subst hanswer
      have hjk : j ≠ k := by
        rintro rfl
        exact hpending (h.reattaches _ _ after hnext j own rfl hlast)
      have hle := h.inOrder _ _ after hnext k own j rfl hlast
      have hk := (h.places k own (by simp [hnext])).1
      have hsame : notes =
          front ++ .worker j (some false) :: (probes ++ .worker k own :: after) := by
        simpa using hnext
      have hgone := (hsame ▸ hanswered).worker (by omega)
      rw [takeWhile_probes hprobes] at hgone
      cases hprobes _ hgone
  exact hprefix notes [] (by simp)

def UpTo (k : Nat) (h : OnHost) : Prop := ∀ j, h.last = some j → j ≤ k

namespace Regular

variable {B : Boxes C σ} {n k : Nat} {own : Option Bool} {gone : Bool} {notes : List HostNote}

theorem nil : Regular B n [] :=
  ⟨throughout_nil _, throughout_nil _, throughout_nil _, by simp⟩

theorem rent (h : Regular B n notes) : Regular B n (notes ++ [.rent]) :=
  ⟨throughout_snoc.mpr ⟨h.reattaches, by simp⟩, throughout_snoc.mpr ⟨h.inOrder, by simp⟩,
    throughout_snoc.mpr ⟨h.leaves, by simp⟩, by simpa using h.places⟩

theorem probe (h : Regular B n notes) : Regular B n (notes ++ [.probe gone]) :=
  ⟨throughout_snoc.mpr ⟨h.reattaches, by simp⟩, throughout_snoc.mpr ⟨h.inOrder, by simp⟩,
    throughout_snoc.mpr ⟨h.leaves, by simp⟩, by simpa using h.places⟩

theorem worker (h : Regular B n notes) (hk : k < n) (hown : ∀ b, own = some b → B.Gives b)
    (hraised : (hostAfter notes).raised = false) (hupto : UpTo k (hostAfter notes))
    (hclean : (hostAfter notes).last = some k → (hostAfter notes).pending = false) :
    Regular B n (notes ++ [.worker k own]) := by
  refine ⟨throughout_snoc.mpr ⟨h.reattaches, ?_⟩, throughout_snoc.mpr ⟨h.inOrder, ?_⟩,
    throughout_snoc.mpr ⟨h.leaves, fun k' own' _ => hraised⟩, ?_⟩
  · intro k' own' hnote hlast
    cases hnote
    exact hclean hlast
  · intro k' own' j hnote hlast
    cases hnote
    exact hupto j hlast
  · intro k' own' hmem
    simp only [List.mem_append, List.mem_singleton, HostNote.worker.injEq] at hmem
    rcases hmem with hmem | ⟨rfl, rfl⟩
    · exact h.places k' own' hmem
    · exact ⟨hk, hown⟩

end Regular

def Going (B : Boxes C σ) (n : Nat) (notes : List HostNote) : Prop :=
  Regular B n notes ∧ (hostAfter notes).raised = false

def Known (B : Boxes C σ) (n : Nat) (J : OnHost → Prop) (notes : List HostNote) : Prop :=
  Going B n notes ∧ J (hostAfter notes)

section
variable (ex : ProviderExecutor C) (B : Boxes C σ) {n k : Nat} {J : OnHost → Prop}
  {I F : List HostNote → Prop} (host : Host)

theorem hostDead_keeps (hF : ∀ l, I l → F l) :
    Triple (Seen I) (ProviderExecutor.hostDead B.noting host) (fun _ => Seen I) (Seen F) := by
  unfold ProviderExecutor.hostDead Boxes.noting
  cases B.deadReason with
  | none => exact .ret fun s hs => hs
  | some deadReason =>
    have hcaught : Triple (Seen I) ((deadReason host).beside.catching fun _ => pure none)
        (fun _ => Seen I) (Seen I) :=
      .catching (.beside _ fun _ hl => hl) fun _ => .ret fun s hs => hs
    exact hcaught.mono (fun _ hs => hs) (fun _ _ hs => hs) (fun s hs => hF s.2 hs)

theorem pollReady_keeps (deadline : ℚ) (rounds : Nat) (last : String) (hF : ∀ l, I l → F l) :
    Triple (Seen I) (ex.pollReady B.noting host deadline rounds last) (fun _ => Seen I)
      (Seen F) := by
  induction rounds generalizing last with
  | zero => exact .stuck fun s hs => hF s.2 hs
  | succ rounds ih =>
    unfold ProviderExecutor.pollReady
    refine .bind (.beside _ hF) fun now => .ite (fun _ => ?_) fun _ => .raise fun s hs => hF s.2 hs
    refine .bind (.beside _ hF) fun answer => .ite (fun _ => .ret fun s hs => hs) fun _ => ?_
    exact .bind (.beside _ hF) fun _ => ih answer.out

theorem pollGone_sees (deadline : ℚ) (rounds : Nat) :
    Triple (Seen (Known B n fun h => h.last = some k)) (ex.pollGone B.noting host deadline rounds)
      (fun gone => Seen (Known B n fun h =>
        h.last = some k ∧ (gone = true → h.pending = false)))
      (Seen (Regular B n)) := by
  have hF : ∀ l, Known B n (fun h => h.last = some k) l → Regular B n l := fun _ hl => hl.1.1
  induction rounds with
  | zero => exact .stuck fun s hs => hF s.2 hs
  | succ rounds ih =>
    have hnot : ∀ l, Known B n (fun h => h.last = some k) l →
        Known B n (fun h => h.last = some k ∧ (false = true → h.pending = false)) l :=
      fun l hl => ⟨hl.1, hl.2, by simp⟩
    unfold ProviderExecutor.pollGone
    refine .bind (.beside _ hF) fun now => .ite (fun _ => .ret fun s hs => hnot _ hs) fun _ => ?_
    have hprobe : Triple (Seen (Known B n fun h => h.last = some k))
        (B.noting.ssh host .probe (min 30 (deadline - now)))
        (fun answer => Seen (Known B n fun h => h.last = some k ∧
          (sawNone (.ok answer) = true → h.pending = false))) (Seen (Regular B n)) := by
      rw [noting_probe]
      refine .noting _ (fun l answer hl => ⟨⟨hl.1.1.probe, ?_⟩, ?_⟩) fun l stop hl =>
        hl.1.1.probe
      · simpa [OnHost.step] using hl.1.2
      rw [hostAfter_snoc]
      exact ⟨hl.2, fun hsaw => by simp [OnHost.step, hsaw]⟩
    refine .bind hprobe fun answer => .ite (fun hgone => .ret fun s hs => ?_) fun _ => ?_
    · exact ⟨hs.1, hs.2.1, fun _ => hs.2.2 (by simpa [sawNone] using hgone)⟩
    · have hrest : Triple (Seen (Known B n fun h => h.last = some k)) (do
            let now ← B.noting.time
            let nap := min ex.reattachBackoffS (max 0 (deadline - now))
            if nap ≤ 0 then return false
            else do
              B.noting.sleep nap
              ex.pollGone B.noting host deadline rounds)
          (fun gone => Seen (Known B n fun h => h.last = some k ∧
            (gone = true → h.pending = false))) (Seen (Regular B n)) := by
        refine .bind (.beside _ hF) fun now => ?_
        refine .ite (fun _ => .ret fun s hs => hnot _ hs) fun _ => ?_
        exact .bind (.beside _ hF) fun _ => ih
      exact hrest.pre fun s hs => ⟨hs.1, hs.2.1⟩

theorem workerGone_sees (rounds : Nat) (budgetS : ℚ) :
    Triple (Seen (Known B n fun h => h.last = some k)) (ex.workerGone B.noting rounds host budgetS)
      (fun gone => Seen (Known B n fun h =>
        h.last = some k ∧ (gone = true → h.pending = false)))
      (Seen (Regular B n)) :=
  .bind (.beside _ fun _ hl => hl.1.1) fun _ => pollGone_sees ex B host _ rounds

theorem worker_starts (c : C) (timeout : ℚ) (hk : k < n) :
    Triple (Seen (Known B n fun h => UpTo k h ∧ (h.last = some k → h.pending = false)))
      (B.noting.ssh host (.worker k c) timeout)
      (fun _ => Seen (Known B n fun h => h.last = some k)) (Seen (Regular B n)) := by
  rw [noting_worker]
  have hstart (l : List HostNote) (own : Option Bool) (hown : ∀ b, own = some b → B.Gives b)
      (hl : Known B n (fun h => UpTo k h ∧ (h.last = some k → h.pending = false)) l) :
      Regular B n (l ++ [.worker k own]) :=
    hl.1.1.worker hk hown hl.1.2 hl.2.1 hl.2.2
  refine .noting_of (R := fun answer => B.Gives answer.own) _
    (fun s answer s' hrun => ⟨host, k, c, timeout, s, answer, s', hrun, rfl⟩)
    (fun l answer hl hgives => ⟨⟨hstart l _ ?_ hl, ?_⟩, ?_⟩) fun l stop hl =>
      hstart l _ (by simp [exitedItself]) hl
  · rintro b hb
    cases hb
    exact hgives
  · simp [OnHost.step, exitedItself]
  · rw [hostAfter_snoc]
    rfl

theorem upTo_self {h : OnHost} (hlast : h.last = some k) : UpTo k h := by
  intro j hj
  rw [hlast] at hj
  cases hj
  exact le_rfl

theorem attemptFrom_starts (rounds : Nat) (c : C) (deadline : ℚ) (left i : Nat)
    (last : Int × String) (hk : k < n) :
    Triple (Seen (Known B n fun h => UpTo k h ∧ (h.last = some k → h.pending = false)))
      (ex.attemptFrom B.noting rounds host k c deadline left i last)
      (fun _ => Seen (Known B n (UpTo k))) (Seen (Regular B n)) := by
  induction left generalizing i last with
  | zero => exact .ret fun s hs => ⟨hs.1, hs.2.1⟩
  | succ left ih =>
    have hF : ∀ l, Known B n (fun h => UpTo k h ∧ (h.last = some k → h.pending = false)) l →
        Regular B n l := fun _ hl => hl.1.1
    have hF' : ∀ l, Known B n (fun h => h.last = some k) l → Regular B n l := fun _ hl => hl.1.1
    have hdone : ∀ s : σ × List HostNote, Seen (Known B n fun h => h.last = some k) s →
        Seen (Known B n (UpTo k)) s := fun s hs => ⟨hs.1, upTo_self hs.2⟩
    unfold ProviderExecutor.attemptFrom
    refine .bind (.beside _ hF) fun now => ?_
    refine .ite (fun _ => .ret fun s hs => ⟨hs.1, hs.2.1⟩) fun _ => ?_
    refine .bind (worker_starts B host c _ hk) fun answer => ?_
    refine .ite (fun _ => .ret hdone) fun _ => ?_
    refine .bind (hostDead_keeps B host hF') fun dead => .ite (fun _ => .ret hdone) fun _ => ?_
    refine .bind (.beside _ hF') fun now => ?_
    refine .bind (workerGone_sees ex B host rounds _) fun gone => ?_
    refine .ite (fun _ => .ret fun s hs => ⟨hs.1, upTo_self hs.2.1⟩) fun hgone => ?_
    have hseen : gone = true := by simpa using hgone
    have hclear : ∀ l, Known B n (fun h =>
        h.last = some k ∧ (gone = true → h.pending = false)) l → Regular B n l :=
      fun _ hl => hl.1.1
    refine .bind (.beside _ hclear) fun now => ?_
    have hagain := (ih (i + 1) (answer.rc, answer.out)).pre (P := Seen (Known B n fun h =>
      h.last = some k ∧ (gone = true → h.pending = false)))
      fun s hs => ⟨hs.1, upTo_self hs.2.1, fun _ => hs.2.2 hseen⟩
    exact .ite (fun _ => .bind (.beside _ hclear) fun _ => hagain) fun _ => hagain

theorem runConfig_starts (rounds : Nat) (c : C) (hk : k < n) :
    Triple (Seen (Known B n fun h => ∀ j, h.last = some j → j < k))
      (ex.runConfig B.noting rounds host k c) (fun _ => Seen (Known B n (UpTo k)))
      (Seen (Regular B n)) := by
  have hworker : Triple (Seen (Known B n fun h => ∀ j, h.last = some j → j < k))
      (ex.runWorker B.noting rounds host k c) (fun _ => Seen (Known B n (UpTo k)))
      (Seen (Regular B n)) := by
    refine .bind (.beside _ fun _ hl => hl.1.1) fun now => ?_
    refine (attemptFrom_starts ex B host rounds c _ _ _ _ hk).pre fun s hs => ?_
    refine ⟨hs.1, fun j hj => (hs.2 j hj).le, fun hlast => ?_⟩
    exact absurd (hs.2 k hlast) (lt_irrefl k)
  exact .bind hworker fun result => .ret fun s hs => hs

theorem runConfigs_starts (rounds : Nat) (configs : List C) (hk : k + configs.length ≤ n) :
    Triple (Seen (Known B n fun h => ∀ j, h.last = some j → j < k))
      (ex.runConfigs B.noting rounds host k configs) (fun _ => Seen (Regular B n))
      (Seen (Regular B n)) := by
  induction configs generalizing k with
  | nil => exact .ret fun s hs => hs.1.1
  | cons c configs ih =>
    simp only [List.length_cons] at hk
    have hF : ∀ l, Known B n (UpTo k) l → Regular B n l := fun _ hl => hl.1.1
    unfold ProviderExecutor.runConfigs
    refine .bind (runConfig_starts ex B host rounds c (by omega)) fun record => ?_
    have herror : Triple (Seen (Known B n (UpTo k)))
        (ProviderExecutor.errorOf record : Program.Prog (σ × List HostNote) Exc Value)
        (fun _ => Seen (Known B n (UpTo k))) (Seen (Regular B n)) := by
      unfold ProviderExecutor.errorOf
      split
      · exact .ret fun s hs => hs
      · exact .raise fun s hs => hs.1.1
    have hrest := (ih (k := k + 1) (by omega)).pre (P := Seen (Known B n (UpTo k)))
      fun s hs => ⟨hs.1, fun j hj => Nat.lt_succ_of_le (hs.2 j hj)⟩
    have hgo (e : Exc) (dead : Option String) : Triple (Seen (Known B n (UpTo k)))
        (if ProviderExecutor.truthy dead then .raise e
          else do
            let records ← ex.runConfigs B.noting rounds host (k + 1) configs
            return record :: records)
        (fun _ => Seen (Regular B n)) (Seen (Regular B n)) :=
      .ite (fun _ => .raise fun s hs => hs.1.1) fun _ =>
        .bind hrest fun records => .ret fun s hs => hs
    refine .bind herror fun error => .ite (fun _ => ?_) fun _ => ?_
    · exact .bind (hostDead_keeps B host hF) fun dead => hgo _ dead
    · exact .bind (Q := fun _ => Seen (Known B n (UpTo k))) (.ret fun s hs => hs) fun dead =>
        hgo _ dead

theorem rented_starts (rounds : Nat) (configs : List C) (offer : Offer)
    (hlength : configs.length ≤ n) :
    Triple (Seen (Regular B n)) (ex.rented B.noting rounds configs offer)
      (fun _ => Seen (Regular B n)) (Seen (Regular B n)) := by
  have hsame : ∀ l, Regular B n l → Regular B n l := fun _ hl => hl
  have hrent : Triple (Seen (Regular B n)) (B.noting.rent offer)
      (fun _ => Seen (Known B n fun h => ∀ j, h.last = some j → j < 0))
      (Seen (Regular B n)) := by
    rw [noting_rent]
    refine .noting _ (fun l host hl => ⟨⟨hl.rent, ?_⟩, ?_⟩) fun l stop hl => hl.rent
    · simp [OnHost.step]
    · simp [OnHost.step]
  refine .bind hrent fun host => .finishing ?_ (fun _ => .beside _ hsame) (.beside _ hsame)
  unfold ProviderExecutor.onHost
  have hF : ∀ l, Known B n (fun h => ∀ j, h.last = some j → j < 0) l → Regular B n l :=
    fun _ hl => hl.1.1
  have hready : Triple (Seen (Known B n fun h => ∀ j, h.last = some j → j < 0))
      (ex.waitEngineReady B.noting rounds host)
      (fun _ => Seen (Known B n fun h => ∀ j, h.last = some j → j < 0)) (Seen (Regular B n)) :=
    .bind (.beside _ hF) fun now => pollReady_keeps ex B host _ rounds "" hF
  refine .bind hready fun _ => ?_
  refine .bind (runConfigs_starts ex B host rounds configs (by omega)) fun results => ?_
  refine .bind (.beside _ hsame) fun _ => .bind (.beside _ hsame) fun _ => .ret fun s hs => hs

theorem tryOffers_starts (rounds : Nat) (configs : List C) (tried matched : Nat)
    (offers : List Offer) (last : Option Exc) (hlength : configs.length ≤ n) :
    Triple (Seen (Regular B n)) (ex.tryOffers B.noting rounds configs tried matched offers last)
      (fun _ => Seen (Regular B n)) (Seen (Regular B n)) := by
  induction offers generalizing last with
  | nil => exact .raise fun s hs => hs
  | cons offer offers ih =>
    unfold ProviderExecutor.tryOffers
    refine .catching (rented_starts ex B rounds configs offer hlength) fun e => ?_
    exact .ite (fun _ => ih (some e)) fun _ => .raise fun s hs => hs

theorem run_starts (rounds : Nat) (configs : List C) :
    Triple (Seen (Regular B configs.length)) (ex.run B.noting rounds configs)
      (fun _ => Seen (Regular B configs.length)) (Seen (Regular B configs.length)) := by
  unfold ProviderExecutor.run
  refine .ite (fun _ => .ret fun s hs => hs) fun _ => ?_
  refine .bind (.beside _ fun _ hl => hl) fun offers => ?_
  refine .ite (fun _ => .raise fun s hs => hs) fun _ => ?_
  exact tryOffers_starts ex B rounds configs _ _ _ none le_rfl

def notesOf (rounds : Nat) (configs : List C) (w : σ) : List HostNote :=
  (ex.run B.noting rounds configs (w, [])).2.2

theorem notesOf_regular (rounds : Nat) (configs : List C) (w : σ) :
    Regular B configs.length (notesOf ex B rounds configs w) := by
  have hrun := run_starts ex B rounds configs (w, []) Regular.nil
  unfold notesOf
  split at hrun
  · rename_i heq
    rw [heq]
    exact hrun
  · rename_i heq
    rw [heq]
    exact hrun

end

theorem answered_of {notes : List HostNote} {n : Nat}
    (h : ∀ k, .worker k (some false) ∈ notes → n ≤ k + 1) : Answered n notes := by
  induction notes with
  | nil => trivial
  | cons note notes ih =>
    have hrest := ih fun k hmem => h k (List.mem_cons_of_mem _ hmem)
    cases note with
    | rent => exact hrest
    | worker k own =>
      refine ⟨fun hk hown => ?_, hrest⟩
      have hlast := h k (by simp [hown])
      omega
    | probe gone => exact hrest

structure Able (ex : ProviderExecutor C) : Prop where
  attempts : 0 < ex.maxAttempts
  ready : 0 < ex.readyTimeout
  run : 0 < ex.runTimeout

def plainOffer : Offer := ⟨"a", 1, "RTX_4090", none, some "", "vast"⟩

def cutOff : Exc := ⟨.other "OSError", none, "cut off"⟩

/-- One host that is ready at once and never found dead. Its first worker command comes back with
the code `rc`, which is not the worker's own, and the second one raises. A `pgrep` sees a worker
and takes as long as the worker may run. -/
def lostBoxes (C : Type) (runTimeout : ℚ) (rc : Int) : Boxes C ℚ where
  offers := pure [plainOffer]
  rent _ := pure ⟨"a", "host", 22⟩
  teardown _ := pure ()
  ssh _ command _ :=
    match command with
    | .ready => pure ⟨0, "", true⟩
    | .worker 0 _ => pure ⟨rc, "", false⟩
    | .worker (_ + 1) _ => .raise cutOff
    | .probe => fun now => (.ok ⟨0, "ALIVE\n", true⟩, now + runTimeout)
  deadReason := none
  time := fun now => (.ok now, now)
  monotonic := pure 0
  sleep _ := pure ()
  makedirs := pure ()
  scpDown _ := pure ()

section
variable {ex : ProviderExecutor C} (rc : Int) (s : ℚ × List HostNote)

def lostBox : Host := ⟨"a", "host", 22⟩

theorem lost_gone (budgetS : ℚ) (hbudget : budgetS ≤ ex.runTimeout) : ∃ now probes,
    (∀ note ∈ probes, note = .probe false) ∧
      ex.workerGone (lostBoxes C ex.runTimeout rc).noting 1 lostBox budgetS s =
        (.ok false, now, s.2 ++ probes) := by
  by_cases hzero : budgetS ≤ 0
  · refine ⟨s.1, [], by simp, ?_⟩
    simp [ProviderExecutor.workerGone, ProviderExecutor.pollGone, Prog.bind_apply,
      Prog.pure_apply, Prog.beside, Boxes.noting, lostBoxes, hzero]
  · have hnap : max 0 (s.1 + budgetS - (s.1 + ex.runTimeout)) = 0 := max_eq_left (by linarith)
    have halive : ¬ ['G', 'O', 'N', 'E'] <:+: ['A', 'L', 'I', 'V', 'E', '\n'] := by decide
    have hlate : s.1 + budgetS ≤ s.1 + ex.runTimeout := by linarith
    refine ⟨s.1 + ex.runTimeout, [.probe false], by simp, ?_⟩
    simp [ProviderExecutor.workerGone, ProviderExecutor.pollGone, Prog.bind_apply,
      Prog.pure_apply, Prog.beside, Prog.noting, Boxes.noting, lostBoxes, hzero, sawNone, halive,
      hlate]

theorem lost_worker (h : Able ex) (c : C) : ∃ now out probes,
    ProviderExecutor.payloadOf out = none ∧ (∀ note ∈ probes, note = .probe false) ∧
      ex.runWorker (lostBoxes C ex.runTimeout rc).noting 1 lostBox 0 c s =
        (.ok (rc, out), now, s.2 ++ .worker 0 (some false) :: probes) := by
  have hrun : ¬ ex.runTimeout ≤ 0 := not_le.mpr h.run
  by_cases hword : rc ≠ sshTransportRc ∨ ex.reattachAttempts = 0
  · refine ⟨s.1, "", [], by decide +kernel, by simp, ?_⟩
    simp [ProviderExecutor.runWorker, ProviderExecutor.attemptFrom, Nat.add_comm 1,
      Prog.bind_apply, Prog.pure_apply, Prog.beside, Prog.noting, Boxes.noting, lostBoxes, hrun,
      hword, exitedItself]
  · let start : ℚ × List HostNote := (s.1, s.2 ++ [.worker 0 (some false)])
    obtain ⟨now, probes, hprobes, hgone⟩ := lost_gone rc start
      (min (ex.reattachBackoffS * 3) (max 0 ex.runTimeout))
      ((min_le_right _ _).trans (max_eq_right h.run.le).le)
    refine ⟨now, "" ++ "  [ssh transport died and a worker may still be running on " ++
      lostBox.id ++ "; declined to start a second one]", probes, by decide +kernel, hprobes, ?_⟩
    have hfirst : (lostBoxes C ex.runTimeout rc).noting.ssh lostBox (.worker 0 c) ex.runTimeout
        s = (.ok ⟨rc, "", false⟩, start) := rfl
    have htime (s : ℚ × List HostNote) :
        (lostBoxes C ex.runTimeout rc).noting.time s = (.ok s.1, s) := rfl
    have hdead (s : ℚ × List HostNote) :
        ProviderExecutor.hostDead (lostBoxes C ex.runTimeout rc).noting lostBox s =
          (.ok none, s) := rfl
    simp [ProviderExecutor.runWorker, ProviderExecutor.attemptFrom, Nat.add_comm 1,
      Prog.bind_apply, Prog.pure_apply, htime, hrun, hfirst, hword, hdead, hgone,
      ProviderExecutor.truthy, start]

theorem lost_second (h : Able ex) (c : C) :
    ex.runWorker (lostBoxes C ex.runTimeout rc).noting 1 lostBox 1 c s =
      (.error (.raised cutOff), s.1, s.2 ++ [.worker 1 none]) := by
  have hrun : ¬ ex.runTimeout ≤ 0 := not_le.mpr h.run
  simp [ProviderExecutor.runWorker, ProviderExecutor.attemptFrom, Nat.add_comm 1, Prog.bind_apply,
    Prog.raise, Prog.beside, Prog.noting, Boxes.noting, lostBoxes, hrun, exitedItself]

theorem lost_configs (h : Able ex) (c c' : C) (configs : List C) : ∃ now probes,
    (∀ note ∈ probes, note = .probe false) ∧
      ex.runConfigs (lostBoxes C ex.runTimeout rc).noting 1 lostBox 0 (c :: c' :: configs) s =
        (.error (.raised cutOff), now,
          s.2 ++ .worker 0 (some false) :: probes ++ [.worker 1 none]) := by
  obtain ⟨now, out, probes, hnone, hprobes, hfirst⟩ := lost_worker rc s h c
  have hsecond := lost_second rc (now, s.2 ++ .worker 0 (some false) :: probes) h c'
  have hdead (s : ℚ × List HostNote) :
      ProviderExecutor.hostDead (lostBoxes C ex.runTimeout rc).noting lostBox s =
        (.ok none, s) := rfl
  have hof (error : String) (s : ℚ × List HostNote) :
      ProviderExecutor.errorOf (ex.errorRecord c error) s = (.ok (.str error), s) := rfl
  refine ⟨now, probes, hprobes, ?_⟩
  simp [ProviderExecutor.runConfigs, ProviderExecutor.runConfig, Prog.bind_apply,
    Prog.pure_apply, hfirst, ProviderExecutor.parseRecord, hnone, hof, hdead, hsecond,
    ProviderExecutor.truthy, Value.truthy]

/-- Any other code than 255 is taken for the worker's word, 255 is when no attempt is left or the
worker is still seen, and then the next worker is started. -/
theorem lost_notes (h : Able ex) {configs : List C} (hmany : 1 < configs.length) : ∃ probes,
    (∀ note ∈ probes, note = .probe false) ∧
      notesOf ex (lostBoxes C ex.runTimeout rc) 1 configs 0 =
        .rent :: .worker 0 (some false) :: probes ++ [.worker 1 none] := by
  obtain ⟨c, c', configs, rfl⟩ : ∃ c c' rest, configs = c :: c' :: rest := by
    match configs, hmany with
    | c :: c' :: rest, _ => exact ⟨c, c', rest, rfl⟩
  obtain ⟨now, probes, hprobes, hconfigs⟩ := lost_configs rc (0, [.rent]) h c c' configs
  have hready (s : ℚ × List HostNote) :
      ex.waitEngineReady (lostBoxes C ex.runTimeout rc).noting 1 lostBox s = (.ok (), s) := by
    simp [ProviderExecutor.waitEngineReady, ProviderExecutor.pollReady, Prog.bind_apply,
      Prog.pure_apply, Prog.beside, Boxes.noting, lostBoxes, h.ready]
  have hslice : sliceTo ex.maxAttempts [plainOffer] = [plainOffer] := by
    have hattempts := h.attempts
    unfold sliceTo
    rw [if_pos hattempts.le]
    exact List.take_of_length_le (by simp; omega)
  have hoffers (s : ℚ × List HostNote) :
      (lostBoxes C ex.runTimeout rc).noting.offers s = (.ok [plainOffer], s) := rfl
  have hrent : (lostBoxes C ex.runTimeout rc).noting.rent plainOffer (0, []) =
      (.ok lostBox, 0, [.rent]) := rfl
  have hteardown (s : ℚ × List HostNote) :
      (lostBoxes C ex.runTimeout rc).noting.teardown lostBox s = (.ok (), s) := rfl
  have hrented : ex.rented (lostBoxes C ex.runTimeout rc).noting 1 (c :: c' :: configs) plainOffer
      (0, []) = (.error (.raised cutOff), now,
        .rent :: .worker 0 (some false) :: probes ++ [.worker 1 none]) := by
    simp [ProviderExecutor.rented, ProviderExecutor.onHost, Prog.bind_apply, hrent,
      Prog.finishing, hready, hconfigs, hteardown]
  refine ⟨probes, hprobes, ?_⟩
  simp [notesOf, ProviderExecutor.run, Prog.bind_apply, hoffers, hslice,
    ProviderExecutor.tryOffers, Prog.catching, hrented, ProviderExecutor.failsOver, cutOff,
    Prog.raise]

theorem lost_overlap (h : Able ex) {configs : List C} (hmany : 1 < configs.length) :
    ¬ OneWorker (notesOf ex (lostBoxes C ex.runTimeout rc) 1 configs 0) := by
  intro hone
  obtain ⟨probes, hprobes, hnotes⟩ := lost_notes rc h hmany
  have hpending : (hostAfter (.rent :: .worker 0 (some false) :: probes)).pending = true := by
    clear hnotes
    induction probes using List.reverseRecOn with
    | nil => rfl
    | append_singleton probes note ih =>
      have hseen := hprobes note (by simp)
      have hrest := ih fun note hmem => hprobes note (by simp [hmem])
      rw [← List.cons_append, ← List.cons_append, hostAfter_snoc, hseen]
      simp [OnHost.step, hrest]
  have hfree := hone (.rent :: .worker 0 (some false) :: probes) (.worker 1 none) [] hnotes 1 none
    rfl
  rw [hpending] at hfree
  cases hfree

end

/-- A run starts a worker only on a free host when the answers to the worker commands are those of
the workers, or the `pgrep`s make up for those that are not. Of the answers nothing less is enough:
two configs and one code that is not the worker's own make a run that starts a second worker. -/
theorem oneWorker_iff (ex : ProviderExecutor C) (h : Able ex) (configs : List C) :
    (∀ (σ : Type) (B : Boxes C σ) (rounds : Nat) (w : σ),
      Answered configs.length (notesOf ex B rounds configs w) →
        OneWorker (notesOf ex B rounds configs w)) ∧
    ∀ A : Int → Bool → Prop,
      (∀ (σ : Type) (B : Boxes C σ), B.Answers A → ∀ (rounds : Nat) (w : σ),
        OneWorker (notesOf ex B rounds configs w)) ↔
      configs.length ≤ 1 ∨ ∀ rc own, A rc own → own = true := by
  have hall (σ : Type) (B : Boxes C σ) (rounds : Nat) (w : σ) :=
    (notesOf_regular ex B rounds configs w)
  refine ⟨fun σ B rounds w => (hall σ B rounds w).answered, fun A => ⟨fun hone => ?_, ?_⟩⟩
  · rw [or_iff_not_imp_left]
    intro hmany rc own hA
    by_contra hlost
    rw [Bool.not_eq_true] at hlost
    subst hlost
    refine lost_overlap rc h (not_le.mp hmany) (hone _ _ ?_ 1 0)
    rintro host (_ | k) c timeout w answer w' hanswer
    · cases hanswer
      exact hA
    · cases hanswer
  · rintro hown σ B hB rounds w
    refine (hall σ B rounds w).answered (answered_of fun k hk => ?_)
    obtain ⟨hplace, hgives⟩ := (hall σ B rounds w).places k _ hk
    obtain ⟨host, j, c, timeout, v, answer, v', hanswer, hfalse⟩ := hgives false rfl
    rcases hown with hone | hown
    · omega
    · have htrue := hown _ _ (hB host j c timeout v answer v' hanswer)
      rw [hfalse] at htrue
      cases htrue

def defaultExecutor (reattachAttempts : Nat) : ProviderExecutor Nat :=
  { runName := toString, jsonLoads := fun _ => .error "", str := fun _ => ""
    seconds := fun _ => "3600", provider := "vast", hostSpec := "", reattachAttempts }

def scriptedBoxes (sees : String) : Boxes Nat (List SshAnswer) where
  offers := pure [plainOffer]
  rent _ := pure lostBox
  teardown _ := pure ()
  ssh _ command _ :=
    match command with
    | .ready => pure ⟨0, "", true⟩
    | .worker _ _ => fun answers =>
      match answers with
      | [] => (.error (.raised cutOff), [])
      | answer :: answers => (.ok answer, answers)
    | .probe => pure ⟨0, sees, true⟩
  deadReason := none
  time := pure 0
  monotonic := pure 0
  sleep _ := pure ()
  makedirs := pure ()
  scpDown _ := pure ()

/-- The worker of the first config comes to its timeout, and that of the second is started. -/
theorem twoConfigs_overlap : ¬ OneWorker (notesOf (defaultExecutor 0) (scriptedBoxes "ALIVE\n") 1
    [0, 1] [⟨124, "ssh timeout after 3600s", false⟩, ⟨0, "", true⟩]) := by
  have hnotes : notesOf (defaultExecutor 0) (scriptedBoxes "ALIVE\n") 1 [0, 1]
      [⟨124, "ssh timeout after 3600s", false⟩, ⟨0, "", true⟩] =
        [.rent, .worker 0 (some false), .worker 1 (some true)] := by
    decide +kernel
  intro hone
  rw [hnotes] at hone
  cases hone [.rent, .worker 0 (some false)] (.worker 1 (some true)) [] rfl 1 (some true) rfl

theorem reattached_once : Answered 2 (notesOf (defaultExecutor 1) (scriptedBoxes "GONE\n") 1 [0, 1]
      [⟨255, "", false⟩, ⟨0, "", true⟩, ⟨124, "", false⟩]) ∧
    OneWorker (notesOf (defaultExecutor 1) (scriptedBoxes "GONE\n") 1 [0, 1]
      [⟨255, "", false⟩, ⟨0, "", true⟩, ⟨124, "", false⟩]) := by
  have hanswered : Answered 2 (notesOf (defaultExecutor 1) (scriptedBoxes "GONE\n") 1 [0, 1]
      [⟨255, "", false⟩, ⟨0, "", true⟩, ⟨124, "", false⟩]) := by
    have hnotes : notesOf (defaultExecutor 1) (scriptedBoxes "GONE\n") 1 [0, 1]
        [⟨255, "", false⟩, ⟨0, "", true⟩, ⟨124, "", false⟩] =
          [.rent, .worker 0 (some false), .probe true, .worker 0 (some true),
            .worker 1 (some false)] := by
      decide +kernel
    rw [hnotes]
    simp [Answered, List.takeWhile, HostNote.isProbe]
  exact ⟨hanswered, (oneWorker_iff (defaultExecutor 1)
    ⟨by decide, by decide +kernel, by decide +kernel⟩ [0, 1]).1 _ _ _ _ hanswered⟩

end RunFarm
