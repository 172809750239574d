import RunFarm.Registry.Backends

/-! Workers that register runs at the same time: each effect of a `register` is a step, and a
worker may die between any two. -/
set_option autoImplicit false

namespace RunFarm
open RunNamed (runName)
open Transition (exec Along exec_keeps_along)

/-- The next effect of a `register`. -/
inductive RegisterStage where
  | mkdir | check | config | record
  deriving DecidableEq, Repr

def RegisterStage.late : RegisterStage → Bool
  | .config | .record => true
  | _ => false

structure Registering (W C D : Type) where
  store : D
  turn : W → Option (C × RegisterStage)
  completed : List C

/-- `die` is a kill or an exception, before any effect. -/
inductive RegisterEvent (W C : Type) where
  | enter (w : W) (c : C)
  | step (w : W)
  | die (w : W)

variable {W C D : Type} [DecidableEq W]

namespace Registering

def moves (s : Registering W C D) (w : W) (c : C) (stage : RegisterStage) (d : D) :
    Registering W C D :=
  ⟨d, Function.update s.turn w (some (c, stage)), s.completed⟩

def leaves (s : Registering W C D) (w : W) : Registering W C D :=
  ⟨s.store, Function.update s.turn w none, s.completed⟩

def completes (s : Registering W C D) (w : W) (c : C) (d : D) : Registering W C D :=
  ⟨d, Function.update s.turn w none, c :: s.completed⟩

def advance (R : Registration C D) (s : Registering W C D) (w : W) (c : C) :
    RegisterStage → Option (Registering W C D)
  | .mkdir => (R.mkdir c s.store).map (s.moves w c .check)
  | .check =>
    if R.configured c s.store then some (s.completes w c s.store)
    else some (s.moves w c .config s.store)
  | .config => (R.writeConfig c s.store).map (s.moves w c .record)
  | .record => (R.record c s.store).map (s.completes w c)

def step (R : Registration C D) (s : Registering W C D) :
    RegisterEvent W C → Option (Registering W C D)
  | .enter w c => if s.turn w = none then some (s.moves w c .mkdir s.store) else none
  | .step w => (s.turn w).bind fun t => s.advance R w t.1 t.2
  | .die w => if s.turn w = none then none else some (s.leaves w)

theorem register_steps (R : Registration C D) (s : Registering W C D) (w : W) (c : C) (d : D)
    (hfree : s.turn w = none) (hcall : R.register c s.store = (some (), d)) :
    ∃ n, (exec (step R) s (.enter w c :: List.replicate n (.step w))).map store = some d := by
  obtain ⟨d₁, hmkdir, ⟨hconf, rfl⟩ | ⟨hconf, d₂, hwrite, hrecord⟩⟩ :=
    Registration.register_some.mp hcall
  · exact ⟨2, by simp [exec, step, hfree, moves, advance, hmkdir, hconf, completes]⟩
  · exact ⟨4, by simp [exec, step, hfree, moves, advance, hmkdir, hconf, hwrite, hrecord,
      completes]⟩

end Registering

variable [RunNamed C]

def SameName (c c' : C) : Prop := runName c = runName c'

instance (c c' : C) : Decidable (SameName c c') :=
  inferInstanceAs (Decidable (runName c = runName c'))

/-- What each effect of a `register` of `c` does to the config and to the entries of any run
that is `Apart` from it. `Sound` is kept by all of them. -/
structure Tracks (R : Registration C D) (appends : Prop) (entries : C → D → Nat)
    (Sound : D → Prop) (Apart : C → C → Prop) : Prop where
  name : ∀ {c c' d}, SameName c c' → R.configured c d = R.configured c' d ∧
    entries c d = entries c' d
  mkdir : ∀ {c d d'}, Sound d → R.mkdir c d = some d' → Sound d' ∧ ∀ t, Apart c t →
    R.configured t d' = R.configured t d ∧ entries t d' = entries t d
  config : ∀ {c d d'}, Sound d → Apart c c → R.writeConfig c d = some d' → Sound d' ∧ ∀ t,
    Apart c t → entries t d' = entries t d ∧
      (R.configured t d' = true ↔ SameName c t ∨ R.configured t d = true)
  record : ∀ {c d d'}, Sound d → R.record c d = some d' → Sound d' ∧ ∀ t, Apart c t →
    R.configured t d' = R.configured t d ∧ (¬ SameName c t → entries t d' = entries t d) ∧
      (SameName c t → 1 ≤ entries t d' ∧ (appends → entries t d' = entries t d + 1) ∧
        (¬ appends → entries t d' = 1))

namespace Registering

variable (s : Registering W C D)

/-- The worker registers this run, has not found its config and has not written its entry. -/
def Late (t : C) (w : W) : Prop :=
  ∃ c stage, s.turn w = some (c, stage) ∧ SameName c t ∧ stage.late = true

def Quiet (t : C) : Prop := ∀ w c stage, s.turn w = some (c, stage) → ¬ SameName c t

/-- A death that loses no entry: the run has no config yet, or has its entry, or another worker is
on its way to write it. And no two workers of a backend that appends check in a row. -/
def Ordered (R : Registration C D) (appends : Prop) (entries : C → D → Nat) :
    RegisterEvent W C → Prop
  | .enter _ _ => True
  | .step w => appends → ∀ c, s.turn w = some (c, .check) → R.configured c s.store = false →
      ∀ w', ¬ s.Late c w'
  | .die w => ∀ c stage, s.turn w = some (c, stage) → R.configured c s.store = true →
      1 ≤ entries c s.store ∨ ∃ w', w' ≠ w ∧ s.Late c w'

/-- Besides, no worker checks while another is late. -/
def Serial (R : Registration C D) (appends : Prop) (entries : C → D → Nat)
    (e : RegisterEvent W C) : Prop :=
  s.Ordered R appends entries e ∧
    ∀ w, e = .step w → ∀ c, s.turn w = some (c, .check) → ∀ w', ¬ s.Late c w'

structure Consistent (R : Registration C D) (appends : Prop) (entries : C → D → Nat) (t : C) :
    Prop where
  tracked : R.configured t s.store = true → 1 ≤ entries t s.store ∨ ∃ w, s.Late t w
  listed : 1 ≤ entries t s.store → R.configured t s.store = true
  written : ∀ w c, s.turn w = some (c, .record) → SameName c t → R.configured t s.store = true
  atMost : entries t s.store ≤ 1
  once : appends → 1 ≤ entries t s.store → ∀ w, ¬ s.Late t w
  alone : appends → ∀ w w', s.Late t w → s.Late t w' → w = w'
  found : ∀ c ∈ s.completed, SameName c t → R.configured t s.store = true

variable {s} {s' : Registering W C D} {R : Registration C D} {appends : Prop}
  {entries : C → D → Nat} {Sound : D → Prop} {Apart : C → C → Prop} {t c : C} {w w' : W} {d : D}
  {stage : RegisterStage}

theorem late_moves : (s.moves w c stage d).Late t w' ↔
    if w' = w then SameName c t ∧ stage.late = true else s.Late t w' := by
  unfold Late moves
  by_cases hw : w' = w
  · subst hw
    simp [and_assoc]
  · simp [hw]

theorem late_leaves : (s.leaves w).Late t w' ↔ w' ≠ w ∧ s.Late t w' := by
  unfold Late leaves
  by_cases hw : w' = w
  · subst hw
    simp
  · simp [hw]

theorem late_completes : (s.completes w c d).Late t w' ↔ w' ≠ w ∧ s.Late t w' := by
  unfold Late completes
  by_cases hw : w' = w
  · subst hw
    simp
  · simp [hw]

omit [DecidableEq W] in
theorem not_late_self (hturn : s.turn w = some (c, stage))
    (h : ¬ SameName c t ∨ stage.late = false) : ¬ s.Late t w := by
  rintro ⟨c', stage', hturn', hsame, hlate⟩
  rw [hturn] at hturn'
  cases hturn'
  rcases h with h | h
  · exact h hsame
  · rw [hlate] at h
    cases h

omit [DecidableEq W] in
theorem late_self (hturn : s.turn w = some (c, stage)) (hsame : SameName c t)
    (hlate : stage.late = true) : s.Late t w := ⟨c, stage, hturn, hsame, hlate⟩

omit [RunNamed C] in
theorem entered_of_step (hstep : step R s (.enter w c) = some s') :
    s.turn w = none ∧ s' = s.moves w c .mkdir s.store := by
  simp only [step, Option.ite_none_right_eq_some, Option.some.injEq] at hstep
  exact ⟨hstep.1, hstep.2.symm⟩

omit [RunNamed C] in
theorem died_of_step (hstep : step R s (.die w) = some s') :
    (∃ c stage, s.turn w = some (c, stage)) ∧ s' = s.leaves w := by
  simp only [step, Option.ite_none_left_eq_some, Option.some.injEq] at hstep
  obtain ⟨⟨c, stage⟩, hturn⟩ := Option.ne_none_iff_exists'.mp hstep.1
  exact ⟨⟨c, stage, hturn⟩, hstep.2.symm⟩

omit [RunNamed C] in
theorem advanced_of_step (hstep : step R s (.step w) = some s') :
    ∃ c stage, s.turn w = some (c, stage) ∧ s.advance R w c stage = some s' := by
  obtain ⟨⟨c, stage⟩, hturn, hadv⟩ := Option.bind_eq_some_iff.mp hstep
  exact ⟨c, stage, hturn, hadv⟩

omit [RunNamed C] in
theorem checked_of_advance (hadv : s.advance R w c .check = some s') :
    (R.configured c s.store = true ∧ s' = s.completes w c s.store) ∨
      R.configured c s.store = false ∧ s' = s.moves w c .config s.store := by
  simp only [advance] at hadv
  split at hadv
  · rename_i hfound
    exact .inl ⟨hfound, (Option.some.inj hadv).symm⟩
  · rename_i habsent
    exact .inr ⟨by simpa using habsent, (Option.some.inj hadv).symm⟩

def Wrote (R : Registration C D) (s : Registering W C D) (d : D) : Prop :=
  ∃ w c, (s.turn w = some (c, .mkdir) ∧ R.mkdir c s.store = some d) ∨
    (s.turn w = some (c, .config) ∧ R.writeConfig c s.store = some d) ∨
    s.turn w = some (c, .record) ∧ R.record c s.store = some d

omit [RunNamed C] in
theorem store_of_step {e : RegisterEvent W C} (hstep : step R s e = some s') :
    s'.store = s.store ∨ Wrote R s s'.store := by
  cases e with
  | enter w c => exact .inl (by rw [(entered_of_step hstep).2]; rfl)
  | die w => exact .inl (by rw [(died_of_step hstep).2]; rfl)
  | step w =>
    obtain ⟨c, stage, hturn, hadv⟩ := advanced_of_step hstep
    cases stage with
    | check =>
      rcases checked_of_advance hadv with ⟨-, rfl⟩ | ⟨-, rfl⟩
      · exact .inl rfl
      · exact .inl rfl
    | mkdir =>
      obtain ⟨d, hd, rfl⟩ := Option.map_eq_some_iff.mp hadv
      exact .inr ⟨w, c, .inl ⟨hturn, hd⟩⟩
    | config =>
      obtain ⟨d, hd, rfl⟩ := Option.map_eq_some_iff.mp hadv
      exact .inr ⟨w, c, .inr (.inl ⟨hturn, hd⟩)⟩
    | record =>
      obtain ⟨d, hd, rfl⟩ := Option.map_eq_some_iff.mp hadv
      exact .inr ⟨w, c, .inr (.inr ⟨hturn, hd⟩)⟩

/-- What the last effect of a register is: it found its config, or wrote its entry. -/
def Completes (R : Registration C D) (s s' : Registering W C D) (w : W) (c : C) : Prop :=
  (s.turn w = some (c, .check) ∧ R.configured c s.store = true ∧ s'.store = s.store) ∨
    s.turn w = some (c, .record) ∧ R.record c s.store = some s'.store

omit [RunNamed C] in
theorem completed_of_step {e : RegisterEvent W C} (hstep : step R s e = some s') :
    s'.completed = s.completed ∨
      ∃ w c, e = .step w ∧ s'.completed = c :: s.completed ∧ Completes R s s' w c := by
  cases e with
  | enter w c => exact .inl (by rw [(entered_of_step hstep).2]; rfl)
  | die w => exact .inl (by rw [(died_of_step hstep).2]; rfl)
  | step w =>
    obtain ⟨c, stage, hturn, hadv⟩ := advanced_of_step hstep
    cases stage with
    | check =>
      rcases checked_of_advance hadv with ⟨hfound, rfl⟩ | ⟨-, rfl⟩
      · exact .inr ⟨w, c, rfl, rfl, .inl ⟨hturn, hfound, rfl⟩⟩
      · exact .inl rfl
    | mkdir =>
      obtain ⟨d, hd, rfl⟩ := Option.map_eq_some_iff.mp hadv
      exact .inl rfl
    | config =>
      obtain ⟨d, hd, rfl⟩ := Option.map_eq_some_iff.mp hadv
      exact .inl rfl
    | record =>
      obtain ⟨d, hd, rfl⟩ := Option.map_eq_some_iff.mp hadv
      exact .inr ⟨w, c, rfl, rfl, .inr ⟨hturn, hd⟩⟩

omit [DecidableEq W] in
theorem Consistent.frame (h : s.Consistent R appends entries t)
    (hconf : R.configured t s'.store = R.configured t s.store)
    (hentries : entries t s'.store = entries t s.store) (hlate : ∀ w, s'.Late t w ↔ s.Late t w)
    (hwritten : ∀ w c, s'.turn w = some (c, .record) → SameName c t →
      R.configured t s.store = true)
    (hfound : ∀ c ∈ s'.completed, SameName c t → R.configured t s.store = true) :
    s'.Consistent R appends entries t where
  tracked := by
    simp only [hconf, hentries, hlate]
    exact h.tracked
  listed := by
    rw [hconf, hentries]
    exact h.listed
  written := by
    rw [hconf]
    exact hwritten
  atMost := hentries ▸ h.atMost
  once := by
    simp only [hentries, hlate]
    exact h.once
  alone := by
    simp only [hlate]
    exact h.alone
  found := by
    rw [hconf]
    exact hfound

theorem Consistent.moved (h : s.Consistent R appends entries t)
    (hconf : R.configured t d = R.configured t s.store)
    (hentries : entries t d = entries t s.store)
    (hself : s.Late t w ↔ SameName c t ∧ stage.late = true)
    (hwritten : stage = .record → SameName c t → R.configured t s.store = true) :
    (s.moves w c stage d).Consistent R appends entries t := by
  refine h.frame hconf hentries (fun w' => ?_) (fun w' c' hturn hsame => ?_) h.found
  · rw [late_moves]
    by_cases hw : w' = w
    · rw [if_pos hw, hw, hself]
    · rw [if_neg hw]
  · by_cases hw : w' = w
    · subst hw
      simp only [moves, Function.update_self, Option.some.injEq, Prod.mk.injEq] at hturn
      obtain ⟨rfl, rfl⟩ := hturn
      exact hwritten rfl hsame
    · simp only [moves, Function.update_of_ne hw] at hturn
      exact h.written w' c' hturn hsame

theorem Consistent.completed (h : s.Consistent R appends entries t)
    (hconf : R.configured t d = R.configured t s.store)
    (hentries : entries t d = entries t s.store) (hself : ¬ s.Late t w)
    (hfound : SameName c t → R.configured t s.store = true) :
    (s.completes w c d).Consistent R appends entries t := by
  refine h.frame hconf hentries (fun w' => ?_) (fun w' c' hturn hsame => ?_) fun c' hc' hsame => ?_
  · rw [late_completes]
    exact ⟨And.right, fun hlate => ⟨fun hw => hself (hw ▸ hlate), hlate⟩⟩
  · by_cases hw : w' = w
    · subst hw
      simp [completes] at hturn
    · simp only [completes, Function.update_of_ne hw] at hturn
      exact h.written w' c' hturn hsame
  · rcases List.mem_cons.mp hc' with rfl | hc'
    · exact hfound hsame
    · exact h.found c' hc' hsame

variable (K : C → Prop)

structure Kept (R : Registration C D) (appends : Prop) (entries : C → D → Nat) (Sound : D → Prop)
    (s : Registering W C D) : Prop where
  sound : Sound s.store
  known : ∀ w c stage, s.turn w = some (c, stage) → K c
  past : ∀ c ∈ s.completed, K c
  consistent : ∀ t, K t → s.Consistent R appends entries t

variable {K}

omit [RunNamed C] in
theorem known_moves (h : ∀ w c stage, s.turn w = some (c, stage) → K c) (hc : K c) :
    ∀ w' c' stage', (s.moves w c stage d).turn w' = some (c', stage') → K c' := by
  intro w' c' stage' hturn
  by_cases hw : w' = w
  · subst hw
    simp only [moves, Function.update_self, Option.some.injEq, Prod.mk.injEq] at hturn
    exact hturn.1 ▸ hc
  · simp only [moves, Function.update_of_ne hw] at hturn
    exact h w' c' stage' hturn

omit [RunNamed C] in
theorem known_gone (h : ∀ w c stage, s.turn w = some (c, stage) → K c) :
    ∀ w' c' stage', Function.update s.turn w none w' = some (c', stage') → K c' := by
  intro w' c' stage' hturn
  by_cases hw : w' = w
  · subst hw
    simp at hturn
  · rw [Function.update_of_ne hw] at hturn
    exact h w' c' stage' hturn

theorem Consistent.unfound (hT : Tracks R appends entries Sound Apart)
    (h : s.Consistent R appends entries t) (hturn : s.turn w = some (c, .check))
    (habsent : R.configured c s.store = false)
    (halone : appends → ∀ w', ¬ s.Late c w') :
    (s.moves w c .config s.store).Consistent R appends entries t := by
  by_cases hsame : SameName c t
  · have hconf : ¬ R.configured t s.store = true := by
      rw [← (hT.name hsame).1, habsent]
      simp
    have hlate : ∀ w', s.Late t w' → s.Late c w' := fun w' ⟨c', stage', hturn', hs, hl⟩ =>
      ⟨c', stage', hturn', hs.trans hsame.symm, hl⟩
    refine ⟨fun hyes => absurd hyes hconf, h.listed, fun w' c' hturn' hs => ?_, h.atMost,
      fun happ hone => absurd (h.listed hone) hconf, fun happ w₁ w₂ h₁ h₂ => ?_,
      fun c' hc' hs => ?_⟩
    · by_cases hw : w' = w
      · subst hw
        simp [moves] at hturn'
      · simp only [moves, Function.update_of_ne hw] at hturn'
        exact h.written w' c' hturn' hs
    · rw [late_moves] at h₁ h₂
      by_cases hw₁ : w₁ = w
      · by_cases hw₂ : w₂ = w
        · rw [hw₁, hw₂]
        · rw [if_neg hw₂] at h₂
          exact absurd (hlate w₂ h₂) (halone happ w₂)
      · rw [if_neg hw₁] at h₁
        exact absurd (hlate w₁ h₁) (halone happ w₁)
    · exact absurd (h.found c' hc' hs) hconf
  · exact h.moved rfl rfl
      (iff_of_false (not_late_self hturn (.inl hsame)) fun hs => hsame hs.1) (by simp)

theorem Consistent.configured (h : s.Consistent R appends entries t)
    (hturn : s.turn w = some (c, .config)) (hentries : entries t d = entries t s.store)
    (hconf : R.configured t d = true ↔ SameName c t ∨ R.configured t s.store = true) :
    (s.moves w c .record d).Consistent R appends entries t := by
  by_cases hsame : SameName c t
  · have hyes : R.configured t d = true := hconf.mpr (.inl hsame)
    have hself : s.Late t w := late_self hturn hsame rfl
    have hlate : ∀ w', (s.moves w c .record d).Late t w' ↔ s.Late t w' := fun w' => by
      rw [late_moves]
      by_cases hw : w' = w
      · rw [if_pos hw, hw]
        exact iff_of_true ⟨hsame, rfl⟩ hself
      · rw [if_neg hw]
    refine ⟨fun _ => .inr ⟨w, (hlate w).mpr hself⟩, fun _ => hyes, fun _ _ _ _ => hyes,
      hentries ▸ h.atMost, fun happ hone => ?_, fun happ w₁ w₂ h₁ h₂ => ?_, fun _ _ _ => hyes⟩
    · have hone' : 1 ≤ entries t s.store := hentries ▸ hone
      exact absurd hself (h.once happ hone' w)
    · exact h.alone happ w₁ w₂ ((hlate w₁).mp h₁) ((hlate w₂).mp h₂)
  · have hsameConf : R.configured t d = R.configured t s.store := by
      rw [Bool.eq_iff_iff, hconf]
      simp [hsame]
    exact h.moved hsameConf hentries
      (iff_of_false (not_late_self hturn (.inl hsame)) fun hs => hsame hs.1)
      fun _ hs => absurd hs hsame

theorem Consistent.recorded (h : s.Consistent R appends entries t)
    (hturn : s.turn w = some (c, .record)) (hconf : R.configured t d = R.configured t s.store)
    (hother : ¬ SameName c t → entries t d = entries t s.store)
    (hown : SameName c t → 1 ≤ entries t d ∧ (appends → entries t d = entries t s.store + 1) ∧
      (¬ appends → entries t d = 1)) :
    (s.completes w c d).Consistent R appends entries t := by
  by_cases hsame : SameName c t
  · obtain ⟨hone, happend, hput⟩ := hown hsame
    have hself : s.Late t w := late_self hturn hsame rfl
    have hyes : R.configured t d = true := hconf ▸ h.written w c hturn hsame
    refine ⟨fun _ => .inl hone, fun _ => hyes, fun _ _ _ _ => hyes, ?_, fun happ _ w' hlate => ?_,
      fun happ w₁ w₂ h₁ h₂ => ?_, fun _ _ _ => hyes⟩
    · by_cases happ : appends
      · have hnone : ¬ 1 ≤ entries t s.store := fun hone => h.once happ hone w hself
        have heq := happend happ
        change entries t d ≤ 1
        omega
      · exact (hput happ).le
    · obtain ⟨hne, hlate⟩ := late_completes.mp hlate
      exact hne (h.alone happ w' w hlate hself)
    · obtain ⟨hne, hlate⟩ := late_completes.mp h₁
      exact absurd (h.alone happ w₁ w hlate hself) hne
  · exact h.completed hconf (hother hsame) (not_late_self hturn (.inl hsame))
      fun hs => absurd hs hsame

theorem Consistent.left (hT : Tracks R appends entries Sound Apart)
    (h : s.Consistent R appends entries t) (hturn : s.turn w = some (c, stage))
    (hsafe : R.configured c s.store = true →
      1 ≤ entries c s.store ∨ ∃ w', w' ≠ w ∧ s.Late c w') :
    (s.leaves w).Consistent R appends entries t := by
  refine ⟨fun hyes => ?_, h.listed, fun w' c' hturn' hs => ?_, h.atMost,
    fun happ hone w' hlate => ?_, fun happ w₁ w₂ h₁ h₂ => ?_, h.found⟩
  · by_cases hsame : SameName c t
    · obtain ⟨hconf, hentries⟩ := hT.name hsame (d := s.store)
      rw [hconf, hentries] at hsafe
      rcases hsafe hyes with hone | ⟨w', hne, c', stage', hturn', hs, hl⟩
      · exact .inl hone
      · exact .inr ⟨w', late_leaves.mpr ⟨hne, c', stage', hturn', hs.trans hsame, hl⟩⟩
    · rcases h.tracked hyes with hone | ⟨w', hlate⟩
      · exact .inl hone
      · refine .inr ⟨w', late_leaves.mpr ⟨fun hw => ?_, hlate⟩⟩
        exact not_late_self hturn (.inl hsame) (hw ▸ hlate)
  · by_cases hw : w' = w
    · subst hw
      simp [leaves] at hturn'
    · simp only [leaves, Function.update_of_ne hw] at hturn'
      exact h.written w' c' hturn' hs
  · exact h.once happ hone w' (late_leaves.mp hlate).2
  · exact h.alone happ w₁ w₂ (late_leaves.mp h₁).2 (late_leaves.mp h₂).2

theorem kept_advance (hT : Tracks R appends entries Sound Apart)
    (hK : ∀ c c', K c → K c' → Apart c c') (hg : s.Ordered R appends entries (.step w))
    (hturn : s.turn w = some (c, stage)) (hadv : s.advance R w c stage = some s')
    (h : Kept K R appends entries Sound s) : Kept K R appends entries Sound s' := by
  obtain ⟨hsound, hknown, hpast, hall⟩ := h
  have hc : K c := hknown w c stage hturn
  cases stage with
  | mkdir =>
    obtain ⟨d, hd, rfl⟩ := Option.map_eq_some_iff.mp hadv
    obtain ⟨hsound', hframe⟩ := hT.mkdir hsound hd
    refine ⟨hsound', known_moves hknown hc, hpast, fun t ht => ?_⟩
    obtain ⟨hconf, hentries⟩ := hframe t (hK c t hc ht)
    exact (hall t ht).moved hconf hentries
      (iff_of_false (not_late_self hturn (.inr rfl)) (by simp [RegisterStage.late])) (by simp)
  | check =>
    rcases checked_of_advance hadv with ⟨hfound, rfl⟩ | ⟨habsent, rfl⟩
    · refine ⟨hsound, known_gone hknown, List.forall_mem_cons.mpr ⟨hc, hpast⟩, fun t ht => ?_⟩
      exact (hall t ht).completed rfl rfl (not_late_self hturn (.inr rfl))
        fun hs => (hT.name hs).1 ▸ hfound
    · refine ⟨hsound, known_moves hknown hc, hpast, fun t ht => ?_⟩
      exact (hall t ht).unfound hT hturn habsent fun happ => hg happ c hturn habsent
  | config =>
    obtain ⟨d, hd, rfl⟩ := Option.map_eq_some_iff.mp hadv
    obtain ⟨hsound', hframe⟩ := hT.config hsound (hK c c hc hc) hd
    refine ⟨hsound', known_moves hknown hc, hpast, fun t ht => ?_⟩
    obtain ⟨hentries, hconf⟩ := hframe t (hK c t hc ht)
    exact (hall t ht).configured hturn hentries hconf
  | record =>
    obtain ⟨d, hd, rfl⟩ := Option.map_eq_some_iff.mp hadv
    obtain ⟨hsound', hframe⟩ := hT.record hsound hd
    refine ⟨hsound', known_gone hknown, List.forall_mem_cons.mpr ⟨hc, hpast⟩, fun t ht => ?_⟩
    obtain ⟨hconf, hother, hown⟩ := hframe t (hK c t hc ht)
    exact (hall t ht).recorded hturn hconf hother hown

def Plays (K : C → Prop) : RegisterEvent W C → Prop
  | .enter _ c => K c
  | _ => True

theorem kept_step (hT : Tracks R appends entries Sound Apart)
    (hK : ∀ c c', K c → K c' → Apart c c') {e : RegisterEvent W C}
    (hg : s.Ordered R appends entries e ∧ Plays K e) (hstep : step R s e = some s')
    (h : Kept K R appends entries Sound s) : Kept K R appends entries Sound s' := by
  obtain ⟨hg, hplays⟩ := hg
  cases e with
  | enter w c =>
    obtain ⟨hfree, rfl⟩ := entered_of_step hstep
    refine ⟨h.sound, known_moves h.known hplays, h.past, fun t ht => ?_⟩
    refine (h.consistent t ht).moved rfl rfl (iff_of_false ?_ (by simp [RegisterStage.late]))
      (by simp)
    rintro ⟨c', stage', hturn, -⟩
    rw [hfree] at hturn
    cases hturn
  | step w =>
    obtain ⟨c, stage, hturn, hadv⟩ := advanced_of_step hstep
    exact kept_advance hT hK hg hturn hadv h
  | die w =>
    obtain ⟨⟨c, stage, hturn⟩, rfl⟩ := died_of_step hstep
    exact ⟨h.sound, known_gone h.known, h.past, fun t ht =>
      (h.consistent t ht).left hT hturn (hg c stage hturn)⟩

theorem quiet_once (hT : Tracks R appends entries Sound Apart)
    (hK : ∀ c c', K c → K c' → Apart c c') {events : List (RegisterEvent W C)}
    (hkept : Kept K R appends entries Sound s) (hrun : exec (step R) s events = some s')
    (hg : Along (fun s e => s.Ordered R appends entries e) (step R) s events)
    (hplays : ∀ e ∈ events, Plays K e) (hdone : t ∈ s'.completed) (hquiet : s'.Quiet t) :
    entries t s'.store = 1 := by
  have hfinal : Kept K R appends entries Sound s' :=
    exec_keeps_along (fun hg hs h => kept_step hT hK hg hs h) (hg.and_mem hplays) hrun hkept
  have hcons := hfinal.consistent t (hfinal.past t hdone)
  have hatMost := hcons.atMost
  rcases hcons.tracked (hcons.found t hdone rfl) with hone | ⟨w, c', stage, hturn, hs, -⟩
  · omega
  · exact absurd hs (hquiet w c' stage hturn)

def Listed (K : C → Prop) (entries : C → D → Nat) (s : Registering W C D) : Prop :=
  ∀ t, K t → (∃ c ∈ s.completed, SameName c t) → 1 ≤ entries t s.store

theorem entries_grow (hT : Tracks R appends entries Sound Apart)
    (hK : ∀ c c', K c → K c' → Apart c c') (hkept : Kept K R appends entries Sound s)
    {e : RegisterEvent W C} (hstep : step R s e = some s') (ht : K t)
    (hone : 1 ≤ entries t s.store) : 1 ≤ entries t s'.store := by
  rcases store_of_step hstep with hsame | ⟨w, c, hwrote⟩
  · exact hsame ▸ hone
  · rcases hwrote with ⟨hturn, hd⟩ | ⟨hturn, hd⟩ | ⟨hturn, hd⟩
    · have hc : K c := hkept.known w c .mkdir hturn
      exact ((hT.mkdir hkept.sound hd).2 t (hK c t hc ht)).2 ▸ hone
    · have hc : K c := hkept.known w c .config hturn
      exact ((hT.config hkept.sound (hK c c hc hc) hd).2 t (hK c t hc ht)).1 ▸ hone
    · have hc : K c := hkept.known w c .record hturn
      obtain ⟨-, hother, hown⟩ := (hT.record hkept.sound hd).2 t (hK c t hc ht)
      by_cases hsame : SameName c t
      · exact (hown hsame).1
      · exact hother hsame ▸ hone

theorem listed_step (hT : Tracks R appends entries Sound Apart)
    (hK : ∀ c c', K c → K c' → Apart c c') {e : RegisterEvent W C}
    (hg : s.Serial R appends entries e) (hstep : step R s e = some s')
    (hkept : Kept K R appends entries Sound s) (h : Listed K entries s) :
    Listed K entries s' := by
  rintro t ht ⟨c, hc, hsame⟩
  by_cases hold : ∃ c' ∈ s.completed, SameName c' t
  · exact entries_grow hT hK hkept hstep ht (h t ht hold)
  -- the register that this step completes
  rcases completed_of_step hstep with hcompleted | ⟨w, c', rfl, hcompleted, hlast⟩
  · exact absurd ⟨c, hcompleted ▸ hc, hsame⟩ hold
  rw [hcompleted] at hc
  rcases List.mem_cons.mp hc with rfl | hc
  · rcases hlast with ⟨hturn, hfound, hstore⟩ | ⟨hturn, hd⟩
    · rw [hstore]
      rcases (hkept.consistent t ht).tracked ((hT.name hsame).1 ▸ hfound) with
        hone | ⟨w', c₂, stage, hw', hs, hlate⟩
      · exact hone
      · exact absurd ⟨c₂, stage, hw', hs.trans hsame.symm, hlate⟩ (hg.2 w rfl c hturn w')
    · have hc' : K c := hkept.known w c .record hturn
      exact (((hT.record hkept.sound hd).2 t (hK c t hc' ht)).2.2 hsame).1
  · exact absurd ⟨c, hc, hsame⟩ hold

theorem serial_once (hT : Tracks R appends entries Sound Apart)
    (hK : ∀ c c', K c → K c' → Apart c c') {events : List (RegisterEvent W C)}
    (hkept : Kept K R appends entries Sound s) (hlisted : Listed K entries s)
    (hrun : exec (step R) s events = some s')
    (hg : Along (fun s e => s.Serial R appends entries e) (step R) s events)
    (hplays : ∀ e ∈ events, Plays K e) (hdone : t ∈ s'.completed) : entries t s'.store = 1 := by
  obtain ⟨hfinal, hlisted'⟩ : Kept K R appends entries Sound s' ∧ Listed K entries s' :=
    exec_keeps_along (I := fun s => Kept K R appends entries Sound s ∧ Listed K entries s)
      (fun hg hs h => ⟨kept_step hT hK ⟨hg.1.1, hg.2⟩ hs h.1, listed_step hT hK hg.1 hs h.1 h.2⟩)
      (hg.and_mem hplays) hrun ⟨hkept, hlisted⟩
  have ht := hfinal.past t hdone
  have hone := hlisted' t ht ⟨t, hdone, rfl⟩
  have hatMost := (hfinal.consistent t ht).atMost
  omega

def start (d : D) : Registering W C D := ⟨d, fun _ => none, []⟩

structure Empty (R : Registration C D) (entries : C → D → Nat) (Sound : D → Prop) (d : D) :
    Prop where
  sound : Sound d
  configured : ∀ t, R.configured t d = false
  entries : ∀ t, entries t d = 0

omit [DecidableEq W] in
theorem kept_start (h : Empty R entries Sound d) :
    Kept K R appends entries Sound (start d : Registering W C D) := by
  refine ⟨h.sound, nofun, nofun, fun t _ => ?_⟩
  have hconf : R.configured t (start d : Registering W C D).store = false := h.configured t
  have hzero : entries t (start d : Registering W C D).store = 0 := h.entries t
  refine ⟨fun hyes => ?_, fun hone => by omega, nofun, by omega, fun _ hone => by omega, ?_, nofun⟩
  · rw [hconf] at hyes
    cases hyes
  · rintro _ w w' ⟨c, stage, hturn, -⟩
    cases hturn

def Enters (events : List (RegisterEvent W C)) (c : C) : Prop := ∃ w, .enter w c ∈ events

omit [DecidableEq W] [RunNamed C] in
theorem plays_enters (events : List (RegisterEvent W C)) :
    ∀ e ∈ events, Plays (Enters events) e := by
  intro e he
  cases e with
  | enter w c => exact ⟨w, he⟩
  | _ => trivial

/-- Once a register of a run has run to completion, the manifest has the run once: where the
registers of a run come one after the other, and otherwise when none of them is under way. -/
def OneEntry (R : Registration C D) (appends : Prop) (entries : C → D → Nat)
    (s s' : Registering W C D) (events : List (RegisterEvent W C)) : Prop :=
  ∀ c ∈ s'.completed,
    (Along (fun s e => s.Ordered R appends entries e) (step R) s events → s'.Quiet c →
      entries c s'.store = 1) ∧
    (Along (fun s e => s.Serial R appends entries e) (step R) s events → entries c s'.store = 1)

theorem oneEntry (hT : Tracks R appends entries Sound Apart) (hempty : Empty R entries Sound d)
    {events : List (RegisterEvent W C)} (hrun : exec (step R) (start d) events = some s')
    (hapart : ∀ c c', Enters events c → Enters events c' → Apart c c') :
    OneEntry R appends entries (start d) s' events := fun c hc =>
  ⟨fun hg hquiet => quiet_once hT hapart (kept_start hempty) hrun hg (plays_enters events) hc
    hquiet, fun hg => serial_once hT hapart (kept_start hempty)
      (fun _ _ hdone => by obtain ⟨c, hc, -⟩ := hdone; cases hc) hrun hg (plays_enters events) hc⟩

end Registering

end RunFarm
