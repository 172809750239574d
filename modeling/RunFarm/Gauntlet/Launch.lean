import RunFarm.Gauntlet.ResumeMarkers

/-! The gauntlet that runs before a launch: every check, whatever the others found, and the error
that carries what all of them found. -/
set_option autoImplicit false

namespace RunFarm

def CheckResult.str (r : CheckResult) : String :=
  "[" ++ (if r.ok then "ok  " else if r.fatal then "FAIL" else "warn") ++ "] " ++ r.name ++ ": " ++
    r.detail

variable {σ : Type}

/-- A check goes by its name. Its call may raise, and may change what later checks find. -/
structure Check (σ : Type) where
  name : String
  call : σ → Except Raised CheckResult × σ

structure Printed (σ : Type) where
  world : σ
  lines : List String := []

def Printed.say (log : Bool) (line : String) (p : Printed σ) : Printed σ :=
  if log then { p with lines := p.lines ++ [line] } else p

def skippedResult (name : String) : CheckResult :=
  { name, ok := true, detail := "SKIPPED by caller — not verified here", fatal := false
    proves := "nothing. A skip proves only that someone chose to " ++
      "accept this risk out-of-band." }

def raisedResult (name : String) (e : Raised) : CheckResult :=
  { name, ok := false
    detail := "the CHECK ITSELF raised " ++ e.className ++ ": " ++ e.exc.text ++
      " -- treat as a failure, not as a pass" }

def runCheck (skip : List String) (c : Check σ) (w : σ) : CheckResult × σ :=
  if c.name ∈ skip then (skippedResult c.name, w)
  else
    match c.call w with
    | (.ok r, w) => (r, w)
    | (.error e, w) => (raisedResult c.name e, w)

def runGauntlet (log : Bool) (skip : List String) :
    List (Check σ) → Printed σ → List CheckResult × Printed σ
  | [], p => ([], p)
  | c :: checks, p =>
    let (r, w) := runCheck skip c p.world
    let (results, p) := runGauntlet log skip checks ({ p with world := w }.say log r.str)
    (r :: results, p)

/-- `GauntletError`, which is made of every result. -/
structure GauntletError where
  results : List CheckResult
  deriving DecidableEq, Repr

def GauntletError.blocking (e : GauntletError) : List CheckResult :=
  e.results.filter CheckResult.blocking

def GauntletError.text (e : GauntletError) : String :=
  toString e.blocking.length ++ " gauntlet check(s) blocked launch:\n  " ++
    "\n  ".intercalate (e.blocking.map CheckResult.str)

def requireGauntlet (log : Bool) (skip : List String) (checks : List (Check σ)) (p : Printed σ) :
    Except GauntletError (List CheckResult) × Printed σ :=
  let (results, p) := runGauntlet log skip checks p
  if results.any CheckResult.blocking then (.error ⟨results⟩, p) else (.ok results, p)

variable {log : Bool} {skip : List String} {checks : List (Check σ)} {c : Check σ} {p : Printed σ}

@[simp] theorem Printed.say_world (line : String) (p : Printed σ) :
    (p.say log line).world = p.world := by
  cases log <;> rfl

theorem runGauntlet_cons (c : Check σ) (checks : List (Check σ)) (p : Printed σ) :
    runGauntlet log skip (c :: checks) p =
      let one := runCheck skip c p.world
      let rest := runGauntlet log skip checks ({ p with world := one.2 }.say log one.1.str)
      (one.1 :: rest.1, rest.2) := rfl

theorem runGauntlet_append (a b : List (Check σ)) (p : Printed σ) :
    runGauntlet log skip (a ++ b) p =
      let first := runGauntlet log skip a p
      let rest := runGauntlet log skip b first.2
      (first.1 ++ rest.1, rest.2) := by
  induction a generalizing p with
  | nil => rfl
  | cons c a ih => simp only [List.cons_append, runGauntlet_cons, ih]

@[simp] theorem length_runGauntlet :
    (runGauntlet log skip checks p).1.length = checks.length := by
  induction checks generalizing p with
  | nil => rfl
  | cons c checks ih => rw [runGauntlet_cons, List.length_cons, List.length_cons, ih]

theorem runGauntlet_at (a b : List (Check σ)) :
    (runGauntlet log skip (a ++ c :: b) p).1[a.length]? =
      some (runCheck skip c (runGauntlet log skip a p).2.world).1 := by
  rw [runGauntlet_append, List.getElem?_append_right length_runGauntlet.le, length_runGauntlet,
    Nat.sub_self]
  rfl

theorem runGauntlet_lines : (runGauntlet log skip checks p).2.lines =
    p.lines ++ if log then (runGauntlet log skip checks p).1.map CheckResult.str else [] := by
  induction checks generalizing p with
  | nil => cases log <;> simp [runGauntlet]
  | cons c checks ih =>
    rw [runGauntlet_cons]
    dsimp only
    rw [ih]
    cases log <;> simp [Printed.say]

/-- A check lets the launch go on: it is skipped, or returns a result that does not block. -/
def Clears (skip : List String) (c : Check σ) (w : σ) : Prop :=
  c.name ∈ skip ∨ ∃ r, (c.call w).1 = .ok r ∧ r.blocking = false

theorem runCheck_clears {w : σ} : (runCheck skip c w).1.blocking = false ↔ Clears skip c w := by
  unfold runCheck Clears
  by_cases hskip : c.name ∈ skip
  · simp [hskip, skippedResult, CheckResult.blocking]
  · rcases hcall : c.call w with ⟨r | r, w'⟩ <;>
      simp [hskip, raisedResult, CheckResult.blocking]

theorem runCheck_world {w : σ} :
    (runCheck skip c w).2 = if c.name ∈ skip then w else (c.call w).2 := by
  unfold runCheck
  split
  · rfl
  · rcases c.call w with ⟨r | r, w'⟩ <;> rfl

def Cleared (skip : List String) : List (Check σ) → σ → Prop
  | [], _ => True
  | c :: checks, w => Clears skip c w ∧ Cleared skip checks (runCheck skip c w).2

theorem any_blocking (log : Bool) (p : Printed σ) :
    (runGauntlet log skip checks p).1.any CheckResult.blocking = false ↔
    Cleared skip checks p.world := by
  induction checks generalizing p with
  | nil => simp [runGauntlet, Cleared]
  | cons c checks ih =>
    rw [runGauntlet_cons]
    dsimp only
    rw [List.any_cons, Bool.or_eq_false_iff, runCheck_clears, Cleared, ih, Printed.say_world]

theorem cleared_iff (log : Bool) (p : Printed σ) : Cleared skip checks p.world ↔
    ∀ a c b, checks = a ++ c :: b → Clears skip c (runGauntlet log skip a p).2.world := by
  induction checks generalizing p with
  | nil => simp [Cleared]
  | cons c checks ih =>
    have hrest := ih
      ({ p with world := (runCheck skip c p.world).2 }.say log (runCheck skip c p.world).1.str)
    rw [Printed.say_world] at hrest
    rw [Cleared, hrest]
    constructor
    · rintro ⟨hfirst, hrest⟩ a c' b heq
      cases a with
      | nil =>
        obtain ⟨rfl, rfl⟩ := List.cons.inj heq
        exact hfirst
      | cons c₀ a =>
        obtain ⟨rfl, rfl⟩ := List.cons.inj heq
        exact hrest a c' b rfl
    · intro hall
      exact ⟨hall [] c checks rfl, fun a c' b heq => hall (c :: a) c' b (heq ▸ rfl)⟩

theorem requireGauntlet_ok : (∃ results, (requireGauntlet log skip checks p).1 = .ok results) ↔
    Cleared skip checks p.world := by
  rw [← any_blocking log p, requireGauntlet]
  cases hany : (runGauntlet log skip checks p).1.any CheckResult.blocking <;> simp [hany]

theorem infix_intercalate {sep t : List Char} {ts : List (List Char)} (h : t ∈ ts) :
    t <:+: sep.intercalate ts := by
  induction ts with
  | nil => cases h
  | cons first rest ih =>
    by_cases hrest : rest = []
    · subst hrest
      rw [List.mem_singleton.mp h, List.intercalate_singleton]
    · rw [List.intercalate_cons_of_ne_nil hrest]
      rcases List.mem_cons.mp h with rfl | h
      · exact ⟨[], sep ++ sep.intercalate rest, by simp⟩
      · exact (ih h).trans (List.suffix_append _ _).isInfix

theorem GauntletError.names (e : GauntletError) {r : CheckResult} (hr : r ∈ e.blocking) :
    r.str.toList <:+: e.text.toList := by
  have hmem : r.str.toList ∈ (e.blocking.map CheckResult.str).map String.toList :=
    List.mem_map_of_mem (List.mem_map_of_mem hr)
  rw [GauntletError.text, String.toList_append, String.toList_intercalate]
  exact (infix_intercalate hmem).trans (List.suffix_append _ _).isInfix

/-- Every check that is not skipped is called once, in the order of the list and in the world that
the checks before it have left, and adds one result; what has failed stops none of them. The launch
goes on exactly when every check clears it. Otherwise the error carries all the results, and its
text every one that blocks. -/
theorem launch_verdict (log : Bool) (skip : List String) (checks : List (Check σ))
    (p : Printed σ) :
    let ran := runGauntlet log skip checks p
    (ran.1.length = checks.length ∧ ∀ a c b, checks = a ++ c :: b →
      ran.1[a.length]? = some (runCheck skip c (runGauntlet log skip a p).2.world).1) ∧
    ran.2.lines = p.lines ++ (if log then ran.1.map CheckResult.str else []) ∧
    (requireGauntlet log skip checks p = (.ok ran.1, ran.2) ↔
      ∀ a c b, checks = a ++ c :: b → Clears skip c (runGauntlet log skip a p).2.world) ∧
    ((∃ a c b, checks = a ++ c :: b ∧ ¬ Clears skip c (runGauntlet log skip a p).2.world) →
      requireGauntlet log skip checks p = (.error ⟨ran.1⟩, ran.2) ∧
        (∃ r ∈ ran.1, r.blocking = true) ∧ ∀ r ∈ ran.1, r.blocking = true →
          r.str.toList <:+: (GauntletError.text ⟨ran.1⟩).toList) := by
  dsimp only
  refine ⟨⟨length_runGauntlet, fun a c b heq => heq ▸ runGauntlet_at a b⟩, runGauntlet_lines,
    ?_, fun ⟨a, c, b, heq, hblocked⟩ => ?_⟩
  · rw [← cleared_iff log p, ← any_blocking log p, requireGauntlet]
    cases hany : (runGauntlet log skip checks p).1.any CheckResult.blocking <;> simp [hany]
  · have hany : (runGauntlet log skip checks p).1.any CheckResult.blocking = true := by
      rw [← Bool.not_eq_false, any_blocking log p, cleared_iff log p]
      exact fun hall => hblocked (hall a c b heq)
    refine ⟨by simp [requireGauntlet, hany], List.any_eq_true.mp hany, fun r hr hblocking => ?_⟩
    exact GauntletError.names _ (List.mem_filter.mpr ⟨hr, hblocking⟩)

def dropping (skip : List String) (checks : List (Check σ)) : List (Check σ) :=
  checks.filter fun c => decide (c.name ∉ skip)

theorem dropping_kept (h : c.name ∉ skip) :
    dropping skip (c :: checks) = c :: dropping skip checks := by
  simp [dropping, h]

theorem dropping_skipped (h : c.name ∈ skip) :
    dropping skip (c :: checks) = dropping skip checks := by
  simp [dropping, h]

theorem runCheck_kept (h : c.name ∉ skip) (w : σ) : runCheck [] c w = runCheck skip c w := by
  rw [runCheck, runCheck, if_neg h, if_neg List.not_mem_nil]

theorem runCheck_skipped (h : c.name ∈ skip) (w : σ) :
    runCheck skip c w = (skippedResult c.name, w) :=
  if_pos h

theorem runGauntlet_dropping (log log' : Bool) (p p' : Printed σ) (h : p'.world = p.world) :
    (runGauntlet log' [] (dropping skip checks) p').2.world =
        (runGauntlet log skip checks p).2.world ∧
      (runGauntlet log' [] (dropping skip checks) p').1 =
        ((checks.zip (runGauntlet log skip checks p).1).filter
          fun cr => decide (cr.1.name ∉ skip)).map Prod.snd := by
  induction checks generalizing p p' with
  | nil => exact ⟨h, rfl⟩
  | cons c checks ih =>
    by_cases hskip : c.name ∈ skip
    · rw [dropping_skipped hskip, runGauntlet_cons, runCheck_skipped hskip]
      simpa [hskip] using ih ({ p with world := p.world }.say log _) p' (by simpa using h)
    · rw [dropping_kept hskip, runGauntlet_cons, runGauntlet_cons, runCheck_kept hskip, h]
      have hrest := ih
        ({ p with world := (runCheck skip c p.world).2 }.say log (runCheck skip c p.world).1.str)
        ({ p' with world := (runCheck skip c p.world).2 }.say log' (runCheck skip c p.world).1.str)
        (by simp)
      exact ⟨hrest.1, by simp [hskip, hrest.2]⟩

theorem zip_skipped {r : CheckResult} (h : (c, r) ∈ checks.zip (runGauntlet log skip checks p).1)
    (hskip : c.name ∈ skip) : r = skippedResult c.name := by
  induction checks generalizing p with
  | nil => cases h
  | cons c₀ checks ih =>
    rw [runGauntlet_cons, List.zip_cons_cons] at h
    rcases List.mem_cons.mp h with heq | h
    · obtain ⟨rfl, rfl⟩ := Prod.mk.inj heq
      rw [runCheck_skipped hskip]
    · exact ih h

theorem cleared_dropping {w : σ} :
    Cleared [] (dropping skip checks) w ↔ Cleared skip checks w := by
  induction checks generalizing w with
  | nil => exact Iff.rfl
  | cons c checks ih =>
    by_cases hskip : c.name ∈ skip
    · rw [dropping_skipped hskip, Cleared, runCheck_skipped hskip, ih, Clears]
      simp [hskip]
    · rw [dropping_kept hskip, Cleared, Cleared, runCheck_kept hskip, ih, Clears, Clears]
      simp [hskip]

/-- Dropping checks from the list or telling the gauntlet to skip them comes to the same: the same
verdict, the same world and the same results of the others. Only in the second case every check
that was left out stands among the results. -/
theorem dropped_verdict (log log' : Bool) (skip : List String) (checks : List (Check σ))
    (p : Printed σ) :
    let full := runGauntlet log skip checks p
    let short := runGauntlet log' [] (dropping skip checks) p
    ((∃ results, (requireGauntlet log skip checks p).1 = .ok results) ↔
      ∃ results, (requireGauntlet log' [] (dropping skip checks) p).1 = .ok results) ∧
    short.2.world = full.2.world ∧
    short.1 = ((checks.zip full.1).filter fun cr => decide (cr.1.name ∉ skip)).map Prod.snd ∧
    ∀ c r, (c, r) ∈ checks.zip full.1 → c.name ∈ skip → r = skippedResult c.name := by
  dsimp only
  obtain ⟨hworld, hresults⟩ :=
    runGauntlet_dropping log log' p p (rfl : p.world = p.world)
  refine ⟨?_, hworld, hresults, fun c r => zip_skipped⟩
  rw [requireGauntlet_ok, requireGauntlet_ok, cleared_dropping]

end RunFarm
