import RunFarm.Gauntlet.ResumeMarkers
import RunFarm.Renting.Capped

/-! The launch check of the cap, beside the campaign that it lets start. -/
set_option autoImplicit false

namespace RunFarm
open Python (fixed)

def capProves : String :=
  "the cap is above this campaign's own worst-case estimate, so a " ++
  "bad run stops by finishing rather than by hitting the cap. Does " ++
  "NOT bound real spend: the estimate is only as good as the " ++
  "timeout and price ceiling it was computed from."

def capClearsWorstCase (cap worst spent : ℚ) : CheckResult :=
  let need := spent + worst
  if need ≤ cap then
    { name := "cap-clears-worst-case", ok := true, proves := capProves
      detail := "cap $" ++ fixed 2 cap ++ " >= $" ++ fixed 2 need ++ " (worst case $" ++
        fixed 2 worst ++
        (if spent ≠ 0 then " + $" ++ fixed 2 spent ++ " already on this ledger)" else ")") }
  else
    { name := "cap-clears-worst-case", ok := false, proves := capProves, fatal := false
      detail := "cap $" ++ fixed 2 cap ++ " is BELOW the $" ++ fixed 2 need ++
        " this campaign could cost (worst case $" ++ fixed 2 worst ++
        (if spent ≠ 0 then " + $" ++ fixed 2 spent ++ " already on this ledger). " else "). ") ++
        "It would abort mid-campaign having already paid. Raise the cap above $" ++
        fixed 2 need ++
        ", or lower the run-timeout / max-dph the estimate is computed from." }

theorem capClearsWorstCase_ok {cap worst spent : ℚ} :
    (capClearsWorstCase cap worst spent).ok = true ↔ spent + worst ≤ cap := by
  unfold capClearsWorstCase
  dsimp only
  split <;> simp_all

variable {cap limit worst clock spent₀ : ℚ} {workers n : Nat} {rows : List Row} {f : Capped}

/-- Where the check passes for `n` rentals of at most `limit`, no gate up to the `n`-th refuses,
in whatever order the workers come to it and whenever they read the ledger. -/
theorem none_refused_midway (hlimit : 0 < limit) (hrows : Settled rows)
    (hspent : spentUsd rows rows clock = .ok spent₀) (hworst : n * limit ≤ worst)
    (hcheck : (capClearsWorstCase cap worst spent₀).ok = true)
    (h : CapRun cap limit workers { meter := { clock := clock, rows := rows } } f)
    (hleft : f.passed < n) {g : Gate} (hg : g ∈ f.gates) {now : ℚ} (hnow : now ≤ f.meter.clock) :
    capGate cap (g.booked + inFlightUsd f.meter.rows now) g.offer = .ok () := by
  have hstart : Capped.Sound limit { meter := { clock := clock, rows := rows } } := .start hrows
  have hbooked := Capped.spent_settled hrows hspent
  have hf := Capped.run_sound hstart h
  have hspread : f.Spread limit spent₀ := by
    refine Capped.run_spread hlimit.le hstart ⟨?_, fun _ h => by cases h⟩ h
    simp [Capped.active, hbooked]
  have hread := hspread.read g hg
  have hopen := hf.meter.inFlight_le hf.covered hf.within hnow
  have hinside : limit * f.meter.inside.length ≤ limit * f.active := by
    refine mul_le_mul_of_nonneg_left ?_ hlimit.le
    have hcount : f.meter.inside.length ≤ f.active := by
      simp only [Capped.active]
      omega
    exact_mod_cast hcount
  have hpassed : limit * ((f.passed : ℚ) + 1) ≤ limit * n :=
    mul_le_mul_of_nonneg_left (by exact_mod_cast hleft) hlimit.le
  have hcap := capClearsWorstCase_ok.mp hcheck
  exact capGate_ok.mpr (by linarith)

theorem second_box_cleared :
    capGate 1 (bookedUsd (goneBox 10).rows + inFlightUsd (goneBox 10).rows 4620)
      cheapBox.offer = .ok () := by
  have hsound := Capped.run_sound (.start Settled.nil) cappedBox_reached
  have hspent : spentUsd [] [] 1000 = .ok 0 := by decide +kernel
  have hcheck : (capClearsWorstCase 1 1 0).ok = true := capClearsWorstCase_ok.mpr (by norm_num)
  obtain ⟨s, hs, hread⟩ := summary_reads hsound.meter.booked
  have hasks : CapStep 1 (1/2) 1 (cappedBox (goneBox 10)) _ :=
    .asks _ .vast cheapBox.offer s cheapBox_priced (by decide) hs
  have hsecond : (1 : ℕ) < 2 := by norm_num
  rw [← show s.totalEstCostUsd = bookedUsd (goneBox 10).rows from hread]
  exact none_refused_midway (by norm_num) Settled.nil hspent (by norm_num) hcheck
    (cappedBox_reached.tail hasks) hsecond List.mem_cons_self
    (show (4620 : ℚ) ≤ 4620 + 10 by norm_num)

end RunFarm
