import RunFarm.Executors.Provider

/-! `FleetExecutor._run_command`: the command of a leg, on one host that may lose its channel. -/
set_option autoImplicit false

namespace RunFarm
open Program

/-- What `_run_command` calls, for one host and one leg: `once` is `_ssh_once` with a timeout. -/
structure CommandBoxes (σ ε : Type) where
  once : ℚ → Prog σ ε (Int × String)
  deadReason : Option (Prog σ ε (Option String))
  time : Prog σ ε ℚ
  sleep : ℚ → Prog σ ε Unit

/-- The executor's limits; the attempts are `max(0, reattach_attempts)`. -/
structure CommandLimits where
  seconds : ℚ → String
  runTimeout : ℚ := 9000
  reattachAttempts : Nat := 3
  reattachBackoffS : ℚ := 20

namespace CommandLimits

variable {σ ε : Type} (limits : CommandLimits) (B : CommandBoxes σ ε)

def hostDead : Prog σ ε (Option String) :=
  match B.deadReason with
  | none => pure none
  | some deadReason => deadReason.catching fun _ => pure none

/-- The loop of `_run_command`, with `left` attempts still to make after `i` of them. -/
def attemptFrom (deadline : ℚ) : Nat → Nat → Int × String → Prog σ ε (Int × String)
  | 0, _, last => return last
  | left + 1, i, last => do
    let now ← B.time
    if deadline - now ≤ 0 then
      return (124, "run_timeout " ++ limits.seconds limits.runTimeout ++ "s exhausted across " ++
        toString i ++ " attempt(s); last: " ++ lastOf 200 last.2)
    else do
      let (rc, out) ← B.once (deadline - now)
      if rc ≠ sshTransportRc ∨ left = 0 then return (rc, out)
      else do
        let dead ← hostDead B
        if ProviderExecutor.truthy dead then
          return (rc, out ++ "  [host confirmed dead: " ++ dead.getD "" ++ "]")
        else do
          let now ← B.time
          let nap := min limits.reattachBackoffS (max 0 (deadline - now))
          -- for the log line
          let _ ← B.time
          B.sleep nap
          attemptFrom deadline left (i + 1) (rc, out)

/-- `_run_command`, for a leg that is `reattachable` or not. -/
def runCommand (reattachable : Bool) : Prog σ ε (Int × String) := do
  let now ← B.time
  limits.attemptFrom B (now + limits.runTimeout)
    (1 + if reattachable then limits.reattachAttempts else 0) 0
    (sshTransportRc, "no attempt ran")

end CommandLimits

end RunFarm
