import RunFarm.Fleet.Campaign
import RunFarm.Fleet.RunCommand

/-! `FleetExecutor._run_leg`: one leg on one offer after the other, as a program over what it
calls. -/
set_option autoImplicit false

namespace RunFarm
open Program

/-- What `_run_leg` calls. The `with` block of a rental is `rent` and `leave`; `complete`,
`validate` and `verdict` read the leg directory. Any of it may raise. -/
structure LegBoxes (σ : Type) where
  jitter : Prog σ Raised Unit
  get : Prog σ Raised (Option Offer)
  rent : Offer → Prog σ Raised Host
  leave : Host → Prog σ Raised Unit
  track : Host → Prog σ Raised Unit
  untrack : Host → Prog σ Raised Unit
  waitReady : Host → Prog σ Raised Unit
  ship : Host → Prog σ Raised Unit
  restore : Host → Prog σ Raised Unit
  startFetching : Host → Prog σ Raised Unit
  stopFetching : Prog σ Raised Unit
  runCommand : Host → Prog σ Raised (Int × String)
  hostDead : Host → Prog σ Raised (Option String)
  fetch : Host → Prog σ Raised Unit
  complete : Prog σ Raised Bool
  validate : Prog σ Raised (Option String)
  verdict : Prog σ Raised (Option String)

/-- The executor's own `_run_command` and `_host_dead`. -/
def LegBoxes.commanding {σ : Type} (B : LegBoxes σ) (limits : CommandLimits)
    (hosts : Host → CommandBoxes σ Raised) (reattachable : Bool) : LegBoxes σ :=
  { B with
    runCommand := fun host => limits.runCommand (hosts host) reattachable
    hostDead := fun host => CommandLimits.hostDead (hosts host) }

section
variable {α σ : Type} (B : LegBoxes σ) (leg : FleetLeg α)

/-- `if leg.resumable:`. -/
def ifResumable (p : Prog σ Raised Unit) : Prog σ Raised Unit :=
  if leg.resumable then p else pure ()

def judged : Prog σ Raised LegResult := do
  let complete ← B.complete
  if complete || leg.marker = "" then do
    let bad ← B.validate
    match bad with
    | some bad => return badArtifacts leg bad
    | none => do
      let why ← B.verdict
      match why with
      | some why => return { label := leg.label, status := .runFail,
                             detail := "payload verdict: " ++ why }
      | none => return { label := leg.label, status := .ok }
  else return noResult leg

def diedMidRun (host : Host) (dead : String) : Raised :=
  ⟨⟨.hostProbeFailed, none, "host " ++ host.id ++ " died mid-run: " ++ dead⟩, "HostProbeFailed"⟩

/-- The `try` block on a host that is tracked. -/
def onHost (host : Host) : Prog σ Raised LegResult := do
  B.waitReady host
  B.ship host
  ifResumable leg (B.restore host)
  ifResumable leg (B.startFetching host)
  let (rc, out) ← (B.runCommand host).finishing (ifResumable leg B.stopFetching)
  if rc ≠ 0 then do
    let dead ← B.hostDead host
    if ProviderExecutor.truthy dead then .raise (diedMidRun host (dead.getD ""))
    else return runFail leg rc out
  else do
    B.fetch host
    judged B leg

def onOffer (offer : Offer) : Prog σ Raised LegResult := do
  let host ← B.rent offer
  (do
    B.track host
    (onHost B leg host).finishing (B.untrack host)).finishing (B.leave host)

/-- The failover loop, after `tried` offers; `rounds` of it are followed. -/
def tryOffers : Nat → Nat → Prog σ Raised LegResult
  | 0, _ => .stuck
  | rounds + 1, tried => do
    let offer ← B.get
    match offer with
    | none => return noOffers leg tried
    | some offer => (onOffer B leg offer).catching fun e =>
        match e.exc.kind with
        | .budgetExceeded => .raise e
        | .hostProbeFailed | .timeout | .rentUnavailable => tryOffers rounds (tried + 1)
        | _ => return failure leg e

def runLeg (rounds : Nat) : Prog σ Raised LegResult := do
  B.jitter
  tryOffers B leg rounds 0

end

end RunFarm
