import RunFarm.Program
import RunFarm.Python.Coerce
import RunFarm.Renting.RentCall

/-! `ProviderExecutor`: one rented host for all configs, one worker command after the other over
ssh, and the next offer when the host is bad. -/
set_option autoImplicit false

namespace RunFarm
open Program Python

/-- What `_ssh` gives back. `own` says that the code is the remote command's own exit code. The
executor does not see it: 255 is also that of a lost connection and 124 that of a timeout. -/
structure SshAnswer where
  rc : Int
  out : String
  own : Bool
  deriving DecidableEq, Repr

/-- What runs on the host: the import of the engine, the worker for the config at place `k` of the
list, and the `pgrep` for a worker. -/
inductive Command (C : Type) where
  | ready
  | worker (k : Nat) (c : C)
  | probe

/-- What the executor calls. A program may raise at any of it. -/
structure Boxes (C σ : Type) where
  offers : Prog σ Exc (List Offer)
  rent : Offer → Prog σ Exc Host
  teardown : Host → Prog σ Exc Unit
  ssh : Host → Command C → ℚ → Prog σ Exc SshAnswer
  deadReason : Option (Host → Prog σ Exc (Option String))
  time : Prog σ Exc ℚ
  monotonic : Prog σ Exc ℚ
  sleep : ℚ → Prog σ Exc Unit
  makedirs : Prog σ Exc Unit
  scpDown : Host → Prog σ Exc Unit

/-- `jsonLoads` is `json.loads`, or the text of its error; `str` and `seconds` print a value and a
number of seconds. -/
structure ProviderExecutor (C : Type) where
  runName : C → String
  jsonLoads : String → Except String Value
  str : Value → String
  seconds : ℚ → String
  provider : String
  hostSpec : String
  readyTimeout : ℚ := 900
  runTimeout : ℚ := 3600
  maxAttempts : Int := 12
  reattachAttempts : Nat := 0
  reattachBackoffS : ℚ := 20

def sshTransportRc : Int := 255

/-- `s[-n:]`. -/
def lastOf (n : Nat) (s : String) : String :=
  String.ofList (s.toList.drop (s.toList.length - n))

/-- `xs[:n]`. -/
def sliceTo {α : Type} (n : Int) (xs : List α) : List α :=
  if 0 ≤ n then xs.take n.toNat else xs.take (xs.length - n.natAbs)

def resultPrefix : String := "__RESULT__ "

namespace ProviderExecutor

variable {C σ : Type} (ex : ProviderExecutor C) (B : Boxes C σ)

def truthy (reason : Option String) : Bool := reason.any (· ≠ "")

def hostDead (host : Host) : Prog σ Exc (Option String) :=
  match B.deadReason with
  | none => pure none
  | some deadReason => (deadReason host).catching fun _ => pure none

/-- The loop of `_wait_engine_ready`; `rounds` of it are followed. -/
def pollReady (host : Host) (deadline : ℚ) : Nat → String → Prog σ Exc Unit
  | 0, _ => .stuck
  | rounds + 1, last => do
    let now ← B.monotonic
    if now < deadline then do
      let answer ← B.ssh host .ready 30
      if answer.rc = 0 then return ()
      else do
        B.sleep 10
        pollReady host deadline rounds answer.out
    else .raise ⟨.hostProbeFailed, none, "engine not ready on " ++ host.id ++ " within " ++
      ex.seconds ex.readyTimeout ++ "s: " ++ lastOf 160 last⟩

def waitEngineReady (rounds : Nat) (host : Host) : Prog σ Exc Unit := do
  let now ← B.monotonic
  ex.pollReady B host (now + ex.readyTimeout) rounds ""

/-- The loop of `_worker_gone`. -/
def pollGone (host : Host) (deadline : ℚ) : Nat → Prog σ Exc Bool
  | 0 => .stuck
  | rounds + 1 => do
    let now ← B.time
    if deadline - now ≤ 0 then return false
    else do
      let answer ← B.ssh host .probe (min 30 (deadline - now))
      if answer.rc = 0 ∧ "GONE".toList <:+: answer.out.toList then return true
      else do
        let now ← B.time
        let nap := min ex.reattachBackoffS (max 0 (deadline - now))
        if nap ≤ 0 then return false
        else do
          B.sleep nap
          pollGone host deadline rounds

def workerGone (rounds : Nat) (host : Host) (budgetS : ℚ) : Prog σ Exc Bool := do
  let now ← B.time
  ex.pollGone B host (now + budgetS) rounds

/-- The loop of `_run_worker`, with `left` attempts still to make after `i` of them. -/
def attemptFrom (rounds : Nat) (host : Host) (k : Nat) (c : C) (deadline : ℚ) :
    Nat → Nat → Int × String → Prog σ Exc (Int × String)
  | 0, _, last => return last
  | left + 1, i, last => do
    let now ← B.time
    if deadline - now ≤ 0 then
      return (124, "run_timeout " ++ ex.seconds ex.runTimeout ++ "s exhausted across " ++
        toString i ++ " attempt(s); last: " ++ lastOf 200 last.2)
    else do
      let answer ← B.ssh host (.worker k c) (deadline - now)
      -- any other code is taken for the worker's
      if answer.rc ≠ sshTransportRc ∨ left = 0 then return (answer.rc, answer.out)
      else do
        let dead ← hostDead B host
        if truthy dead then
          return (answer.rc, answer.out ++ "  [host confirmed dead: " ++ dead.getD "" ++ "]")
        else do
          let now ← B.time
          let gone ← ex.workerGone B rounds host
            (min (ex.reattachBackoffS * 3) (max 0 (deadline - now)))
          if !gone then
            return (answer.rc, answer.out ++
              "  [ssh transport died and a worker may still be running on " ++ host.id ++
              "; declined to start a second one]")
          else do
            let now ← B.time
            let nap := min ex.reattachBackoffS (max 0 (deadline - now))
            if 0 < nap then B.sleep nap else pure ()
            attemptFrom rounds host k c deadline left (i + 1) (answer.rc, answer.out)

def runWorker (rounds : Nat) (host : Host) (k : Nat) (c : C) : Prog σ Exc (Int × String) := do
  let now ← B.time
  ex.attemptFrom B rounds host k c (now + ex.runTimeout) (1 + ex.reattachAttempts) 0
    (sshTransportRc, "no attempt ran")

def errorRecord (c : C) (error : String) : Value :=
  .dict [(.str "run", .str (ex.runName c)), (.str "result", .none), (.str "skipped", .bool false),
    (.str "error", .str error)]

def payloadOf (out : String) : Option String :=
  ((splitlines out).find? fun line => resultPrefix.toList.isPrefixOf line.toList).map fun line =>
    String.ofList (line.toList.drop resultPrefix.length)

/-- `_run_config`, of the code and the output of the worker command. -/
def parseRecord (c : C) (rc : Int) (out : String) : Value :=
  match payloadOf out with
  | none => ex.errorRecord c ("rc=" ++ toString rc ++ ": " ++ lastOf 200 out)
  | some payload =>
    match ex.jsonLoads payload with
    | .ok record => record
    | .error e => ex.errorRecord c ("malformed result line (" ++ e ++ "): " ++ cutTo 200 payload)

def runConfig (rounds : Nat) (host : Host) (k : Nat) (c : C) : Prog σ Exc Value := do
  let (rc, out) ← ex.runWorker B rounds host k c
  return ex.parseRecord c rc out

/-- `rec.get("error")`; only a dict has a `get`. -/
def errorOf : Value → Prog σ Exc Value
  | .dict es => return (dictGet es (.str "error")).getD .none
  | _ => .raise ⟨.attributeError, none, "object has no attribute 'get'"⟩

/-- The loop over the configs, from place `k` on. -/
def runConfigs (rounds : Nat) (host : Host) : Nat → List C → Prog σ Exc (List Value)
  | _, [] => return []
  | k, c :: configs => do
    let record ← ex.runConfig B rounds host k c
    let error ← errorOf record
    let dead ← if error.truthy then hostDead B host else pure none
    if truthy dead then
      .raise ⟨.hostProbeFailed, none, "host " ++ host.id ++ " died mid-run on " ++ ex.runName c ++
        ": " ++ cutTo 120 (ex.str error)⟩
    else do
      let records ← runConfigs rounds host (k + 1) configs
      return record :: records

/-- The body of the `with` block. -/
def onHost (rounds : Nat) (configs : List C) (host : Host) : Prog σ Exc (List Value) := do
  ex.waitEngineReady B rounds host
  let results ← ex.runConfigs B rounds host 0 configs
  B.makedirs
  B.scpDown host
  return results

def rented (rounds : Nat) (configs : List C) (offer : Offer) : Prog σ Exc (List Value) := do
  let host ← B.rent offer
  (ex.onHost B rounds configs host).finishing (B.teardown host)

def failsOver (e : Exc) : Bool :=
  e.kind = .hostProbeFailed || e.kind = .timeout || e.kind = .rentUnavailable

def runtimeError (text : String) : Exc := ⟨.other "RuntimeError", none, text⟩

/-- The walk over the offers; `tried` of `matched` is what the last error reports. -/
def tryOffers (rounds : Nat) (configs : List C) (tried matched : Nat) :
    List Offer → Option Exc → Prog σ Exc (List Value)
  | [], last => .raise (runtimeError (ex.provider ++ ": all " ++ toString tried ++
      " offer attempt(s) failed to run (of " ++ toString matched ++ " matched); last error: " ++
      (last.map Exc.text).getD "None"))
  | offer :: offers, _ =>
    (ex.rented B rounds configs offer).catching fun e =>
      if failsOver e then tryOffers rounds configs tried matched offers (some e) else .raise e

/-- `run`, where `rounds` of each polling loop are followed. -/
def run (rounds : Nat) (configs : List C) : Prog σ Exc (List Value) :=
  if configs.isEmpty then return []
  else do
    let offers ← B.offers
    if offers.isEmpty then
      .raise (runtimeError (ex.provider ++ ": no offers match " ++ ex.hostSpec))
    else
      let attempts := sliceTo ex.maxAttempts offers
      ex.tryOffers B rounds configs attempts.length offers.length attempts none

end ProviderExecutor

end RunFarm
