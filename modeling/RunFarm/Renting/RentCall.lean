import Mathlib.Data.Rat.Floor
import RunFarm.Renting.Create

/-! A whole `rent`: the instance, the poll, the body of the `with` and the `finally`, over what
the world answers at each step. -/
set_option autoImplicit false

namespace RunFarm
open Python

/-- What a poll reads of an instance; `sshPort` is the `int(...)` of its port. -/
structure Polled where
  status : String
  message : String
  sshHost : String
  sshPort : Except Foreign Int

/-- What `yield` hands to the body, without the raw payload. -/
structure Host where
  id : String
  sshHost : String
  sshPort : Int

/-- All that `rent` calls: the API, the network of `create`, the ledger, and the body. -/
structure Market (σ : Type) extends World σ, Net σ where
  record : Row → σ → Except Foreign Unit × σ
  status : InstanceId → σ → Except Exc Polled × σ
  body : Host → σ → Except Exc Unit × σ

/-- `timeout_s`, with the text that an f-string prints for it. -/
structure Patience where
  seconds : ℚ
  text : String

def badHostSigns : List String :=
  ["failed to resolve", "i/o timeout", "failed to authorize", "no such host",
    "connection refused", "error response from daemon", "manifest unknown", "unauthorized",
    "temporary failure in name resolution", "no space left"]

def deadStatuses : List String := ["TERMINATED", "FAILED", "EXITED", "DEAD"]

def probeFailed (text : String) : Exc := ⟨.hostProbeFailed, none, text⟩

/-- What one poll ends `wait_running` with, if it does. -/
def Polled.verdict (p : Polled) (iid : InstanceId) : Adapter → Option (Except Exc Polled)
  | .vast =>
    if p.status = "running" then some (.ok p)
    else if mentions badHostSigns p.message.toLower then
      some (.error (probeFailed ("host probe failed (instance " ++ iid.str ++ "): " ++
        cutTo 160 p.message)))
    else if p.status = "error" ∨ p.status = "exited" then
      some (.error (probeFailed ("instance " ++ iid.str ++ " -> " ++ p.status ++ ": " ++
        cutTo 160 p.message)))
    else none
  | .runpod =>
    if p.status.toUpper ∈ deadStatuses then
      some (.error (probeFailed ("pod " ++ iid.str ++ " -> " ++ p.status.toUpper)))
    else if p.status.toUpper = "RUNNING" then
      match p.sshPort with
      | .error e => some (.error e.exc)
      | .ok port => if p.sshHost ≠ "" ∧ port ≠ 0 then some (.ok p) else none
    else none

variable {σ : Type}

namespace Rental

variable (r : Rental)

def timedOut (patience : Patience) : Exc :=
  ⟨.timeout, none, match r.adapter with
    | .vast => "instance " ++ r.id.str ++ " not running in " ++ patience.text ++ "s"
    | .runpod => "pod " ++ r.id.str ++ " not SSH-ready in " ++ patience.text ++ "s"⟩

/-- One round of the poll loop; `none` is a deadline that has passed. -/
def poll (W : Market σ) (deadline : ℚ) : StateM σ (Option (Except Exc Polled)) := do
  let now ← W.time
  if now < deadline then
    let answer ← W.status r.id
    return some answer
  else return none

def pollEnds (patience : Patience) : Option (Except Exc Polled) → Option (Except Exc Polled)
  | none => some (.error (r.timedOut patience))
  | some (.error e) => some (.error e)
  | some (.ok p) => p.verdict r.id r.adapter

/-- Each round sleeps ten seconds, so after these the deadline has passed. -/
def rounds (patience : Patience) : Nat := ⌈patience.seconds / 10⌉.toNat + 1

def waitRunning (W : Market σ) (patience : Patience) : StateM σ (Except Exc Polled) := do
  let start ← W.time
  let result ← Retry.retry (r.poll W (start + patience.seconds)) (fun _ => r.pollEnds patience)
    (fun _ => W.sleep 10) (rounds patience)
  return result.getD (.error (r.timedOut patience))

/-- The check of the coordinates; `wait_running` of RunPod has made it already. -/
def coords (I : Interp) (p : Polled) : Except Exc Host :=
  match p.sshPort with
  | .error e => .error e.exc
  | .ok port =>
    if r.adapter = .vast ∧ (p.sshHost = "" ∨ port = 0) then
      .error (probeFailed ("instance " ++ r.id.str ++ " running but SSH coordinates missing " ++
        "(host=" ++ I.repr (.str p.sshHost) ++ ", port=" ++ toString port ++ ")"))
    else .ok ⟨r.id.str, p.sshHost, port⟩

/-- The `try` block. -/
def use (I : Interp) (W : Market σ) (patience : Patience) : StateM σ (Except Exc Unit) := do
  match ← r.waitRunning W patience with
  | .error e => return .error e
  | .ok p =>
    match r.coords I p with
    | .error e => return .error e
    | .ok host =>
      let now ← W.time
      match ← W.record (r.runningRow now) with
      | .error e => return .error e.exc
      | .ok _ => W.body host

/-- `type(e).__name__`. -/
def className (e : Exc) : String :=
  match r.adapter, e.kind with
  | .vast, .provider => "VastError"
  | .runpod, .provider => "RunPodError"
  | _, kind => kind.className

/-- The `except` clauses: what the row says of the outcome. -/
def ended : Except Exc Unit → Ended
  | .ok _ => {}
  | .error e =>
    match e.kind with
    | .hostProbeFailed => ⟨"host_failed", e.text⟩
    | .timeout => ⟨"timeout", e.text⟩
    | _ => ⟨r.className e, cutTo 200 e.text⟩

def verifyText : Verify → String
  | .gone => "gone"
  | .present => "present"
  | .unverified why => "unverified: " ++ why

def leakRisk (t : Teardown) : Exc :=
  let told := "(destroyed=" ++ (if t.destroyed then "True" else "False") ++ ", verify=" ++
    verifyText t.verify ++ ")"
  ⟨.leakRisk, none, match r.adapter with
    | .vast => "LEAK RISK: instance " ++ r.id.str ++ " not confirmed torn down " ++ told ++
      " -- run `vastai destroy instance " ++ r.id.str ++ "`"
    | .runpod => "LEAK RISK: pod " ++ r.id.str ++ " not confirmed terminated " ++ told ++
      " -- terminate it at https://console.runpod.io/pods"⟩

/-- The `finally` block, after a body that ended with `out`. -/
def close (W : Market σ) (out : Except Exc Unit) : StateM σ (Except Exc Unit) := do
  let t ← r.teardown W.toWorld
  match ← W.record (r.destroyedRow (r.ended out) t) with
  | .error e => return .error e.exc
  | .ok _ => return if t.leaks then .error (r.leakRisk t) else out

def receipt : Except Exc Row :=
  match r.adapter, r.offer.geolocation with
  | .vast, none =>
    .error ⟨.other "AttributeError", none, "'NoneType' object has no attribute 'strip'"⟩
  | _, _ => .ok r.rentedRow

/-- `rent` from its instance on. The receipt is built and written outside the `try`. -/
def hold (I : Interp) (W : Market σ) (patience : Patience) : StateM σ (Except Exc Unit) := do
  match r.receipt with
  | .error e => return .error e
  | .ok row =>
    match ← W.record row with
    | .error e => return .error e.exc
    | .ok _ =>
      let out ← r.use I W patience
      r.close W out

end Rental

/-- The rental of a `rent` that gets an instance, or the exception that ends it. -/
def begin (acc : Account) (W : Market σ) (a : Adapter) (offer : Offer) :
    StateM σ (Except Exc Rental) := do
  let t0 ← W.time
  match ← place acc W.toNet a offer with
  | .error e => return .error e
  | .ok iid => return .ok ⟨a, offer, iid, t0⟩

/-- `rent` of the two adapters, with the body of its `with`. -/
def rent (acc : Account) (W : Market σ) (a : Adapter) (offer : Offer) (patience : Patience) :
    StateM σ (Except Exc Unit) := do
  match ← begin acc W a offer with
  | .error e => return .error e
  | .ok r => r.hold acc.I W patience

inductive Act where
  | opened (r : Request) (o : Opened)
  | recorded (row : Row) (answer : Except Foreign Unit)
  | polled (iid : InstanceId) (answer : Except Exc Polled)
  | ran (host : Host) (answer : Except Exc Unit)
  | destroyed (iid : InstanceId) (answer : Except Exc Unit)
  | listed (answer : Except Exc (List Instance))

def Market.noted (W : Market σ) : Market (σ × List Act) where
  toNet := W.toNet.noted .opened
  time s := ((W.time s.1).1, (W.time s.1).2, s.2)
  destroy iid := Retry.logged (.destroyed iid) (W.destroy iid)
  listInstances := Retry.logged .listed W.listInstances
  record row := Retry.logged (.recorded row) (W.record row)
  status iid := Retry.logged (.polled iid) (W.status iid)
  body host := Retry.logged (.ran host) (W.body host)

end RunFarm
