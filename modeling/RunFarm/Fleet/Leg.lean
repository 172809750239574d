import RunFarm.Arrival.MarkerLast
import RunFarm.Arrival.Verify
import RunFarm.Protocols

set_option autoImplicit false

namespace RunFarm
open Files

variable {α : Type}

/-- What `except Exception as e` reports of an exception: `type(e).__name__` and `str(e)`. -/
structure Raised where
  exc : Exc
  className : String
  deriving DecidableEq, Repr

/-- `verdict` is the caller's check of the leg directory; it may raise. -/
structure FleetLeg (α : Type) where
  label : String
  fetch : String := ""
  doneWhen : String := ""
  streamProgress : Bool := false
  resumable : Bool := false
  verdict : Option (Disk α → Except Raised (Option String)) := none

def progressLog : String := "progress.log"

def parts (s : String) : Path :=
  ((s.toList.splitOn '/').map String.ofList).filter (fun c => c ≠ "" ∧ c ≠ ".")

def basename (s : String) : String :=
  let stripped := (s.toList.reverse.dropWhile (fun c => c = '/')).reverse
  String.ofList ((stripped.splitOn '/').getLast?.getD [])

def FleetLeg.marker (leg : FleetLeg α) : String :=
  if leg.doneWhen ≠ "" then leg.doneWhen
  else if leg.fetch ≠ "" then basename leg.fetch
  else ""

def complete (leg : FleetLeg α) (d : Disk α) : Bool :=
  leg.marker ≠ "" && (d (parts leg.marker)).isSome

/-- `Path(marker).parts[0]` of a marker without parts raises `IndexError`. -/
def publishRaises (marker : String) : Bool := marker ≠ "" && parts marker = []

/-- What `publish` does before it returns or raises that. -/
def publishSteps (staging : DirTree α) (marker : String) : List (Op α) :=
  if publishRaises marker then [.mkdir []] else publishOps staging (parts marker)

/-- The destination and whether `publish` returned. -/
def publish (staging : DirTree α) (marker : String) (dest : Disk α) : Disk α × Bool :=
  let moved := runTo dest (publishSteps staging marker)
  (moved.1, moved.2 && !publishRaises marker)

/-- A copy-down of the remote fetch tree: what has landed in the staging directory, and
`_scp_down`'s return code. -/
structure CopyDown (α : Type) where
  remote : DirTree α
  landed : DirTree α
  rc : Int
  subset : ∀ p c, (p, c) ∈ landed.files → ∃ c', (p, c') ∈ remote.files
  whole : rc = 0 ↔ landed = remote

/-- `_fetch` of a leg that fetches something; the return code is not looked at. -/
def fetch (leg : FleetLeg α) (copy : CopyDown α) (d : Disk α) : Disk α × Bool :=
  match Op.exec d (.mkdir []) with
  | none => (d, false)
  | some d => publish copy.landed leg.marker d

structure Executor (α : Type) where
  formats : Formats α
  validateArtifacts : Bool := true

def Executor.validates (ex : Executor α) (leg : FleetLeg α) : Bool :=
  ex.validateArtifacts && leg.fetch ≠ ""

def target (leg : FleetLeg α) (d : Disk α) : Path :=
  let target := parts (basename leg.fetch)
  if (d target).isSome then target else []

def refusal (report : ArrivalReport) : Option String :=
  if report.ok then none else some report.summary

def Executor.validate (ex : Executor α) (leg : FleetLeg α) (d : Disk α) : Option String :=
  if ex.validates leg then refusal (verifyReport ex.formats d (target leg d)) else none

/-- `_payload_verdict`: a verdict that raises is a verdict. -/
def payloadVerdict (leg : FleetLeg α) (d : Disk α) : Option String :=
  match leg.verdict with
  | none => none
  | some verdict => match verdict d with
    | .ok why => why
    | .error e => some ("verdict check raised " ++ e.className ++ ": " ++
        String.ofList (e.exc.text.toList.take 160))

inductive Status where
  | ok | skip | noResult | runFail | badArtifacts | noOffers | leak | error
  deriving DecidableEq, Repr

structure LegResult where
  label : String
  status : Status
  detail : String := ""
  deriving DecidableEq, Repr

def LegResult.ok (r : LegResult) : Bool := r.status = .ok || r.status = .skip

def done (leg : FleetLeg α) (d : Disk α) : Bool := complete leg d || leg.marker = ""

def noResult (leg : FleetLeg α) : LegResult := { label := leg.label, status := .noResult }

def badArtifacts (leg : FleetLeg α) (bad : String) : LegResult :=
  { label := leg.label, status := .badArtifacts, detail := bad }

def verdictResult (leg : FleetLeg α) (d : Disk α) : LegResult :=
  match payloadVerdict leg d with
  | some why => { label := leg.label, status := .runFail, detail := "payload verdict: " ++ why }
  | none => { label := leg.label, status := .ok }

def judgeArtifacts (leg : FleetLeg α) (d : Disk α) : Option String → LegResult
  | some bad => badArtifacts leg bad
  | none => verdictResult leg d

/-- `_run_leg` on the leg directory after the final fetch. -/
def judge (ex : Executor α) (leg : FleetLeg α) (d : Disk α) : LegResult :=
  if done leg d then judgeArtifacts leg d (ex.validate leg d) else noResult leg

/-- `_run_leg` from the moment its command has returned 0 to the end of the rental's block;
`none` when `publish` raised. -/
def afterCommand (ex : Executor α) (leg : FleetLeg α) (copy : CopyDown α) (d : Disk α) :
    Option LegResult × Disk α :=
  let fetched := if leg.fetch = "" then (d, true) else fetch leg copy d
  if fetched.2 then (some (judge ex leg fetched.1), fetched.1) else (none, fetched.1)

end RunFarm
