import RunFarm.Governed.CutFlow
import RunFarm.Governed.Shipment
import RunFarm.Protocols

/-! `FarmCampaign`: plan, gate, execute and govern, with the cut-flow and the corpus. -/
set_option autoImplicit false

namespace RunFarm
open Python

inductive Stage where
  | planned | launchGate | completed | shipped | verified | registered
  deriving DecidableEq, Repr

def Stage.idx : Stage → Fin 6
  | .planned => 0
  | .launchGate => 1
  | .completed => 2
  | .shipped => 3
  | .verified => 4
  | .registered => 5

/-- What the farm reads of a planned config: `params["rid"]`, the `str` of its leg, and
`config_hash()` and `run_name()`, which may raise. -/
structure RunConfig where
  rid : String
  configHash : Except Exc String
  runName : Except Exc String

/-- What `launch_gate` reads of a config: any of the two may raise. -/
structure LaunchedConfig where
  rid : Except Exc Key
  configHash : Except Exc String

def RunConfig.launched (config : RunConfig) : LaunchedConfig :=
  ⟨.ok (.str config.rid), config.configHash⟩

/-- What `__init__` fixes, apart from the injected policy; `ingests` says that an ingest
callback was given. -/
structure Setting where
  I : Interp
  sha256 : Json → Digest
  gtag : String
  requiredShas : Dict String String
  ingests : Bool

/-- `leg["rid"]`, `leg["cfg"]`, `leg.get("plan", [])` and the other keys of a leg. -/
structure Leg where
  rid : String
  cfg : List (Key × Value)
  plan : List Value := []
  more : List (Key × Value) := []

/-- The injected callables that `plan` uses; an error is what they raise. -/
structure Policy where
  preflight : List (Key × Value) → Except Exc (List String)
  stageValidate : List Value → List (Key × Value) → Except Exc (List String)
  configFactory : Leg → String → Dict String String → Except Exc RunConfig

/-- `handed` are the rids and records given to the ingest callback; no step reads it. -/
structure FarmCampaign where
  cf : CutFlow 6 := {}
  configs : List RunConfig := []
  ingested : Dict String Digest := Dict.empty
  gated : Bool := false
  handed : List (String × Value) := []

inductive Verdict where
  | registered
  | skipOk (reason : String)
  | lost (reason : String)
  | rejected (violations : List String)
  | conflict
  deriving DecidableEq, Repr

structure FarmResult where
  rid : String
  verdict : Verdict
  deriving DecidableEq, Repr

/-- What `_on_skip` finds at DONE.json, or the exception of looking. -/
inductive DoneFile where
  | missing
  | read (v : Value)
  | raises (e : Exc)

structure Answer where
  done : DoneFile := .missing
  ingestRaises : Option Exc := none

inductive Runner where
  | raised (text : String)
  | returned (shipment : Value)

/-- A record of the dispatch; `run` is `none` where the record has no such key. -/
structure Record where
  run : Option Key
  result : Value := .none
  skipped : Bool := false

/-- What the dispatch yields, and the exception that may end it. -/
structure Dispatch where
  records : List (Record × Answer)
  raises : Option Exc := none

def isNone : Value → Bool
  | .none => true
  | _ => false

def joined (vs : List String) : String := "; ".intercalate vs

/-- `sorted(xs)` as an f-string prints it. -/
def sortedText (I : Interp) (xs : List String) : String :=
  I.repr (.list ((xs.insertionSort (· ≤ ·)).map .str))

/-- `sorted(rids)` as an f-string prints it, where the rids can be compared. -/
def sortedRids (I : Interp) (rids : List Key) : Except Exc String :=
  if sortable rids then
    .ok (I.repr (.list ((I.sorted (rids.map fun rid => (rid, ()))).map fun e => e.1.value)))
  else .error { kind := .typeError, code := none, text := "'<' not supported between instances" }

def Exc.valueError (text : String) : Exc := { kind := .valueError, code := none, text := text }

def Exc.runtimeError (text : String) : Exc :=
  { kind := .other "RuntimeError", code := none, text := text }

namespace FarmCampaign

def enter (c : FarmCampaign) (leg : String) : FarmCampaign := { c with cf := c.cf.enter leg }

def mark (c : FarmCampaign) (leg : String) (s : Stage) (ok : Bool) (reason : String := "") :
    FarmCampaign :=
  { c with cf := c.cf.mark leg s.idx ok reason }

/-- `for s in stages: self.cf.mark(leg, s, True)`. -/
def pass (c : FarmCampaign) (leg : String) (stages : List Stage) : FarmCampaign :=
  stages.foldl (fun c s => c.mark leg s true) c

/-- `if rid not in self.cf.rows: self.cf.enter(rid)`. -/
def entered (c : FarmCampaign) (leg : String) : FarmCampaign :=
  if (c.cf.rows.get leg).isSome then c else c.enter leg

def duplicates (legs : List Leg) : List String :=
  (legs.map Leg.rid).dedup.filter (fun rid => 2 ≤ (legs.map Leg.rid).count rid)

/-- One round of the loop of `plan`; `ok` are the configs so far. -/
def planLeg (S : Setting) (P : Policy) (leg : Leg) (c : FarmCampaign) (ok : List RunConfig) :
    FarmCampaign × Except Exc (List RunConfig) :=
  let c := c.enter leg.rid
  match P.preflight leg.cfg, P.stageValidate leg.plan leg.cfg with
  | .error e, _ => (c, .error e)
  | .ok _, .error e => (c, .error e)
  | .ok pre, .ok staged =>
    let pv := pre ++ staged
    let c := c.mark leg.rid .planned pv.isEmpty (joined pv)
    if pv.isEmpty then
      match P.configFactory leg S.gtag S.requiredShas with
      | .error e => (c, .error e)
      | .ok config => (c, .ok (ok ++ [config]))
    else (c, .ok ok)

def planLegs (S : Setting) (P : Policy) :
    List Leg → FarmCampaign → List RunConfig → FarmCampaign × Except Exc (List RunConfig)
  | [], c, ok => (c, .ok ok)
  | leg :: legs, c, ok =>
    match planLeg S P leg c ok with
    | (c, .error e) => (c, .error e)
    | (c, .ok ok) => planLegs S P legs c ok

/-- The counts that `plan` returns. -/
structure Planned where
  planned : Nat
  valid : Nat
  deriving DecidableEq, Repr

def plan (S : Setting) (P : Policy) (legs : List Leg) (c : FarmCampaign) :
    FarmCampaign × Except Exc Planned :=
  let c := { c with gated := false }
  if duplicates legs ≠ [] then
    (c, .error (.valueError ("duplicate rid(s) in plan: " ++ sortedText S.I (duplicates legs) ++
      " — rids must be unique (cut-flow and ingest bookkeeping are keyed by rid)")))
  else
    match planLegs S P legs c [] with
    | (c, .error e) => (c, .error e)
    | (c, .ok ok) => ({ c with configs := ok }, .ok ⟨legs.length, ok.length⟩)

end FarmCampaign

def dictBy {α : Type} (key : RunConfig → Except Exc String) (value : RunConfig → α) :
    List RunConfig → Dict String α → Except Exc (Dict String α)
  | [], d => .ok d
  | c :: cs, d =>
    match key c with
    | .error e => .error e
    | .ok k => dictBy key value cs (d.set k (value c))

/-- `{c.config_hash(): c.params["rid"] for c in configs}`, onto the entries so far. -/
def ridsByHash : List LaunchedConfig → Dict String Key → Except Exc (Dict String Key)
  | [], d => .ok d
  | c :: cs, d =>
    match c.configHash, c.rid with
    | .error e, _ => .error e
    | .ok _, .error e => .error e
    | .ok hash, .ok rid => ridsByHash cs (d.set hash rid)

def ridsOnlyIn (p q : Dict String Key) : List Key :=
  (p.items.filter (fun e => (q.get e.1).isNone)).map Prod.snd

def legsAtLaunch (I : Interp) (which : String) (rids : List Key) : Except Exc (List String) :=
  if rids = [] then .ok []
  else (sortedRids I rids).map fun text => [which ++ " legs at launch: " ++ text]

def launchGate (I : Interp) (planned : List RunConfig) (launched : List LaunchedConfig) :
    Except Exc (List String) := do
  let p ← ridsByHash (planned.map RunConfig.launched) Dict.empty
  let q ← ridsByHash launched Dict.empty
  let missing ← legsAtLaunch I "MISSING" (ridsOnlyIn p q)
  let unplanned ← legsAtLaunch I "UNPLANNED" (ridsOnlyIn q p)
  return missing ++ unplanned

namespace FarmCampaign

def markGate (v : List String) (c : FarmCampaign) (config : RunConfig) : FarmCampaign :=
  c.mark config.rid .launchGate v.isEmpty (joined v)

def gateLaunch (S : Setting) (launched : List LaunchedConfig) (c : FarmCampaign) :
    FarmCampaign × Except Exc (List String) :=
  match launchGate S.I c.configs launched with
  | .error e => (c, .error e)
  | .ok v => ({ c.configs.foldl (markGate v) c with gated := v.isEmpty }, .ok v)

def conflictReason : String :=
  "CONFLICT: rid in corpus with DIFFERENT content — never overwritten"

def enterConflict (c : FarmCampaign) (leg : String) : FarmCampaign :=
  ((c.enter leg).pass leg [.planned, .launchGate, .completed, .shipped, .verified]).mark leg
    .registered false conflictReason

/-- `shipment["products"].get("record", shipment["products"])`. -/
def ingestRecord (products : List (Key × Value)) : Value :=
  (dictGet products (.str "record")).getD (.dict products)

def register (c : FarmCampaign) (rid : String) (content : Digest) : FarmCampaign :=
  { c with ingested := c.ingested.set rid content }.mark rid .registered true

def hand (S : Setting) (c : FarmCampaign) (rid : String) (record : Value) : FarmCampaign :=
  if S.ingests then { c with handed := c.handed ++ [(rid, record)] } else c

def ingest (S : Setting) (ans : Answer) (rid : String) (products : List (Key × Value))
    (c : FarmCampaign) : FarmCampaign × Except Exc FarmResult :=
  match sha256Json S.I S.sha256 (.dict products) with
  | .error e =>
    (c.mark rid .registered false ("unhashable products: " ++ e),
      .ok ⟨rid, .rejected ["unhashable products: " ++ e]⟩)
  | .ok content =>
    match c.ingested.get rid with
    | some h =>
      if h.text = content.text then
        (c.mark rid .registered true, .ok ⟨rid, .skipOk "already in corpus, identical content"⟩)
      else
        ((c.mark rid .registered true).enterConflict (rid ++ ".conflict"), .ok ⟨rid, .conflict⟩)
    | none =>
      let c := c.hand S rid (ingestRecord products)
      match if S.ingests then ans.ingestRaises else none with
      | some e => (c, .error e)
      | none => (c.register rid content, .ok ⟨rid, .registered⟩)

/-- `shipment.get(key, {})` is not a dict. -/
def notDict (es : List (Key × Value)) (key : String) : Bool :=
  match dictGet es (.str key) with
  | none | some (.dict _) => false
  | some _ => true

/-- The `bad` of `_govern`, or the items of the shipment. -/
def shape : Value → Except String (List (Key × Value))
  | .dict es =>
    match dictGet es (.str "products") with
    | some (.dict _) =>
      if notDict es "sidecar" || notDict es "attested_shas" then
        .error "malformed shipment (sidecar/attested_shas not dicts)"
      else .ok es
    | _ => .error "malformed shipment (products missing or not a dict)"
  | _ => .error "malformed shipment (products missing or not a dict)"

def govern (S : Setting) (ans : Answer) (rid : String) (shipment : Value) (c : FarmCampaign) :
    FarmCampaign × Except Exc FarmResult :=
  let c := c.mark rid .completed true
  match shape shipment with
  | .error bad => (c.mark rid .shipped false bad, .ok ⟨rid, .rejected [bad]⟩)
  | .ok es =>
    let c := c.mark rid .shipped true
    let v := verifyShipment S.I S.sha256 S.requiredShas (.dict es)
    let c := c.mark rid .verified v.isEmpty (joined v)
    if v.isEmpty then c.ingest S ans rid (part es "products")
    else (c, .ok ⟨rid, .rejected v⟩)

/-- `self.cf.mark(rid, "completed", False, reason)` and the LOST dict. -/
def lose (c : FarmCampaign) (rid reason : String) : FarmCampaign × Except Exc FarmResult :=
  (c.mark rid .completed false reason, .ok ⟨rid, .lost reason⟩)

def onSkip (S : Setting) (ans : Answer) (rid : String) (c : FarmCampaign) :
    FarmCampaign × Except Exc FarmResult :=
  if (c.ingested.get rid).isSome then
    (c.pass rid [.completed, .shipped, .verified, .registered],
      .ok ⟨rid, .skipOk "already complete"⟩)
  else
    match ans.done with
    | .raises e => (c, .error e)
    | .read v => c.govern S ans rid v
    | .missing => c.lose rid "skip signaled but no DONE.json result (possible data loss)"

/-- `execute_leg`: the runner is `run`, or `execute_config` over the registry. -/
def executeLeg (S : Setting) (config : RunConfig) (runner : Runner) (ans : Answer)
    (c : FarmCampaign) : FarmCampaign × Except Exc FarmResult :=
  let rid := config.rid
  let c := c.entered rid
  match runner with
  | .raised e =>
    (c.mark rid .completed false ("HOST_LOST: " ++ e), .ok ⟨rid, .lost e⟩)
  | .returned shipment =>
    if isNone shipment then c.onSkip S ans rid else c.govern S ans rid shipment

end FarmCampaign

/-- `by_name.get(rec.get("run"))`. -/
def configFor (byName : Dict String RunConfig) : Option Key → Option RunConfig
  | some (.str s) => byName.get s
  | _ => none

/-- `str(rec.get("run", "?"))`. -/
def runText (I : Interp) : Option Key → String
  | none => "?"
  | some k => I.str k.value

/-- The names that are not shorter than `n`: a longer key has fewer of them, without `key`. -/
def atLeast (taken : List String) (n : Nat) : List String :=
  taken.filter (fun k => n ≤ k.length)

theorem atLeast_lt {taken : List String} {key : String} {n : Nat} (h : key ∈ taken)
    (hn : key.length < n) : (atLeast taken n).length < (atLeast taken key.length).length := by
  have hsub : atLeast taken n = (atLeast taken key.length).filter (fun k => n ≤ k.length) := by
    rw [atLeast, atLeast, List.filter_filter]
    refine List.filter_congr fun k _ => ?_
    rw [Bool.eq_iff_iff]
    simp only [decide_eq_true_eq, Bool.and_eq_true]
    omega
  rw [hsub, List.length_filter_lt_length_iff_exists]
  refine ⟨key, ?_, ?_⟩
  · simp [atLeast, h]
  · simp only [decide_eq_true_eq]
    omega

/-- `while key in taken: key += ".unplanned"`. -/
def freeKey (taken : List String) (key : String) : String :=
  if key ∈ taken then freeKey taken (key ++ ".unplanned") else key
termination_by (atLeast taken key.length).length
decreasing_by
  refine atLeast_lt ‹_› ?_
  rw [String.length_append]
  have : ".unplanned".length = 10 := by decide
  omega

namespace FarmCampaign

def unplannedReason : String := "unplanned run name from dispatch (protocol violation)"

def duplicateReason : String := "duplicate dispatch record (protocol violation)"

def book (c : FarmCampaign) (key reason : String) : FarmCampaign :=
  (c.enter key).mark key .completed false reason

def violationKey (S : Setting) (c : FarmCampaign) (out : Dict String FarmResult)
    (run : Option Key) : String :=
  freeKey (c.configs.map RunConfig.rid ++ out.items.map Prod.fst) (runText S.I run)

def settle (S : Setting) (rec : Record) (ans : Answer) (rid : String) (c : FarmCampaign) :
    FarmCampaign × Except Exc FarmResult :=
  let c := c.entered rid
  if isNone rec.result then
    if rec.skipped then c.onSkip S ans rid else c.lose rid "no result (host lost)"
  else c.govern S ans rid rec.result

def recordStep (S : Setting) (byName : Dict String RunConfig) (rec : Record) (ans : Answer)
    (c : FarmCampaign) (out : Dict String FarmResult) :
    FarmCampaign × Except Exc (Dict String FarmResult) :=
  match configFor byName rec.run with
  | none =>
    let key := c.violationKey S out rec.run
    (c.book key unplannedReason, .ok (out.set key ⟨key, .rejected [unplannedReason]⟩))
  | some config =>
    if (out.get config.rid).isSome then
      (c.book (config.rid ++ ".dup") duplicateReason, .ok out)
    else
      match c.settle S rec ans config.rid with
      | (c, .error e) => (c, .error e)
      | (c, .ok r) => (c, .ok (out.set config.rid r))

def recordSteps (S : Setting) (byName : Dict String RunConfig) :
    List (Record × Answer) → FarmCampaign → Dict String FarmResult →
      FarmCampaign × Except Exc (Dict String FarmResult)
  | [], c, out => (c, .ok out)
  | r :: rs, c, out =>
    match recordStep S byName r.1 r.2 c out with
    | (c, .error e) => (c, .error e)
    | (c, .ok out) => recordSteps S byName rs c out

def droppedReason : String := "dispatch returned no record for this leg (dropped?)"

def reconcileOne (s : FarmCampaign × Dict String FarmResult) (config : RunConfig) :
    FarmCampaign × Dict String FarmResult :=
  if (s.2.get config.rid).isSome then s
  else (s.1.mark config.rid .completed false droppedReason,
    s.2.set config.rid ⟨config.rid, .lost droppedReason⟩)

def executeFleet (S : Setting) (dispatch : Dispatch) (c : FarmCampaign) :
    FarmCampaign × Except Exc (Dict String FarmResult) :=
  if c.gated then
    match dictBy RunConfig.runName id c.configs Dict.empty with
    | .error e => (c, .error e)
    | .ok byName =>
      match recordSteps S byName dispatch.records c Dict.empty, dispatch.raises with
      | (c, .error e), _ => (c, .error e)
      | (c, .ok _), some e => (c, .error e)
      | (c, .ok out), none =>
        let s := c.configs.foldl reconcileOne (c, out)
        (s.1, .ok s.2)
  else
    (c, .error (.runtimeError ("execute_fleet before a passing gate_launch(): call plan(...) " ++
      "then gate_launch(configs) and resolve violations first")))

structure SameButCf (c c' : FarmCampaign) : Prop where
  configs : c'.configs = c.configs
  ingested : c'.ingested = c.ingested
  gated : c'.gated = c.gated
  handed : c'.handed = c.handed

variable {c c' c'' : FarmCampaign} {leg reason : String} {s : Stage} {ok : Bool}

theorem SameButCf.refl (c : FarmCampaign) : SameButCf c c := ⟨rfl, rfl, rfl, rfl⟩

theorem SameButCf.trans (h : SameButCf c c') (h' : SameButCf c' c'') : SameButCf c c'' :=
  ⟨h'.configs.trans h.configs, h'.ingested.trans h.ingested, h'.gated.trans h.gated,
    h'.handed.trans h.handed⟩

theorem mark_same (c : FarmCampaign) (leg : String) (s : Stage) (ok : Bool) (reason : String) :
    SameButCf c (c.mark leg s ok reason) := ⟨rfl, rfl, rfl, rfl⟩

theorem verified_same (c : FarmCampaign) (leg : String) (ok : Bool) (reason : String) :
    SameButCf c (((c.mark leg .completed true "").mark leg .shipped true "").mark leg .verified ok
      reason) :=
  ((mark_same c leg .completed true "").trans (mark_same _ leg .shipped true "")).trans
    (mark_same _ leg .verified ok reason)

theorem enter_same (c : FarmCampaign) (leg : String) : SameButCf c (c.enter leg) :=
  ⟨rfl, rfl, rfl, rfl⟩

theorem entered_same (c : FarmCampaign) (leg : String) : SameButCf c (c.entered leg) := by
  unfold entered
  split
  · exact .refl c
  · exact enter_same c leg

theorem pass_same (c : FarmCampaign) (leg : String) (stages : List Stage) :
    SameButCf c (c.pass leg stages) := by
  induction stages generalizing c with
  | nil => exact .refl c
  | cons s stages ih => exact (mark_same c leg s true "").trans (ih _)

theorem enterConflict_same (c : FarmCampaign) (leg : String) :
    SameButCf c (c.enterConflict leg) :=
  ((enter_same c leg).trans (pass_same _ leg _)).trans (mark_same _ leg _ _ _)

theorem book_same (c : FarmCampaign) (key reason : String) : SameButCf c (c.book key reason) :=
  (enter_same c key).trans (mark_same _ key _ _ _)

end FarmCampaign

end RunFarm
