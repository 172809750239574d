import RunFarm.Protocols
import RunFarm.Python.Fallible

/-! `collect`: what a provider can say about a host, and the gaps where it cannot. -/
set_option autoImplicit false

namespace RunFarm
open Python (bind_eq_ok pure_eq_ok mapM_ok mem_mapM)

structure Gap where
  field : String
  reason : String
  unsupported : Bool := false
  deriving DecidableEq, Repr

/-- An exception; its `str` may raise as well. -/
structure Thrown where
  className : String
  text : Except Exc String

/-- A method of a provider, and what a call of it does; a `none` inside is Python's. -/
inductive Capability (β : Type) where
  | absent
  | raises (e : Thrown)
  | returns (v : Option β)

/-- An attribute of an object, with the `str` of its value. -/
inductive Attribute where
  | missing
  | raises (e : Exc)
  | value (text : Except Exc String)

structure ListedObject where
  id : Attribute
  podId : Attribute
  text : Except Exc String

/-- What iterating over a returned listing gives, and the exception that may end it. -/
structure Listing where
  objects : List ListedObject
  raises : Option Exc := none

/-- What `dead_reason` returns: a string, or an object with its `str`. -/
inductive DeadValue where
  | text (s : String)
  | other (text : Except Exc String)

structure DiagnosedProvider (β : Type) where
  name : String
  status : Capability β
  deadReason : Capability DeadValue
  logs : Capability β
  listInstances : Capability Listing

/-- `alive` is `none` where it could not be determined. -/
structure Diagnostics (β : Type) where
  hostId : String
  provider : String
  alive : Option Bool
  status : Option β
  deadReason : Option String
  logs : Option β
  gaps : List Gap

def Diagnostics.complete {β : Type} (d : Diagnostics β) : Bool := d.gaps.isEmpty

variable {β : Type}

namespace Capability

/-- `_try` of a capability that is there, and the gap of one that is not. -/
def ask (c : Capability β) (field absentField missing : String) :
    Except Exc (Option β × List Gap) :=
  match c with
  | .absent => .ok (none, [{ field := absentField, reason := missing, unsupported := true }])
  | .raises e => do
    let text ← e.text
    pure (none, [{ field, reason := e.className ++ ": " ++ text }])
  | .returns v => .ok (v, [])

def value : Capability β → Option β
  | .returns v => v
  | _ => none

def failure (field absentField : String) : Capability β → List String
  | .absent => [absentField]
  | .raises _ => [field]
  | .returns _ => []

def Tells (c : Capability β) : Prop := ∀ e, c = .raises e → ∃ text, e.text = .ok text

end Capability

/-- `str(getattr(i, "id", getattr(i, "pod_id", i)))`; the default is evaluated first. -/
def ListedObject.idText (i : ListedObject) : Except Exc String :=
  match i.podId, i.id with
  | .raises e, _ => .error e
  | _, .raises e => .error e
  | _, .value text => text
  | .value text, .missing => text
  | .missing, .missing => i.text

def Listing.ids (l : Listing) : Except Exc (List String) := do
  let ids ← l.objects.mapM ListedObject.idText
  match l.raises with
  | some e => .error e
  | none => pure ids

/-- `dead if dead is None or isinstance(dead, str) else str(dead)`. -/
def reasonText : Option DeadValue → Except Exc (Option String)
  | none => .ok none
  | some (.text s) => .ok (some s)
  | some (.other text) => text.map some

namespace DiagnosedProvider
variable (P : DiagnosedProvider β)

def askLogs (wantLogs : Bool) : Except Exc (Option β × List Gap) :=
  if wantLogs then
    P.logs.ask "logs" "logs" (P.name ++ " exposes no logs() -- host-side stdout is not " ++
      "retrievable through this adapter")
  else .ok (none, [])

/-- `alive`, and the gap of it. -/
def liveness (hostId : String) : Except Exc (Option Bool × List Gap) := do
  let listed ← P.listInstances.ask "list_instances" "alive"
    (P.name ++ " exposes no list_instances()")
  match listed.1 with
  | none => pure (none, listed.2)
  | some l =>
    let ids ← l.ids
    pure (some (decide (hostId ∈ ids)), listed.2)

def collect (hostId : String) (wantLogs : Bool) : Except Exc (Diagnostics β) := do
  let status ← P.status.ask "status" "status" (P.name ++ " exposes no status()")
  let dead ← P.deadReason.ask "dead_reason" "dead_reason" (P.name ++ " exposes no dead_reason()")
  let logs ← P.askLogs wantLogs
  let alive ← P.liveness hostId
  let reason ← reasonText dead.1
  pure { hostId, provider := P.name, alive := alive.1, status := status.1, deadReason := reason,
         logs := logs.1, gaps := status.2 ++ dead.2 ++ logs.2 ++ alive.2 }

def failures (wantLogs : Bool) : List String :=
  P.status.failure "status" "status" ++ P.deadReason.failure "dead_reason" "dead_reason" ++
    (if wantLogs then P.logs.failure "logs" "logs" else []) ++
    P.listInstances.failure "list_instances" "alive"

/-- `collect` returns a report that hides nothing: a host whose state is unknown has a gap that
says why, one that is not alive is missing from a listing that was read to its end, every
failure is a gap, and a report without gaps has all the answers. -/
structure Candid (hostId : String) (wantLogs : Bool) : Prop where
  returns : ∃ d, P.collect hostId wantLogs = .ok d
  unknown : ∀ d, P.collect hostId wantLogs = .ok d → d.alive = none →
    ∃ g ∈ d.gaps, g.field = "alive" ∨ g.field = "list_instances"
  gone : ∀ d, P.collect hostId wantLogs = .ok d → d.alive = some false →
    ∃ l ids, P.listInstances = .returns (some l) ∧ l.ids = .ok ids ∧ hostId ∉ ids
  gaps : ∀ d, P.collect hostId wantLogs = .ok d → ∀ field ∈ P.failures wantLogs,
    ∃ g ∈ d.gaps, g.field = field
  complete : ∀ d, P.collect hostId wantLogs = .ok d → d.complete = true →
    P.failures wantLogs = [] ∧ d.alive ≠ none

/-- What is raised can be put into words, so can the reason of a death, and a call that lists the
instances returns a listing that can be read to its end. -/
structure Readable (wantLogs : Bool) : Prop where
  status : P.status.Tells
  dead : P.deadReason.Tells
  logs : wantLogs = true → P.logs.Tells
  listing : P.listInstances.Tells
  reason : ∃ reason, reasonText P.deadReason.value = .ok reason
  listed : ∀ v, P.listInstances = .returns v → ∃ l ids, v = some l ∧ l.ids = .ok ids

end DiagnosedProvider

namespace Capability
variable {c : Capability β} {field absentField missing : String}

theorem ask_ok {r : Option β × List Gap} (h : c.ask field absentField missing = .ok r) :
    r.1 = c.value ∧ r.2.map Gap.field = c.failure field absentField ∧ c.Tells := by
  cases c with
  | absent =>
    cases h
    exact ⟨rfl, rfl, nofun⟩
  | raises e =>
    obtain ⟨text, htext, hr⟩ := bind_eq_ok.mp h
    cases hr
    refine ⟨rfl, rfl, fun e' he => ?_⟩
    cases he
    exact ⟨text, htext⟩
  | returns v =>
    cases h
    exact ⟨rfl, rfl, nofun⟩

theorem ask_tells (field absentField missing : String) (h : c.Tells) :
    ∃ r, c.ask field absentField missing = .ok r := by
  cases c with
  | absent => exact ⟨_, rfl⟩
  | raises e =>
    obtain ⟨text, htext⟩ := h e rfl
    exact ⟨_, bind_eq_ok.mpr ⟨text, htext, rfl⟩⟩
  | returns v => exact ⟨_, rfl⟩

end Capability

namespace DiagnosedProvider
variable {P : DiagnosedProvider β} {hostId : String} {wantLogs : Bool}

theorem liveness_ok {r : Option Bool × List Gap} (h : P.liveness hostId = .ok r) :
    r.2.map Gap.field = P.listInstances.failure "list_instances" "alive" ∧
      P.listInstances.Tells ∧
      ((P.listInstances.value = none ∧ r.1 = none) ∨
        ∃ l ids, P.listInstances = .returns (some l) ∧ l.ids = .ok ids ∧
          r.1 = some (decide (hostId ∈ ids))) := by
  obtain ⟨listed, hlisted, h⟩ := bind_eq_ok.mp h
  obtain ⟨hvalue, hgaps, htells⟩ := Capability.ask_ok hlisted
  cases hl : listed.1 with
  | none =>
    rw [hl] at h
    cases h
    exact ⟨hgaps, htells, .inl ⟨by rw [← hvalue, hl], rfl⟩⟩
  | some l =>
    rw [hl] at h
    obtain ⟨ids, hids, hr⟩ := bind_eq_ok.mp h
    cases hr
    refine ⟨hgaps, htells, .inr ⟨l, ids, ?_, hids, rfl⟩⟩
    rw [hl] at hvalue
    cases hlist : P.listInstances with
    | returns v =>
      rw [hlist] at hvalue
      obtain rfl : some l = v := hvalue
      rfl
    | _ =>
      rw [hlist] at hvalue
      cases hvalue

theorem askLogs_ok {r : Option β × List Gap} (h : P.askLogs wantLogs = .ok r) :
    r.2.map Gap.field = (if wantLogs then P.logs.failure "logs" "logs" else []) ∧
      (wantLogs = true → P.logs.Tells) := by
  cases wantLogs with
  | true =>
    obtain ⟨-, hgaps, htells⟩ := Capability.ask_ok h
    exact ⟨hgaps, fun _ => htells⟩
  | false =>
    cases h
    exact ⟨rfl, nofun⟩

theorem collect_ok {d : Diagnostics β} (h : P.collect hostId wantLogs = .ok d) :
    ∃ alive, P.liveness hostId = .ok alive ∧ d.alive = alive.1 ∧
      d.gaps.map Gap.field = P.failures wantLogs ∧ P.status.Tells ∧ P.deadReason.Tells ∧
      (wantLogs = true → P.logs.Tells) ∧ ∃ reason, reasonText P.deadReason.value = .ok reason := by
  simp only [collect, bind_eq_ok, pure_eq_ok] at h
  obtain ⟨status, hstatus, dead, hdead, logs, hlogs, alive, halive, reason, hreason, rfl⟩ := h
  obtain ⟨-, hstatusGaps, hstatusTells⟩ := Capability.ask_ok hstatus
  obtain ⟨hdeadValue, hdeadGaps, hdeadTells⟩ := Capability.ask_ok hdead
  obtain ⟨hlogsGaps, hlogsTells⟩ := askLogs_ok hlogs
  refine ⟨alive, halive, rfl, ?_, hstatusTells, hdeadTells, hlogsTells, reason, ?_⟩
  · simp only [List.map_append, hstatusGaps, hdeadGaps, hlogsGaps, (liveness_ok halive).1, failures]
  · rw [← hdeadValue, hreason]

theorem askLogs_tells (h : wantLogs = true → P.logs.Tells) :
    ∃ r, P.askLogs wantLogs = .ok r := by
  cases wantLogs with
  | true => exact Capability.ask_tells _ _ _ (h rfl)
  | false => exact ⟨_, rfl⟩

theorem liveness_readable (h : P.Readable wantLogs) (hostId : String) :
    ∃ r, P.liveness hostId = .ok r := by
  obtain ⟨listed, hlisted⟩ := Capability.ask_tells "list_instances" "alive"
    (P.name ++ " exposes no list_instances()") h.listing
  obtain ⟨hvalue, -, -⟩ := Capability.ask_ok hlisted
  cases hl : listed.1 with
  | none => exact ⟨_, bind_eq_ok.mpr ⟨listed, hlisted, by rw [hl]; rfl⟩⟩
  | some l =>
    cases hlist : P.listInstances with
    | returns v =>
      obtain ⟨l', ids, rfl, hids⟩ := h.listed v hlist
      rw [hl, hlist] at hvalue
      cases hvalue
      exact ⟨_, bind_eq_ok.mpr ⟨listed, hlisted, by rw [hl]; exact bind_eq_ok.mpr ⟨ids, hids, rfl⟩⟩⟩
    | _ =>
      rw [hl, hlist] at hvalue
      cases hvalue

theorem collect_readable (h : P.Readable wantLogs) (hostId : String) :
    ∃ d, P.collect hostId wantLogs = .ok d := by
  obtain ⟨status, hstatus⟩ := Capability.ask_tells "status" "status"
    (P.name ++ " exposes no status()") h.status
  obtain ⟨dead, hdead⟩ := Capability.ask_tells "dead_reason" "dead_reason"
    (P.name ++ " exposes no dead_reason()") h.dead
  obtain ⟨logs, hlogs⟩ := askLogs_tells h.logs
  obtain ⟨alive, halive⟩ := liveness_readable h hostId
  obtain ⟨reason, hreason⟩ := h.reason
  rw [← (Capability.ask_ok hdead).1] at hreason
  simp only [collect, bind_eq_ok, pure_eq_ok]
  exact ⟨_, status, hstatus, dead, hdead, logs, hlogs, alive, halive, reason, hreason, rfl⟩

theorem mem_failure {γ : Type} {c : Capability γ} {field absentField x : String}
    (h : x ∈ c.failure field absentField) : x = field ∨ x = absentField := by
  cases c <;> simp_all [Capability.failure]

theorem failures_listing {field : String} (h : field ∈ P.failures wantLogs)
    (hfield : field = "alive" ∨ field = "list_instances") :
    field ∈ P.listInstances.failure "list_instances" "alive" := by
  simp only [failures, List.mem_append] at h
  obtain ((hstatus | hdead) | hlogs) | hlist := h
  · have := mem_failure hstatus
    rcases hfield with rfl | rfl <;> simp at this
  · have := mem_failure hdead
    rcases hfield with rfl | rfl <;> simp at this
  · split at hlogs
    · have := mem_failure hlogs
      rcases hfield with rfl | rfl <;> simp at this
    · cases hlogs
  · exact hlist

theorem gap_of_failure {d : Diagnostics β} (h : P.collect hostId wantLogs = .ok d) {field : String}
    (hfield : field ∈ P.failures wantLogs) : ∃ g ∈ d.gaps, g.field = field := by
  obtain ⟨-, -, -, hgaps, -⟩ := collect_ok h
  rw [← hgaps] at hfield
  exact List.mem_map.mp hfield

theorem unknown_gap (h : P.Readable wantLogs) {d : Diagnostics β}
    (hd : P.collect hostId wantLogs = .ok d) (halive : d.alive = none) :
    ∃ g ∈ d.gaps, g.field = "alive" ∨ g.field = "list_instances" := by
  obtain ⟨alive, hlive, hsame, -⟩ := collect_ok hd
  obtain ⟨-, -, ⟨hvalue, -⟩ | ⟨l, ids, -, -, hknown⟩⟩ := liveness_ok hlive
  · obtain ⟨field, hlisting, hfield⟩ :
        ∃ field ∈ P.listInstances.failure "list_instances" "alive",
          field = "alive" ∨ field = "list_instances" := by
      cases hlist : P.listInstances with
      | absent => exact ⟨"alive", by simp [Capability.failure], .inl rfl⟩
      | raises e => exact ⟨"list_instances", by simp [Capability.failure], .inr rfl⟩
      | returns v =>
        obtain ⟨l, ids, rfl, -⟩ := h.listed v hlist
        rw [hlist] at hvalue
        cases hvalue
    have hdue : field ∈ P.failures wantLogs := List.mem_append_right _ hlisting
    obtain ⟨g, hg, rfl⟩ := gap_of_failure hd hdue
    exact ⟨g, hg, hfield⟩
  · rw [hsame, hknown] at halive
    cases halive

/-- `collect` hides nothing and does not raise exactly when what the provider gives it can be
read: a listing that fails while it is read escapes, and `None` for one leaves no gap. -/
theorem candid_iff (P : DiagnosedProvider β) (hostId : String) (wantLogs : Bool) :
    P.Candid hostId wantLogs ↔ P.Readable wantLogs := by
  constructor
  · intro h
    obtain ⟨d, hd⟩ := h.returns
    obtain ⟨alive, hlive, hsame, hgaps, hstatus, hdead, hlogs, hreason⟩ := collect_ok hd
    obtain ⟨-, htells, hlisted⟩ := liveness_ok hlive
    refine ⟨hstatus, hdead, hlogs, htells, hreason, fun v hv => ?_⟩
    obtain ⟨-, hnone⟩ | ⟨l, ids, hl, hids, -⟩ := hlisted
    · obtain ⟨g, hg, hfield⟩ := h.unknown d hd (by rw [hsame, hnone])
      have hmem : g.field ∈ P.failures wantLogs := by
        rw [← hgaps]
        exact List.mem_map_of_mem hg
      have hlisting := failures_listing hmem hfield
      rw [hv] at hlisting
      cases hlisting
    · rw [hv] at hl
      cases hl
      exact ⟨l, ids, rfl, hids⟩
  · intro h
    refine ⟨collect_readable h hostId, fun d hd => unknown_gap h hd, fun d hd halive => ?_,
      fun d hd field => gap_of_failure hd, fun d hd hcomplete => ?_⟩
    · obtain ⟨alive, hlive, hsame, -⟩ := collect_ok hd
      obtain ⟨-, -, ⟨-, hnone⟩ | ⟨l, ids, hl, hids, hknown⟩⟩ := liveness_ok hlive
      · rw [hsame, hnone] at halive
        cases halive
      · rw [hsame, hknown] at halive
        exact ⟨l, ids, hl, hids, by simpa using halive⟩
    · have hnil : d.gaps = [] := by simpa [Diagnostics.complete] using hcomplete
      obtain ⟨-, -, -, hgaps, -⟩ := collect_ok hd
      rw [hnil] at hgaps
      refine ⟨hgaps.symm, fun halive => ?_⟩
      obtain ⟨g, hg, -⟩ := unknown_gap h hd halive
      rw [hnil] at hg
      cases hg

def lazyLister : DiagnosedProvider Unit where
  name := "lazy"
  status := .returns (some ())
  deadReason := .returns none
  logs := .returns (some ())
  listInstances := .returns (some ⟨[], some ⟨.other "ConnectionError", none, "reset by peer"⟩⟩)

theorem listing_raises : ¬ (∀ (P : DiagnosedProvider Unit) (hostId : String) (wantLogs : Bool),
    P.Candid hostId wantLogs) := by
  intro h
  obtain ⟨d, hd⟩ := (h lazyLister "7" true).returns
  cases hd

end DiagnosedProvider

end RunFarm
