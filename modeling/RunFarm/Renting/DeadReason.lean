import RunFarm.Executors.Provider
import RunFarm.Renting.RentCall

/-! The two readings of a Vast instance record: the poll that waits for it, and the question
whether its host has died. -/
set_option autoImplicit false

namespace RunFarm
open Python

/-- The entries of `inst.raw` that are read, where the record has them. -/
structure VastRecord where
  actualStatus : Option Value
  statusMsg : Option Value

def Value.isText (s : String) : Value → Bool
  | .str t => t = s
  | _ => false

namespace VastRecord

variable (I : Interp) (lower : String → String) (iid : InstanceId) (r : VastRecord)

def status : Value := r.actualStatus.getD (.str "?")

/-- `str(inst.raw.get("status_msg") or "")`. -/
def message : String := I.str (orElse r.statusMsg (some (.str "")))

def running : Bool := Value.isText "running" r.status

/-- `inst.status in ("error", "exited")`. -/
def failed : Bool := Value.isText "error" r.status || Value.isText "exited" r.status

/-- `any(s in msg.lower() for s in _BAD_HOST_SIGNS)`; `lower` is `str.lower`. -/
def badSign : Bool := mentions badHostSigns (lower (r.message I))

/-- One round of `wait_running`, if it is the last. -/
def waitRound : Option (Except Exc VastRecord) :=
  if r.running then some (.ok r)
  else if r.badSign I lower then
    some (.error (probeFailed ("host probe failed (instance " ++ iid.str ++ "): " ++
      cutTo 160 (r.message I))))
  else if r.failed then
    some (.error (probeFailed ("instance " ++ iid.str ++ " -> " ++ I.str r.status ++ ": " ++
      cutTo 160 (r.message I))))
  else none

/-- `dead_reason`, of a record that could be read. -/
def deadReason : Option String :=
  if r.failed then some ("instance " ++ iid.str ++ " -> " ++ I.str r.status)
  else if r.badSign I lower then
    some ("bad host (instance " ++ iid.str ++ "): " ++ cutTo 160 (r.message I))
  else none

/-- `dead_reason` asks for the status first; it reads an exception as no reason. -/
def deadReasonOf (answer : Except Exc VastRecord) : Option String :=
  match answer with
  | .ok r => r.deadReason I lower iid
  | .error _ => none

def polled (status : String) (sshHost : String) (sshPort : Except Foreign Int) : Polled :=
  { status, message := r.message I, sshHost, sshPort }

/-- For a status that is a text this is the round of the rental's own poll, over messages without
letters that only Unicode lowers. -/
theorem waitRound_polled {s host : String} {port : Except Foreign Int}
    (hs : r.status = .str s) :
    (r.waitRound I String.toLower iid).map (fun out => out.map fun _ => r.polled I s host port) =
      (r.polled I s host port).verdict iid .vast := by
  have hrunning : r.running = decide (s = "running") := by rw [running, hs]; rfl
  have hfailed : r.failed = (decide (s = "error") || decide (s = "exited")) := by
    rw [failed, hs]
    rfl
  have htext : I.str r.status = s := by rw [hs]; rfl
  simp only [waitRound, Polled.verdict, polled, badSign, hrunning, hfailed, htext,
    decide_eq_true_eq, Bool.or_eq_true]
  by_cases hup : s = "running"
  · simp [hup, Except.map]
  · by_cases hsign : mentions badHostSigns (message I r).toLower = true
    · simp [hup, hsign, Except.map]
    · by_cases hdown : s = "error" ∨ s = "exited" <;> simp [hup, hsign, hdown, Except.map]

/-- What a poll takes for a usable host, the executor does not take for a dead one, and what a
poll gives up is dead to the executor too. -/
structure Agree : Prop where
  accepted : (∃ r', r.waitRound I lower iid = some (.ok r')) →
    ProviderExecutor.truthy (r.deadReason I lower iid) = false
  refused : (∃ e, r.waitRound I lower iid = some (.error e) ∧ e.kind = .hostProbeFailed) →
    ProviderExecutor.truthy (r.deadReason I lower iid) = true

variable {I lower iid r}

theorem running_not_failed (h : r.running = true) : r.failed = false := by
  unfold running at h
  unfold failed
  cases hs : r.status with
  | str t =>
    rw [hs] at h
    have ht : t = "running" := by simpa [Value.isText] using h
    subst ht
    rfl
  | _ => rfl

theorem truthy_deadReason :
    ProviderExecutor.truthy (r.deadReason I lower iid) = (r.failed || r.badSign I lower) := by
  unfold deadReason ProviderExecutor.truthy
  cases r.failed <;> cases r.badSign I lower <;> simp

theorem waitRound_ok : (∃ r', r.waitRound I lower iid = some (.ok r')) ↔ r.running = true := by
  unfold waitRound
  cases r.running <;> cases r.badSign I lower <;> cases r.failed <;> simp

theorem waitRound_error :
    (∃ e, r.waitRound I lower iid = some (.error e) ∧ e.kind = .hostProbeFailed) ↔
      r.running = false ∧ (r.badSign I lower = true ∨ r.failed = true) := by
  unfold waitRound
  cases r.running <;> cases r.badSign I lower <;> cases r.failed <;> simp [probeFailed]

/-- The poll looks at the status first, `dead_reason` at the message even of a running host. -/
theorem agree_iff (I : Interp) (lower : String → String) (iid : InstanceId) (r : VastRecord) :
    r.Agree I lower iid ↔ ¬ (r.running = true ∧ r.badSign I lower = true) := by
  constructor
  · rintro h ⟨hrunning, hsign⟩
    have hdead := h.accepted (waitRound_ok.mpr hrunning)
    rw [truthy_deadReason, hsign, Bool.or_true] at hdead
    cases hdead
  · intro h
    constructor
    · intro haccepted
      have hrunning := waitRound_ok.mp haccepted
      have hsign : r.badSign I lower = false := by
        cases hsign : r.badSign I lower
        · rfl
        · exact absurd ⟨hrunning, hsign⟩ h
      rw [truthy_deadReason, running_not_failed hrunning, hsign, Bool.or_false]
    · intro hrefused
      obtain ⟨_, hwhy⟩ := waitRound_error.mp hrefused
      rw [truthy_deadReason, Bool.or_eq_true]
      exact hwhy.symm

def cameUp : VastRecord where
  actualStatus := some (.str "running")
  statusMsg := some (.str "pull retried: connection refused; success, running")

theorem running_declared_dead : ¬ (∀ (I : Interp) (lower : String → String) (iid : InstanceId)
    (r : VastRecord), r.Agree I lower iid) := by
  intro h
  have hagree := h (Interp.insertion (fun _ => "") (fun _ => "") (fun _ => "")) String.toLower
    (.int 7) cameUp
  have haccepted := hagree.accepted (waitRound_ok.mpr (by decide))
  exact absurd haccepted (by decide +kernel)

end VastRecord

end RunFarm
