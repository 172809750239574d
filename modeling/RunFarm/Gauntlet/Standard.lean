import RunFarm.Fleet.FlatRun
import RunFarm.Gauntlet.Launch
import RunFarm.Python.Find
import RunFarm.Python.Padded

/-! The checks before a campaign on rented hosts, and what a launch that they let through can
count on. -/
set_option autoImplicit false

namespace RunFarm
open Files Python

variable {σ α : Type}

/-- The local machine. Paths are texts, as `str(Path(..))` writes them; `stat` is the mode of what
is at a path. `sshKeygen` is told the content of the file that it is to fingerprint, and does not
run where it is `none`. -/
structure LaunchSite (σ : Type) where
  expanduser : String → Except Raised String
  stat : String → σ → Except Raised (Option Nat)
  read : String → σ → Option String
  sshKeygen : Option String → Option CompletedProcess
  isOSError : Raised → Bool
  pid : Nat
  child : String → String → String
  mkdir : String → σ → Except Raised Unit × σ
  writeText : String → String → σ → Except Raised Unit × σ
  unlink : String → σ → Except Raised Unit × σ

/-- `methods` are the attributes that can be called. -/
structure LaunchProvider (σ : Type) where
  name : Option String
  className : String
  methods : List String
  registeredSshKeys : Option (σ → Except Raised (List String) × σ)
  offers : σ → Except Raised (List Offer) × σ

def failed (name proves detail : String) : CheckResult := { name, ok := false, detail, proves }

def passed (name proves detail : String) : CheckResult := { name, ok := true, detail, proves }

def withName (p name : String) : Except Raised String :=
  if pathName p = "" then
    .error ⟨⟨.valueError, none, "PosixPath('" ++ p ++ "') has an empty name"⟩, "ValueError"⟩
  else .ok (cutTo (p.length - (pathName p).length) p ++ name)

@[simp] theorem blocking_failed (name proves detail : String) :
    (failed name proves detail).blocking = true := rfl

@[simp] theorem blocking_passed (name proves detail : String) :
    (passed name proves detail).blocking = false := rfl

namespace LaunchSite

variable (S : LaunchSite σ)

def fingerprint (content : Option String) : Option String :=
  match S.sshKeygen content with
  | none => none
  | some r =>
    if r.rc ≠ 0 then none
    else ((blankSplit r.stdout.toList).map String.ofList).find? (startsWith · "SHA256:")

def presentName : String := "ssh-key-present"

def presentProves : String :=
  "ssh has a private key to offer, and its public half is readable. " ++
  "Does NOT prove the provider accepts it, and does NOT prove any " ++
  "host is reachable -- a real handshake needs a rented host."

def octal (mode : Nat) : String := String.ofList (padded 8 4 mode)

def keyPresent (keyPath : String) (w : σ) : Except Raised CheckResult := do
  let p ← S.expanduser keyPath
  match ← S.stat p w with
  | none =>
    pure (failed presentName presentProves (p ++ " does not exist -- every rental will refuse " ++
      "the connection and each refusal will look like a bad host. Create it " ++
      "(ssh-keygen -t ed25519 -f " ++ p ++ ") and register the public half with the provider."))
  | some mode =>
    if mode &&& 0o077 ≠ 0 then
      pure (failed presentName presentProves (p ++ " has mode " ++ octal mode ++
        "; ssh refuses group/world-readable private keys. chmod 600 " ++ p))
    else
      let pub ← withName p (pathName p ++ ".pub")
      match ← S.stat pub w with
      | none =>
        pure (failed presentName presentProves (pub ++ " is missing, so the fingerprint cannot " ++
          "be compared against the provider's registered keys (ssh-keygen -y -f " ++ p ++ " > " ++
          pub ++ ")"))
      | some _ =>
        pure (passed presentName presentProves (p ++ " present, mode " ++ octal mode ++
          ", fingerprint " ++ (S.fingerprint (S.read pub w)).getD "None"))

def sshKeyPresent (keyPath : String) : Check σ where
  name := presentName
  call w := (S.keyPresent keyPath w, w)

def KeyPresent (keyPath : String) (w : σ) : Prop :=
  ∃ p mode pub pubMode, S.expanduser keyPath = .ok p ∧ S.stat p w = .ok (some mode) ∧
    mode &&& 0o077 = 0 ∧ withName p (pathName p ++ ".pub") = .ok pub ∧
    S.stat pub w = .ok (some pubMode)

theorem sshKeyPresent_clears (keyPath : String) (w : σ) :
    (∃ r, ((S.sshKeyPresent keyPath).call w).1 = .ok r ∧ r.blocking = false) ↔
      S.KeyPresent keyPath w := by
  simp only [sshKeyPresent]
  constructor
  · rintro ⟨r, hr, hclear⟩
    simp only [keyPresent, bind_eq_ok] at hr
    obtain ⟨p, hp, found, hfound, hr⟩ := hr
    cases found with
    | none =>
      cases hr
      cases hclear
    | some mode =>
      by_cases hmode : mode &&& 0o077 = 0
      · simp only [hmode, ne_eq, not_true_eq_false, if_false, bind_eq_ok] at hr
        obtain ⟨pub, hpub, found, hhalf, hr⟩ := hr
        cases found with
        | none =>
          cases hr
          cases hclear
        | some pubMode => exact ⟨p, mode, pub, pubMode, hp, hfound, hmode, hpub, hhalf⟩
      · simp only [ne_eq, hmode, not_false_eq_true, if_true, pure_eq_ok] at hr
        cases hr
        cases hclear
  · rintro ⟨p, mode, pub, pubMode, hp, hfound, hmode, hpub, hhalf⟩
    simp [keyPresent, hp, hfound, hmode, hpub, hhalf, bind, Except.bind, pure, Except.pure]

def registeredName : String := "ssh-key-registered"

def registeredProves : String :=
  "the key ssh will offer is one the provider has on file, so a " ++
  "connection refusal is NOT a missing-registration problem. Does " ++
  "NOT prove the host-side sshd is up or the network path works."

def publicHalf (keyPath : String) : Except Raised String := do
  let p ← S.expanduser keyPath
  withName p (pathName keyPath ++ ".pub")

def onFile (registered : List String) : List String :=
  registered.filterMap fun entry =>
    S.fingerprint (some (if entry.toList.getLast? = some '\n' then entry else entry ++ "\n"))

def keyRegistered (P : LaunchProvider σ) (keyPath : String) (w : σ) :
    Except Raised CheckResult × σ :=
  match S.publicHalf keyPath with
  | .error e => (.error e, w)
  | .ok pub =>
    match S.fingerprint (S.read pub w) with
    | none =>
      (.ok (failed registeredName registeredProves ("cannot fingerprint " ++ pub ++
        " (missing or unreadable); run the ssh-key-present check first")), w)
    | some mine =>
      match P.registeredSshKeys with
      | none =>
        (.ok (failed registeredName registeredProves ("provider " ++ P.name.getD "?" ++
          " exposes no registered_ssh_keys(), so registration CANNOT be verified here. " ++
          "This is a capability gap reported as a failure on purpose: an " ++
          "unverifiable check must not read as a pass. Confirm the key is " ++
          "registered in the provider console, then pass skip=('ssh-key-registered',).")), w)
      | some lister =>
        match lister w with
        | (.error e, w) => (.error e, w)
        | (.ok registered, w) =>
          let fps := S.onFile registered
          if mine ∈ fps then
            (.ok (passed registeredName registeredProves (mine ++ " is registered (" ++
              toString fps.length ++ " key(s) on file)")), w)
          else
            (.ok (failed registeredName registeredProves (mine ++ " is NOT among the " ++
              toString fps.length ++ " key(s) registered with " ++ P.name.getD "?" ++
              "; every host will refuse the connection. Register " ++ pub ++ ".")), w)

def sshKeyRegistered (P : LaunchProvider σ) (keyPath : String) : Check σ where
  name := registeredName
  call := S.keyRegistered P keyPath

def KeyRegistered (P : LaunchProvider σ) (keyPath : String) (w : σ) : Prop :=
  ∃ pub mine lister registered, S.publicHalf keyPath = .ok pub ∧
    S.fingerprint (S.read pub w) = some mine ∧ P.registeredSshKeys = some lister ∧
    (lister w).1 = .ok registered ∧ mine ∈ S.onFile registered

theorem sshKeyRegistered_clears (P : LaunchProvider σ) (keyPath : String) (w : σ) :
    (∃ r, ((S.sshKeyRegistered P keyPath).call w).1 = .ok r ∧ r.blocking = false) ↔
      S.KeyRegistered P keyPath w := by
  simp only [sshKeyRegistered, keyRegistered, KeyRegistered]
  cases hpub : S.publicHalf keyPath with
  | error e => simp
  | ok pub =>
    cases hmine : S.fingerprint (S.read pub w) with
    | none => simp [hmine]
    | some mine =>
      cases hlister : P.registeredSshKeys with
      | none => simp [hmine]
      | some lister =>
        rcases hlist : lister w with ⟨e | registered, w'⟩
        · simp [hlist, hmine]
        · by_cases hon : mine ∈ S.onFile registered <;> simp [hlist, hmine, hon]

def writableName : String := "out-dir-writable"

def writableProves : String :=
  "this process can create and write files under the output dir " ++
  "right now. Does NOT prove there is room for the whole campaign."

/-- The `try`. -/
def probeWrite (outDir : String) (w : σ) : Except Raised Unit × σ :=
  let probe := S.child outDir (".rf_write_probe_" ++ toString S.pid)
  match S.mkdir outDir w with
  | (.error e, w) => (.error e, w)
  | (.ok (), w) =>
    match S.writeText probe "ok" w with
    | (.error e, w) => (.error e, w)
    | (.ok (), w) => S.unlink probe w

def outDirWritable (outDir : String) : Check σ where
  name := writableName
  call w :=
    match S.probeWrite outDir w with
    | (.ok (), w) => (.ok (passed writableName writableProves (outDir ++ " writable")), w)
    | (.error e, w) =>
      if S.isOSError e then
        (.ok (failed writableName writableProves (outDir ++ ": " ++ e.exc.text)), w)
      else (.error e, w)

theorem outDirWritable_clears (outDir : String) (w : σ) :
    (∃ r, ((S.outDirWritable outDir).call w).1 = .ok r ∧ r.blocking = false) ↔
      (S.probeWrite outDir w).1 = .ok () := by
  simp only [outDirWritable]
  rcases hprobe : S.probeWrite outDir w with ⟨e | u, w'⟩
  · by_cases hos : S.isOSError e <;> simp [hos]
  · simp

end LaunchSite

namespace LaunchProvider

variable (P : LaunchProvider σ)

def capableName : String := "provider-capable"

def capableProves (pname : String) : String :=
  pname ++ " exposes the methods named as required, so a call to one " ++
  "will not fail with AttributeError mid-run. Does NOT prove they " ++
  "work or that the remote API still honours them."

def absent (methods : List String) : List String := methods.filter (· ∉ P.methods)

def capable (required optional : List String) : CheckResult :=
  let pname := P.name.getD P.className
  let missing := P.absent required
  let absentOpt := P.absent optional
  if missing ≠ [] then
    failed capableName (capableProves pname) (pname ++ " is MISSING required method(s): " ++
      ", ".intercalate missing ++ " -- a call would raise AttributeError at runtime, which " ++
      "reads as a broken host rather than a broken caller")
  else
    passed capableName (capableProves pname) (pname ++ " has all " ++ toString required.length ++
      " required method(s)" ++ if absentOpt = [] then "" else
        "; degraded (absent optional): " ++ ", ".intercalate absentOpt ++
        " -- diagnostics will be thinner on this provider")

def providerCapable (required optional : List String) : Check σ where
  name := capableName
  call w := (.ok (P.capable required optional), w)

theorem providerCapable_clears (required optional : List String) (w : σ) :
    (∃ r, ((P.providerCapable required optional).call w).1 = .ok r ∧ r.blocking = false) ↔
      ∀ m ∈ required, m ∈ P.methods := by
  have hnone : P.absent required = [] ↔ ∀ m ∈ required, m ∈ P.methods := by
    simp [absent, List.filter_eq_nil_iff]
  rw [← hnone]
  by_cases h : P.absent required = [] <;> simp [providerCapable, capable, h]

def offersName : String := "offers-available"

def offersProves : String :=
  "the provider listed rentable offers meeting the spec at this " ++
  "moment. Does NOT reserve them: offers race, and one can be taken " ++
  "between listing and renting (that is what RentUnavailable is)."

/-- `min` of no offers raises. -/
def countOffers (minimum : Int) (offers : List Offer) : Except Raised CheckResult :=
  if minimum ≤ offers.length then
    match (offers.map Offer.dph).min? with
    | none => .error ⟨⟨.valueError, none, "min() iterable argument is empty"⟩, "ValueError"⟩
    | some cheap => .ok (passed offersName offersProves (toString offers.length ++
        " offer(s), cheapest $" ++ fixed 3 cheap ++ "/hr"))
  else
    .ok (failed offersName offersProves ("only " ++ toString offers.length ++
      " offer(s) meet the spec (need " ++ toString minimum ++
      "); relax gpu_name/max_dph/min_reliability or wait for capacity"))

def offersAvailable (minimum : Int) : Check σ where
  name := offersName
  call w :=
    match P.offers w with
    | (.error e, w) => (.error e, w)
    | (.ok offers, w) => (countOffers minimum offers, w)

def Offering (minimum : Int) (w : σ) : Prop :=
  ∃ offers, (P.offers w).1 = .ok offers ∧ minimum ≤ offers.length ∧ offers ≠ []

theorem offersAvailable_clears (minimum : Int) (w : σ) :
    (∃ r, ((P.offersAvailable minimum).call w).1 = .ok r ∧ r.blocking = false) ↔
      P.Offering minimum w := by
  simp only [offersAvailable, Offering]
  rcases hoffers : P.offers w with ⟨e | offers, w'⟩
  · simp
  · by_cases hmin : minimum ≤ offers.length
    · simp only [countOffers, if_pos hmin]
      cases offers with
      | nil => simp
      | cons o offers => simpa [List.min?_cons'] using hmin
    · simp [countOffers, hmin]

end LaunchProvider

def closedName : String := "payload-closed"

def closedProves : String :=
  "every shipped file exists, imports resolve INSIDE the flat dir, " ++
  "and the entrypoint's real startup path runs there. Does NOT prove " ++
  "the box's GPU/driver/wheels match -- that is environment parity, " ++
  "not payload closure."

def payloadClosed (M : σ → FlatMachine α) (spec : PayloadSpec) : Check σ where
  name := closedName
  call w :=
    match (M w).validateFlat spec with
    | .error e => (.error e, w)
    | .ok [] => (.ok (passed closedName closedProves (toString spec.files.length ++
        " file(s) run flat; " ++ toString spec.imports.length ++ " import(s) resolve locally")), w)
    | .ok problems => (.ok (failed closedName closedProves
        (cutTo 600 ("; ".intercalate (problems.map Problem.str)))), w)

theorem payloadClosed_clears (M : σ → FlatMachine α) (spec : PayloadSpec) (w : σ) :
    (∃ r, ((payloadClosed M spec).call w).1 = .ok r ∧ r.blocking = false) ↔
      (M w).RunsFlat spec := by
  rw [← FlatMachine.validateFlat_nil]
  simp only [payloadClosed]
  rcases hproblems : (M w).validateFlat spec with e | _ | ⟨problem, problems⟩ <;> simp

structure StandardArgs (σ α : Type) where
  site : LaunchSite σ
  provider : LaunchProvider σ
  outDir : String
  keyPath : String := "~/.ssh/vastai"
  payload : Option PayloadSpec := none
  machine : σ → FlatMachine α
  legs : List (FleetLeg α) := []
  age : σ → Path → String
  out : σ → Disk α
  requiredMethods : List String := ["offers", "rent", "destroy"]
  optionalMethods : List String := ["dead_reason", "logs", "list_instances"]
  minimumOffers : Int := 1

namespace StandardArgs
open LaunchSite (presentName registeredName writableName)
open LaunchProvider (capableName offersName)

variable (A : StandardArgs σ α)

def resumeCheck : Check σ where
  name := resumeName
  call w := (.ok (resumeMarkers (A.age w) A.legs (A.out w)), w)

def checks : List (Check σ) :=
  [A.site.sshKeyPresent A.keyPath, A.site.outDirWritable A.outDir,
    A.provider.providerCapable A.requiredMethods A.optionalMethods] ++
  (match A.payload with
    | none => []
    | some spec => [payloadClosed A.machine spec]) ++
  (if A.legs = [] then [] else [A.resumeCheck]) ++
  [A.site.sshKeyRegistered A.provider A.keyPath, A.provider.offersAvailable A.minimumOffers]

def standardGauntlet (skip : List String) : List (Check σ) := dropping skip A.checks

theorem resumeCheck_clears (w : σ) :
    ∃ r, (A.resumeCheck.call w).1 = .ok r ∧ r.blocking = false := by
  refine ⟨_, rfl, ?_⟩
  unfold resumeMarkers
  extract_lets skipping bits
  by_cases hbits : bits = [] <;> simp [hbits, CheckResult.blocking]

def afterProbe (skip : List String) (w : σ) : σ :=
  if writableName ∈ skip then w else (A.site.probeWrite A.outDir w).2

def afterKeys (skip : List String) (w : σ) : σ :=
  if registeredName ∈ skip then w else (A.site.keyRegistered A.provider A.keyPath w).2

/-- What lets a campaign start, of a world `w`: each condition is left out with its check. -/
structure Ready (skip : List String) (w : σ) : Prop where
  key : presentName ∉ skip → A.site.KeyPresent A.keyPath w
  writable : writableName ∉ skip → (A.site.probeWrite A.outDir w).1 = .ok ()
  capable : capableName ∉ skip → ∀ m ∈ A.requiredMethods, m ∈ A.provider.methods
  payload : closedName ∉ skip → ∀ spec, A.payload = some spec →
    (A.machine (A.afterProbe skip w)).RunsFlat spec
  registered : registeredName ∉ skip →
    A.site.KeyRegistered A.provider A.keyPath (A.afterProbe skip w)
  offering : offersName ∉ skip →
    A.provider.Offering A.minimumOffers (A.afterKeys skip (A.afterProbe skip w))

variable {A} {skip : List String} {w : σ}

theorem clears_iff {c : Check σ} : Clears skip c w ↔
    (c.name ∉ skip → ∃ r, (c.call w).1 = .ok r ∧ r.blocking = false) := by
  rw [Clears, or_iff_not_imp_left]

theorem call_writable (S : LaunchSite σ) (outDir : String) :
    ((S.outDirWritable outDir).call w).2 = (S.probeWrite outDir w).2 := by
  simp only [LaunchSite.outDirWritable]
  rcases S.probeWrite outDir w with ⟨e | u, w'⟩
  · by_cases hos : S.isOSError e <;> simp [hos]
  · rfl

theorem call_closed (M : σ → FlatMachine α) (spec : PayloadSpec) :
    ((payloadClosed M spec).call w).2 = w := by
  simp only [payloadClosed]
  rcases (M w).validateFlat spec with e | _ | ⟨problem, problems⟩ <;> rfl

theorem runCheck_still {c : Check σ} (h : ∀ w, (c.call w).2 = w) : (runCheck skip c w).2 = w := by
  rw [runCheck_world, h, ite_self]

theorem cleared_local (rest : List (Check σ)) :
    Cleared skip ((match A.payload with
        | none => []
        | some spec => [payloadClosed A.machine spec]) ++
      (if A.legs = [] then [] else [A.resumeCheck]) ++ rest) w ↔
    (closedName ∉ skip → ∀ spec, A.payload = some spec → (A.machine w).RunsFlat spec) ∧
      Cleared skip rest w := by
  have hresume : Cleared skip ((if A.legs = [] then [] else [A.resumeCheck]) ++ rest) w ↔
      Cleared skip rest w := by
    by_cases hlegs : A.legs = []
    · simp [hlegs]
    · have hclear : Clears skip A.resumeCheck w :=
        clears_iff.mpr fun _ => A.resumeCheck_clears w
      simp [hlegs, Cleared, hclear, runCheck_still (c := A.resumeCheck) fun _ => rfl]
  cases hpayload : A.payload with
  | none => simpa [hpayload] using hresume
  | some spec =>
    have hname : (payloadClosed A.machine spec).name = closedName := rfl
    simp only [List.cons_append, List.nil_append, Cleared, clears_iff, hname,
      payloadClosed_clears, runCheck_still (fun _ => call_closed A.machine spec), hresume,
      Option.some.injEq, forall_eq']

theorem cleared_checks : Cleared skip A.checks w ↔ A.Ready skip w := by
  have hprobe : (runCheck skip (A.site.outDirWritable A.outDir) w).2 = A.afterProbe skip w := by
    rw [runCheck_world, call_writable]
    rfl
  have hkeys (w : σ) : (runCheck skip (A.site.sshKeyRegistered A.provider A.keyPath) w).2 =
      A.afterKeys skip w := runCheck_world
  have hpresent : (runCheck skip (A.site.sshKeyPresent A.keyPath) w).2 = w :=
    runCheck_still fun _ => rfl
  have hcapable (w : σ) : (runCheck skip (A.provider.providerCapable A.requiredMethods
      A.optionalMethods) w).2 = w := runCheck_still fun _ => rfl
  rw [checks, List.append_assoc, List.append_assoc, List.cons_append, List.cons_append,
    List.cons_append, List.nil_append, ← List.append_assoc]
  simp only [Cleared, hpresent, hprobe, hcapable, hkeys, cleared_local, clears_iff,
    LaunchSite.sshKeyPresent_clears, LaunchSite.outDirWritable_clears,
    LaunchProvider.providerCapable_clears, LaunchSite.sshKeyRegistered_clears,
    LaunchProvider.offersAvailable_clears, and_true]
  constructor
  · rintro ⟨hkey, hwritable, hcapable, hpayload, hregistered, hoffering⟩
    exact ⟨hkey, hwritable, hcapable, hpayload, hregistered, hoffering⟩
  · rintro ⟨hkey, hwritable, hcapable, hpayload, hregistered, hoffering⟩
    exact ⟨hkey, hwritable, hcapable, hpayload, hregistered, hoffering⟩

/-- `require_gauntlet` of the standard checks returns exactly when the campaign is ready to start,
whether checks are dropped from the list or skipped in the run. Markers of earlier runs never
keep it. -/
theorem standard_clears (A : StandardArgs σ α) (log : Bool) (skip : List String)
    (p : Printed σ) :
    ((∃ results, (requireGauntlet log [] (A.standardGauntlet skip) p).1 = .ok results) ↔
      A.Ready skip p.world) ∧
    ((∃ results, (requireGauntlet log skip (A.standardGauntlet []) p).1 = .ok results) ↔
      A.Ready skip p.world) := by
  have hall : A.standardGauntlet [] = A.checks := by
    simp [standardGauntlet, dropping]
  rw [requireGauntlet_ok, requireGauntlet_ok, hall, standardGauntlet, cleared_dropping,
    cleared_checks]
  exact ⟨Iff.rfl, Iff.rfl⟩

end StandardArgs

end RunFarm
