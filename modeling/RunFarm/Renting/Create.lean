import RunFarm.Renting.Request
import RunFarm.Rent

/-! `create` of the two adapters, and what `rent` makes of its failure. -/
set_option autoImplicit false

namespace RunFarm
open Python
open Retry (Follows retry_follows)

variable {σ : Type}

def v0 : String := "https://console.vast.ai/api/v0"

def podsUrl : String := "https://rest.runpod.io/v1/pods"

def cutTo (n : Nat) (s : String) : String := String.ofList (s.toList.take n)

def noAttribute (v : Value) : Exc :=
  let name := match v with
    | .list _ => "list"
    | .str _ => "str"
    | .int _ => "int"
    | .float _ => "float"
    | .bool _ => "bool"
    | _ => "NoneType"
  ⟨.attributeError, none, "'" ++ name ++ "' object has no attribute 'get'"⟩

def intFailed (text : String) : IntError → Exc
  | .value => ⟨.valueError, none, text⟩
  | .type => ⟨.typeError, none, text⟩
  | .overflow => ⟨.other "OverflowError", none, text⟩

/-- What `create` takes as the id from the response. -/
def contractOf (es : List (Key × Value)) : Value :=
  orElse (dictGet es (.str "new_contract")) (dictGet es (.str "id"))

def createdId (I : Interp) : Value → Except Exc Int
  | .dict es =>
    if (contractOf es).truthy then
      match (contractOf es).toInt with
      | .ok n => .ok n
      | .error e => .error (intFailed ("int() of " ++ I.repr (contractOf es)) e)
    else .error (providerError ("create returned no instance id: " ++ I.str (.dict es)))
  | v => .error (noAttribute v)

def askRequest (ask : Int) : Request := ⟨"PUT", v0 ++ "/asks/" ++ toString ask ++ "/"⟩

/-- `VastProvider.create`. -/
def vastCreate (I : Interp) (N : Net σ) (offerId : String) (w : σ) : Except Exc Int × σ :=
  match intOf offerId with
  | none => (.error (providerError ("create: " ++ I.repr (.str offerId) ++
      " is not a Vast ask id -- an Offer from another Provider cannot be rented through " ++
      "VastProvider")), w)
  | some ask =>
    match req N (askRequest ask) false 5 w with
    | (.error e, w) => (.error e, w)
    | (.ok res, w) => (createdId I res, w)

def startsWith (s start : String) : Bool := start.toList.isPrefixOf s.toList

/-- The file of `RunPodProvider._pubkey`, stripped, and its path. -/
structure Pubkey where
  path : String
  file : Except Foreign String

/-- The class is a subclass of `OSError`. -/
def ExcKind.isOSError : ExcKind → Bool
  | .timeout => true
  | .other name => name ∈ ["OSError", "FileNotFoundError", "PermissionError",
      "IsADirectoryError", "NotADirectoryError"]
  | _ => false

/-- `_pubkey`. -/
def Pubkey.read (I : Interp) (k : Pubkey) : Except Exc String :=
  match k.file with
  | .error e =>
    if e.exc.kind.isOSError then
      .error (providerError ("cannot read ssh public key " ++ k.path ++ " (" ++
        e.exc.kind.className ++ "). RunPod pods accept only the keys passed at create (env " ++
        "PUBLIC_KEY) -- unlike Vast, which injects an account-registered key -- so without " ++
        "this every pod comes up unreachable. Generate one (ssh-keygen -t ed25519 -f " ++
        cutTo (k.path.length - 4) k.path ++ ") or pass pubkey_path=..."))
    else .error e.exc
  | .ok body =>
    if startsWith body "ssh-" || startsWith body "ecdsa-" then .ok body
    else .error (providerError (k.path ++ " does not look like an ssh public key (starts " ++
      I.repr (.str (cutTo 20 body)) ++ "). This must be the .pub half; the private key would " ++
      "be installed as an authorized key and still not let anyone in."))

/-- One attempt; the second state is `last`. -/
def podAttempt (I : Interp) (N : Net σ) (s : σ × String) : Except Exc Value × (σ × String) :=
  match podReq N ⟨"POST", podsUrl⟩ s.1 with
  | (.ok res, w) => (.ok res, (w, "no pod id: " ++ cutTo 160 (I.str res)))
  | (.error e, w) => (.error e, (w, e.text))

/-- A response without an id and a provider error that names the capacity are tried again. -/
def podEnds (I : Interp) : Except Exc Value → Option (Except Exc String)
  | .ok (.dict es) =>
    let pid := (dictGet es (.str "id")).getD .none
    if pid.truthy then some (.ok (I.str pid)) else none
  | .ok v => some (.error (noAttribute v))
  | .error e =>
    if e.kind = .provider then
      if mentions ["resource", "try a different machine"] e.text.toLower then none
      else some (.error e)
    else some (.error e)

/-- `RunPodProvider.create`. -/
def podCreate (I : Interp) (N : Net σ) (key : Pubkey) (w : σ) : Except Exc String × σ :=
  match key.read I with
  | .error e => (.error e, w)
  | .ok _ =>
    match Retry.retry (podAttempt I N) (fun _ => podEnds I) (fun _ s => (N.sleep 3 s.1, s.2)) 6
        (w, "") with
    | (some result, s) => (result, s.1)
    | (none, s) => (.error (providerError ("create failed after 6 attempts (capacity?): " ++
        cutTo 200 s.2)), s.1)

/-- What is outside an adapter's `create`: the interpreter, and the key file of RunPod. -/
structure Account where
  I : Interp
  key : Pubkey

def create (acc : Account) (N : Net σ) (a : Adapter) (offer : Offer) (w : σ) :
    Except Exc InstanceId × σ :=
  match a with
  | .vast =>
    match vastCreate acc.I N offer.id w with
    | (.ok n, w) => (.ok (.int n), w)
    | (.error e, w) => (.error e, w)
  | .runpod =>
    match podCreate acc.I N acc.key w with
    | (.ok s, w) => (.ok (.text s), w)
    | (.error e, w) => (.error e, w)

/-- The `except VastError` around the `create` of `VastProvider.rent`. -/
def refused (a : Adapter) (offer : Offer) (e : Exc) : Exc :=
  match a with
  | .vast =>
    if e.kind = .provider ∧ e.code ≠ some 401 ∧ e.code ≠ some 403 then
      ⟨.rentUnavailable, none, "could not rent offer " ++ offer.id ++ ": " ++ e.text⟩
    else e
  | .runpod => e

/-- `rent` up to its instance. -/
def place (acc : Account) (N : Net σ) (a : Adapter) (offer : Offer) (w : σ) :
    Except Exc InstanceId × σ :=
  match create acc N a offer w with
  | (.ok iid, w) => (.ok iid, w)
  | (.error e, w) => (.error (refused a offer e), w)

theorem map_eq_error {α β : Type} {x : Except Exc α} {f : α → β} {e : Exc} :
    x.map f = .error e ↔ x = .error e := by
  cases x <;> simp [Except.map]

theorem create_vast (acc : Account) (N : Net σ) (offer : Offer) (w : σ) :
    create acc N .vast offer w = ((vastCreate acc.I N offer.id w).1.map .int,
      (vastCreate acc.I N offer.id w).2) := by
  unfold create
  cases vastCreate acc.I N offer.id w with
  | mk result s => cases result <;> rfl

theorem create_runpod (acc : Account) (N : Net σ) (offer : Offer) (w : σ) :
    create acc N .runpod offer w = ((podCreate acc.I N acc.key w).1.map .text,
      (podCreate acc.I N acc.key w).2) := by
  unfold create
  cases podCreate acc.I N acc.key w with
  | mk result s => cases result <;> rfl

theorem place_eq (acc : Account) (N : Net σ) (a : Adapter) (offer : Offer) (w : σ) :
    place acc N a offer w = ((create acc N a offer w).1.mapError (refused a offer),
      (create acc N a offer w).2) := by
  unfold place
  cases create acc N a offer w with
  | mk result s => cases result <;> rfl

section
variable {τ : Type} {R : σ → τ → Prop} {N : Net σ} {N' : Net τ}

theorem vastCreate_follows (h : N.Follows R N') (I : Interp) (offerId : String) :
    Follows R (vastCreate I N offerId) (vastCreate I N' offerId) := by
  intro w t hR
  unfold vastCreate
  cases intOf offerId with
  | none => exact ⟨rfl, hR⟩
  | some ask =>
    obtain ⟨result, w', t', hw, ht, hR'⟩ := (req_follows h (askRequest ask) false 5).run hR
    dsimp only
    rw [hw, ht]
    cases result <;> exact ⟨rfl, hR'⟩

def Beside (R : σ → τ → Prop) (s : σ × String) (s' : τ × String) : Prop :=
  R s.1 s'.1 ∧ s.2 = s'.2

theorem podAttempt_follows (h : N.Follows R N') (I : Interp) :
    Follows (Beside R) (podAttempt I N) (podAttempt I N') := by
  rintro ⟨w, last⟩ ⟨t, last'⟩ ⟨hR, hlast⟩
  obtain ⟨result, w', t', hw, ht, hR'⟩ := (podReq_follows h ⟨"POST", podsUrl⟩).run hR
  unfold podAttempt
  dsimp only at hw ht ⊢
  rw [hw, ht]
  cases result <;> exact ⟨rfl, hR', rfl⟩

theorem podCreate_follows (h : N.Follows R N') (I : Interp) (key : Pubkey) :
    Follows R (podCreate I N key) (podCreate I N' key) := by
  intro w t hR
  have hloop : Follows (Beside R)
      (Retry.retry (podAttempt I N) (fun _ => podEnds I) (fun _ s => (N.sleep 3 s.1, s.2)) 6)
      (Retry.retry (podAttempt I N') (fun _ => podEnds I) (fun _ s => (N'.sleep 3 s.1, s.2)) 6) :=
    retry_follows (podAttempt_follows h I) fun _ s s' hR => ⟨h.sleep 3 _ _ hR.1, hR.2⟩
  obtain ⟨result, s, s', hw, ht, hR', hlast⟩ := hloop.run (w := (w, "")) (t := (t, "")) ⟨hR, rfl⟩
  unfold podCreate
  cases key.read I with
  | error e => exact ⟨rfl, hR⟩
  | ok _ =>
    dsimp only
    rw [hw, ht]
    cases result with
    | some result => exact ⟨rfl, hR'⟩
    | none =>
      dsimp only
      rw [hlast]
      exact ⟨rfl, hR'⟩

theorem create_follows (h : N.Follows R N') (acc : Account) (a : Adapter) (offer : Offer) :
    Follows R (create acc N a offer) (create acc N' a offer) := by
  intro w t hR
  cases a with
  | vast =>
    obtain ⟨result, w', t', hw, ht, hR'⟩ := (vastCreate_follows h acc.I offer.id).run hR
    rw [create_vast, create_vast, hw, ht]
    exact ⟨rfl, hR'⟩
  | runpod =>
    obtain ⟨result, w', t', hw, ht, hR'⟩ := (podCreate_follows h acc.I acc.key).run hR
    rw [create_runpod, create_runpod, hw, ht]
    exact ⟨rfl, hR'⟩

theorem place_follows (h : N.Follows R N') (acc : Account) (a : Adapter) (offer : Offer) :
    Follows R (place acc N a offer) (place acc N' a offer) := by
  intro w t hR
  obtain ⟨result, w', t', hw, ht, hR'⟩ := (create_follows h acc a offer).run hR
  rw [place_eq, place_eq, hw, ht]
  exact ⟨rfl, hR'⟩

end

/-- One call of `_req` keeps to its attempts: at most `max(1, tries)`, each but the first after
a transient fault, and a call that is not idempotent is sent at most once; so is a `create`. -/
theorem request_attempts (acc : Account) (N : Net σ) (r : Request) (idempotent : Bool)
    (tries : Int) (offer : Offer) (w : σ) :
    Attempts idempotent tries (req N.logged r idempotent tries (w, [])).2.2 ∧
    (create acc N.logged .vast offer (w, [])).2.2.countP Opened.pastResolution ≤ 1 := by
  refine ⟨req_attempts N r idempotent tries w, ?_⟩
  rw [create_vast]
  unfold vastCreate
  cases intOf offer.id with
  | none => simp
  | some ask =>
    have honce := (req_attempts N (askRequest ask) false 5 w).once rfl
    dsimp only
    cases hreq : req N.logged (askRequest ask) false 5 (w, []) with
    | mk result s =>
      rw [hreq] at honce
      cases result <;> exact honce

end RunFarm
