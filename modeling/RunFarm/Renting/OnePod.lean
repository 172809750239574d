import RunFarm.Renting.Create

/-! The pods that `RunPodProvider.create` places, of which the answers that it gets tell. -/
set_option autoImplicit false

namespace RunFarm
open Python

variable {σ : Type}

/-- `RunPodProvider.create` with its `attempts`. -/
def podCreateIn (I : Interp) (N : Net σ) (key : Pubkey) (attempts : Int) (w : σ) :
    Except Exc String × σ :=
  match key.read I with
  | .error e => (.error e, w)
  | .ok _ =>
    match Retry.retry (podAttempt I N) (fun _ => podEnds I) (fun _ s => (N.sleep 3 s.1, s.2))
        attempts.toNat (w, "") with
    | (some result, s) => (result, s.1)
    | (none, s) => (.error (providerError ("create failed after " ++ toString attempts ++
        " attempts (capacity?): " ++ cutTo 200 s.2)), s.1)

def Opened.placed : Opened → Bool
  | .answered _ => true
  | _ => false

def Opened.podId (I : Interp) : Opened → Option String
  | .answered (some (.ok (.dict es))) =>
    let pid := (dictGet es (.str "id")).getD .none
    if pid.truthy then some (I.str pid) else none
  | _ => none

/-- The pods that a call has placed are the one whose id it returns; after the answer for it
nothing more is sent. -/
structure OnePod (I : Interp) (result : Except Exc String) (answers : List Opened) : Prop where
  last : ∀ o ∈ answers.dropLast, o.placed = false
  returned : ∀ pid, result = .ok pid → (answers.filter Opened.placed).map (Opened.podId I) =
    [some pid]
  raised : ∀ e, result = .error e → answers.filter Opened.placed = []

/-- What the RunPod `_req` makes of an answer. -/
def Opened.podResult (r : Request) : Opened → Except Exc Value
  | .answered body => loaded body
  | .http code detail => .error (httpError r code detail)
  | .unresolved _ text => .error ⟨.other "URLError", none, "<urlopen error " ++ text ++ ">"⟩
  | .urlError reason => .error ⟨.other "URLError", none, "<urlopen error " ++ reason ++ ">"⟩
  | .osError e | .raises e => .error e.exc

variable {I : Interp} {N : Net σ} {key : Pubkey} {o : Opened} {os : List Opened}

def createRequest : Request := ⟨"POST", podsUrl⟩

theorem podReq_eq (N : Net σ) (r : Request) (w : σ) :
    podReq N r w = ((N.urlopen r w).1.podResult r, (N.urlopen r w).2) := by
  unfold podReq
  cases N.urlopen r w with
  | mk o w => cases o <;> rfl

theorem podCreate_eq (w : σ) : podCreate I N key w = podCreateIn I N key 6 w := by
  have htext : "create failed after " ++ toString (6 : Int) ++ " attempts (capacity?): " =
      "create failed after 6 attempts (capacity?): " := by decide
  unfold podCreate podCreateIn
  rw [htext]
  rfl

def Opened.podEnds (I : Interp) (o : Opened) : Option (Except Exc String) :=
  RunFarm.podEnds I (o.podResult createRequest)

/-- One POST, with what the loop notes of its answer in `last`. -/
def askPod (I : Interp) (N : Net σ) (s : σ × String) : Opened × (σ × String) :=
  ((N.urlopen createRequest s.1).1, (N.urlopen createRequest s.1).2,
    match (N.urlopen createRequest s.1).1.podResult createRequest with
    | .ok res => "no pod id: " ++ cutTo 160 (I.str res)
    | .error e => e.text)

theorem podAttempt_eq (s : σ × String) : podAttempt I N s =
    ((askPod I N s).1.podResult createRequest, (askPod I N s).2) := by
  unfold podAttempt askPod
  rw [← createRequest, podReq_eq]
  cases (N.urlopen createRequest s.1).1.podResult createRequest <;> rfl

theorem podLoop_answers (n : Nat) (w : σ) (log : List Opened) (last : String) :
    ∃ os, Retry.Tried (fun _ o => o.podEnds I) n os
        (Retry.retry (podAttempt I N.logged) (fun _ => podEnds I)
          (fun _ s => (N.logged.sleep 3 s.1, s.2)) n ((w, log), last)).1 ∧
      (Retry.retry (podAttempt I N.logged) (fun _ => podEnds I)
        (fun _ s => (N.logged.sleep 3 s.1, s.2)) n ((w, log), last)).2.1.2 = log ++ os := by
  obtain ⟨os, htried, hrun⟩ := Retry.retry_logged (fun o => o) (askPod I N)
    (fun _ o => o.podEnds I) (fun _ s => (N.sleep 3 s.1, s.2)) n (w, last) log
  rw [List.map_id'] at hrun
  have hloop : Retry.retry (askPod I N.logged) (fun _ o => o.podEnds I)
      (fun _ s => (N.logged.sleep 3 s.1, s.2)) n ((w, log), last) =
        Retry.retry (podAttempt I N.logged) (fun _ => podEnds I)
          (fun _ s => (N.logged.sleep 3 s.1, s.2)) n ((w, log), last) :=
    Retry.retry_map (fun o => Opened.podResult createRequest o) podAttempt_eq
  -- the network notes an answer beside its own state, the loop beside `last` as well
  have hfollows : Retry.Follows (fun (a : (σ × List Opened) × String) b =>
        b = ((a.1.1, a.2), a.1.2))
      (Retry.retry (askPod I N.logged) (fun _ o => o.podEnds I)
        (fun _ s => (N.logged.sleep 3 s.1, s.2)) n)
      (Retry.retry (Retry.logged (fun o => o) (askPod I N)) (fun _ o => o.podEnds I)
        (fun _ s => ((N.sleep 3 s.1.1, s.1.2), s.2)) n) :=
    Retry.retry_follows (fun _ _ h => h ▸ ⟨rfl, rfl⟩) fun _ _ _ h => h ▸ rfl
  obtain ⟨hresult, hafter⟩ := hfollows ((w, log), last) ((w, last), log) rfl
  rw [hrun] at hresult hafter
  rw [← hloop]
  exact ⟨os, hresult ▸ htried, (congrArg Prod.snd hafter).symm⟩

theorem podEnds_error (e : Exc) (pid : String) : podEnds I (.error e) ≠ some (.ok pid) := by
  unfold podEnds
  dsimp only
  split
  · split <;> simp
  · simp

theorem podEnds_id (o : Opened) :
    (∃ pid, o.podId I = some pid ∧ o.podEnds I = some (.ok pid)) ∨
      (o.podId I = none ∧ ∀ pid, o.podEnds I ≠ some (.ok pid)) := by
  cases o with
  | answered body =>
    cases body with
    | none => exact .inr ⟨rfl, fun pid => by simp [Opened.podEnds, Opened.podResult, loaded,
        podEnds, dictGet, Value.truthy]⟩
    | some v =>
      cases v with
      | error e => exact .inr ⟨rfl, podEnds_error e.exc⟩
      | ok v =>
        cases v with
        | dict es =>
          by_cases hid : ((dictGet es (.str "id")).getD .none).truthy = true
          · refine .inl ⟨I.str ((dictGet es (.str "id")).getD .none), ?_, ?_⟩
            · simp [Opened.podId, hid]
            · simp [Opened.podEnds, Opened.podResult, loaded, podEnds, hid]
          · refine .inr ⟨by simp [Opened.podId, hid], fun pid => ?_⟩
            simp [Opened.podEnds, Opened.podResult, loaded, podEnds, hid]
        | _ => exact .inr ⟨rfl, fun pid => by simp [Opened.podEnds, Opened.podResult, loaded,
            podEnds]⟩
  | http code detail => exact .inr ⟨rfl, podEnds_error _⟩
  | unresolved errno text => exact .inr ⟨rfl, podEnds_error _⟩
  | urlError reason => exact .inr ⟨rfl, podEnds_error _⟩
  | osError e => exact .inr ⟨rfl, podEnds_error _⟩
  | raises e => exact .inr ⟨rfl, podEnds_error _⟩

theorem placed_of_podId {pid : String} (h : o.podId I = some pid) : o.placed = true := by
  cases o with
  | answered body => rfl
  | _ => cases h

theorem not_placed (hid : o.placed = true → (o.podId I).isSome)
    (hends : ∀ pid, o.podEnds I ≠ some (.ok pid)) : o.placed = false := by
  obtain ⟨pid, -, hpid⟩ | ⟨hnone, -⟩ := podEnds_id (I := I) o
  · exact absurd hpid (hends pid)
  · rw [← Bool.not_eq_true]
    intro hplaced
    have hsome := hid hplaced
    rw [hnone] at hsome
    cases hsome

theorem tried_onePod {n : Nat} {result : Option (Except Exc String)}
    (h : Retry.Tried (fun _ o => o.podEnds I) n os result)
    (hid : ∀ o ∈ os, o.placed = true → (o.podId I).isSome) (text : String) :
    OnePod I (result.getD (.error (providerError text))) os := by
  have hbefore : ∀ o ∈ os.dropLast, o.placed = false := fun o ho => by
    obtain ⟨left, -, hnone⟩ := h.dropLast_again o ho
    refine not_placed (hid o (List.dropLast_subset os ho)) fun pid => ?_
    rw [hnone]
    exact Option.some_ne_none _ |>.symm
  cases result with
  | none =>
    have hnone : ∀ o ∈ os, o.placed = false := fun o ho => by
      obtain ⟨left, hgoes⟩ := (h.exhausted rfl).2 o ho
      refine not_placed (hid o ho) fun pid => ?_
      rw [hgoes]
      exact Option.some_ne_none _ |>.symm
    refine ⟨hbefore, fun pid hpid => (by cases hpid), fun e _ => ?_⟩
    simpa using hnone
  | some result =>
    obtain ⟨left, o, hlast, hends, -⟩ := h.answered rfl
    obtain ⟨before, rfl⟩ := List.getLast?_eq_some_iff.mp hlast
    rw [List.dropLast_concat] at hbefore
    have hfilter : before.filter Opened.placed = [] := by simpa using hbefore
    refine ⟨by simpa using hbefore, fun pid hpid => ?_, fun e he => ?_⟩
    · obtain rfl : result = .ok pid := hpid
      obtain ⟨pid', hid', hends'⟩ | ⟨-, hnot⟩ := podEnds_id (I := I) o
      · rw [hends] at hends'
        cases hends'
        simp [List.filter_append, hfilter, placed_of_podId hid', hid']
      · exact absurd hends (hnot pid)
    · obtain rfl : result = .error e := he
      have hfalse : o.placed = false := not_placed (hid o (by simp)) fun pid => by
        rw [hends]
        simp
      simp [List.filter_append, hfilter, hfalse]

theorem OnePod.ids {result : Except Exc String} (h : OnePod I result os) (ho : o ∈ os)
    (hplaced : o.placed = true) : (o.podId I).isSome := by
  have hmem : o.podId I ∈ (os.filter Opened.placed).map (Opened.podId I) :=
    List.mem_map_of_mem (List.mem_filter.mpr ⟨ho, hplaced⟩)
  cases result with
  | ok pid =>
    rw [h.returned pid rfl, List.mem_singleton] at hmem
    rw [hmem]
    rfl
  | error e =>
    rw [h.raised e rfl] at hmem
    cases hmem

theorem podCreateIn_answers (I : Interp) (N : Net σ) (key : Pubkey) (attempts : Int) (w : σ) :
    (∃ e, (podCreateIn I N.logged key attempts (w, [])).1 = .error e ∧
        (podCreateIn I N.logged key attempts (w, [])).2.2 = []) ∨
      ∃ result text, (podCreateIn I N.logged key attempts (w, [])).1 =
          Option.getD result (.error (providerError text)) ∧
        Retry.Tried (fun _ o => o.podEnds I) attempts.toNat
          (podCreateIn I N.logged key attempts (w, [])).2.2 result := by
  unfold podCreateIn
  cases key.read I with
  | error e => exact .inl ⟨e, rfl, rfl⟩
  | ok _ =>
    obtain ⟨os, htried, hanswers⟩ := podLoop_answers (I := I) (N := N) attempts.toNat w [] ""
    rw [List.nil_append] at hanswers
    cases hrun : Retry.retry (podAttempt I N.logged) (fun _ => podEnds I)
        (fun _ s => (N.logged.sleep 3 s.1, s.2)) attempts.toNat ((w, []), "") with
    | mk result s =>
      rw [hrun] at htried hanswers
      subst hanswers
      cases result with
      | some result => exact .inr ⟨some result, "", rfl, htried⟩
      | none => exact .inr ⟨none, _, rfl, htried⟩

/-- A call places at most the pod that it returns exactly when every 2xx answer that it gets is
an object with an id; any other is asked for again, or raises. -/
theorem onePod_iff (I : Interp) (N : Net σ) (key : Pubkey) (attempts : Int) (w : σ) :
    OnePod I (podCreateIn I N.logged key attempts (w, [])).1
        (podCreateIn I N.logged key attempts (w, [])).2.2 ↔
      ∀ o ∈ (podCreateIn I N.logged key attempts (w, [])).2.2, o.placed = true →
        (o.podId I).isSome := by
  refine ⟨fun h o ho => h.ids ho, fun hid => ?_⟩
  obtain ⟨e, hresult, hnone⟩ | ⟨result, text, hresult, htried⟩ :=
    podCreateIn_answers I N key attempts w
  · rw [hresult, hnone]
    exact ⟨by simp, fun pid hpid => (by cases hpid), fun _ _ => rfl⟩
  · rw [hresult]
    exact tried_onePod htried hid text

def lateId : Net Nat where
  urlopen _ n := (.answered (some (.ok (.dict (if n = 0 then [] else
    [(.str "id", .str "pod9")])))), n + 1)
  sleep _ n := n

theorem two_pods_placed : ¬ (∀ (I : Interp) (N : Net Nat) (key : Pubkey) (attempts : Int)
    (w : Nat), OnePod I (podCreateIn I N.logged key attempts (w, [])).1
      (podCreateIn I N.logged key attempts (w, [])).2.2) := by
  intro h
  have hlast := (h (Interp.insertion (fun _ => "") (fun _ => "") (fun _ => "")) lateId
    ⟨"vastai.pub", .ok "ssh-ed25519 AAAA"⟩ 6 0).last
  exact absurd (hlast (.answered (some (.ok (.dict [])))) (.head _)) (by decide)

end RunFarm
