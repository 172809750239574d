import Mathlib.Data.List.TakeWhile
import RunFarm.Python.Numerals
import RunFarm.Reaping.Accounting
import RunFarm.Renting.Create

/-! What `reap` makes of the faults of `VastProvider.destroy`. An HTTP status decides; a transport
failure has none, and its text has the URL with the id in it. -/
set_option autoImplicit false

namespace RunFarm
open Python

variable {σ : Type}

def destroyRequest (iid : InstanceId) : Request :=
  ⟨"DELETE", v0 ++ "/instances/" ++ iid.str ++ "/"⟩

/-- `VastProvider.destroy`. -/
def vastDestroy (N : Net σ) (iid : InstanceId) (w : σ) : Except Exc Unit × σ :=
  match req N (destroyRequest iid) true 5 w with
  | (result, w) => (result.map (fun _ => ()), w)

/-- The world of a `reap` whose provider is a `VastProvider`. -/
def World.vast (W : World σ) (N : Net σ) : World σ := { W with destroy := vastDestroy N }

/-- One call of `destroy`: how its requests ended, and what it returns or raises. -/
structure DeleteCall where
  outcomes : List Opened
  answer : Except Exc Unit

def deleteCall (N : Net σ) (iid : InstanceId) (w : σ) : DeleteCall × σ :=
  match req N.logged (destroyRequest iid) true 5 (w, []) with
  | (result, w, outcomes) => (⟨outcomes, result.map (fun _ => ())⟩, w)

/-- The calls that `_destroy_with_retry` makes. -/
def deleteCalls (W : World σ) (N : Net σ) (iid : InstanceId) (retries : Nat) (w : σ) :
    List DeleteCall :=
  (Retry.retry (Retry.logged id (deleteCall N iid)) (fun left c => verdict left c.answer)
    (fun k s => (W.sleep (2 ^ (0 + retries - 1 - k)) s.1, s.2)) retries (w, [])).2.2

namespace Opened

def isTransport : Opened → Bool
  | .unresolved _ _ | .urlError _ | .osError _ => true
  | _ => false

def failure : Opened → String
  | .unresolved _ text => "URLError: " ++ text
  | .urlError reason => "URLError: " ++ reason
  | .osError e => e.exc.kind.className ++ ": " ++ e.exc.text
  | _ => ""

def isGone : Opened → Bool
  | .http code _ => code = 404 ∨ code = 410
  | _ => false

/-- A success, an HTTP error with a body that can be read, or a transport failure. -/
def Plain : Opened → Prop
  | .answered body => ∃ v, loaded body = .ok v
  | .http _ detail => ∃ text, detail = .ok text
  | .raises _ => False
  | _ => True

end Opened

/-- The signs that `_classify` looks for in a text. -/
def signs : List String := goneSigns ++ authSigns

/-- What `_destroy_with_retry` may conclude from the faults: `gone` only from an answer that says
so, and nothing terminal from a transport failure. -/
structure DestroyVerdicts (W : World σ) (N : Net σ) (iid : InstanceId) (retries : Nat) (w : σ) :
    Prop where
  gone : (destroyWithRetry (W.vast N) iid retries w).1 = .gone →
    ∃ c ∈ deleteCalls W N iid retries w, ∃ o ∈ c.outcomes, o.isGone = true
  transient : ∀ c ∈ deleteCalls W N iid retries w, ∀ o ∈ c.outcomes.getLast?,
    o.isTransport = true → ∃ e, c.answer = .error e ∧ classify e = .transient

theorem infix_sep {α : Type} {c : α} {t a b : List α} (hc : c ∉ t) :
    t <:+: a ++ c :: b ↔ t <:+: a ∨ t <:+: b := by
  constructor
  · intro h
    induction a with
    | nil =>
      rcases List.infix_cons_iff.mp h with hpre | hin
      · cases t with
        | nil => exact .inl List.nil_infix
        | cons x t =>
          obtain ⟨rfl, _⟩ := List.cons_prefix_cons.mp hpre
          simp at hc
      · exact .inr hin
    | cons x a ih =>
      rcases List.infix_cons_iff.mp h with hpre | hin
      · refine .inl (List.IsPrefix.isInfix ?_)
        -- the separator ends what the word can share with the text
        refine List.prefix_of_prefix_length_le hpre (by simp) ?_
        by_contra hlong
        obtain ⟨s, hs⟩ := hpre
        refine hc (List.mem_of_getElem? (i := (x :: a).length) ?_)
        have hget := congrArg (fun l => l[(x :: a).length]?) hs
        simp only [List.getElem?_append_left (not_le.mp hlong)] at hget
        rw [hget]
        simp
      · rcases ih hin with hl | hr
        · exact .inl (hl.trans (List.suffix_cons x a).isInfix)
        · exact .inr hr
  · rintro (⟨p, q, rfl⟩ | ⟨p, q, rfl⟩)
    · exact ⟨p, q ++ c :: b, by simp⟩
    · exact ⟨a ++ c :: p, q, by simp⟩

theorem infix_cons_of_ne {α : Type} {c : α} {t b : List α} (hc : t.head? ≠ some c)
    (ht : t ≠ []) : t <:+: c :: b ↔ t <:+: b := by
  rw [List.infix_cons_iff, or_iff_right]
  intro hpre
  cases t with
  | nil => exact ht rfl
  | cons x t =>
    obtain ⟨rfl, _⟩ := List.cons_prefix_cons.mp hpre
    simp at hc

theorem mentions_iff {ts : List String} {s : String} :
    mentions ts s = true ↔ ∃ t ∈ ts, t.toList <:+: s.toList := by
  simp [mentions]

theorem toList_toLower (s : String) : s.toLower.toList = s.toList.map Char.toLower :=
  String.toList_map

theorem toLower_digit {c : Char} (h : c.isDigit) : c.toLower = c := by
  simp only [Char.isDigit, Bool.and_eq_true, decide_eq_true_eq, ge_iff_le] at h
  refine dif_neg fun hupper => ?_
  have hle : 'A'.val ≤ '9'.val := UInt32.le_trans hupper.1 h.2
  exact absurd hle (by decide)

theorem mem_int {n : Int} {c : Char} (h : c ∈ (toString n).toList) : c = '-' ∨ c.isDigit := by
  rw [toList_int] at h
  split at h
  · exact .inr (isDigit_of_mem h)
  · rcases List.mem_cons.mp h with rfl | h
    · exact .inl rfl
    · exact .inr (isDigit_of_mem h)

theorem toLower_int (n : Int) : (toString n).toList.map Char.toLower = (toString n).toList := by
  rw [List.map_congr_left (g := id), List.map_id]
  intro c hc
  rcases mem_int hc with rfl | hdigit
  · decide
  · exact toLower_digit hdigit

def deletePath : List Char := "delete https://console.vast.ai/api/v0/instances".toList

theorem no_question {s : String} (h : s.toList.all (fun c => decide (c ≠ '?')) = true) {c : Char}
    (hc : c ∈ s.toList) : decide (c ≠ '?') = true := List.all_eq_true.mp h c hc

theorem toLower_failed (n : Int) (what : String) :
    ((destroyRequest (.int n)).failed what).toLower.toList =
      deletePath ++ '/' :: ((toString n).toList ++ '/' ::
        (" -".toList ++ '>' :: ' ' :: what.toLower.toList)) := by
  have hquestion : ∀ c ∈ (toString n).toList, c ≠ '?' := by
    rintro c hc rfl
    rcases mem_int hc with h | h <;> simp at h
  have hurl : ∀ c ∈ (destroyRequest (.int n)).url.toList, decide (c ≠ '?') = true := by
    simp only [destroyRequest, InstanceId.str, v0, String.toList_append, List.mem_append]
    rintro c (((hc | hc) | hc) | hc)
    · exact no_question (by decide) hc
    · exact no_question (by decide) hc
    · simpa using hquestion c hc
    · exact no_question (by decide) hc
  have hendpoint : (destroyRequest (.int n)).endpoint = (destroyRequest (.int n)).url := by
    rw [Request.endpoint, List.takeWhile_eq_self_iff.mpr hurl, String.ofList_toList]
  have hpath : "DELETE".toList.map Char.toLower ++ (" ".toList.map Char.toLower ++
      (v0.toList.map Char.toLower ++ "/instances/".toList.map Char.toLower)) =
        deletePath ++ ['/'] := by decide
  have hslash : "/".toList.map Char.toLower = ['/'] := by decide
  have harrow : " -> ".toList.map Char.toLower = " -".toList ++ ['>', ' '] := by decide
  rw [toList_toLower, Request.failed, hendpoint, toList_toLower]
  simp only [destroyRequest, InstanceId.str, String.toList_append, List.map_append, toLower_int,
    hslash, harrow, List.append_assoc]
  calc _ = ("DELETE".toList.map Char.toLower ++ (" ".toList.map Char.toLower ++
        (v0.toList.map Char.toLower ++ "/instances/".toList.map Char.toLower))) ++
          ((toString n).toList ++ (['/'] ++ (" -".toList ++ (['>', ' '] ++
            what.toList.map Char.toLower)))) := by simp only [List.append_assoc]
    _ = _ := by
      rw [hpath]
      simp only [List.append_assoc, List.cons_append, List.nil_append]

theorem signs_plain : ∀ t ∈ signs, '/' ∉ t.toList ∧ '>' ∉ t.toList ∧ t.toList.head? ≠ some ' ' ∧
    t.toList ≠ [] ∧ ¬ t.toList <:+: deletePath ∧ ¬ t.toList <:+: " -".toList := by
  decide

theorem mentions_failed (n : Int) (what : String) :
    mentions signs ((destroyRequest (.int n)).failed what).toLower = true ↔
      mentions signs (toString n) = true ∨ mentions signs what.toLower = true := by
  have hsign : ∀ t ∈ signs,
      t.toList <:+: ((destroyRequest (.int n)).failed what).toLower.toList ↔
        t.toList <:+: (toString n).toList ∨ t.toList <:+: what.toLower.toList := by
    intro t ht
    obtain ⟨hslash, harrow, hhead, hnil, hpath, hdash⟩ := signs_plain t ht
    rw [toLower_failed, infix_sep hslash, infix_sep hslash, infix_sep harrow,
      infix_cons_of_ne hhead hnil, or_iff_right hpath, or_iff_right hdash]
  simp only [mentions_iff, ← exists_or, ← and_or_left]
  exact exists_congr fun t => and_congr_right fun ht => hsign t ht

theorem classify_provider (text : String) :
    classify (providerError text) = .transient ↔ ¬ mentions signs text.toLower = true := by
  have hsplit : mentions signs text.toLower =
      (mentions goneSigns text.toLower || mentions authSigns text.toLower) := by
    simp [mentions, signs]
  simp only [classify, providerError, ExcKind.isBug, hsplit, Bool.false_eq_true, if_false]
  by_cases hgone : mentions goneSigns text.toLower = true
  · simp [hgone]
  · by_cases hauth : mentions authSigns text.toLower = true <;> simp [hgone, hauth]

variable {W : World σ} {N : Net σ} {iid : InstanceId} {retries : Nat} {w : σ} {c : DeleteCall}
  {o : Opened}

theorem vastDestroy_eq (N : Net σ) (iid : InstanceId) (w : σ) :
    vastDestroy N iid w = ((deleteCall N iid w).1.answer, (deleteCall N iid w).2) := by
  obtain ⟨os, _, hrun, _⟩ := req_answers N (destroyRequest iid) true 5 w []
  rw [vastDestroy, deleteCall, hrun]

structure Asked (N : Net σ) (iid : InstanceId) (c : DeleteCall) (o : Opened) : Prop where
  last : c.outcomes.getLast? = some o
  opened : ∃ w, (N.urlopen (destroyRequest iid) w).1 = o
  answer : c.answer = (o.conclude (destroyRequest iid)).map (fun _ => ())

theorem deleteCall_asked (N : Net σ) (iid : InstanceId) (w : σ) :
    ∃ o, Asked N iid (deleteCall N iid w).1 o := by
  obtain ⟨os, htried, hrun, hasked⟩ := req_answers N (destroyRequest iid) true 5 w []
  obtain ⟨left, o, hlast, hends, -⟩ := htried.answered rfl
  have hresult : (req N (destroyRequest iid) true 5 w).1 = o.conclude (destroyRequest iid) := by
    unfold Opened.ends at hends
    split at hends
    · cases hends
    · exact (Option.some.inj hends).symm
  refine ⟨o, ?_, hasked o (List.mem_of_getLast? hlast), ?_⟩
  · rw [deleteCall, hrun]
    exact hlast
  · rw [deleteCall, hrun, hresult]

theorem deleteCalls_tried (W : World σ) (N : Net σ) (iid : InstanceId) (retries : Nat) (w : σ) :
    ∃ result, Retry.Tried (fun left c => verdict left c.answer) retries
        (deleteCalls W N iid retries w) result ∧
      (destroyWithRetry (W.vast N) iid retries w).1 = result.getD .failed ∧
      ∀ c ∈ deleteCalls W N iid retries w, ∃ o, Asked N iid c o := by
  obtain ⟨calls, htried, hrun, hasked⟩ := Retry.retry_answers id (deleteCall N iid)
    (fun left (c : DeleteCall) => verdict left c.answer)
    (fun k => W.sleep (2 ^ (0 + retries - 1 - k))) retries w []
  have hcalls : deleteCalls W N iid retries w = calls := by
    rw [deleteCalls, hrun]
    simp
  refine ⟨_, hcalls ▸ htried, ?_, fun c hc => ?_⟩
  · rw [destroyWithRetry, destroyFrom_retry,
      Retry.retry_map DeleteCall.answer (vastDestroy_eq N iid)]
    rfl
  · obtain ⟨w', rfl⟩ := hasked c (hcalls ▸ hc)
    exact deleteCall_asked N iid w'

theorem conclude_transport (r : Request) (h : o.isTransport = true) :
    o.conclude r = .error (providerError (r.failed o.failure)) := by
  cases o <;> simp_all [Opened.isTransport, Opened.conclude, Opened.failure]

theorem gone_of_plain {e : Exc} (hplain : o.Plain) (htransport : o.isTransport = false)
    (hanswer : (o.conclude (destroyRequest iid)).map (fun _ => ()) = .error e)
    (hgone : classify e = .gone) : o.isGone = true := by
  cases o with
  | answered body =>
    obtain ⟨v, hv⟩ := hplain
    simp [Opened.conclude, hv, Except.map] at hanswer
  | http code detail =>
    obtain ⟨text, rfl⟩ := hplain
    simp only [Opened.conclude, httpError, Except.map, Except.error.injEq] at hanswer
    subst hanswer
    simp only [classify, providerError] at hgone
    split at hgone
    · simpa [Opened.isGone] using ‹_›
    · split at hgone <;> simp at hgone
  | raises e' => exact hplain.elim
  | unresolved errno text => simp [Opened.isTransport] at htransport
  | urlError reason => simp [Opened.isTransport] at htransport
  | osError e' => simp [Opened.isTransport] at htransport

theorem asked_transient {n : Int} (h : Asked N (.int n) c o) (htransport : o.isTransport = true) :
    (∃ e, c.answer = .error e ∧ classify e = .transient) ↔
      ¬ mentions signs (toString n) = true ∧ ¬ mentions signs o.failure.toLower = true := by
  rw [h.answer, conclude_transport _ htransport, ← not_or, ← mentions_failed,
    ← classify_provider]
  simp [Except.map]

/-- The verdicts are right exactly when no call that a transport failure ends has a sign in its
message: neither the id nor the text of the failure. -/
theorem destroy_verdicts_iff (W : World σ) (N : Net σ) (n : Int) (retries : Nat) (w : σ)
    (hplain : ∀ r w, (N.urlopen r w).1.Plain) :
    DestroyVerdicts W N (.int n) retries w ↔
      ∀ c ∈ deleteCalls W N (.int n) retries w, ∀ o ∈ c.outcomes.getLast?,
        o.isTransport = true →
          ¬ mentions signs (toString n) = true ∧ ¬ mentions signs o.failure.toLower = true := by
  obtain ⟨result, htried, hstatus, hcalls⟩ := deleteCalls_tried W N (.int n) retries w
  have hasked : ∀ c ∈ deleteCalls W N (.int n) retries w, ∀ o ∈ c.outcomes.getLast?,
      Asked N (.int n) c o := by
    intro c hc o ho
    obtain ⟨o', ho'⟩ := hcalls c hc
    have hsame : o' = o := by simpa [ho'.last] using ho
    rwa [hsame] at ho'
  constructor
  · intro h c hc o ho htransport
    exact (asked_transient (hasked c hc o ho) htransport).mp (h.transient c hc o ho htransport)
  · intro h
    have htransient : ∀ c ∈ deleteCalls W N (.int n) retries w, ∀ o ∈ c.outcomes.getLast?,
        o.isTransport = true → ∃ e, c.answer = .error e ∧ classify e = .transient := by
      intro c hc o ho htransport
      exact (asked_transient (hasked c hc o ho) htransport).mpr (h c hc o ho htransport)
    refine ⟨fun hgone => ?_, htransient⟩
    cases result with
    | none =>
      rw [hstatus] at hgone
      cases hgone
    | some status =>
      obtain ⟨left, c, hlast, hverdict, -⟩ := htried.answered rfl
      have hc := List.mem_of_getLast? hlast
      obtain rfl : status = .gone := by
        rw [hstatus] at hgone
        exact hgone
      obtain ⟨e, hanswer, hclass⟩ : ∃ e, c.answer = .error e ∧ classify e = .gone := by
        cases hanswer : c.answer with
        | ok u => simp [verdict, hanswer] at hverdict
        | error e =>
          refine ⟨e, rfl, ?_⟩
          cases hclass : classify e <;> simp_all [verdict]
      obtain ⟨o, ho⟩ := hcalls c hc
      obtain ⟨w', hopened⟩ := ho.opened
      have hnot : o.isTransport = false := by
        by_contra htransport
        rw [Bool.not_eq_false] at htransport
        obtain ⟨e', he', hsafe⟩ := htransient c hc o ho.last htransport
        rw [hanswer] at he'
        cases he'
        rw [hclass] at hsafe
        cases hsafe
      refine ⟨c, hc, o, List.mem_of_getLast? ho.last, ?_⟩
      exact gone_of_plain (hopened ▸ hplain _ w') hnot (ho.answer ▸ hanswer) hclass

def timedOut : Net Unit where
  urlopen _ w := (.urlError "timed out", w)
  sleep _ w := w

theorem timedOut_plain (r : Request) (w : Unit) : (timedOut.urlopen r w).1.Plain := trivial

theorem timedOut_asked {c : DeleteCall} {o : Opened} (h : Asked timedOut iid c o) :
    o = .urlError "timed out" := by
  obtain ⟨w, hw⟩ := h.opened
  exact hw.symm

theorem timedOut_verdicts :
    DestroyVerdicts (steady [] (.ok ()) 0) timedOut (.int 7) 2 () := by
  refine (destroy_verdicts_iff _ timedOut 7 2 () timedOut_plain).mpr fun c hc o ho _ => ?_
  obtain ⟨_, _, _, hcalls⟩ := deleteCalls_tried (steady [] (.ok ()) 0) timedOut (.int 7) 2 ()
  obtain ⟨o', ho'⟩ := hcalls c hc
  obtain rfl : o' = o := by simpa [ho'.last] using ho
  rw [timedOut_asked ho']
  decide +kernel

/-- The box 14041 may still run as well, and is taken for gone. -/
theorem timedOut_gone : ¬ ∀ (W : World Unit) (N : Net Unit) (n : Int) (retries : Nat),
    (∀ r w, (N.urlopen r w).1.Plain) → DestroyVerdicts W N (.int n) retries () := by
  intro h
  obtain ⟨result, htried, hstatus, hcalls⟩ :=
    deleteCalls_tried (steady [] (.ok ()) 0) timedOut (.int 14041) 4 ()
  have hgone : (destroyWithRetry ((steady [] (.ok ()) 0).vast timedOut) (.int 14041) 4 ()).1 =
      .gone := by decide +kernel
  obtain rfl : result = some .gone := by
    rw [hgone] at hstatus
    cases result with
    | none => cases hstatus
    | some status => exact congrArg some hstatus.symm
  obtain ⟨left, c, hlast, hverdict, -⟩ := htried.answered rfl
  obtain ⟨o, ho⟩ := hcalls c (List.mem_of_getLast? hlast)
  obtain ⟨e, hanswer, htransient⟩ := (h (steady [] (.ok ()) 0) timedOut 14041 4
    timedOut_plain).transient c (List.mem_of_getLast? hlast) o ho.last
    (by rw [timedOut_asked ho]; rfl)
  simp only [verdict, hanswer, htransient] at hverdict
  split at hverdict <;> simp at hverdict

end RunFarm
