import RunFarm.Python.Coerce
import RunFarm.Reaping.Accounting

/-! The command line of `reap`: its flags, its two refusals and what a run of it may destroy. -/
set_option autoImplicit false

namespace RunFarm

inductive Cloud where
  | vast | runpod
  deriving DecidableEq, Repr

/-- The flags, as the argument parser leaves them. -/
structure ReapFlags where
  provider : Cloud := .vast
  ledger : Option String := none
  label : Option String := none
  olderThan : Option String := none
  includeInUse : Bool := false
  allScope : Bool := false
  yes : Bool := false
  retries : Int := 4
  deriving DecidableEq, Repr

def durUnit : Char → Option ℚ
  | 's' => some 1
  | 'm' => some 60
  | 'h' => some 3600
  | 'd' => some 86400
  | _ => none

/-- A positive number of seconds; `none` is a `ValueError`. The end of the floats stands for `inf`:
no age reaches it. The numbers are exact and in ASCII digits, where `float` rounds, underflows to
0 and takes the digits of other scripts. -/
def parseDuration (s : String) : Option ℚ :=
  let cs := Python.stripLower s
  let (number, unit) := match cs.getLast?.bind durUnit with
    | some unit => (cs.dropLast, unit)
    | none => (cs, 1)
  match Python.floatOf (String.ofList number) with
  | some (.fin q) => if 0 < q * unit then some (q * unit) else none
  | some .inf => some (2 ^ 1024)
  | _ => none

example : ["90s", " 1.5H ", "2d", "30", "0", "-1h", "nan", "h", ""].map parseDuration =
    [some 90, some 5400, some 172800, some 30, none, none, none, none, none] := by decide +kernel

/-- The ledger files by path. A path that cannot be read raises; a missing file has no rows. -/
abbrev LedgerFiles := String → Except Exc (List Row)

namespace ReapFlags

/-- `older_than` of a run: no flag, and an empty one, give no filter. -/
def age (flags : ReapFlags) : Option (Option ℚ) :=
  match flags.olderThan with
  | none => some none
  | some text => if text = "" then some none else (parseDuration text).map some

def goesOn (flags : ReapFlags) (files : LedgerFiles) (live : List Instance) : Except Exc Bool :=
  if live ≠ [] then .ok true
  else match flags.yes, flags.ledger with
    | true, some path => (files path).map fun rows => leakedIds rows ≠ []
    | _, _ => .ok false

def unscoped (flags : ReapFlags) : Bool :=
  flags.yes && flags.ledger.isNone && flags.label.isNone && !flags.allScope

def unfiltered (flags : ReapFlags) (olderThan : Option ℚ) : Bool :=
  flags.yes && flags.label.isSome && flags.ledger.isNone && olderThan.isNone &&
    !flags.includeInUse

def refused (flags : ReapFlags) (olderThan : Option ℚ) : Bool :=
  flags.unscoped || flags.unfiltered olderThan

def readLedger (flags : ReapFlags) (files : LedgerFiles) : Except Exc (Option (List Row)) :=
  match flags.ledger with
  | none => .ok none
  | some path => (files path).map some

/-- The files, with the rows `reap` leaves in its ledger. -/
def written (flags : ReapFlags) (files : LedgerFiles) (ledger : Option (List Row)) : LedgerFiles :=
  match flags.ledger, ledger with
  | some path, some rows => Function.update files path (.ok rows)
  | _, _ => files

def args (flags : ReapFlags) (olderThan : Option ℚ) (live : List Instance) : ReapArgs :=
  { label := flags.label, olderThan := olderThan, dryRun := !flags.yes
    retries := flags.retries.toNat, live := some live }

end ReapFlags

def showAll {σ : Type} (W : World σ) : List Instance → σ → σ
  | [], w => w
  | i :: rest, w => showAll W rest (if i.start.isSome then (W.time w).2 else w)

def exitCode (report : Report) : Int :=
  if report.dryRun then 0 else if report.outcomes.failed ≠ [] then 1 else 0

/-- `main` of `reap`: the exit code, the ledger files and the state it leaves. -/
def reapMain {σ : Type} (flags : ReapFlags) (clouds : Cloud → Except Exc (World σ))
    (files : LedgerFiles) (w : σ) : Except Exc Int × LedgerFiles × σ :=
  match flags.age with
  | none => (.ok 2, files, w)
  | some olderThan =>
    match clouds flags.provider with
    | .error e => (.error e, files, w)
    | .ok W =>
      match W.listInstances w with
      | (.error e, w) => (.error e, files, w)
      | (.ok live, w) =>
        match flags.goesOn files live with
        | .error e => (.error e, files, w)
        | .ok false => (.ok 0, files, w)
        | .ok true =>
          let w := showAll W live w
          if flags.refused olderThan then (.ok 2, files, w)
          else
            match flags.readLedger files with
            | .error e => (.error e, files, w)
            | .ok ledger =>
              let (report, ledger, w) := reap W (flags.args olderThan live) ledger w
              (report.map exitCode, flags.written files ledger, w)

section
variable {σ : Type}

def OldEnough (W : World σ) (w : σ) (live : List Instance) (text : String) (i : Instance) : Prop :=
  ∃ secs start k, parseDuration text = some secs ∧ i.start = some start ∧ k < live.length ∧
    secs ≤ max 0 (readClock W k w - start)

/-- The run comes to filter the listing `live`, in the state `w₁`. -/
structure Scanned (flags : ReapFlags) (clouds : Cloud → Except Exc (World σ))
    (files : LedgerFiles) (w : σ) (olderThan : Option ℚ) (W : World σ)
    (ledger : Option (List Row)) (live : List Instance) (w₁ : σ) : Prop where
  age : flags.age = some olderThan
  cloud : clouds flags.provider = .ok W
  admitted : flags.refused olderThan = false
  read : flags.readLedger files = .ok ledger
  listed : ∃ first w₀, W.listInstances w = (.ok first, w₀) ∧ flags.goesOn files first = .ok true ∧
    listing W (flags.args olderThan first) ledger (showAll W first w₀) = (.ok live, w₁)

/-- An instance that a run may destroy: one scope covers it and every given filter keeps it. -/
structure InScope (flags : ReapFlags) (files : LedgerFiles) (W : World σ) (w : σ)
    (live : List Instance) (i : Instance) : Prop where
  yes : flags.yes = true
  listed : i ∈ live
  scope : (∃ path rows, flags.ledger = some path ∧ files path = .ok rows ∧
        i.id.str ∈ leakedIds rows) ∨
    (∃ label, flags.label = some label ∧ i.label = some label ∧
      ((∃ text, flags.olderThan = some text ∧ OldEnough W w live text i) ∨
        flags.includeInUse = true)) ∨
    flags.allScope = true
  ledger : ∀ path, flags.ledger = some path →
    ∃ rows, files path = .ok rows ∧ i.id.str ∈ leakedIds rows
  label : ∀ label, flags.label = some label → i.label = some label
  age : ∀ text, flags.olderThan = some text → OldEnough W w live text i

/-- The run with the answers to its `destroy` calls. -/
def notedMain (flags : ReapFlags) (clouds : Cloud → Except Exc (World σ)) (files : LedgerFiles)
    (w : σ) : Except Exc Int × LedgerFiles × σ × List (InstanceId × Except Exc Unit) :=
  reapMain flags (fun cloud => (clouds cloud).map World.noting) files (w, [])

/-- Every `destroy` call is on an instance in scope; a refused or dry run makes none and leaves
the ledger files. -/
def MainScope (flags : ReapFlags) (clouds : Cloud → Except Exc (World σ)) (files : LedgerFiles)
    (w : σ) : Prop :=
  (∀ call ∈ (notedMain flags clouds files w).2.2.2, ∃ olderThan W ledger live w₁ i,
    Scanned flags clouds files w olderThan W ledger live w₁ ∧ call.1 = i.id ∧
      InScope flags files W w₁ live i) ∧
  ((notedMain flags clouds files w).1 = .ok 2 ∨ flags.yes = false →
    (notedMain flags clouds files w).2.2.2 = [] ∧ (notedMain flags clouds files w).2.1 = files)

theorem showAll_noting (W : World σ) (live : List Instance) (w : σ)
    (notes : List (InstanceId × Except Exc Unit)) :
    showAll W.noting live (w, notes) = (showAll W live w, notes) := by
  induction live generalizing w with
  | nil => rfl
  | cons i rest ih =>
    unfold showAll
    cases i.start <;> exact ih _

theorem exitCode_ne_two (report : Except Exc Report) : report.map exitCode ≠ .ok 2 := by
  cases report with
  | error e => simp [Except.map]
  | ok report =>
    simp only [Except.map, exitCode]
    split
    · simp
    · split <;> simp

theorem written_read {flags : ReapFlags} {files : LedgerFiles} {ledger : Option (List Row)}
    (h : flags.readLedger files = .ok ledger) : flags.written files ledger = files := by
  unfold ReapFlags.readLedger at h
  unfold ReapFlags.written
  cases hledger : flags.ledger with
  | none => rfl
  | some path =>
    simp only [hledger] at h
    cases hfile : files path with
    | error e => simp [hfile, Except.map] at h
    | ok rows =>
      simp only [hfile, Except.map, Except.ok.injEq] at h
      subst h
      simp [← hfile]

variable {flags : ReapFlags} {clouds : Cloud → Except Exc (World σ)} {files : LedgerFiles} {w : σ}

theorem Scanned.reaps {olderThan : Option ℚ} {W : World σ} {ledger : Option (List Row)}
    {live : List Instance} {w₁ : σ}
    (h : Scanned flags clouds files w olderThan W ledger live w₁) :
    ∃ rs : List Reaped,
      rs.map Reaped.target = (if flags.yes then
        (targetsOf W (flags.args olderThan live) ledger live w₁).1 else []) ∧
      (∀ r ∈ rs, DestroyTried flags.retries.toNat r.answers r.status) ∧
      (notedMain flags clouds files w).2.2.2 = rs.flatMap Reaped.calls ∧
      (notedMain flags clouds files w).1 ≠ .ok 2 ∧
      (flags.yes = false → (notedMain flags clouds files w).2.1 = files) := by
  obtain ⟨first, w₀, hfirst, hgoes, hlisting⟩ := h.listed
  obtain ⟨rs, htargets, htried, -, hswept⟩ := sweep_reaped W hlisting []
  have hreap := reap_noting W hswept
  have hlist : W.noting.listInstances (w, []) = (.ok first, w₀, []) := by
    simp only [World.noting, hfirst]
  have hrun : notedMain flags clouds files w =
      ((reap W (flags.args olderThan first) ledger (showAll W first w₀)).1.map exitCode,
        flags.written files (reap W (flags.args olderThan first) ledger (showAll W first w₀)).2.1,
        (reap W (flags.args olderThan first) ledger (showAll W first w₀)).2.2,
        rs.flatMap Reaped.calls) := by
    unfold notedMain reapMain
    simp only [h.age, h.cloud, Except.map, hlist, hgoes, h.admitted, h.read, showAll_noting, hreap]
    simp
  refine ⟨rs, ?_, htried, by rw [hrun], by rw [hrun]; exact exitCode_ne_two _, fun hdry => ?_⟩
  · rw [htargets]
    cases hyes : flags.yes with
    | false => simp [ReapFlags.args, hyes]
    | true =>
      simp only [ReapFlags.args, hyes, Bool.not_true, Bool.false_eq_true, if_false, if_true]
      rfl
  · rw [hrun]
    have hdryRun : (flags.args olderThan first).dryRun = true := by simp [ReapFlags.args, hdry]
    rw [reap_dry W hdryRun]
    exact written_read h.read

theorem reap_unlisted {W : World σ} {args : ReapArgs} {ledger : Option (List Row)} {w w₁ : σ}
    {e : Exc} (h : listing W args ledger w = (.error e, w₁)) :
    reap W.noting args ledger (w, []) = (.error e, ledger, w₁, []) := by
  have hsweep : sweep W.noting args ledger (w, []) = (.error e, w₁, []) := by
    simp only [sweep, listing_noting, h]
  exact reap_error hsweep

theorem notedMain_stops (h : ¬ ∃ olderThan W ledger live w₁,
      Scanned flags clouds files w olderThan W ledger live w₁) :
    (notedMain flags clouds files w).2.2.2 = [] ∧ (notedMain flags clouds files w).2.1 = files := by
  unfold notedMain reapMain
  cases hage : flags.age with
  | none => exact ⟨rfl, rfl⟩
  | some olderThan =>
    cases hcloud : clouds flags.provider with
    | error e => simp [hcloud, Except.map]
    | ok W =>
      cases hfirst : W.listInstances w with
      | mk result w₀ =>
        cases result with
        | error e => simp [hcloud, Except.map, World.noting, hfirst]
        | ok first =>
          have hlist : W.noting.listInstances (w, []) = (.ok first, w₀, []) := by
            simp only [World.noting, hfirst]
          simp only [hcloud, Except.map, hlist, showAll_noting]
          cases hgoes : flags.goesOn files first with
          | error e => exact ⟨rfl, rfl⟩
          | ok goes =>
            cases goes with
            | false => exact ⟨rfl, rfl⟩
            | true =>
              cases hrefused : flags.refused olderThan with
              | true => exact ⟨rfl, rfl⟩
              | false =>
                cases hread : flags.readLedger files with
                | error e => exact ⟨rfl, rfl⟩
                | ok ledger =>
                  cases hlisting : listing W (flags.args olderThan first) ledger
                      (showAll W first w₀) with
                  | mk result w₁ =>
                    cases result with
                    | ok live =>
                      exact absurd ⟨olderThan, W, ledger, live, w₁, hage, hcloud, hrefused, hread,
                        first, w₀, hfirst, hgoes, hlisting⟩ h
                    | error e =>
                      simp [reap_unlisted hlisting, written_read hread]

theorem DestroyTried.answered {retries : Nat} {answers : List (Except Exc Unit)}
    {status : DestroyStatus} (h : DestroyTried retries answers status) (hretries : 1 ≤ retries) :
    answers ≠ [] := by
  rintro rfl
  cases status with
  | destroyed => simpa using h.destroyed
  | gone => simpa using h.gone
  | failed =>
    have hlen := h.failed rfl
    simp at hlen
    omega

theorem Scanned.inScope {olderThan : Option ℚ} {W : World σ} {ledger : Option (List Row)}
    {live : List Instance} {w₁ : σ} {i : Instance}
    (h : Scanned flags clouds files w olderThan W ledger live w₁) (hyes : flags.yes = true)
    (hgiven : ∀ text, flags.olderThan = some text →
      ∃ secs, olderThan = some secs ∧ parseDuration text = some secs)
    (hpasses : Passes W (flags.args olderThan live) ledger w₁ live i) :
    InScope flags files W w₁ live i := by
  have hage : ∀ text, flags.olderThan = some text → OldEnough W w₁ live text i := by
    intro text htext
    obtain ⟨secs, hsecs, hparse⟩ := hgiven text htext
    obtain ⟨start, k, hstart, hk, hold⟩ := hpasses.old secs hsecs
    exact ⟨secs, start, k, hparse, hstart, hk, hold⟩
  have hledger : ∀ path, flags.ledger = some path →
      ∃ rows, files path = .ok rows ∧ i.id.str ∈ leakedIds rows := by
    intro path hpath
    have hread := h.read
    simp only [ReapFlags.readLedger, hpath] at hread
    cases hfile : files path with
    | error e => simp [hfile, Except.map] at hread
    | ok rows =>
      simp only [hfile, Except.map, Except.ok.injEq] at hread
      exact ⟨rows, rfl, hpasses.leaked rows hread.symm⟩
  refine ⟨hyes, hpasses.listed, ?_, hledger, hpasses.label, hage⟩
  have hadmitted := h.admitted
  simp only [ReapFlags.refused, ReapFlags.unscoped, ReapFlags.unfiltered, hyes,
    Bool.true_and] at hadmitted
  cases hpath : flags.ledger with
  | some path =>
    obtain ⟨rows, hfile, hleaked⟩ := hledger path hpath
    exact .inl ⟨path, rows, rfl, hfile, hleaked⟩
  | none =>
    cases hlabel : flags.label with
    | none => exact .inr (.inr (by simpa [hpath, hlabel] using hadmitted))
    | some label =>
      refine .inr (.inl ⟨label, rfl, hpasses.label label hlabel, ?_⟩)
      cases htext : flags.olderThan with
      | some text => exact .inl ⟨text, rfl, hage text htext⟩
      | none =>
        have hnone : olderThan = none := by
          have hparsed := h.age
          simpa [ReapFlags.age, htext] using hparsed.symm
        exact .inr (by simpa [hpath, hlabel, hnone] using hadmitted)

/-- An empty `--older-than` is given, and a real run has a listed instance that passes the other
filters. -/
def Loose (flags : ReapFlags) (clouds : Cloud → Except Exc (World σ)) (files : LedgerFiles)
    (w : σ) : Prop :=
  flags.olderThan = some "" ∧ flags.yes = true ∧ 1 ≤ flags.retries ∧
    ∃ W ledger live w₁, Scanned flags clouds files w none W ledger live w₁ ∧
      byLabel flags.label (byLedger ledger live) ≠ []

theorem loose_breaks (h : Loose flags clouds files w) : ¬ MainScope flags clouds files w := by
  intro hscope
  obtain ⟨hempty, hyes, hretries, W, ledger, live, w₁, hscanned, hkept⟩ := h
  obtain ⟨rs, htargets, htried, hcalls, -, -⟩ := hscanned.reaps
  have hfiltered : (targetsOf W (flags.args none live) ledger live w₁).1 =
      byLabel flags.label (byLedger ledger live) := rfl
  rw [hyes, if_pos rfl, hfiltered] at htargets
  obtain ⟨r, hr⟩ : ∃ r, r ∈ rs := by
    refine List.exists_mem_of_ne_nil rs fun hnil => hkept ?_
    rw [← htargets, hnil, List.map_nil]
  obtain ⟨answer, hanswer⟩ := List.exists_mem_of_ne_nil _
    ((htried r hr).answered (by omega))
  have hcall : (r.target.id, answer) ∈ (notedMain flags clouds files w).2.2.2 := by
    rw [hcalls]
    exact List.mem_flatMap.mpr ⟨r, hr, List.mem_map_of_mem hanswer⟩
  obtain ⟨_, W', _, live', w', i, _, _, hin⟩ := hscope.1 _ hcall
  obtain ⟨secs, _, _, hparse, _⟩ := hin.age "" hempty
  have hnone : parseDuration "" = none := by decide +kernel
  rw [hnone] at hparse
  cases hparse

/-- For any flags, listings and ledgers: the command line destroys out of scope exactly when
an empty `--older-than`, which passes for no filter, leaves it something to destroy. -/
theorem reapMain_scope_iff (flags : ReapFlags) (clouds : Cloud → Except Exc (World σ))
    (files : LedgerFiles) (w : σ) :
    MainScope flags clouds files w ↔ ¬ Loose flags clouds files w := by
  constructor
  · intro hscope hloose
    exact loose_breaks hloose hscope
  · intro hstrict
    by_cases hreached : ∃ olderThan W ledger live w₁,
        Scanned flags clouds files w olderThan W ledger live w₁
    · obtain ⟨olderThan, W, ledger, live, w₁, hscanned⟩ := hreached
      obtain ⟨rs, htargets, htried, hcalls, hcode, hdry⟩ := hscanned.reaps
      have hrefused : (notedMain flags clouds files w).1 = .ok 2 ∨ flags.yes = false →
          (notedMain flags clouds files w).2.2.2 = [] ∧
            (notedMain flags clouds files w).2.1 = files := by
        rintro (htwo | hno)
        · exact absurd htwo hcode
        · rw [hno, if_neg Bool.false_ne_true, List.map_eq_nil_iff] at htargets
          exact ⟨by rw [hcalls, htargets]; rfl, hdry hno⟩
      refine ⟨fun call hcall => ?_, hrefused⟩
      rw [hcalls] at hcall
      obtain ⟨r, hr, hof⟩ := List.mem_flatMap.mp hcall
      obtain ⟨answer, hanswer, rfl⟩ := List.mem_map.mp hof
      have htarget : r.target ∈ rs.map Reaped.target := List.mem_map_of_mem hr
      rw [htargets] at htarget
      split at htarget
      · rename_i hyes
        refine ⟨olderThan, W, ledger, live, w₁, r.target, hscanned, rfl, ?_⟩
        refine hscanned.inScope hyes (fun text htext => ?_) (targetsOf_passes W _ _ _ _ htarget)
        by_cases hempty : text = ""
        · subst hempty
          obtain rfl : olderThan = none := by
            have hparsed := hscanned.age
            simpa [ReapFlags.age, htext] using hparsed.symm
          have hretries : 1 ≤ flags.retries := by
            have hbound := (htried r hr).bound
            have hlen := List.length_pos_of_mem hanswer
            omega
          refine absurd ⟨htext, hyes, hretries, W, ledger, live, w₁, hscanned, ?_⟩ hstrict
          exact List.ne_nil_of_mem htarget
        · have hparsed := hscanned.age
          simp only [ReapFlags.age, htext, hempty, if_false, Option.map_eq_some_iff] at hparsed
          obtain ⟨secs, hsecs, rfl⟩ := hparsed
          exact ⟨secs, rfl, hsecs⟩
      · simp at htarget
    · obtain ⟨hnone, hfiles⟩ := notedMain_stops hreached
      rw [MainScope, hnone]
      exact ⟨by simp, fun _ => ⟨rfl, hfiles⟩⟩

end

/-- `--all --older-than '' --yes` destroys a box that is ten seconds old. -/
theorem emptyAge_destroys : ¬ MainScope { olderThan := some "", allScope := true, yes := true }
    (fun _ => .ok (steady [⟨.int 7, "running", 1 / 2, none, some 990⟩] (.ok ()) 1000))
    (fun _ => .ok []) () := by
  refine loose_breaks ⟨rfl, rfl, by decide, _, none, _, (), ⟨rfl, rfl, rfl, rfl, _, (), rfl, rfl,
    rfl⟩, ?_⟩
  exact List.cons_ne_nil _ _

end RunFarm
