import RunFarm.Arrival.Report

/-! Which of its lists a report puts each file of the tree into. -/
set_option autoImplicit false

namespace RunFarm
open Files Python

variable {α : Type}

/-- A verifier may also end in an exception it does not catch: `read_text` on bytes that
are not UTF-8, `testzip` on a member that does not inflate. -/
structure Reading (α : Type) extends Formats α where
  escapes : String → α → Option String

def fileName (p : Path) : String := p.getLast?.getD ""

/-- `root / rel`, where `rel` is given by its parts. -/
def underRoot (root : Path) : Path → Path
  | "/" :: parts => parts
  | parts => root ++ parts

/-- What the loop over `require` reports. -/
def absent (d : Disk α) (root : Path) (require : List Path) : List ArrivalProblem :=
  (require.filter (fun rel => (d (underRoot root rel)).isNone)).map (fun rel =>
    { path := underRoot root rel, kind := .missing, detail := "required artifact absent" })

/-- What `verify_file` lets through on the file at `p`. -/
def raisesAt (X : Reading α) (d : Disk α) (p : Path) : Option String :=
  match d p with
  | some (.file c) =>
    if isResidue p || X.size c == 0 || (verifierFor X.toFormats (fileName p)).isNone then none
    else X.escapes (fileName p) c
  | _ => none

def checkPath (X : Reading α) (d : Disk α) (r : ArrivalReport) (p : Path) :
    Except String ArrivalReport :=
  match raisesAt X d p with
  | some e => .error e
  | none => .ok (scanPath X.toFormats d r p)

/-- `verify_report` with its `require`, under the default patterns. -/
def verifyRequired (X : Reading α) (d : Disk α) (root : Path) (require : List Path) :
    Except String ArrivalReport :=
  match listRoot d root with
  | .error r => .ok r
  | .ok paths =>
    (paths.foldlM (checkPath X d) { root, problems := absent d root require }).map closeReport

variable {X : Reading α} {d : Disk α} {root p : Path} {require : List Path} {c : α}

theorem checked (paths : List Path) (r r' : ArrivalReport) :
    paths.foldlM (checkPath X d) r = .ok r' ↔
      (∀ p ∈ paths, raisesAt X d p = none) ∧ r' = paths.foldl (scanPath X.toFormats d) r := by
  induction paths generalizing r with
  | nil => simp [pure, Except.pure, eq_comm]
  | cons p paths ih =>
    rw [List.foldlM_cons, List.foldl_cons, checkPath]
    cases hraises : raisesAt X d p with
    | some e => simp [bind, Except.bind, hraises]
    | none => simp [bind, Except.bind, hraises, ih]

theorem verifyRequired_plain (h : ∀ name c, X.escapes name c = none) :
    verifyRequired X d root [] = .ok (verifyReport X.toFormats d root) := by
  have hquiet (p : Path) : raisesAt X d p = none := by
    unfold raisesAt
    split
    · split
      · rfl
      · exact h _ _
    · rfl
  unfold verifyRequired verifyReport
  cases listRoot d root with
  | error r => rfl
  | ok paths =>
    have hall := (checked (X := X) (d := d) paths { root } _).mpr ⟨fun p _ => hquiet p, rfl⟩
    change Except.map closeReport (paths.foldlM (checkPath X d) { root }) = _
    rw [hall]
    rfl

/-- A file the loop lists, in `verified` for `true` and in `unverifiable` for `false`. -/
def listedAt (F : Formats α) (d : Disk α) (opened : Bool) (p : Path) : Bool :=
  (d p).any Entry.isFile && !isResidue p && (verifierFor F (fileName p)).isSome == opened

theorem scanPath_lists (F : Formats α) (r : ArrivalReport) (p : Path) :
    (scanPath F d r p).root = r.root ∧
    (scanPath F d r p).verified = r.verified ++ (if listedAt F d true p then [p] else []) ∧
    (scanPath F d r p).unverifiable =
      r.unverifiable ++ (if listedAt F d false p then [p] else []) := by
  unfold scanPath listedAt
  cases hentry : d p with
  | none => simp
  | some e =>
    cases e with
    | dir => simp [Entry.isFile]
    | file c =>
      cases hres : isResidue p with
      | true => simp [scanFile, hres]
      | false =>
        cases hver : (verifierFor F (fileName p)).isSome <;>
          simp [scanFile, hres, show (verifierFor F (p.getLast?.getD "")).isSome = _ from hver,
            Entry.isFile]

theorem scan_lists (F : Formats α) (r : ArrivalReport) (paths : List Path) :
    (paths.foldl (scanPath F d) r).root = r.root ∧
    (paths.foldl (scanPath F d) r).verified = r.verified ++ paths.filter (listedAt F d true) ∧
    (paths.foldl (scanPath F d) r).unverifiable =
      r.unverifiable ++ paths.filter (listedAt F d false) := by
  induction paths generalizing r with
  | nil => simp
  | cons p paths ih =>
    obtain ⟨hroot, hverified, hhidden⟩ := scanPath_lists F r p (d := d)
    obtain ⟨ihroot, ihverified, ihhidden⟩ := ih (scanPath F d r p)
    rw [List.foldl_cons, ihroot, ihverified, ihhidden, hroot, hverified, hhidden]
    simp only [List.filter_cons, List.append_assoc, true_and]
    constructor <;> split <;> rfl

theorem closeReport_lists (r : ArrivalReport) :
    (closeReport r).verified = r.verified ∧ (closeReport r).unverifiable = r.unverifiable := by
  unfold closeReport
  split <;> exact ⟨rfl, rfl⟩

theorem closeReport_problems {r : ArrivalReport} {q : Path} (hq : q ≠ r.root) (fatal : Bool) :
    (∃ problem ∈ (closeReport r).problems, problem.path = q ∧ problem.fatal = fatal) ↔
      ∃ problem ∈ r.problems, problem.path = q ∧ problem.fatal = fatal := by
  unfold closeReport
  split
  · simp only [List.mem_append, List.mem_singleton]
    constructor
    · rintro ⟨problem, hin | rfl, hpath, hfatal⟩
      · exact ⟨problem, hin, hpath, hfatal⟩
      · exact absurd hpath.symm hq
    · rintro ⟨problem, hin, hkeys⟩
      exact ⟨problem, .inl hin, hkeys⟩
  · rfl

theorem problemsAt_path {F : Formats α} {problem : ArrivalProblem}
    (h : problem ∈ problemsAt F d p) : problem.path = p := by
  cases hentry : d p with
  | none => simp [problemsAt, scanPath, hentry] at h
  | some e =>
    cases e with
    | dir => simp [problemsAt, scanPath, hentry] at h
    | file c =>
      cases hres : isResidue p with
      | true =>
        simp only [problemsAt, scanPath, hentry, scanFile, hres, if_true, List.nil_append,
          List.mem_singleton] at h
        rw [h]
      | false =>
        rw [problemsAt_file hentry hres, Option.mem_toList] at h
        unfold verifyFile at h
        split at h
        · cases h
          rfl
        · split at h
          · cases h
          · obtain ⟨e, _, rfl⟩ := Option.map_eq_some_iff.mp h
            rfl

def scanned (X : Reading α) (d : Disk α) (root : Path) (require : List Path) : ArrivalReport :=
  (rglob d root).foldl (scanPath X.toFormats d) { root, problems := absent d root require }

theorem verifyRequired_dir (hroot : d root = some .dir) {r : ArrivalReport} :
    verifyRequired X d root require = .ok r ↔
      (∀ p ∈ rglob d root, raisesAt X d p = none) ∧ r = closeReport (scanned X d root require) := by
  have hlist : listRoot d root = .ok (rglob d root) := by simp [listRoot, hroot]
  have hchecked := checked (X := X) (d := d) (rglob d root)
    { root, problems := absent d root require }
  have hunfold : verifyRequired X d root require = Except.map closeReport
      ((rglob d root).foldlM (checkPath X d) { root, problems := absent d root require }) := by
    rw [verifyRequired, hlist]
  rw [hunfold, scanned]
  constructor
  · intro h
    cases hfold : (rglob d root).foldlM (checkPath X d)
        { root, problems := absent d root require } with
    | error e =>
      rw [hfold] at h
      cases h
    | ok r' =>
      rw [hfold] at h
      obtain ⟨hquiet, rfl⟩ := (hchecked r').mp hfold
      cases h
      exact ⟨hquiet, rfl⟩
  · rintro ⟨hquiet, rfl⟩
    rw [(hchecked _).mpr ⟨hquiet, rfl⟩]
    rfl

theorem absent_missing {problem : ArrivalProblem} (h : problem ∈ absent d root require) :
    d problem.path = none ∧ problem.fatal = true := by
  obtain ⟨rel, hrel, rfl⟩ := List.mem_map.mp h
  exact ⟨Option.isNone_iff_eq_none.mp (List.mem_filter.mp hrel).2, rfl⟩

theorem scanned_problems : (scanned X d root require).problems =
    absent d root require ++ (rglob d root).flatMap (problemsAt X.toFormats d) :=
  scan_problems _ _

theorem scanned_problem (hfile : d p = some (.file c)) (hbelow : root <+: p) (hne : p ≠ root)
    (fatal : Bool) :
    (∃ problem ∈ (closeReport (scanned X d root require)).problems,
      problem.path = p ∧ problem.fatal = fatal) ↔
    ∃ problem ∈ problemsAt X.toFormats d p, problem.fatal = fatal := by
  have hroot : (scanned X d root require).root = root := (scan_lists _ _ _).1
  rw [closeReport_problems (by rwa [hroot]), scanned_problems]
  simp only [List.mem_append, List.mem_flatMap]
  constructor
  · rintro ⟨problem, habsent | ⟨q, _, hq⟩, rfl, hfatal⟩
    · rw [(absent_missing habsent).1] at hfile
      cases hfile
    · exact ⟨problem, problemsAt_path hq ▸ hq, hfatal⟩
  · rintro ⟨problem, hp, hfatal⟩
    have hin : p ∈ rglob d root := mem_rglob.mpr ⟨by simp [hfile], hbelow, hne⟩
    exact ⟨problem, .inr ⟨p, hin, hp⟩, problemsAt_path hp, hfatal⟩

theorem mem_listed (hfile : d p = some (.file c)) (hbelow : root <+: p) (hne : p ≠ root)
    (opened : Bool) :
    p ∈ (rglob d root).filter (listedAt X.toFormats d opened) ↔
      isResidue p = false ∧ (verifierFor X.toFormats (fileName p)).isSome = opened := by
  have hin : p ∈ rglob d root := mem_rglob.mpr ⟨by simp [hfile], hbelow, hne⟩
  simp [List.mem_filter, hin, listedAt, hfile, Entry.isFile]

theorem scanned_ok : (closeReport (scanned X d root require)).ok = true ↔
    (∀ rel ∈ require, (d (underRoot root rel)).isSome) ∧
    ∀ p, root <+: p → p ≠ root → ¬ Fails X.toFormats d p := by
  rw [closeReport_ok, ArrivalReport.ok, scanned_problems, Bool.not_eq_true', List.any_eq_false]
  constructor
  · intro h
    refine ⟨fun rel hrel => ?_, fun p hbelow hne hfails => ?_⟩
    · by_contra hmissing
      have hin : rel ∈ require.filter (fun rel => (d (underRoot root rel)).isNone) :=
        List.mem_filter.mpr ⟨hrel, by simpa using hmissing⟩
      exact h _ (List.mem_append_left _ (List.mem_map_of_mem hin)) rfl
    · obtain ⟨problem, hin, hfatal⟩ := List.any_eq_true.mp (problemsAt_fatal.mpr hfails)
      obtain ⟨c, hfile, _⟩ := hfails
      refine h problem (List.mem_append_right _ (List.mem_flatMap.mpr ⟨p, ?_, hin⟩)) hfatal
      exact mem_rglob.mpr ⟨by simp [hfile], hbelow, hne⟩
  · rintro ⟨hrequire, hfails⟩ problem hin hfatal
    rcases List.mem_append.mp hin with habsent | hscan
    · obtain ⟨rel, hrel, _⟩ := List.mem_map.mp habsent
      have hmissing := (List.mem_filter.mp hrel).2
      rw [← Option.not_isSome, hrequire rel (List.mem_filter.mp hrel).1] at hmissing
      cases hmissing
    · obtain ⟨p, hp, hproblem⟩ := List.mem_flatMap.mp hscan
      obtain ⟨_, hbelow, hne⟩ := mem_rglob.mp hp
      exact hfails p hbelow hne
        (problemsAt_fatal.mp (List.any_eq_true.mpr ⟨problem, hproblem, hfatal⟩))

/-- What the report says of each file below the root, and of the tree. -/
structure Exact (X : Reading α) (d : Disk α) (root : Path) (require : List Path)
    (r : ArrivalReport) : Prop where
  residue : ∀ p c, d p = some (.file c) → root <+: p → p ≠ root → isResidue p = true →
    p ∉ r.verified ∧ p ∉ r.unverifiable ∧
    (∃ problem ∈ r.problems, problem.path = p ∧ problem.fatal = false) ∧
    ¬ ∃ problem ∈ r.problems, problem.path = p ∧ problem.fatal = true
  others : ∀ p c, d p = some (.file c) → root <+: p → p ≠ root → isResidue p = false →
    (p ∈ r.verified ↔ (verifierFor X.toFormats (fileName p)).isSome = true ∧
      verifyFile X.toFormats p c = none) ∧
    (p ∈ r.unverifiable ↔ (verifierFor X.toFormats (fileName p)).isSome = false ∧ X.size c ≠ 0) ∧
    ((∃ problem ∈ r.problems, problem.path = p ∧ problem.fatal = true) ↔
      verifyFile X.toFormats p c ≠ none) ∧
    ¬ ∃ problem ∈ r.problems, problem.path = p ∧ problem.fatal = false
  ok : r.ok = true ↔ (∀ rel ∈ require, (d (underRoot root rel)).isSome) ∧
    ∀ p c, d p = some (.file c) → root <+: p → p ≠ root → isResidue p = false →
      verifyFile X.toFormats p c = none

/-- The bytes at `p` are there, and a verifier of their format reads them without fault. -/
def Verifies (X : Reading α) (p : Path) (c : α) : Prop :=
  X.size c ≠ 0 ∧ ∀ verifier, verifierFor X.toFormats (fileName p) = some verifier →
    verifier c = none ∧ X.escapes (fileName p) c = none

theorem verifyFile_passes : verifyFile X.toFormats p c = none ↔
    X.size c ≠ 0 ∧ ∀ verifier, verifierFor X.toFormats (fileName p) = some verifier →
      verifier c = none := by
  unfold verifyFile fileName
  by_cases hsize : X.size c = 0
  · simp [hsize]
  · cases verifierFor X.toFormats (p.getLast?.getD "") <;> simp [hsize]

theorem raisesAt_verifies (hfile : d p = some (.file c)) (h : Verifies X p c) :
    raisesAt X d p = none := by
  simp only [raisesAt, hfile]
  split
  · rfl
  · rename_i hcase
    simp only [Bool.or_eq_true, not_or, Option.isNone_iff_eq_none] at hcase
    obtain ⟨verifier, hverifier⟩ := Option.ne_none_iff_exists'.mp hcase.2
    exact (h.2 verifier hverifier).2

theorem exact_of_verifies (hroot : d root = some .dir)
    (h : ∀ p c, d p = some (.file c) → root <+: p → p ≠ root → isResidue p = false →
      Verifies X p c) :
    ∃ r, verifyRequired X d root require = .ok r ∧ Exact X d root require r := by
  have hpasses {p : Path} {c : α} (hfile : d p = some (.file c)) (hbelow : root <+: p)
      (hne : p ≠ root) (hres : isResidue p = false) : verifyFile X.toFormats p c = none := by
    obtain ⟨hsize, hverifier⟩ := h p c hfile hbelow hne hres
    exact verifyFile_passes.mpr ⟨hsize, fun verifier hv => (hverifier verifier hv).1⟩
  have hlists := closeReport_lists (scanned X d root require)
  rw [scanned, (scan_lists _ _ _).2.1, (scan_lists _ _ _).2.2, ← scanned] at hlists
  refine ⟨_, (verifyRequired_dir hroot).mpr ⟨fun p hp => ?_, rfl⟩, ?_⟩
  · obtain ⟨hthere, hbelow, hne⟩ := mem_rglob.mp hp
    cases hentry : d p with
    | none => simp [raisesAt, hentry]
    | some e =>
      cases e with
      | dir => simp [raisesAt, hentry]
      | file c =>
        cases hres : isResidue p with
        | true => simp [raisesAt, hentry, hres]
        | false => exact raisesAt_verifies hentry (h p c hentry hbelow hne hres)
  · constructor
    · intro p c hfile hbelow hne hres
      rw [hlists.1, hlists.2, scanned_problem hfile hbelow hne, scanned_problem hfile hbelow hne]
      simp only [List.nil_append, mem_listed hfile hbelow hne, hres]
      simp [problemsAt, scanPath, hfile, scanFile, hres]
    · intro p c hfile hbelow hne hres
      have hpass := hpasses hfile hbelow hne hres
      rw [hlists.1, hlists.2, scanned_problem hfile hbelow hne, scanned_problem hfile hbelow hne]
      simp only [List.nil_append, mem_listed hfile hbelow hne, hres, problemsAt_file hfile hres]
      simp [hpass, (verifyFile_passes.mp hpass).1]
    · rw [scanned_ok]
      refine and_congr_right fun _ => ⟨fun _ p c => hpasses, fun hall p hbelow hne hfails => ?_⟩
      obtain ⟨c, hfile, hres, hfail⟩ := hfails
      exact hfail (hall p c hfile hbelow hne hres)

/-- A file that does not verify is put down as verified or as unverifiable all the same. -/
theorem accounting_iff (hroot : d root = some .dir) :
    (∃ r, verifyRequired X d root require = .ok r ∧ Exact X d root require r) ↔
      ∀ p c, d p = some (.file c) → root <+: p → p ≠ root → isResidue p = false →
        Verifies X p c := by
  refine ⟨fun hexact p c hfile hbelow hne hres => ?_, exact_of_verifies hroot⟩
  obtain ⟨r, hreport, hexact⟩ := hexact
  obtain ⟨hquiet, rfl⟩ := (verifyRequired_dir hroot).mp hreport
  have hlists := closeReport_lists (scanned X d root require)
  rw [scanned, (scan_lists _ _ _).2.1, (scan_lists _ _ _).2.2, ← scanned] at hlists
  obtain ⟨hverified, hhidden, _, _⟩ := hexact.others p c hfile hbelow hne hres
  rw [hlists.1, List.nil_append, mem_listed hfile hbelow hne] at hverified
  rw [hlists.2, List.nil_append, mem_listed hfile hbelow hne] at hhidden
  cases hformat : verifierFor X.toFormats (fileName p) with
  | none =>
    have hsize := (hhidden.mp ⟨hres, by simp [hformat]⟩).2
    exact ⟨hsize, by simp [hformat]⟩
  | some verifier =>
    have hpass := (hverified.mp ⟨hres, by simp [hformat]⟩).2
    obtain ⟨hsize, hclean⟩ := verifyFile_passes.mp hpass
    refine ⟨hsize, fun verifier hv => ⟨hclean verifier hv, ?_⟩⟩
    have hin : p ∈ rglob d root := mem_rglob.mpr ⟨by simp [hfile], hbelow, hne⟩
    have hquietp := hquiet p hin
    simpa [raisesAt, hfile, hres, hsize, hv] using hquietp

def tornReading : Reading String where
  size c := c.length
  zip c := if c = "torn" then some (.truncated, "not a valid zip") else none
  gzip _ := none
  tar _ := none
  json _ := none
  npy _ := none
  escapes _ _ := none

def fieldTree (content : String) : Disk String :=
  (((((Dict.empty.set [] .dir).set ["field.npz"] (.file content)).set ["run.log"]
    (.file "done")).set ["out"] .dir).set ["out", "manifest.json"] (.file "array")).set
    ["out", "manifest.json.tmp"] (.file "")

theorem verifies_torn {p : Path} {c : String} (h : (c.length != 0 &&
    (verifierFor tornReading.toFormats (fileName p)).all fun verifier => (verifier c).isNone) =
      true) : Verifies tornReading p c := by
  obtain ⟨hsize, hclean⟩ := Bool.and_eq_true_iff.mp h
  refine ⟨bne_iff_ne.mp hsize, fun verifier hv => ⟨?_, rfl⟩⟩
  rw [hv] at hclean
  exact Option.isNone_iff_eq_none.mp hclean

theorem fieldTree_exact : ∃ r, verifyRequired tornReading (fieldTree "array") []
    [["out", "manifest.json"]] = .ok r ∧
      Exact tornReading (fieldTree "array") [] [["out", "manifest.json"]] r := by
  refine (accounting_iff (by decide)).mpr fun p c hfile _ hne hres => ?_
  simp only [fieldTree, Dict.get_set, if_neg hne, Dict.get_empty] at hfile
  split_ifs at hfile with htmp hmanifest hout hlog hfield
  · subst htmp
    exact absurd hres (by decide +kernel)
  · cases hfile
    subst hmanifest
    exact verifies_torn (by decide +kernel)
  · cases hfile
  · cases hfile
    subst hlog
    exact verifies_torn (by decide +kernel)
  · cases hfile
    subst hfield
    exact verifies_torn (by decide +kernel)

/-- A truncated archive is both verified and a fatal problem. -/
theorem torn_counted_twice : ¬ (∀ (X : Reading String) (d : Disk String) (root : Path)
    (require : List Path), d root = some .dir →
    ∃ r, verifyRequired X d root require = .ok r ∧ Exact X d root require r) := by
  intro h
  obtain ⟨r, hreport, hexact⟩ := h tornReading (fieldTree "torn") [] [] (by decide)
  have hverified : (verifyRequired tornReading (fieldTree "torn") [] []).toOption.map
      (fun r => decide (["field.npz"] ∈ r.verified)) = some true := by
    decide +kernel
  rw [hreport] at hverified
  have hmem : ["field.npz"] ∈ r.verified := of_decide_eq_true (Option.some.inj hverified)
  have hothers := hexact.others ["field.npz"] "torn" (by decide) (by decide) (by decide)
    (by decide +kernel)
  exact absurd (hothers.1.mp hmem).2 (by decide +kernel)

end RunFarm
