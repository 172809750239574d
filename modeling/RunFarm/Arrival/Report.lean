import RunFarm.Arrival.Verify

/-! What the files of a tree bring into its report. -/
set_option autoImplicit false

namespace RunFarm
open Files Python

variable {α : Type} {F : Formats α} {d : Disk α} {p root : Path}

def problemsAt (F : Formats α) (d : Disk α) (p : Path) : List ArrivalProblem :=
  (scanPath F d { root := [] } p).problems

theorem scanPath_problems (r : ArrivalReport) (p : Path) :
    (scanPath F d r p).problems = r.problems ++ problemsAt F d p := by
  unfold problemsAt scanPath
  cases d p with
  | none => simp
  | some e =>
    cases e with
    | dir => simp
    | file c =>
      simp only [scanFile]
      split
      · simp
      · split <;> simp

theorem scan_problems (r : ArrivalReport) (paths : List Path) :
    (paths.foldl (scanPath F d) r).problems = r.problems ++ paths.flatMap (problemsAt F d) := by
  induction paths generalizing r with
  | nil => simp
  | cons p paths ih => rw [List.foldl_cons, ih, scanPath_problems, List.flatMap_cons,
      List.append_assoc]

theorem verifyFile_fatal {c : α} {problem : ArrivalProblem} (h : verifyFile F p c = some problem) :
    problem.fatal = true := by
  unfold verifyFile at h
  split at h
  · cases h
    rfl
  · split at h
    · cases h
    · obtain ⟨e, _, rfl⟩ := Option.map_eq_some_iff.mp h
      rfl

def Fails (F : Formats α) (d : Disk α) (p : Path) : Prop :=
  ∃ c, d p = some (.file c) ∧ isResidue p = false ∧ verifyFile F p c ≠ none

theorem problemsAt_file {c : α} (hfile : d p = some (.file c)) (hres : isResidue p = false) :
    problemsAt F d p = (verifyFile F p c).toList := by
  simp only [problemsAt, scanPath, hfile, scanFile, hres, Bool.false_eq_true, if_false]
  split <;> simp

theorem problemsAt_fatal :
    (problemsAt F d p).any ArrivalProblem.fatal = true ↔ Fails F d p := by
  unfold Fails
  cases hentry : d p with
  | none => simp [problemsAt, scanPath, hentry]
  | some e =>
    cases e with
    | dir => simp [problemsAt, scanPath, hentry]
    | file c =>
      cases hres : isResidue p with
      | true => simp [problemsAt, scanPath, hentry, scanFile, hres]
      | false =>
        rw [problemsAt_file hentry hres]
        cases hverify : verifyFile F p c with
        | none => simp [hverify]
        | some problem => simp [hverify, verifyFile_fatal hverify]

theorem mem_rglob : p ∈ rglob d root ↔ (d p).isSome ∧ root <+: p ∧ p ≠ root := by
  rw [rglob, List.mem_insertionSort, List.mem_filter, Dict.isSome_get]
  simp

theorem closeReport_ok (r : ArrivalReport) : (closeReport r).ok = r.ok := by
  unfold closeReport
  split <;> simp [ArrivalReport.ok]

theorem verifyReport_ok :
    (verifyReport F d root).ok = true ↔
      d root = some .dir ∧ ∀ p, root <+: p → p ≠ root → ¬ Fails F d p := by
  unfold verifyReport listRoot
  cases hroot : d root with
  | none => simp [ArrivalReport.ok]
  | some e =>
    cases e with
    | file c => simp [ArrivalReport.ok]
    | dir =>
      simp only [closeReport_ok, true_and]
      rw [ArrivalReport.ok, scan_problems, List.nil_append, List.any_flatMap, Bool.not_eq_true',
        List.any_eq_false]
      simp only [problemsAt_fatal, mem_rglob]
      constructor
      · intro h p hbelow hne hfails
        obtain ⟨c, hfile, _⟩ := id hfails
        exact h p ⟨by simp [hfile], hbelow, hne⟩ hfails
      · intro h p hp
        exact h p hp.2.1 hp.2.2

end RunFarm
