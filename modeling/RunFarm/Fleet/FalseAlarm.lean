import RunFarm.Arrival.Report
import RunFarm.Fleet.Leg

/-! Whether the artifact gate reports an intact transfer as damaged. -/
set_option autoImplicit false

namespace RunFarm
open Files

variable {α : Type}

/-- `p.name`. -/
def nameOf (p : Path) : String := p.getLast?.getD ""

/-- `p.suffix`, in lower case. -/
def finalSuffix (p : Path) : String := (suffixes (nameOf p)).getLast?.getD ""

def IntactFile (F : Formats α) (p : Path) (c : α) : Prop :=
  F.size c ≠ 0 ∧ ((verifiers F).lookup (finalSuffix p) = none ∨
    ∃ verifier, verifierFor F (nameOf p) = some verifier ∧ verifier c = none)

def Fetched (leg : FleetLeg α) (d : Disk α) : Prop := (d (parts (basename leg.fetch))).isSome

instance (leg : FleetLeg α) (d : Disk α) : Decidable (Fetched leg d) :=
  inferInstanceAs (Decidable (_ = true))

def IntactTransfer (F : Formats α) (leg : FleetLeg α) (d : Disk α) : Prop :=
  ∀ p c, target leg d <+: p → d p = some (.file c) → IntactFile F p c

/-- The last suffix but one is `.tar`, whatever the last one is. -/
def TarNamed (p : Path) : Prop := (suffixes (nameOf p)).reverse[1]? = some ".tar"

instance (p : Path) : Decidable (TarNamed p) := inferInstanceAs (Decidable (_ = _))

def TarsRead (F : Formats α) (leg : FleetLeg α) (d : Disk α) : Prop :=
  ∀ p c, target leg d <+: p → d p = some (.file c) → isResidue p = false → TarNamed p →
    F.tar c = none

theorem verifierFor_tar {F : Formats α} {p : Path} (h : TarNamed p) :
    verifierFor F (nameOf p) = some F.tar := by
  rw [TarNamed] at h
  simp [verifierFor, h]

theorem verifierFor_plain {F : Formats α} {p : Path} (h : ¬ TarNamed p) :
    verifierFor F (nameOf p) = (verifiers F).lookup (finalSuffix p) := by
  rw [TarNamed] at h
  simp [verifierFor, h, finalSuffix, List.head?_reverse]

theorem verifyFile_none {F : Formats α} {p : Path} {c : α} :
    verifyFile F p c = none ↔ F.size c ≠ 0 ∧
      ∀ verifier, verifierFor F (nameOf p) = some verifier → verifier c = none := by
  have hname : p.getLast?.getD "" = nameOf p := rfl
  rw [verifyFile, hname]
  by_cases hsize : F.size c = 0
  · simp [hsize]
  · cases verifierFor F (nameOf p) <;> simp [hsize]

theorem IntactFile.verifies {F : Formats α} {p : Path} {c : α} (h : IntactFile F p c) :
    verifyFile F p c = none ↔ (TarNamed p → F.tar c = none) := by
  obtain ⟨hsize, hformat⟩ := h
  rw [verifyFile_none]
  by_cases htar : TarNamed p
  · simp [verifierFor_tar htar, htar, hsize]
  · rcases hformat with hnone | ⟨verifier, hfound, hpasses⟩
    · simp [verifierFor_plain htar, hnone, htar, hsize]
    · simp [hfound, hpasses, htar, hsize]

theorem target_fetched {leg : FleetLeg α} {d : Disk α} (h : Fetched leg d) :
    target leg d = parts (basename leg.fetch) := by
  rw [Fetched] at h
  simp [target, h]

theorem validate_none {ex : Executor α} {leg : FleetLeg α} {d : Disk α} (hfetch : leg.fetch ≠ "") :
    ex.validate leg d = none ↔
      ex.validateArtifacts = false ∨ (verifyReport ex.formats d (target leg d)).ok = true := by
  unfold Executor.validate Executor.validates refusal
  cases ex.validateArtifacts with
  | false => simp
  | true =>
    cases (verifyReport ex.formats d (target leg d)).ok <;> simp [hfetch]

/-- The gate is silent about an intact transfer exactly where it is switched off, or a directory
was fetched whose files that are named as tars are tars. -/
theorem validate_silent_iff (ex : Executor α) (leg : FleetLeg α) (d : Disk α)
    (hfetch : leg.fetch ≠ "") (hfetched : Fetched leg d)
    (hintact : IntactTransfer ex.formats leg d) :
    ex.validate leg d = none ↔ ex.validateArtifacts = false ∨
      d (parts (basename leg.fetch)) = some .dir ∧ TarsRead ex.formats leg d := by
  rw [validate_none hfetch, verifyReport_ok, target_fetched hfetched]
  refine or_congr_right (and_congr_right fun hdir => ?_)
  unfold TarsRead
  unfold IntactTransfer at hintact
  rw [target_fetched hfetched] at hintact ⊢
  constructor
  · intro hnone p c hbelow hfile hres htar
    have hne : p ≠ parts (basename leg.fetch) := by
      intro heq
      rw [heq, hdir] at hfile
      cases hfile
    by_contra htorn
    refine hnone p hbelow hne ⟨c, hfile, hres, fun hverify => htorn ?_⟩
    exact (hintact p c hbelow hfile).verifies.mp hverify htar
  · rintro htars p hbelow hne ⟨c, hfile, hres, hfails⟩
    exact hfails ((hintact p c hbelow hfile).verifies.mpr (htars p c hbelow hfile hres))

def sizeFormats : Formats Nat where
  size n := n
  zip _ := none
  gzip _ := none
  tar n := if n = 1 then some (.truncated, "tar integrity failed") else none
  json _ := none
  npy _ := none

def gatedExecutor : Executor Nat := { formats := sizeFormats }

def fileLeg : FleetLeg Nat := { label := "arm0", fetch := "out/field.npz" }

def fileFetched : Disk Nat := ⟨[([], .dir), (["field.npz"], .file 86)], by decide⟩

theorem fileFetched_intact : IntactTransfer sizeFormats fileLeg fileFetched := by
  intro p c _ hfile
  have hmem : (p, Entry.file c) ∈ fileFetched.items := Python.Dict.mem_items.mpr hfile
  obtain ⟨rfl, rfl⟩ : p = ["field.npz"] ∧ c = 86 := by simpa [fileFetched] using hmem
  have hsuffix : finalSuffix ["field.npz"] = ".npz" := by decide +kernel
  have hformat : verifierFor sizeFormats (nameOf ["field.npz"]) = some sizeFormats.zip := by
    rw [verifierFor_plain (by decide +kernel), hsuffix]
    rfl
  exact ⟨by decide, .inr ⟨sizeFormats.zip, hformat, rfl⟩⟩

theorem fileFetched_refused : gatedExecutor.validate fileLeg fileFetched =
      some "field.npz: [missing] output root is not a directory" ∧
    ¬ ∀ (ex : Executor Nat) (leg : FleetLeg Nat) (d : Disk Nat), leg.fetch ≠ "" →
      Fetched leg d → IntactTransfer ex.formats leg d → ex.validate leg d = none := by
  have hrefused : gatedExecutor.validate fileLeg fileFetched =
      some "field.npz: [missing] output root is not a directory" := by decide +kernel
  refine ⟨hrefused, fun h => ?_⟩
  rw [h gatedExecutor fileLeg fileFetched (by decide) (by decide +kernel) fileFetched_intact]
    at hrefused
  cases hrefused

def treeLeg : FleetLeg Nat := { label := "arm1", fetch := "out" }

def treeFetched : Disk Nat :=
  ⟨[([], .dir), (["out"], .dir), (["out", "runs.tar.sha256"], .file 1)], by decide⟩

theorem treeFetched_intact : IntactTransfer sizeFormats treeLeg treeFetched := by
  intro p c _ hfile
  have hmem : (p, Entry.file c) ∈ treeFetched.items := Python.Dict.mem_items.mpr hfile
  obtain ⟨rfl, rfl⟩ : p = ["out", "runs.tar.sha256"] ∧ c = 1 := by
    simpa [treeFetched] using hmem
  have hsuffix : finalSuffix ["out", "runs.tar.sha256"] = ".sha256" := by decide +kernel
  refine ⟨by decide, .inl ?_⟩
  rw [hsuffix]
  rfl

theorem treeFetched_refused : gatedExecutor.validate treeLeg treeFetched ≠ none := by
  intro hsilent
  have hreads := (validate_silent_iff gatedExecutor treeLeg treeFetched (by decide)
    (by decide +kernel) treeFetched_intact).mp hsilent
  rcases hreads with hoff | ⟨-, htars⟩
  · cases hoff
  · have htar := htars ["out", "runs.tar.sha256"] 1 (by decide +kernel) rfl (by decide +kernel)
      (by decide +kernel)
    cases htar

end RunFarm
