import Mathlib.Data.List.Dedup
import Mathlib.Data.List.Pairwise
import Mathlib.Data.List.ProdSigma
import RunFarm.Governed.FarmCampaign
import RunFarm.Python.JsonTokens

/-! `legs` of a sweep: the cross product of arms, replicates and grid cells, and the default
names of its legs. -/
set_option autoImplicit false

namespace RunFarm
open Python

abbrev GridCell := Dict String Value

structure SweepLeg where
  rid : String
  arm : String
  replicate : Int
  seed : Int
  cfg : GridCell

/-- The axes of a campaign, each without repetition. -/
structure SweepAxes where
  arms : List String
  replicates : List Int
  grid : Option (List GridCell)
  arms_nodup : arms.Nodup
  replicates_nodup : replicates.Nodup
  cells_distinct : ∀ cells, grid = some cells → cells.Pairwise fun c c' => ∃ k, c.get k ≠ c'.get k

namespace SweepAxes

/-- `f"{k}{cell[k]}" for k in sorted(cell)`. -/
def entryTexts (I : Interp) (cell : GridCell) : List String :=
  (cell.items.insertionSort fun e e' => e.1 ≤ e'.1).map fun e => e.1 ++ I.str e.2

/-- The `rid_fn` of a call that is given none. -/
def defaultRid (I : Interp) (arm : String) (rep : Int) (cell : GridCell) : String :=
  let tail := "_".intercalate (entryTexts I cell)
  arm ++ "_r" ++ toString rep ++ (if tail ≠ "" then "_" ++ tail else "")

/-- `list(grid) if grid is not None else [{}]`. -/
def cellsOf (grid : Option (List GridCell)) : List GridCell := grid.getD [Dict.empty]

def legs (I : Interp) (arms : List String) (replicates : List Int) (grid : Option (List GridCell))
    (seedFn : String → Int → GridCell → Int)
    (ridFn : Option (String → Int → GridCell → String)) : List SweepLeg :=
  arms.flatMap fun arm => replicates.flatMap fun rep => (cellsOf grid).map fun cell =>
    { rid := ridFn.getD (defaultRid I) arm rep cell
      arm := arm
      replicate := rep
      seed := seedFn arm rep cell
      cfg := cell }

end SweepAxes

def SweepLeg.axes (l : SweepLeg) : String × Int × GridCell := (l.arm, l.replicate, l.cfg)

/-- The leg as `plan` reads it. -/
def SweepLeg.leg (l : SweepLeg) : Leg where
  rid := l.rid
  cfg := l.cfg.items.map (Prod.map .str id)
  more := [(.str "arm", .str l.arm), (.str "replicate", .int l.replicate),
    (.str "seed", .int l.seed)]

namespace SweepAxes

def cells (S : SweepAxes) : List GridCell := cellsOf S.grid

/-- What `plan` is given of a sweep with the default names. -/
def defaultLegs (I : Interp) (S : SweepAxes) (seedFn : String → Int → GridCell → Int) :
    List SweepLeg := legs I S.arms S.replicates S.grid seedFn none

/-- The legs are the cross product, each of its points once, and no two have one name. -/
structure Unique (I : Interp) (S : SweepAxes) (seedFn : String → Int → GridCell → Int) : Prop where
  order : (S.defaultLegs I seedFn).map SweepLeg.axes =
    S.arms ×ˢ S.replicates ×ˢ S.cells
  once : ((S.defaultLegs I seedFn).map SweepLeg.axes).Nodup
  rids : ((S.defaultLegs I seedFn).map SweepLeg.rid).Nodup
  planned : FarmCampaign.duplicates ((S.defaultLegs I seedFn).map SweepLeg.leg) = []

def words (cs : List Char) : List (List Char) := cs.splitOn '_'

def repWord (rep : Int) : List Char := 'r' :: (toString rep).toList

/-- The words of the entries of a cell, each its name and its value with nothing between; a
cell whose entries have no text has none. -/
def cellWords (I : Interp) (cell : GridCell) : List (List Char) :=
  let ws := (entryTexts I cell).flatMap fun t => words t.toList
  if ws = [[]] then [] else ws

/-- The second arm goes on from the first with the word of its replicate and some words
`more`, and the words of the first cell are `more`, the word of the second replicate and the words
of the second cell. -/
def Straddle (I : Interp) (arm : String) (rep : Int) (c : GridCell) (arm' : String) (rep' : Int)
    (c' : GridCell) : Prop :=
  ∃ more, words arm'.toList = words arm.toList ++ repWord rep :: more ∧
    cellWords I c = more ++ repWord rep' :: cellWords I c'

/-- No two cells have the same words, and no arm and cell straddle another arm and cell. -/
structure Separated (I : Interp) (S : SweepAxes) : Prop where
  cells : S.arms ≠ [] → S.replicates ≠ [] →
    S.cells.Pairwise fun c c' => cellWords I c ≠ cellWords I c'
  arms : ∀ arm ∈ S.arms, ∀ rep ∈ S.replicates, ∀ c ∈ S.cells, ∀ arm' ∈ S.arms,
    ∀ rep' ∈ S.replicates, ∀ c' ∈ S.cells, ¬ Straddle I arm rep c arm' rep' c'

theorem words_append (cs ds : List Char) : words (cs ++ '_' :: ds) = words cs ++ words ds :=
  List.splitOn_append_cons_self cs ds

theorem words_injective : Function.Injective words := by
  intro cs ds h
  have hcs : ['_'].intercalate (words cs) = cs := List.intercalate_splitOn '_'
  have hds : ['_'].intercalate (words ds) = ds := List.intercalate_splitOn '_'
  rw [← hcs, ← hds, h]

theorem words_single {cs : List Char} (h : '_' ∉ cs) : words cs = [cs] :=
  List.splitOn_eq_singleton h

theorem words_intercalate (ts : List (List Char)) (h : ts ≠ []) :
    words (['_'].intercalate ts) = ts.flatMap words := by
  induction ts with
  | nil => exact absurd rfl h
  | cons t ts ih =>
    cases ts with
    | nil => simp
    | cons u us =>
      rw [List.intercalate_cons_cons, List.append_assoc, List.singleton_append, words_append,
        ih (by simp)]
      rfl

theorem underscore_not_digit {ds : List Char} (h : ∀ c ∈ ds, c.isDigit) : '_' ∉ ds :=
  fun hmem => absurd (h '_' hmem) (by decide)

theorem words_repWord (rep : Int) : words (repWord rep) = [repWord rep] := by
  refine words_single fun hmem => ?_
  rw [repWord, List.mem_cons] at hmem
  obtain hr | hmem := hmem
  · exact absurd hr (by decide)
  · obtain hwhole | ⟨ds, hds, hwhole⟩ := isInteger_int rep
    · exact underscore_not_digit hwhole.digits hmem
    · rw [hds, List.mem_cons] at hmem
      exact underscore_not_digit hwhole.digits (hmem.resolve_left (by decide))

theorem repWord_injective : Function.Injective repWord := by
  intro rep rep' h
  rw [repWord, repWord, List.cons.injEq] at h
  rw [← intOfText_int rep, ← intOfText_int rep', h.2]

variable {I : Interp}

theorem tail_words (cell : GridCell) :
    (if "_".intercalate (entryTexts I cell) = "" then [] else
      words ("_".intercalate (entryTexts I cell)).toList) = cellWords I cell := by
  unfold cellWords
  by_cases hnil : entryTexts I cell = []
  · rw [hnil]
    rfl
  · have hwords : words ("_".intercalate (entryTexts I cell)).toList =
        (entryTexts I cell).flatMap fun t => words t.toList := by
      rw [String.toList_intercalate]
      change words (['_'].intercalate _) = _
      rw [words_intercalate _ (by simpa using hnil), List.flatMap_map]
    have hempty : "_".intercalate (entryTexts I cell) = "" ↔
        words ("_".intercalate (entryTexts I cell)).toList = [[]] := by
      rw [← String.toList_inj, ← words_injective.eq_iff]
      rfl
    dsimp only
    rw [← hwords]
    split <;> simp_all

theorem words_defaultRid (arm : String) (rep : Int) (cell : GridCell) :
    words (defaultRid I arm rep cell).toList =
      words arm.toList ++ repWord rep :: cellWords I cell := by
  have hhead : (arm ++ "_r" ++ toString rep).toList = arm.toList ++ '_' :: repWord rep := by
    rw [String.toList_append, String.toList_append, List.append_assoc]
    rfl
  rw [← tail_words]
  unfold defaultRid
  dsimp only
  by_cases htail : "_".intercalate (entryTexts I cell) = ""
  · rw [if_neg (not_not_intro htail), if_pos htail, String.append_empty, hhead, words_append,
      words_repWord]
  · rw [if_pos htail, if_neg htail, String.toList_append, hhead, String.toList_append,
      List.append_assoc, List.cons_append, words_append]
    change words arm.toList ++ words (repWord rep ++ '_' :: _) = _
    rw [words_append, words_repWord, List.singleton_append]
    rfl

theorem collide_iff {arm arm' : String} {rep rep' : Int} {c c' : GridCell} :
    defaultRid I arm rep c = defaultRid I arm' rep' c' ↔
      (arm = arm' ∧ rep = rep' ∧ cellWords I c = cellWords I c') ∨
        Straddle I arm rep c arm' rep' c' ∨ Straddle I arm' rep' c' arm rep c := by
  rw [← String.toList_inj, ← words_injective.eq_iff, words_defaultRid, words_defaultRid]
  constructor
  · intro h
    obtain ⟨more, harm, hrest⟩ | ⟨more, harm, hrest⟩ := List.append_eq_append_iff.mp h
    · cases more with
      | nil =>
        rw [List.nil_append, List.cons.injEq] at hrest
        rw [List.append_nil] at harm
        exact .inl ⟨(String.toList_inj.mp (words_injective harm)).symm,
          repWord_injective hrest.1, hrest.2⟩
      | cons word more =>
        rw [List.cons_append, List.cons.injEq] at hrest
        obtain ⟨rfl, hcell⟩ := hrest
        exact .inr (.inl ⟨more, harm, hcell⟩)
    · cases more with
      | nil =>
        rw [List.nil_append, List.cons.injEq] at hrest
        rw [List.append_nil] at harm
        exact .inl ⟨String.toList_inj.mp (words_injective harm),
          (repWord_injective hrest.1).symm, hrest.2.symm⟩
      | cons word more =>
        rw [List.cons_append, List.cons.injEq] at hrest
        obtain ⟨rfl, hcell⟩ := hrest
        exact .inr (.inr ⟨more, harm, hcell⟩)
  · rintro (⟨rfl, rfl, hcell⟩ | ⟨more, harm, hcell⟩ | ⟨more, harm, hcell⟩)
    · rw [hcell]
    · rw [harm, hcell]
      simp
    · rw [harm, hcell]
      simp

theorem straddle_ne {arm arm' : String} {rep rep' : Int} {c c' : GridCell}
    (h : Straddle I arm rep c arm' rep' c') : arm ≠ arm' := by
  rintro rfl
  obtain ⟨more, harm, -⟩ := h
  simpa using congrArg List.length harm

variable {S : SweepAxes} {seedFn : String → Int → GridCell → Int}

theorem axes_defaultLegs : (S.defaultLegs I seedFn).map SweepLeg.axes =
    S.arms ×ˢ S.replicates ×ˢ S.cells := by
  simp only [defaultLegs, legs, SweepAxes.cells, SProd.sprod, List.product, List.map_flatMap,
    List.map_map]
  rfl

theorem rids_defaultLegs : (S.defaultLegs I seedFn).map SweepLeg.rid =
    (S.arms ×ˢ S.replicates ×ˢ S.cells).map fun p =>
      defaultRid I p.1 p.2.1 p.2.2 := by
  simp only [defaultLegs, legs, SweepAxes.cells, SProd.sprod, List.product, List.map_flatMap,
    List.map_map]
  rfl

theorem mem_points {arm : String} {rep : Int} {c : GridCell} :
    (arm, rep, c) ∈ S.arms ×ˢ S.replicates ×ˢ S.cells ↔
      arm ∈ S.arms ∧ rep ∈ S.replicates ∧ c ∈ S.cells := by
  rw [List.mem_product, List.mem_product]

theorem cells_nodup : S.cells.Nodup := by
  unfold SweepAxes.cells cellsOf
  cases hgrid : S.grid with
  | none => exact List.nodup_singleton _
  | some cells =>
    refine (S.cells_distinct cells hgrid).imp ?_
    rintro c c' ⟨k, hk⟩ rfl
    exact hk rfl

theorem axes_nodup : ((S.defaultLegs I seedFn).map SweepLeg.axes).Nodup := by
  rw [axes_defaultLegs]
  exact S.arms_nodup.product (S.replicates_nodup.product cells_nodup)

theorem duplicates_eq_nil {legs : List Leg} :
    FarmCampaign.duplicates legs = [] ↔ (legs.map Leg.rid).Nodup := by
  rw [FarmCampaign.duplicates, List.filter_eq_nil_iff, List.nodup_iff_count_le_one]
  simp only [List.mem_dedup, decide_eq_true_eq, Nat.not_le]
  constructor
  · intro h rid
    by_cases hmem : rid ∈ legs.map Leg.rid
    · exact Nat.le_of_lt_succ (h rid hmem)
    · rw [List.count_eq_zero_of_not_mem hmem]
      exact Nat.zero_le 1
  · intro h rid _
    exact Nat.lt_succ_of_le (h rid)

theorem rids_nodup_iff (S : SweepAxes) (seedFn : String → Int → GridCell → Int) :
    ((S.defaultLegs I seedFn).map SweepLeg.rid).Nodup ↔ S.Separated I := by
  have hpoints : (S.arms ×ˢ S.replicates ×ˢ S.cells).Nodup :=
    S.arms_nodup.product (S.replicates_nodup.product cells_nodup)
  rw [rids_defaultLegs, List.nodup_map_iff_inj_on hpoints]
  constructor
  · intro hinj
    refine ⟨fun harms hreps => ?_, ?_⟩
    · obtain ⟨arm, harm⟩ := List.exists_mem_of_ne_nil _ harms
      obtain ⟨rep, hrep⟩ := List.exists_mem_of_ne_nil _ hreps
      refine cells_nodup.pairwise_of_forall_ne fun c hc c' hc' hne hwords => hne ?_
      have heq := hinj (arm, rep, c) (mem_points.mpr ⟨harm, hrep, hc⟩) (arm, rep, c')
        (mem_points.mpr ⟨harm, hrep, hc'⟩) (collide_iff.mpr (.inl ⟨rfl, rfl, hwords⟩))
      exact congrArg (fun p => p.2.2) heq
    · intro arm harm rep hrep c hc arm' harm' rep' hrep' c' hc' hstraddle
      have heq := hinj (arm, rep, c) (mem_points.mpr ⟨harm, hrep, hc⟩) (arm', rep', c')
        (mem_points.mpr ⟨harm', hrep', hc'⟩) (collide_iff.mpr (.inr (.inl hstraddle)))
      exact straddle_ne hstraddle (congrArg Prod.fst heq)
  · rintro ⟨hcells, harms⟩ ⟨arm, rep, c⟩ hp ⟨arm', rep', c'⟩ hp' heq
    obtain ⟨harm, hrep, hc⟩ := mem_points.mp hp
    obtain ⟨harm', hrep', hc'⟩ := mem_points.mp hp'
    obtain ⟨rfl, rfl, hwords⟩ | hstraddle | hstraddle := collide_iff.mp heq
    · have hapart := hcells (List.ne_nil_of_mem harm) (List.ne_nil_of_mem hrep)
      have hsame : c = c' := by
        by_contra hne
        have : Std.Symm fun c c' => cellWords I c ≠ cellWords I c' := ⟨fun _ _ h => h.symm⟩
        exact hapart.forall hc hc' hne hwords
      rw [hsame]
    · exact absurd hstraddle (harms arm harm rep hrep c hc arm' harm' rep' hrep' c' hc')
    · exact absurd hstraddle (harms arm' harm' rep' hrep' c' hc' arm harm rep hrep c hc)

/-- The default names tell the legs of a sweep apart exactly when the words of its axes do. -/
theorem unique_iff (I : Interp) (S : SweepAxes) (seedFn : String → Int → GridCell → Int) :
    S.Unique I seedFn ↔ S.Separated I := by
  rw [← rids_nodup_iff S seedFn]
  have hleg : ((S.defaultLegs I seedFn).map SweepLeg.leg).map Leg.rid =
      (S.defaultLegs I seedFn).map SweepLeg.rid := by
    rw [List.map_map]
    rfl
  constructor
  · exact Unique.rids
  · intro hrids
    exact ⟨axes_defaultLegs, axes_nodup, hrids, duplicates_eq_nil.mpr (by rw [hleg]; exact hrids)⟩

/-- A parameter `k` and a parameter `k1`. -/
def nextParameter : SweepAxes where
  arms := ["ctrl"]
  replicates := [0]
  grid := some [Dict.empty.set "k" (.int 11), Dict.empty.set "k1" (.int 1)]
  arms_nodup := List.nodup_singleton _
  replicates_nodup := List.nodup_singleton _
  cells_distinct := by
    rintro cells ⟨⟩
    refine List.pairwise_pair.mpr ⟨"k", fun h => ?_⟩
    exact absurd (congrArg Option.isSome h) (by decide)

theorem one_name_twice : ¬ (∀ (I : Interp) (S : SweepAxes)
    (seedFn : String → Int → GridCell → Int), S.Unique I seedFn) := by
  intro h
  have hrids := (h sampleInterp nextParameter fun _ _ _ => 0).rids
  exact absurd hrids (by decide +kernel)

end SweepAxes

end RunFarm
