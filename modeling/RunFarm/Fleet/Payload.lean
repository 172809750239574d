import Mathlib.Data.List.Pairwise
import RunFarm.Fleet.Leg
import RunFarm.Python.Fallible
import RunFarm.Renting.RentCall

/-! The local check of a payload, which copies it flat, and the copies that a leg ships. -/
set_option autoImplicit false

namespace RunFarm
open Files Python

variable {α : Type}

/-- `Path(s).name`. -/
def pathName (s : String) : String := (parts s).getLast?.getD ""

/-- `Path(s).parent`. -/
def pathParent (s : String) : String :=
  let text := (if s.toList.head? = some '/' then "/" else "") ++
    "/".intercalate (parts s).dropLast
  if text = "" then "." else text

inductive FlatKind where
  | missingFile | nameCollision
  deriving DecidableEq, Repr

structure FlatProblem where
  kind : FlatKind
  detail : String
  deriving DecidableEq, Repr

/-- The machine that checks and ships. `find` is what is at a path, and `scp` what a recursive
copy of its argument takes up under the last name of it, or the output of a copy that fails.
`expanduser` may replace the first name of a path; the last one of a file stays. -/
structure LocalMachine (α : Type) where
  expanduser : String → Except Exc String
  find : String → Option (Node α)
  resolve : String → String
  scp : String → Except String (Node α)
  same : ∀ p q, resolve p = resolve q → find p = find q
  last : ∀ f p c, expanduser f = .ok p → find p = some (.file c) → pathName p = pathName f

namespace LocalMachine
variable (M : LocalMachine α)

/-- The problem with `p` if another path of its name has been seen. -/
def clash (seen : Dict String String) (p : String) : List FlatProblem :=
  match seen.get (pathName p) with
  | some q =>
    if M.resolve q ≠ M.resolve p then
      [⟨.nameCollision, pathName p ++ " ships from both " ++ pathParent q ++ " and " ++
        pathParent p ++ "; flattening keeps only one"⟩]
    else []
  | none => []

/-- The loop over `spec.files`: the problems, and the paths to copy. -/
def flatten : List String → Dict String String → Except Exc (List FlatProblem × List String)
  | [], _ => .ok ([], [])
  | f :: files, seen => do
    let p ← M.expanduser f
    match M.find p with
    | none =>
      let rest ← flatten files seen
      pure (⟨.missingFile, p ++ " does not exist"⟩ :: rest.1, rest.2)
    | some _ =>
      let rest ← flatten files (seen.set (pathName p) p)
      pure (M.clash seen p ++ rest.1, p :: rest.2)

def copy2 (p : String) : Except Exc (String × Node α) :=
  match M.find p with
  | some (.file c) => .ok (pathName p, .file c)
  | some (.dir _) =>
    .error ⟨.other "IsADirectoryError", none, "[Errno 21] Is a directory: '" ++ p ++ "'"⟩
  | none =>
    .error ⟨.other "FileNotFoundError", none,
      "[Errno 2] No such file or directory: '" ++ p ++ "'"⟩

/-- `validate_flat` until it runs something: it raises, or returns the problems, or has made the
entries of the flat directory. -/
def stage (files : List String) :
    Except Exc (Except (List FlatProblem) (List (String × Node α))) := do
  let found ← M.flatten files Dict.empty
  if found.1 ≠ [] then pure (.error found.1)
  else
    let entries ← found.2.mapM M.copy2
    pure (.ok entries)

def scpUp (hostId src : String) : Except Exc (String × Node α) :=
  match M.scp src with
  | .ok node => .ok (pathName src, node)
  | .error out => .error (probeFailed ("scp-up " ++ src ++ " -> " ++ hostId ++ " failed: " ++
      String.ofList (out.toList.drop (out.length - 160))))

/-- `_ship`: what it lands in the remote work directory. -/
def ship (hostId : String) (files : List String) : Except Exc (List (String × Node α)) :=
  files.mapM (M.scpUp hostId)

/-- `Path(f).expanduser()`, where it does not raise. -/
def path (f : String) : String := (M.expanduser f).toOption.getD f

def Missing (files : List String) : Prop := ∃ f ∈ files, M.find (M.path f) = none

def Collide (f g : String) : Prop :=
  pathName (M.path f) = pathName (M.path g) ∧ M.resolve (M.path f) ≠ M.resolve (M.path g)

def Defective (files : List String) : Prop :=
  M.Missing files ∨ ∃ f ∈ files, ∃ g ∈ files, M.Collide f g

/-- The staging does not raise, reports the defects and no others, and otherwise makes the entries
that are shipped. -/
structure Agrees (hostId : String) (files : List String) : Prop where
  returns : ∃ found, M.stage files = .ok found
  reports : (∃ problems, M.stage files = .ok (.error problems)) ↔ M.Defective files
  builds : ∀ staged, M.stage files = .ok (.ok staged) → ∃ landed, M.ship hostId files = .ok landed ∧
    ∀ e, e ∈ staged ↔ e ∈ landed

def Plain (f : String) : Prop := ∃ c, M.find (M.path f) = some (.file c) ∧ M.scp f = .ok (.file c)

/-- `expanduser` finds every home directory; and something is missing or collides, or every path
is a file that the copy finds as well. -/
structure Flat (files : List String) : Prop where
  expands : ∀ f ∈ files, M.expanduser f = .ok (M.path f)
  plain : M.Defective files ∨ ∀ f ∈ files, M.Plain f

/-- The paths exist, none collides with what has been seen of its name, and no two of them
collide. -/
structure Clean (seen : Dict String String) (files : List String) : Prop where
  exist : ∀ f ∈ files, M.find (M.path f) ≠ none
  seen : ∀ f ∈ files, ∀ q, seen.get (pathName (M.path f)) = some q →
    M.resolve q = M.resolve (M.path f)
  apart : files.Pairwise fun f g => ¬ M.Collide f g

variable {M} {files : List String} {f : String}

theorem expanduser_path {p : String} (h : M.expanduser f = .ok p) : M.path f = p := by
  rw [path, h]
  rfl

theorem clash_nil {seen : Dict String String} {p : String} :
    M.clash seen p = [] ↔ ∀ q, seen.get (pathName p) = some q → M.resolve q = M.resolve p := by
  unfold clash
  cases seen.get (pathName p) with
  | none => simp
  | some q => simp

/-- A path that exists is clean with those after it exactly when it does not clash with what has
been seen, and those after it are clean once it has been seen. -/
theorem clean_cons {seen : Dict String String} (hexists : M.find (M.path f) ≠ none) :
    M.Clean seen (f :: files) ↔ M.clash seen (M.path f) = [] ∧
      M.Clean (seen.set (pathName (M.path f)) (M.path f)) files := by
  rw [clash_nil]
  constructor
  · rintro ⟨hexist, hseen, hapart⟩
    obtain ⟨hfirst, hrest⟩ := List.pairwise_cons.mp hapart
    refine ⟨hseen f (by simp), fun g hg => hexist g (by simp [hg]), fun g hg q hq => ?_, hrest⟩
    rw [Dict.get_set] at hq
    split at hq
    · rename_i hname
      cases hq
      by_contra hne
      exact hfirst g hg ⟨hname.symm, hne⟩
    · exact hseen g (by simp [hg]) q hq
  · rintro ⟨hfirst, hexist, hseen, hapart⟩
    refine ⟨List.forall_mem_cons.mpr ⟨hexists, hexist⟩,
      List.forall_mem_cons.mpr ⟨hfirst, fun g hg q hq => ?_⟩,
      List.pairwise_cons.mpr ⟨fun g hg hcollide => ?_, hapart⟩⟩
    · by_cases hname : pathName (M.path g) = pathName (M.path f)
      · have hsame : M.resolve (M.path f) = M.resolve (M.path g) :=
          hseen g hg (M.path f) (by rw [Dict.get_set, if_pos hname])
        rw [hname] at hq
        rw [hfirst q hq, hsame]
      · exact hseen g hg q (by rw [Dict.get_set, if_neg hname, hq])
    · have hsame : M.resolve (M.path f) = M.resolve (M.path g) :=
        hseen g hg (M.path f) (by rw [Dict.get_set, if_pos hcollide.1.symm])
      exact hcollide.2 hsame

theorem flatten_ok (seen : Dict String String)
    (h : ∀ f ∈ files, M.expanduser f = .ok (M.path f)) :
    ∃ found, M.flatten files seen = .ok found ∧ (found.1 = [] ↔ M.Clean seen files) ∧
      (found.1 = [] → found.2 = files.map M.path) := by
  induction files generalizing seen with
  | nil => exact ⟨_, rfl, iff_of_true rfl ⟨by simp, by simp, .nil⟩, fun _ => rfl⟩
  | cons f files ih =>
    obtain ⟨hf, hfiles⟩ := List.forall_mem_cons.mp h
    unfold flatten
    cases hfind : M.find (M.path f) with
    | none =>
      obtain ⟨found, hfound, -⟩ := ih seen hfiles
      refine ⟨_, by simp only [hf, bind, Except.bind, hfind, hfound]; rfl, ?_, by simp⟩
      simp only [List.cons_ne_nil, false_iff]
      intro hclean
      exact hclean.exist f (by simp) hfind
    | some node =>
      obtain ⟨found, hfound, hclean, hpaths⟩ :=
        ih (seen.set (pathName (M.path f)) (M.path f)) hfiles
      refine ⟨_, by simp only [hf, bind, Except.bind, hfind, hfound]; rfl, ?_, ?_⟩
      · rw [clean_cons (by rw [hfind]; simp), ← hclean, List.append_eq_nil_iff]
      · intro hnil
        rw [hpaths (List.append_eq_nil_iff.mp hnil).2, List.map_cons]

theorem flatten_expands {seen : Dict String String} {found : List FlatProblem × List String}
    (h : M.flatten files seen = .ok found) : ∀ f ∈ files, M.expanduser f = .ok (M.path f) := by
  induction files generalizing seen found with
  | nil => simp
  | cons f files ih =>
    simp only [flatten, bind_eq_ok] at h
    obtain ⟨p, hp, h⟩ := h
    refine List.forall_mem_cons.mpr ⟨by rw [expanduser_path hp, hp], ?_⟩
    split at h
    · obtain ⟨rest, hrest, -⟩ := bind_eq_ok.mp h
      exact ih hrest
    · obtain ⟨rest, hrest, -⟩ := bind_eq_ok.mp h
      exact ih hrest

theorem clean_iff : M.Clean Dict.empty files ↔ ¬ M.Defective files := by
  constructor
  · rintro hclean (⟨f, hf, hmissing⟩ | ⟨f, hf, g, hg, hcollide⟩)
    · exact hclean.exist f hf hmissing
    · have : Std.Symm fun f g => ¬ M.Collide f g :=
        ⟨fun f g h hcollide => h ⟨hcollide.1.symm, hcollide.2.symm⟩⟩
      exact hclean.apart.forall_of_forall (fun f _ h => h.2 rfl) hf hg hcollide
  · intro h
    refine ⟨fun f hf hmissing => h (.inl ⟨f, hf, hmissing⟩), by simp, ?_⟩
    exact List.pairwise_of_forall_mem_list fun f hf g hg hcollide =>
      h (.inr ⟨f, hf, g, hg, hcollide⟩)

theorem copy2_ok {p : String} {e : String × Node α} :
    M.copy2 p = .ok e ↔ ∃ c, M.find p = some (.file c) ∧ e = (pathName p, .file c) := by
  unfold copy2
  cases M.find p with
  | none => simp
  | some node => cases node <;> simp [eq_comm]

theorem scpUp_ok {hostId : String} {e : String × Node α} :
    M.scpUp hostId f = .ok e ↔ ∃ node, M.scp f = .ok node ∧ e = (pathName f, node) := by
  unfold scpUp
  cases M.scp f <;> simp [eq_comm]

theorem stage_eq (h : ∀ f ∈ files, M.expanduser f = .ok (M.path f)) :
    (M.Defective files ∧ ∃ problems, M.stage files = .ok (.error problems)) ∨
      (¬ M.Defective files ∧
        M.stage files = ((files.map M.path).mapM M.copy2).map Except.ok) := by
  obtain ⟨found, hfound, hclean, hpaths⟩ := flatten_ok Dict.empty h
  rw [clean_iff] at hclean
  unfold stage
  rw [hfound]
  by_cases hnil : found.1 = []
  · refine .inr ⟨hclean.mp hnil, ?_⟩
    simp only [bind, Except.bind, hnil, ne_eq, not_true_eq_false, if_false, hpaths hnil]
    cases (files.map M.path).mapM M.copy2 <;> rfl
  · refine .inl ⟨by_contra fun hnot => hnil (hclean.mpr hnot), found.1, ?_⟩
    simp only [bind, Except.bind, ne_eq, hnil, not_false_eq_true, if_true]
    rfl

theorem stage_expands {found : Except (List FlatProblem) (List (String × Node α))}
    (h : M.stage files = .ok found) : ∀ f ∈ files, M.expanduser f = .ok (M.path f) := by
  obtain ⟨flat, hflat, -⟩ := bind_eq_ok.mp h
  exact flatten_expands hflat

theorem mem_staged {staged : List (String × Node α)}
    (h : (files.map M.path).mapM M.copy2 = .ok staged) (e : String × Node α) :
    e ∈ staged ↔ ∃ f ∈ files, ∃ c, M.find (M.path f) = some (.file c) ∧
      e = (pathName (M.path f), .file c) := by
  rw [mem_mapM h]
  simp only [List.mem_map, exists_exists_and_eq_and, copy2_ok]

theorem mem_landed {hostId : String} {landed : List (String × Node α)}
    (h : M.ship hostId files = .ok landed) (e : String × Node α) :
    e ∈ landed ↔ ∃ f ∈ files, ∃ node, M.scp f = .ok node ∧ e = (pathName f, node) := by
  rw [mem_mapM h]
  simp only [scpUp_ok]

theorem plain_of_agrees {hostId : String} (h : M.Agrees hostId files)
    (hsound : ¬ M.Defective files) (hf : f ∈ files) : M.Plain f := by
  obtain ⟨found, hfound⟩ := h.returns
  have hexpands := stage_expands hfound
  obtain ⟨hdefective, -⟩ | ⟨-, hstage⟩ := stage_eq hexpands
  · exact absurd hdefective hsound
  · rw [hstage] at hfound
    cases hcopies : (files.map M.path).mapM M.copy2 with
    | error e =>
      rw [hcopies] at hfound
      cases hfound
    | ok staged =>
      obtain ⟨landed, hlanded, hsame⟩ := h.builds staged (by rw [hstage, hcopies]; rfl)
      obtain ⟨⟨_, node⟩, hnode⟩ := mapM_ok.mp ⟨landed, hlanded⟩ f hf
      obtain ⟨node', hscp, heq⟩ := scpUp_ok.mp hnode
      have hmem : (pathName f, node') ∈ landed :=
        (mem_landed hlanded _).mpr ⟨f, hf, node', hscp, rfl⟩
      obtain ⟨g, hg, c, hgfile, hgentry⟩ := (mem_staged hcopies _).mp ((hsame _).mpr hmem)
      obtain ⟨_, hffile⟩ := mapM_ok.mp ⟨staged, hcopies⟩ (M.path f) (List.mem_map_of_mem hf)
      obtain ⟨c', hfile, -⟩ := copy2_ok.mp hffile
      obtain ⟨hname, rfl⟩ := Prod.mk.inj hgentry
      -- the entry of this name is the one of `f`, for no other path collides with it
      have hnames : pathName (M.path f) = pathName (M.path g) := by
        rw [M.last f _ c' (hexpands f hf) hfile, hname]
      have hresolve : M.resolve (M.path f) = M.resolve (M.path g) := by
        by_contra hne
        exact hsound (.inr ⟨f, hf, g, hg, hnames, hne⟩)
      exact ⟨c, by rw [M.same _ _ hresolve, hgfile], hscp⟩

theorem builds_of_plain (hostId : String)
    (hexpands : ∀ f ∈ files, M.expanduser f = .ok (M.path f))
    (hplain : ∀ f ∈ files, M.Plain f) :
    ∃ staged landed, (files.map M.path).mapM M.copy2 = .ok staged ∧
      M.ship hostId files = .ok landed ∧ ∀ e, e ∈ staged ↔ e ∈ landed := by
  obtain ⟨staged, hstaged⟩ : ∃ staged, (files.map M.path).mapM M.copy2 = .ok staged := by
    refine mapM_ok.mpr fun p hp => ?_
    obtain ⟨f, hf, rfl⟩ := List.mem_map.mp hp
    obtain ⟨c, hfile, -⟩ := hplain f hf
    exact ⟨_, copy2_ok.mpr ⟨c, hfile, rfl⟩⟩
  obtain ⟨landed, hlanded⟩ : ∃ landed, M.ship hostId files = .ok landed := by
    refine mapM_ok.mpr fun f hf => ?_
    obtain ⟨c, -, hscp⟩ := hplain f hf
    exact ⟨_, scpUp_ok.mpr ⟨_, hscp, rfl⟩⟩
  refine ⟨staged, landed, hstaged, hlanded, fun e => ?_⟩
  rw [mem_staged hstaged, mem_landed hlanded]
  constructor
  · rintro ⟨f, hf, c, hfile, rfl⟩
    obtain ⟨c', hfile', hscp⟩ := hplain f hf
    obtain rfl : c = c' := by simpa [hfile] using hfile'
    exact ⟨f, hf, .file c, hscp, by rw [M.last f _ c (hexpands f hf) hfile]⟩
  · rintro ⟨f, hf, node, hscp, rfl⟩
    obtain ⟨c, hfile, hscp'⟩ := hplain f hf
    obtain rfl : node = .file c := by simpa [hscp] using hscp'
    exact ⟨f, hf, c, hfile, by rw [M.last f _ c (hexpands f hf) hfile]⟩

/-- The local check agrees with the shipping exactly when there is a defect to report or every
path is a plain file: a directory is shipped, but raises in the check. -/
theorem agrees_iff (M : LocalMachine α) (hostId : String) (files : List String) :
    M.Agrees hostId files ↔ M.Flat files := by
  constructor
  · intro h
    obtain ⟨found, hfound⟩ := h.returns
    refine ⟨stage_expands hfound, ?_⟩
    by_cases hdefective : M.Defective files
    · exact .inl hdefective
    · exact .inr fun f => plain_of_agrees h hdefective
  · rintro ⟨hexpands, hplain⟩
    obtain ⟨hdefective, problems, hstage⟩ | ⟨hsound, hstage⟩ := stage_eq hexpands
    · refine ⟨⟨_, hstage⟩, iff_of_true ⟨problems, hstage⟩ hdefective, fun staged hstaged => ?_⟩
      rw [hstage] at hstaged
      cases hstaged
    · obtain ⟨staged, landed, hcopies, hlanded, hsame⟩ :=
        builds_of_plain hostId hexpands (hplain.resolve_left hsound)
      rw [hcopies] at hstage
      refine ⟨⟨_, hstage⟩, iff_of_false ?_ hsound, fun staged' hstaged => ?_⟩
      · rintro ⟨problems, hproblems⟩
        rw [hstage] at hproblems
        cases hproblems
      · rw [hstage] at hstaged
        cases hstaged
        exact ⟨landed, hlanded, hsame⟩

/-- One directory, `engine`. -/
def engineOnly : LocalMachine String where
  expanduser f := .ok f
  find p := if p = "engine" then some (.dir (.file "core.py" "x = 1" .nil)) else none
  resolve p := p
  scp p := if p = "engine" then .ok (.dir (.file "core.py" "x = 1" .nil)) else .error "No such file"
  same p q h := by rw [h]
  last f p c h _ := by
    cases h
    rfl

theorem directory_raises : ¬ (∀ (M : LocalMachine String) (hostId : String)
    (files : List String), M.Agrees hostId files) := by
  intro h
  obtain ⟨found, hfound⟩ := (h engineOnly "7" ["engine"]).returns
  cases hfound

end LocalMachine

end RunFarm
