import RunFarm.Files.Disk

/-! Directory trees as values: what a directory holds when nobody else writes to it. -/
set_option autoImplicit false

namespace Files

inductive Forest (α : Type) where
  | nil
  | file (name : String) (content : α) (rest : Forest α)
  | dir (name : String) (kids : Forest α) (rest : Forest α)
  deriving DecidableEq, Repr

inductive Node (α : Type) where
  | file (content : α)
  | dir (kids : Forest α)

variable {α : Type}

namespace Forest

def names : Forest α → List String
  | nil => []
  | file n _ rest => n :: rest.names
  | dir n _ rest => n :: rest.names

def WF : Forest α → Prop
  | nil => True
  | file n _ rest => n ∉ rest.names ∧ rest.WF
  | dir n kids rest => n ∉ rest.names ∧ kids.WF ∧ rest.WF

def find : Forest α → String → Option (Node α)
  | nil, _ => none
  | file n c rest, s => if s = n then some (.file c) else rest.find s
  | dir n kids rest, s => if s = n then some (.dir kids) else rest.find s

def hasFile : Forest α → Bool
  | nil => false
  | file _ _ _ => true
  | dir _ kids rest => kids.hasFile || rest.hasFile

def lookup : Forest α → Path → Option (Node α)
  | f, [] => some (.dir f)
  | f, s :: p =>
    match f.find s with
    | none => none
    | some (.file c) => if p = [] then some (.file c) else none
    | some (.dir kids) => kids.lookup p

def files (d : Path) : Forest α → List (Path × α)
  | nil => []
  | file n c rest => (d ++ [n], c) :: rest.files d
  | dir n kids rest => kids.files (d ++ [n]) ++ rest.files d

theorem find_names {f : Forest α} {s : String} : s ∈ f.names ↔ f.find s ≠ none := by
  induction f with
  | nil => simp [names, find]
  | file n c rest ih =>
    simp only [names, find, List.mem_cons, ih]
    by_cases h : s = n <;> simp [h]
  | dir n kids rest _ ih =>
    simp only [names, find, List.mem_cons, ih]
    by_cases h : s = n <;> simp [h]

theorem find_wf {f : Forest α} (h : f.WF) {s : String} {kids : Forest α}
    (hs : f.find s = some (.dir kids)) : kids.WF := by
  induction f with
  | nil => cases hs
  | file n c rest ih =>
    simp only [find] at hs
    split at hs
    · cases hs
    · exact ih h.2 hs
  | dir n kids' rest _ ih =>
    simp only [find] at hs
    split at hs
    · cases hs
      exact h.2.1
    · exact ih h.2.2 hs

theorem names_nodup {f : Forest α} (h : f.WF) : f.names.Nodup := by
  induction f with
  | nil => exact List.nodup_nil
  | file n c rest ih => exact List.nodup_cons.mpr ⟨h.1, ih h.2⟩
  | dir n kids rest _ ih => exact List.nodup_cons.mpr ⟨h.1, ih h.2.2⟩

theorem lookup_append {f : Forest α} {p q : Path} (h : f.lookup (p ++ q) ≠ none) :
    f.lookup p ≠ none := by
  induction p generalizing f with
  | nil => simp [lookup]
  | cons s p ih =>
    rw [List.cons_append, lookup] at h
    rw [lookup]
    cases hs : f.find s with
    | none => simp [hs] at h
    | some node =>
      cases node with
      | file c =>
        by_cases hp : p = []
        · simp [hp]
        · simp [hs, hp] at h
      | dir kids =>
        simp only [hs] at h
        exact ih h

end Forest

def Node.hasFile : Node α → Bool
  | .file _ => true
  | .dir kids => kids.hasFile

/-- A directory tree; a name occurs once in each of its directories. -/
structure DirTree (α : Type) where
  forest : Forest α
  wf : forest.WF

def DirTree.files (t : DirTree α) : List (Path × α) := t.forest.files []

theorem same_child {d : Path} {a b : String} {p : Path} (ha : d ++ [a] <+: p)
    (hb : d ++ [b] <+: p) : a = b := by
  obtain ⟨s, rfl⟩ := ha
  obtain ⟨t, ht⟩ := hb
  simp only [List.append_assoc, List.append_cancel_left_eq, List.singleton_append,
    List.cons.injEq] at ht
  exact ht.1.symm

end Files
