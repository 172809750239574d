import Mathlib.Data.List.Induction
import Mathlib.Data.List.Nodup

/-! Insertion-ordered dictionaries: assigning to a key that is present keeps its place. -/
set_option autoImplicit false

namespace Python

/-- A key occurs once, so an entry is determined by its key. -/
@[ext]
structure Dict (κ α : Type) where
  items : List (κ × α)
  nodup : (items.map Prod.fst).Nodup

variable {κ α ρ : Type} [DecidableEq κ]

def setItem (k : κ) (v : α) : List (κ × α) → List (κ × α)
  | [] => [(k, v)]
  | e :: es => if e.1 = k then (k, v) :: es else e :: setItem k v es

theorem keys_setItem (k : κ) (v : α) (es : List (κ × α)) :
    (setItem k v es).map Prod.fst =
      if k ∈ es.map Prod.fst then es.map Prod.fst else es.map Prod.fst ++ [k] := by
  induction es with
  | nil => simp [setItem]
  | cons e es ih =>
    by_cases he : e.1 = k
    · simp [setItem, he]
    · have hk : ¬ k = e.1 := fun h => he h.symm
      simp only [setItem, he, if_false, List.map_cons, ih, List.mem_cons, hk, false_or]
      split <;> simp

theorem lookup_cons_ite (k : κ) (e : κ × α) (es : List (κ × α)) :
    (e :: es).lookup k = if k = e.1 then some e.2 else es.lookup k := by
  rw [List.lookup_cons]
  by_cases h : k = e.1
  · simp [h]
  · simp [h, beq_false_of_ne h]

theorem lookup_setItem (k k' : κ) (v : α) (es : List (κ × α)) :
    (setItem k v es).lookup k' = if k' = k then some v else es.lookup k' := by
  induction es with
  | nil => simp [setItem, lookup_cons_ite]
  | cons e es ih =>
    by_cases he : e.1 = k
    · by_cases h : k' = k <;> simp [setItem, he, h, lookup_cons_ite]
    · by_cases h : k' = e.1
      · simp [setItem, he, h, lookup_cons_ite]
      · simp [setItem, he, h, lookup_cons_ite, ih]

theorem setItem_setItem (k : κ) (v v' : α) (es : List (κ × α)) :
    setItem k v' (setItem k v es) = setItem k v' es := by
  induction es with
  | nil => simp [setItem]
  | cons e es ih => by_cases he : e.1 = k <;> simp [setItem, he, ih]

theorem setItem_of_not_mem {k : κ} {v : α} {es : List (κ × α)} (h : k ∉ es.map Prod.fst) :
    setItem k v es = es ++ [(k, v)] := by
  induction es with
  | nil => rfl
  | cons e es ih =>
    rw [List.map_cons, List.mem_cons, not_or] at h
    rw [setItem, if_neg fun he => h.1 he.symm, ih h.2, List.cons_append]

namespace Dict

def empty : Dict κ α := ⟨[], List.nodup_nil⟩

def set (d : Dict κ α) (k : κ) (v : α) : Dict κ α where
  items := setItem k v d.items
  nodup := by
    rw [keys_setItem]
    split
    · exact d.nodup
    · rename_i hk
      exact List.nodup_append.mpr ⟨d.nodup, List.nodup_singleton k,
        fun a ha b hb hab => hk (by simp_all)⟩

def get (d : Dict κ α) (k : κ) : Option α := d.items.lookup k

@[simp] theorem get_empty (k : κ) : (empty : Dict κ α).get k = none := rfl

@[simp] theorem get_set (d : Dict κ α) (k k' : κ) (v : α) :
    (d.set k v).get k' = if k' = k then some v else d.get k' :=
  lookup_setItem k k' v d.items

theorem set_set (d : Dict κ α) (k : κ) (v v' : α) : (d.set k v).set k v' = d.set k v' :=
  Dict.ext (setItem_setItem k v v' d.items)

theorem mem_items {d : Dict κ α} {k : κ} {v : α} :
    (k, v) ∈ d.items ↔ d.get k = some v := by
  obtain ⟨es, hn⟩ := d
  unfold get
  induction es with
  | nil => simp
  | cons e es ih =>
    obtain ⟨k₀, v₀⟩ := e
    simp only [List.map_cons, List.nodup_cons] at hn
    simp only [List.mem_cons, lookup_cons_ite, Prod.mk.injEq]
    by_cases hk : k = k₀
    · subst hk
      have hne : ∀ w, (k, w) ∉ es := fun w hw => hn.1 (List.mem_map_of_mem hw)
      simp [hne, eq_comm]
    · simp only [hk, false_and, false_or, if_false]
      exact ih hn.2

theorem isSome_get {d : Dict κ α} {k : κ} : (d.get k).isSome ↔ k ∈ d.items.map Prod.fst := by
  rw [Option.isSome_iff_exists, List.mem_map]
  constructor
  · rintro ⟨v, hv⟩
    exact ⟨(k, v), mem_items.mpr hv, rfl⟩
  · rintro ⟨e, he, rfl⟩
    exact ⟨e.2, mem_items.mp he⟩

theorem items_set {d : Dict κ α} {k : κ} (v : α) (h : d.get k = none) :
    (d.set k v).items = d.items ++ [(k, v)] := by
  refine setItem_of_not_mem ?_
  rw [← isSome_get, h]
  exact Bool.false_ne_true

theorem length_set_le (d : Dict κ α) (k : κ) (v : α) :
    (d.set k v).items.length ≤ d.items.length + 1 := by
  rw [← List.length_map (Prod.fst : κ × α → κ), set, keys_setItem]
  split <;> simp

theorem get_of_perm {d d' : Dict κ α} (h : d.items.Perm d'.items) (k : κ) :
    d.get k = d'.get k :=
  Option.ext fun v => by rw [← mem_items, ← mem_items, h.mem_iff]

def map {β : Type} (f : α → β) (d : Dict κ α) : Dict κ β where
  items := d.items.map (Prod.map id f)
  nodup := by
    rw [List.map_map]
    exact d.nodup

@[simp] theorem get_map {β : Type} (f : α → β) (d : Dict κ α) (k : κ) :
    (d.map f).get k = (d.get k).map f := by
  obtain ⟨es, _⟩ := d
  unfold map get
  induction es with
  | nil => rfl
  | cons e es ih =>
    obtain ⟨k₀, v₀⟩ := e
    simp only [List.map_cons, Prod.map, id_eq, lookup_cons_ite]
    split
    · rfl
    · exact ih (by simp_all)

/-- The entries whose keys pass: `del d[k]` for all the others. -/
def keep (p : κ → Bool) (d : Dict κ α) : Dict κ α where
  items := d.items.filter (fun e => p e.1)
  nodup := d.nodup.sublist (List.filter_sublist.map Prod.fst)

@[simp] theorem get_keep (p : κ → Bool) (d : Dict κ α) (k : κ) :
    (d.keep p).get k = if p k then d.get k else none := by
  refine Option.ext fun v => ?_
  rw [← mem_items, keep, List.mem_filter, mem_items]
  split <;> simp_all

/-- The last entry each row of a log gives for its key: the loop `for r in rows: d[k] = v`. -/
def latest (entry : ρ → Option (κ × α)) (rows : List ρ) : Dict κ α :=
  rows.foldl (fun d r => match entry r with
    | some (k, v) => d.set k v
    | none => d) empty

theorem latest_append (entry : ρ → Option (κ × α)) (rows : List ρ) (r : ρ) :
    latest entry (rows ++ [r]) = match entry r with
      | some (k, v) => (latest entry rows).set k v
      | none => latest entry rows := by
  simp [latest, List.foldl_append]

theorem latest_spec (entry : ρ → Option (κ × α)) (rows : List ρ) (k : κ) :
    (∀ v, (latest entry rows).get k = some v → ∃ r ∈ rows, entry r = some (k, v)) ∧
    ((latest entry rows).get k = none ↔ ∀ r ∈ rows, ∀ v, entry r ≠ some (k, v)) := by
  induction rows using List.reverseRecOn with
  | nil => simp [latest]
  | append_singleton rows r ih =>
    rw [latest_append]
    cases he : entry r with
    | none =>
      refine ⟨fun v hv => ?_, ?_⟩
      · obtain ⟨r', hr', h⟩ := ih.1 v hv
        exact ⟨r', by simp [hr'], h⟩
      · simp only [List.mem_append, List.mem_singleton]
        rw [ih.2]
        constructor
        · rintro h r' (hr' | rfl) v
          · exact h r' hr' v
          · simp [he]
        · exact fun h r' hr' v => h r' (.inl hr') v
    | some e =>
      obtain ⟨k₀, v₀⟩ := e
      simp only [get_set]
      by_cases hk : k = k₀
      · subst hk
        refine ⟨fun v hv => ⟨r, by simp, by simp_all⟩, ?_⟩
        simp only [if_true, reduceCtorEq, false_iff, not_forall]
        exact ⟨r, by simp, v₀, by simp [he]⟩
      · simp only [hk, if_false]
        refine ⟨fun v hv => ?_, ?_⟩
        · obtain ⟨r', hr', h⟩ := ih.1 v hv
          exact ⟨r', by simp [hr'], h⟩
        · rw [ih.2]
          simp only [List.mem_append, List.mem_singleton]
          constructor
          · rintro h r' (hr' | rfl) v
            · exact h r' hr' v
            · intro hc
              rw [he] at hc
              simp_all
          · exact fun h r' hr' v => h r' (.inl hr') v

end Dict
end Python
