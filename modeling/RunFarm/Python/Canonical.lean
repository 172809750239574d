import RunFarm.Python.Json

/-! Which values keep their sorted document through a `dumps` and a `loads`. -/
set_option autoImplicit false

namespace Python

variable {I : Interp} {fmt : Format}

section
variable (onFloat : Flt → Bool) (onNames : List String → Bool)

mutual

def Json.every : Json → Bool
  | .float x => onFloat x
  | .arr js => everyList js
  | .obj ms => onNames (ms.map Prod.fst) && everyMember ms
  | _ => true

def everyList : List Json → Bool
  | [] => true
  | j :: js => j.every && everyList js

def everyMember : List (String × Json) → Bool
  | [] => true
  | (_, j) :: ms => j.every && everyMember ms

end

variable {onFloat onNames}

theorem every_arr {js : List Json} :
    (Json.arr js).every onFloat onNames ↔ ∀ j ∈ js, j.every onFloat onNames := by
  rw [Json.every]
  induction js with
  | nil => simp [everyList]
  | cons j js ih => simp [everyList, ih]

theorem every_obj {ms : List (String × Json)} :
    (Json.obj ms).every onFloat onNames ↔
      onNames (ms.map Prod.fst) ∧ ∀ m ∈ ms, m.2.every onFloat onNames := by
  rw [Json.every, Bool.and_eq_true]
  refine and_congr_right fun _ => ?_
  clear * -
  induction ms with
  | nil => simp [everyMember]
  | cons m ms ih => simp [everyMember, ih]

end

def Json.canonical (j : Json) : Bool :=
  j.every (fun _ => true) (fun names => names.Pairwise (· < ·))

def Format.spells (fmt : Format) (j : Json) : Bool :=
  j.every (fun x => (fmt.allowNan || x.finite) && x.token = x) (fun _ => true)

mutual

/-- The names that the keys of every dict become are in strictly ascending order once the
keys themselves are sorted. -/
def Value.ascending (I : Interp) : Value → Bool
  | .list vs | .tuple vs => ascendingList I vs
  | .dict es =>
    ((I.sorted es).map (fun e => e.1.text I)).Pairwise (· < ·) && ascendingItems I es
  | .data fs => (fs.map Prod.fst).Nodup && ascendingFields I fs
  | _ => true

def ascendingList (I : Interp) : List Value → Bool
  | [] => true
  | v :: vs => v.ascending I && ascendingList I vs

def ascendingItems (I : Interp) : List (Key × Value) → Bool
  | [] => true
  | (_, v) :: es => v.ascending I && ascendingItems I es

def ascendingFields (I : Interp) : List (String × Value) → Bool
  | [] => true
  | (_, v) :: fs => v.ascending I && ascendingFields I fs

end

theorem ascending_list {vs : List Value} :
    (Value.list vs).ascending I ↔ ∀ v ∈ vs, v.ascending I := by
  rw [Value.ascending]
  induction vs with
  | nil => simp [ascendingList]
  | cons v vs ih => simp [ascendingList, ih]

theorem ascending_tuple (vs : List Value) :
    (Value.tuple vs).ascending I = (Value.list vs).ascending I := by
  simp [Value.ascending]

theorem ascending_dict {es : List (Key × Value)} :
    (Value.dict es).ascending I ↔
      ((I.sorted es).map (fun e => e.1.text I)).Pairwise (· < ·) ∧
      ∀ e ∈ es, e.2.ascending I := by
  rw [Value.ascending, Bool.and_eq_true, decide_eq_true_iff]
  refine and_congr_right fun _ => ?_
  clear * -
  induction es with
  | nil => simp [ascendingItems]
  | cons e es ih => simp [ascendingItems, ih]

theorem ascending_data {fs : List (String × Value)} :
    (Value.data fs).ascending I ↔
      (fs.map Prod.fst).Nodup ∧ ∀ f ∈ fs, f.2.ascending I := by
  rw [Value.ascending, Bool.and_eq_true, decide_eq_true_iff]
  refine and_congr_right fun _ => ?_
  clear * -
  induction fs with
  | nil => simp [ascendingFields]
  | cons f fs ih => simp [ascendingFields, ih]

theorem canonical_arr {js : List Json} :
    (Json.arr js).canonical ↔ ∀ j ∈ js, j.canonical := every_arr

theorem canonical_obj {ms : List (String × Json)} :
    (Json.obj ms).canonical ↔
      (ms.map Prod.fst).Pairwise (· < ·) ∧ ∀ m ∈ ms, m.2.canonical := by
  rw [Json.canonical, every_obj, decide_eq_true_iff]
  rfl

section Sorted
variable {α : Type} {es es' : List (Key × α)}

theorem mem_arrange {e : Key × α} : e ∈ fmt.arrange I es ↔ e ∈ es :=
  (fmt.arrange_perm es).mem_iff

theorem place_str_le {s t : String} : (Key.str s).place ≤ (Key.str t).place ↔ s ≤ t := by
  simp [Key.place, Prod.Lex.le_iff]

theorem eq_str_text (I : Interp) {k : Key} (h : k.isStr) : k = .str (k.text I) := by
  cases k <;> simp_all [Key.isStr, Key.text]

theorem sortable_of_isStr (h : ∀ e ∈ es, e.1.isStr) : sortable (es.map Prod.fst) := by
  have : (es.map Prod.fst).all Key.isStr := by simpa using h
  simp [sortable, this]

theorem sorted_text_le (h : ∀ e ∈ es, e.1.isStr) :
    (I.sorted es).Pairwise (fun a b => a.1.text I ≤ b.1.text I) := by
  have hle := I.sorted_le es (sortable_of_isStr h) fun e he => by
    rw [eq_str_text I (h e he)]
    rfl
  refine hle.imp_of_mem fun {a b} ha hb hab => ?_
  rw [eq_str_text I (h a ((I.sorted_perm es).mem_iff.mp ha)),
    eq_str_text I (h b ((I.sorted_perm es).mem_iff.mp hb))] at hab
  exact place_str_le.mp hab

theorem sorted_text_lt (h : ∀ e ∈ es, e.1.isStr)
    (hn : (es.map (fun e => e.1.text I)).Nodup) :
    ((I.sorted es).map (fun e => e.1.text I)).Pairwise (· < ·) := by
  have hn' : ((I.sorted es).map (fun e => e.1.text I)).Nodup :=
    (((I.sorted_perm es).map _).nodup_iff).mpr hn
  rw [List.pairwise_map]
  exact ((sorted_text_le h).and (List.pairwise_map.mp hn')).imp fun h => lt_of_le_of_ne h.1 h.2

theorem sorted_eq (h : ∀ e ∈ es, e.1.isStr) (hp : es.Perm es')
    (hlt : (es'.map (fun e => e.1.text I)).Pairwise (· < ·)) : I.sorted es = es' := by
  have hn : (es'.map (fun e => e.1.text I)).Nodup := hlt.imp ne_of_lt
  have hp' : (I.sorted es).Perm es' := (I.sorted_perm es).trans hp
  refine List.Perm.eq_of_pairwise (fun a b ha hb hab hba => ?_) (sorted_text_le h)
    ((List.pairwise_map.mp hlt).imp le_of_lt) hp'
  exact List.inj_on_of_nodup_map hn (hp'.mem_iff.mp ha) hb (le_antisymm hab hba)

end Sorted

theorem canonical_doc (hsort : fmt.sortKeys = true) {v : Value}
    (h : (dumps I fmt v).isSome) : (doc I fmt v).canonical ↔ v.ascending I := by
  induction v using Value.induct with
  | none | bool _ | int _ | str _ =>
    simp [doc, dumps, Json.canonical, Json.every, Value.ascending]
  | float x => simp [doc_float h, Json.canonical, Json.every, Value.ascending]
  | list vs ih =>
    rw [doc_list h, canonical_arr, ascending_list, List.forall_mem_map]
    exact forall₂_congr fun v hv => ih v hv (isSome_list.mp h v hv)
  | tuple vs ih =>
    rw [dumps_tuple] at h
    rw [doc_tuple, ascending_tuple]
    exact ih h
  | dict es ih =>
    rw [doc_dict h, canonical_obj, ascending_dict, List.map_map, List.forall_mem_map]
    refine and_congr (by simp [Format.arrange, hsort, Function.comp_def]) ?_
    simp only [mem_arrange]
    exact forall₂_congr fun e he => ih e he ((isSome_dict.mp h).2 e he).2
  | data _ _ | other _ => simp [dumps] at h

theorem spells_doc {v : Value} (h : (dumps I fmt v).isSome) : fmt.spells (doc I fmt v) := by
  induction v using Value.induct with
  | none | bool _ | int _ | str _ => simp [doc, dumps, Format.spells, Json.every]
  | float x =>
    rw [doc_float h]
    have hx := isSome_float.mp h
    cases x <;> simp_all [Format.spells, Json.every, Flt.token, Flt.finite]
  | list vs ih =>
    rw [doc_list h, Format.spells, every_arr, List.forall_mem_map]
    exact fun v hv => ih v hv (isSome_list.mp h v hv)
  | tuple vs ih =>
    rw [dumps_tuple] at h
    rw [doc_tuple]
    exact ih h
  | dict es ih =>
    rw [doc_dict h, Format.spells, every_obj, List.forall_mem_map]
    refine ⟨rfl, fun e he => ?_⟩
    have he' := mem_arrange.mp he
    exact ih e he' ((isSome_dict.mp h).2 e he').2
  | data _ _ | other _ => simp [dumps] at h

theorem dictOf_nodup {ms : List (String × Value)} (h : (ms.map Prod.fst).Nodup) :
    dictOf ms = ms.map (Prod.map .str id) := by
  induction ms using List.reverseRecOn with
  | nil => rfl
  | append_singleton ms m ih =>
    rw [List.map_append, List.nodup_append] at h
    have hm : Key.str m.1 ∉ (ms.map (Prod.map Key.str id)).map Prod.fst := by
      simp only [List.map_map, List.mem_map, not_exists, not_and]
      intro m' hm' heq
      exact h.2.2 m'.1 (List.mem_map_of_mem hm') m.1 (by simp) (Key.str.inj heq)
    rw [dictOf, List.foldl_append]
    change setItem (Key.str m.1) m.2 (dictOf ms) = _
    rw [ih h.1, setItem_of_not_mem hm]
    simp [Prod.map]

theorem mem_setItem {κ α : Type} [DecidableEq κ] {k : κ} {v : α} {es : List (κ × α)} {e : κ × α}
    (h : e ∈ setItem k v es) : e = (k, v) ∨ e ∈ es := by
  induction es with
  | nil => simpa [setItem] using h
  | cons e' es ih =>
    simp only [setItem] at h
    split at h <;> simp only [List.mem_cons] at h ⊢
    · tauto
    · rcases h with h | h
      · exact .inr (.inl h)
      · exact (ih h).imp_right .inr

theorem mem_dictOf {ms : List (String × Value)} {e : Key × Value} (h : e ∈ dictOf ms) :
    ∃ m ∈ ms, e = (.str m.1, m.2) := by
  induction ms using List.reverseRecOn with
  | nil => cases h
  | append_singleton ms m ih =>
    rw [dictOf, List.foldl_append] at h
    rcases mem_setItem h with rfl | h
    · exact ⟨m, by simp, rfl⟩
    · obtain ⟨m', hm', heq⟩ := ih h
      exact ⟨m', by simp [hm'], heq⟩

theorem nodup_dictOf (ms : List (String × Value)) : ((dictOf ms).map Prod.fst).Nodup := by
  induction ms using List.reverseRecOn with
  | nil => simp [dictOf]
  | append_singleton ms m ih =>
    rw [dictOf, List.foldl_append]
    exact (Dict.set ⟨dictOf ms, ih⟩ (.str m.1) m.2).nodup

theorem isStr_dictOf {ms : List (String × Value)} {e : Key × Value} (h : e ∈ dictOf ms) :
    e.1.isStr := by
  obtain ⟨m, _, rfl⟩ := mem_dictOf h
  rfl

theorem isStr_members {α β : Type} (ms : List (String × α)) (f : α → β) :
    ∀ e ∈ ms.map (Prod.map Key.str f), e.1.isStr :=
  List.forall_mem_map.mpr fun _ _ => rfl

theorem text_members {α β : Type} (ms : List (String × α)) (f : α → β) :
    (ms.map (Prod.map Key.str f)).map (fun e => e.1.text I) = ms.map Prod.fst := by
  simp [Function.comp_def, Key.text]

theorem loads_obj {ms : List (String × Json)} (h : (ms.map Prod.fst).Nodup) :
    loads (.obj ms) = .dict (ms.map (Prod.map .str loads)) := by
  have hn : ((ms.map (Prod.map id loads)).map Prod.fst).Nodup := by
    rwa [List.map_map, show Prod.fst ∘ Prod.map id loads = Prod.fst from rfl]
  rw [loads, loadsMembers_eq, dictOf_nodup hn, List.map_map]
  rfl

theorem nodup_text {es : List (Key × Value)} (h : ∀ e ∈ es, e.1.isStr)
    (hn : (es.map Prod.fst).Nodup) : (es.map (fun e => e.1.text I)).Nodup := by
  rw [show es.map (fun e => e.1.text I) = (es.map Prod.fst).map (Key.text I) by simp]
  refine hn.map_on fun k hk k' hk' heq => ?_
  obtain ⟨e, he, rfl⟩ := List.mem_map.mp hk
  obtain ⟨e', he', rfl⟩ := List.mem_map.mp hk'
  rw [eq_str_text I (h e he), eq_str_text I (h e' he'), heq]

theorem ascending_loads (j : Json) : (loads j).ascending I := by
  induction j using Json.induct with
  | null | bool _ | int _ | float _ | str _ => simp [loads, Value.ascending]
  | arr js ih =>
    rw [loads, loadsList_eq, ascending_list]
    exact List.forall_mem_map.mpr ih
  | obj ms ih =>
    rw [loads, loadsMembers_eq, ascending_dict]
    refine ⟨sorted_text_lt (fun _ => isStr_dictOf)
      (nodup_text (fun _ => isStr_dictOf) (nodup_dictOf _)), fun e he => ?_⟩
    obtain ⟨m, hm, rfl⟩ := mem_dictOf he
    obtain ⟨m', hm', rfl⟩ := List.mem_map.mp hm
    exact ih m' hm'

theorem dumps_loads (hsort : fmt.sortKeys = true) {j : Json} (hc : j.canonical)
    (hs : fmt.spells j) : dumps I fmt (loads j) = some j := by
  induction j using Json.induct with
  | null | bool _ | int _ | str _ => rfl
  | float x =>
    simp only [Format.spells, Json.every, Bool.and_eq_true, decide_eq_true_iff] at hs
    exact dumps_float.mpr ⟨hs.1, by rw [hs.2]⟩
  | arr js ih =>
    have hdoc : ∀ j ∈ js, dumps I fmt (loads j) = some j := fun j hj =>
      ih j hj (canonical_arr.mp hc j hj) (every_arr.mp hs j hj)
    rw [loads, loadsList_eq, dumps_list, List.forall_mem_map]
    refine ⟨fun j hj => by simp [hdoc j hj], ?_⟩
    rw [List.map_map, List.map_congr_left (g := id), List.map_id]
    intro j hj
    simp [doc, hdoc j hj]
  | obj ms ih =>
    obtain ⟨hnames, hmem⟩ := canonical_obj.mp hc
    have hdoc : ∀ m ∈ ms, dumps I fmt (loads m.2) = some m.2 := fun m hm =>
      ih m hm (hmem m hm) ((every_obj.mp hs).2 m hm)
    have hsorted : I.sorted (ms.map (Prod.map Key.str loads)) = ms.map (Prod.map Key.str loads) :=
      sorted_eq (isStr_members ms loads) (.refl _) (by rwa [text_members])
    rw [loads_obj (hnames.imp ne_of_lt), dumps_dict]
    refine ⟨⟨?_, ?_⟩, ?_⟩
    · simp only [Format.arranges, sortable_of_isStr (isStr_members ms loads), Bool.or_true]
    · rw [List.forall_mem_map]
      exact fun m hm => ⟨rfl, by simp [hdoc m hm]⟩
    · rw [Format.arrange, if_pos hsort, hsorted, List.map_map, List.map_congr_left (g := id),
        List.map_id]
      intro m hm
      simp [Key.text, doc, hdoc m hm]

theorem dumps_loads_iff (hsort : fmt.sortKeys = true) {v : Value}
    (h : (dumps I fmt v).isSome) :
    dumps I fmt (loads (doc I fmt v)) = some (doc I fmt v) ↔ v.ascending I := by
  rw [← canonical_doc hsort h]
  refine ⟨fun h' => ?_, fun hc => dumps_loads hsort hc (spells_doc h)⟩
  rw [← doc_of_dumps h']
  exact (canonical_doc hsort (by rw [h']; rfl)).mpr (ascending_loads _)

section Formats
variable {plain : Format}

theorem takes_of_takes (hnan : fmt.allowNan = true → plain.allowNan = true) {k : Key}
    (h : fmt.takes k) : plain.takes k := by
  cases k <;> simp_all [Format.takes]
  exact h.imp_left hnan

theorem isSome_dumps (hsort : plain.sortKeys = true → fmt.sortKeys = true)
    (hnan : fmt.allowNan = true → plain.allowNan = true) {v : Value}
    (h : (dumps I fmt v).isSome) : (dumps I plain v).isSome := by
  induction v using Value.induct with
  | none | bool _ | int _ | str _ => rfl
  | float x =>
    rw [isSome_float, Bool.or_eq_true] at h ⊢
    exact h.imp_left hnan
  | list vs ih => exact isSome_list.mpr fun v hv => ih v hv (isSome_list.mp h v hv)
  | tuple vs ih =>
    rw [dumps_tuple] at h ⊢
    exact ih h
  | dict es ih =>
    obtain ⟨harr, hes⟩ := isSome_dict.mp h
    refine isSome_dict.mpr
      ⟨?_, fun e he => ⟨takes_of_takes hnan (hes e he).1, ih e he (hes e he).2⟩⟩
    simp only [Format.arranges, Bool.or_eq_true, Bool.not_eq_true'] at harr ⊢
    grind
  | data _ _ | other _ => simp [dumps] at h

theorem doc_congr (hsort : plain.sortKeys = fmt.sortKeys) {v : Value}
    (h : (dumps I fmt v).isSome) (h' : (dumps I plain v).isSome) :
    doc I plain v = doc I fmt v := by
  induction v using Value.induct with
  | none | bool _ | int _ | str _ => rfl
  | float x => rw [doc_float h, doc_float h']
  | list vs ih =>
    rw [doc_list h, doc_list h', Json.arr.injEq]
    exact List.map_congr_left fun v hv => ih v hv (isSome_list.mp h v hv) (isSome_list.mp h' v hv)
  | tuple vs ih =>
    rw [dumps_tuple] at h h'
    rw [doc_tuple, doc_tuple]
    exact ih h h'
  | dict es ih =>
    have harr : plain.arrange I es = fmt.arrange I es := by simp only [Format.arrange, hsort]
    rw [doc_dict h, doc_dict h', harr, Json.obj.injEq]
    refine List.map_congr_left fun e he => ?_
    have he' := mem_arrange.mp he
    rw [ih e he' ((isSome_dict.mp h).2 e he').2 ((isSome_dict.mp h').2 e he').2]
  | data _ _ | other _ => rfl

def reread (I : Interp) (plain : Format) (e : Key × Value) : Key × Value :=
  (.str (e.1.text I), loads (doc I plain e.2))

theorem isStr_reread (es : List (Key × Value)) : ∀ e ∈ es.map (reread I plain), e.1.isStr :=
  List.forall_mem_map.mpr fun _ _ => rfl

theorem text_reread (es : List (Key × Value)) :
    (es.map (reread I plain)).map (fun e => e.1.text I) = es.map (fun e => e.1.text I) := by
  simp [reread, Function.comp_def, Key.text]

theorem dumps_loads_unsorted (hsort : fmt.sortKeys = true) (hplain : plain.sortKeys = false)
    {v : Value} (h : (dumps I fmt v).isSome) (h' : (dumps I plain v).isSome)
    (hasc : v.ascending I) :
    dumps I fmt (loads (doc I plain v)) = some (doc I fmt v) := by
  induction v using Value.induct with
  | none | bool _ | int _ | str _ => rfl
  | float x =>
    rw [doc_float h, doc_float h', loads, dumps_float]
    have hx := isSome_float.mp h
    cases x <;> simp_all [Flt.token, Flt.finite]
  | list vs ih =>
    have hdoc : ∀ v ∈ vs, dumps I fmt (loads (doc I plain v)) = some (doc I fmt v) := fun v hv =>
      ih v hv (isSome_list.mp h v hv) (isSome_list.mp h' v hv) (ascending_list.mp hasc v hv)
    rw [doc_list h, doc_list h', loads, loadsList_eq, List.map_map, dumps_list, List.forall_mem_map]
    refine ⟨fun v hv => by simp [hdoc v hv], ?_⟩
    rw [List.map_map, Json.arr.injEq]
    exact List.map_congr_left fun v hv => (doc_of_dumps (hdoc v hv)).symm
  | tuple vs ih =>
    rw [dumps_tuple] at h h'
    rw [ascending_tuple] at hasc
    rw [doc_tuple, doc_tuple]
    exact ih h h' hasc
  | dict es ih =>
    obtain ⟨hlt, hes⟩ := ascending_dict.mp hasc
    have hdoc : ∀ e ∈ es, dumps I fmt (loads (doc I plain e.2)) = some (doc I fmt e.2) :=
      fun e he => ih e he ((isSome_dict.mp h).2 e he).2 ((isSome_dict.mp h').2 e he).2 (hes e he)
    have hn : (es.map (fun e => e.1.text I)).Nodup :=
      (((I.sorted_perm es).map _).nodup_iff).mp (hlt.imp ne_of_lt)
    rw [doc_dict h', Format.arrange, if_neg (by simp [hplain]), loads_obj
      (by simpa [Function.comp_def] using hn), List.map_map]
    have hsorted : I.sorted (es.map (reread I plain)) = (I.sorted es).map (reread I plain) :=
      sorted_eq (isStr_reread es) ((I.sorted_perm es).symm.map _) (by rwa [text_reread])
    refine dumps_dict.mpr ⟨⟨?_, List.forall_mem_map.mpr fun e he => ⟨rfl, ?_⟩⟩, ?_⟩
    · rw [Format.arranges, Bool.or_eq_true]
      exact .inr (sortable_of_isStr (isStr_reread es))
    · simp [hdoc e he]
    · rw [doc_dict h, Format.arrange, Format.arrange, if_pos hsort, if_pos hsort]
      change _ = Json.obj ((I.sorted (es.map (reread I plain))).map _)
      rw [hsorted, List.map_map, Json.obj.injEq]
      refine List.map_congr_left fun e he => ?_
      rw [Function.comp_apply, reread, doc_of_dumps (hdoc e ((I.sorted_perm es).mem_iff.mp he)),
        Key.text]
  | data _ _ | other _ => simp [dumps] at h

theorem dumps_loads_unsorted_iff (hsort : fmt.sortKeys = true) (hplain : plain.sortKeys = false)
    {v : Value} (h : (dumps I fmt v).isSome) (h' : (dumps I plain v).isSome) :
    dumps I fmt (loads (doc I plain v)) = some (doc I fmt v) ↔ v.ascending I := by
  refine ⟨fun hsame => ?_, dumps_loads_unsorted hsort hplain h h'⟩
  rw [← canonical_doc hsort h, ← doc_of_dumps hsame]
  exact (canonical_doc hsort (by rw [hsame]; rfl)).mpr (ascending_loads _)

end Formats

theorem asdict_dict (es : List (Key × Value)) :
    asdict (.dict es) = .dict (es.map (Prod.map id asdict)) := by
  rw [asdict, asdictItems_eq]

theorem ascending_asdict (v : Value) : (asdict v).ascending I = v.ascending I := by
  induction v using Value.induct with
  | none | bool _ | int _ | float _ | str _ | other _ => rfl
  | list vs ih =>
    rw [asdict, asdictList_eq, Bool.eq_iff_iff, ascending_list, ascending_list, List.forall_mem_map]
    exact forall₂_congr fun v hv => by rw [ih v hv]
  | tuple vs ih =>
    rw [asdict, asdictList_eq, ascending_tuple, ascending_tuple, ← ih, asdict, asdictList_eq]
  | dict es ih =>
    rw [asdict_dict, Bool.eq_iff_iff, ascending_dict, ascending_dict, I.sorted_map, List.map_map,
      List.forall_mem_map]
    exact and_congr Iff.rfl (forall₂_congr fun e he => by rw [Prod.map_snd, ih e he])
  | data fs ih =>
    rw [asdict, asdictFields_eq, Bool.eq_iff_iff, ascending_dict, ascending_data,
      List.forall_mem_map]
    refine and_congr ⟨fun hlt => ?_, fun hn => ?_⟩
      (forall₂_congr fun f hf => by rw [Prod.map_snd, ih f hf])
    · rw [← text_members (I := I) fs asdict]
      exact (((I.sorted_perm _).map _).nodup_iff).mp (hlt.imp ne_of_lt)
    · exact sorted_text_lt (isStr_members fs asdict) (by rwa [text_members])

end Python
