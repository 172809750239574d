import RunFarm.Governed.Shipment

/-! The ways on which a shipment reaches the campaign: in memory, on the worker's result line,
and back from DONE.json. -/
set_option autoImplicit false

namespace RunFarm
open Python

variable {I : Interp} {sha256 : Json → Digest} {requiredShas : Dict String String}

/-- `json.dumps` as the result line is written, and as `FileRunRegistry.finish` writes. -/
def lineFormat : Format := {}

def doneFormat : Format := { sortKeys := true }

/-- The worker's record of a run that was not skipped. -/
def workerRecord (run : String) (result : Value) : Value :=
  .dict [(.str "run", .str run), (.str "result", result), (.str "skipped", .bool false)]

/-- `rec.get("result")` of the record that the result line spells. -/
def lineResult (I : Interp) (run : String) (result : Value) : Option Value :=
  match (dumps I lineFormat (workerRecord run result)).map loads with
  | some (.dict es) => dictGet es (.str "result")
  | _ => none

/-- `json.loads(done.read_text())`. -/
def doneResult (I : Interp) (result : Value) : Option Value :=
  (dumps I doneFormat result).map loads

def members (d : Dict String Value) : List (Key × Value) := d.items.map (Prod.map .str id)

def scalar : Value → Bool
  | .none | .bool _ | .int _ | .float _ | .str _ => true
  | _ => false

/-- A shipment that names all its parts by strings: products, hashes by name, shas by slot. What
there is in place of a part that is no dict does not matter. -/
structure Shipment where
  items : Dict String Value
  products : Dict String Value
  sidecar : Dict String Value
  attested : Dict String Value
  products_at : ∀ ps, items.get "products" = some (.dict ps) → ps = members products
  sidecar_at : ∀ ps, items.get "sidecar" = some (.dict ps) → ps = members sidecar
  attested_at : ∀ ps, items.get "attested_shas" = some (.dict ps) → ps = members attested
  hashes_scalar : ∀ e ∈ sidecar.items, scalar e.2 = true
  shas_scalar : ∀ e ∈ attested.items, scalar e.2 = true

def Shipment.value (s : Shipment) : Value := .dict (members s.items)

/-- The shipment that arrived is governed as the one that was sent. -/
structure SameVerdict (I : Interp) (sha256 : Json → Digest) (requiredShas : Dict String String)
    (sent arrived : Value) : Prop where
  violations : verifyShipment I sha256 requiredShas arrived =
    verifyShipment I sha256 requiredShas sent
  content : content I sha256 arrived = content I sha256 sent

/-- The product does not have the hash that the sidecar gives its name. -/
def Shipment.mismatched (I : Interp) (sha256 : Json → Digest) (s : Shipment)
    (e : String × Value) : Bool :=
  !isText (s.sidecar.get e.1) (sha256 (doc I compact e.2)).text

/-- The text that `verify_shipment` has for a mismatched product. -/
def Shipment.line (I : Interp) (sha256 : Json → Digest) (s : Shipment)
    (e : String × Value) : String :=
  mismatch e.1 ((s.sidecar.get e.1).getD .none) (sha256 (doc I compact e.2)) I

section Members
variable {d d' : Dict String Value} {k : String} {fmt : Format}

theorem dictGet_members : dictGet (members d) (.str k) = d.get k := by
  obtain ⟨es, _⟩ := d
  unfold members dictGet Dict.get
  induction es with
  | nil => rfl
  | cons e es ih =>
    simp only [List.map_cons, List.find?_cons, lookup_cons_ite]
    by_cases hk : k = e.1
    · simp [hk, Key.norm]
    · have hk' : ¬ e.1 = k := fun h => hk h.symm
      simp only [Prod.map, Key.norm, Key.str.injEq, hk', decide_false, hk, if_false]
      exact ih (by simp_all)

theorem isStr_mem : ∀ e ∈ members d, e.1.isStr := isStr_members d.items id

theorem text_mem : (members d).map (fun e => e.1.text I) = d.items.map Prod.fst :=
  text_members d.items id

theorem isSome_get (h : (dumps I fmt (.dict (members d))).isSome) {v : Value}
    (hv : d.get k = some v) : (dumps I fmt v).isSome := by
  have hmem : (Key.str k, v) ∈ members d :=
    List.mem_map.mpr ⟨(k, v), Dict.mem_items.mpr hv, rfl⟩
  exact ((isSome_dict.mp h).2 _ hmem).2

def byName (I : Interp) (d : Dict String Value) : Dict String Value where
  items := (I.sorted (members d)).map (fun e => (e.1.text I, e.2))
  nodup := by
    rw [List.map_map]
    exact (sorted_text_lt isStr_mem (by rw [text_mem]; exact d.nodup)).imp ne_of_lt

theorem members_byName : members (byName I d) = I.sorted (members d) := by
  rw [members, byName, List.map_map, List.map_congr_left (g := id), List.map_id]
  intro e he
  have hstr := isStr_mem e ((I.sorted_perm _).mem_iff.mp he)
  simp only [Function.comp_apply, Prod.map, id_eq]
  rw [← eq_str_text I hstr]

theorem byName_perm : (byName I d).items.Perm d.items := by
  have hback : (members d).map (fun e => (e.1.text I, e.2)) = d.items := by
    rw [members, List.map_map]
    exact List.map_id d.items
  have hp := (I.sorted_perm (members d)).map (fun e => (e.1.text I, e.2))
  rwa [hback] at hp

theorem byName_lt : ((byName I d).items.map Prod.fst).Pairwise (· < ·) := by
  rw [byName, List.map_map]
  exact sorted_text_lt isStr_mem (by rw [text_mem]; exact d.nodup)

/-- The dict that is read where `d` was written. -/
def arrived (I : Interp) (fmt : Format) (d : Dict String Value) : Dict String Value :=
  (if fmt.sortKeys then byName I d else d).map (fun v => loads (doc I fmt v))

theorem loads_members (h : (dumps I fmt (.dict (members d))).isSome) :
    loads (doc I fmt (.dict (members d))) = .dict (members (arrived I fmt d)) := by
  have harr : fmt.arrange I (members d) = members (if fmt.sortKeys then byName I d else d) := by
    unfold Format.arrange
    split
    · exact members_byName.symm
    · rfl
  rw [doc_dict h, harr, loads_obj]
  · rw [arrived, members, members, Dict.map, List.map_map, List.map_map, List.map_map]
    rfl
  · rw [List.map_map]
    change ((members _).map (fun e => e.1.text I)).Nodup
    rw [text_mem]
    exact Dict.nodup _

theorem get_arrived : (arrived I fmt d).get k = (d.get k).map (fun v => loads (doc I fmt v)) := by
  rw [arrived, Dict.get_map]
  split
  · rw [Dict.get_of_perm byName_perm]
  · rfl

end Members

section Texts

theorem toList_cut (n : Nat) (s : String) : (cut n s).toList = s.toList.take n :=
  String.toList_ofList

theorem length_cut_digest (d : Digest) : (cut 12 d.text).toList.length = 12 := by
  rw [toList_cut, List.length_take, String.length_toList, d.hex.1]
  rfl

theorem cut_digest_ne_none {a b : List Char} (d : Digest) :
    a ++ "None".toList ≠ b ++ (cut 12 d.text).toList := by
  intro h
  have hsuf : "None".toList <:+ (cut 12 d.text).toList := by
    have hlen : "None".toList.length ≤ (cut 12 d.text).toList.length := by
      rw [length_cut_digest]
      decide
    exact List.suffix_of_suffix_length_le (List.suffix_append a _) (h ▸ List.suffix_append b _) hlen
  have hN : 'N' ∈ (cut 12 d.text).toList := hsuf.subset (by decide)
  rw [toList_cut] at hN
  exact absurd (d.hex.2 'N' (List.mem_of_mem_take hN)) (by decide)

def asWanted (want : Option Digest) : Value :=
  (want.map (fun d => Value.str d.text)).getD .none

theorem middle_eq {p m q a a' w w' g g' : List Char} (hg : g.length = g'.length)
    (h : p ++ (a ++ (m ++ (w ++ (q ++ g)))) = p ++ (a' ++ (m ++ (w' ++ (q ++ g'))))) :
    (a ++ m) ++ w = (a' ++ m) ++ w' := by
  have h' := List.append_cancel_left h
  have hg' : (q ++ g).length = (q ++ g').length := by simp [hg]
  simp only [← List.append_assoc] at h'
  rw [List.append_assoc _ q, List.append_assoc _ q] at h'
  exact List.append_inj_left' h' hg'

theorem cancel_same_length {a a' m w w' : List Char} (hw : w.length = w'.length)
    (h : (a ++ m) ++ w = (a' ++ m) ++ w') : a = a' :=
  List.append_cancel_right (List.append_inj_left' h hw)

/-- The first twelve characters of `str(want)`. -/
def wantText (want : Option Digest) : List Char :=
  match want with
  | none => "None".toList
  | some d => (cut 12 d.text).toList

theorem wantText_eq (want : Option Digest) :
    (cut 12 (I.str (asWanted want))).toList = wantText want := by
  cases want with
  | none =>
    have hnone : I.str (asWanted none) = "None" := rfl
    rw [hnone, toList_cut, wantText]
    decide
  | some d => rfl

theorem wantText_cancel {want want' : Option Digest} {a a' m : List Char}
    (h : (a ++ m) ++ wantText want = (a' ++ m) ++ wantText want') : a = a' := by
  cases want with
  | none =>
    cases want' with
    | none => exact cancel_same_length rfl h
    | some d => exact absurd h (cut_digest_ne_none d)
  | some d =>
    cases want' with
    | none => exact absurd h.symm (cut_digest_ne_none d)
    | some d' =>
      refine cancel_same_length ?_ h
      rw [wantText, wantText, length_cut_digest, length_cut_digest]

theorem mismatch_name {name name' : String} {want want' : Option Digest} {got got' : Digest}
    (h : mismatch name (asWanted want) got I = mismatch name' (asWanted want') got' I) :
    name = name' := by
  unfold mismatch at h
  generalize "HASH_MISMATCH " = p, ": sidecar " = m, " != shipped " = q at h
  replace h := congrArg String.toList h
  simp only [String.toList_append, List.append_assoc, wantText_eq] at h
  have hlen : (cut 12 got.text).toList.length = (cut 12 got'.text).toList.length := by
    rw [length_cut_digest, length_cut_digest]
  exact String.toList_inj.mp (wantText_cancel (middle_eq hlen h))

end Texts

theorem filterMap_ite {α β : Type} (p : α → Bool) (f : α → β) (es : List α) :
    es.filterMap (fun e => if p e then some (f e) else none) = (es.filter p).map f := by
  induction es with
  | nil => rfl
  | cons e es ih =>
    cases hp : p e <;> simp [hp, ih]

theorem map_eq_of_map_eq {α β γ : Type} {f : α → β} {g : α → γ} {P : α → Prop}
    (hfg : ∀ a b, P a → P b → f a = f b → g a = g b) {as bs : List α} (has : ∀ a ∈ as, P a)
    (hbs : ∀ b ∈ bs, P b) (h : as.map f = bs.map f) : as.map g = bs.map g := by
  induction as generalizing bs with
  | nil =>
    cases bs with
    | nil => rfl
    | cons b bs => cases h
  | cons a as ih =>
    cases bs with
    | nil => cases h
    | cons b bs =>
      obtain ⟨ha, has⟩ := List.forall_mem_cons.mp has
      obtain ⟨hb, hbs⟩ := List.forall_mem_cons.mp hbs
      rw [List.map_cons, List.map_cons, List.cons.injEq] at h
      rw [List.map_cons, List.map_cons, hfg a b ha hb h.1, ih has hbs h.2]

section Way
variable {s : Shipment} {fmt : Format} {run : String}

def Shipment.arrived (s : Shipment) (I : Interp) (fmt : Format) : Value :=
  loads (doc I fmt s.value)

theorem isSome_plain {v : Value} (h : (dumps I compact v).isSome) :
    (dumps I lineFormat v).isSome ∧ (dumps I doneFormat v).isSome :=
  ⟨isSome_dumps (by simp [lineFormat]) (by simp [compact]) h,
    isSome_dumps (by simp [compact]) (by simp [compact]) h⟩

theorem lineResult_eq (h : (dumps I lineFormat s.value).isSome) :
    lineResult I run s.value = some (s.arrived I lineFormat) := by
  have hrec : (dumps I lineFormat (workerRecord run s.value)).isSome := by
    refine isSome_dict.mpr ⟨rfl, ?_⟩
    simpa [Format.takes, dumps] using h
  rw [lineResult, dumps_doc hrec, Option.map_some, workerRecord, doc_dict hrec,
    loads_obj (by simp [Format.arrange, lineFormat, Key.text])]
  rfl

theorem doneResult_eq (h : (dumps I doneFormat s.value).isSome) :
    doneResult I s.value = some (s.arrived I doneFormat) := by
  rw [doneResult, dumps_doc h, Option.map_some, Shipment.arrived]

theorem loads_scalar {v : Value} (hv : scalar v = true) (h : (dumps I compact v).isSome) :
    loads (doc I fmt v) = v := by
  cases v with
  | float x =>
    have hfin : x.finite = true := by simpa [compact] using isSome_float.mp h
    rw [doc_float (isSome_float.mpr (by rw [hfin, Bool.or_true]))]
    cases x with
    | nan _ => cases hfin
    | _ => rfl
  | list vs => cases hv
  | tuple vs => cases hv
  | dict es => cases hv
  | data fs => cases hv
  | other text => cases hv
  | _ => rfl

theorem get_scalars {d : Dict String Value} (hd : ∀ e ∈ d.items, scalar e.2 = true)
    (h : (dumps I compact (.dict (members d))).isSome) (k : String) :
    (arrived I fmt d).get k = d.get k := by
  rw [get_arrived]
  cases hv : d.get k with
  | none => rfl
  | some v => exact congrArg some (loads_scalar (hd _ (Dict.mem_items.mpr hv)) (isSome_get h hv))

theorem part_of_get {d p : Dict String Value} {key : String}
    (h : d.get key = some (.dict (members p))) : part (members d) key = members p := by
  rw [part, dictGet_members, h]

structure Shipment.Shaped (s : Shipment) : Prop where
  products : s.items.get "products" = some (.dict (members s.products))
  sidecar : s.items.get "sidecar" = some (.dict (members s.sidecar))
  attested : s.items.get "attested_shas" = some (.dict (members s.attested))

theorem shaped_of (h : WellShaped (members s.items)) : s.Shaped := by
  have hget : ∀ {key : String} {p : Dict String Value},
      dictGet (members s.items) (.str key) = some (.dict (part (members s.items) key)) →
      (∀ ps, s.items.get key = some (.dict ps) → ps = members p) →
      s.items.get key = some (.dict (members p)) := by
    intro key p hpart hat
    rw [dictGet_members] at hpart
    rw [hpart, hat _ hpart]
  exact ⟨hget h.products s.products_at, hget h.sidecar s.sidecar_at,
    hget h.attested s.attested_at⟩

theorem verify_members {d p h a : Dict String Value}
    (hp : d.get "products" = some (.dict (members p)))
    (hh : d.get "sidecar" = some (.dict (members h)))
    (ha : d.get "attested_shas" = some (.dict (members a))) :
    verifyShipment I sha256 requiredShas (.dict (members d)) =
      (members p).filterMap (productViolation I sha256 (members h)) ++
        requiredShas.items.filterMap (slotViolation I (members a)) := by
  have hshaped : WellShaped (members d) := by
    constructor
    · rw [dictGet_members, part_of_get hp, hp]
    · rw [dictGet_members, part_of_get hh, hh]
    · rw [dictGet_members, part_of_get ha, ha]
  rw [verify_wellShaped hshaped, part_of_get hp, part_of_get hh, part_of_get ha]

theorem malformed_arrived (h : (dumps I fmt s.value).isSome) (key : String) :
    malformed (members (arrived I fmt s.items)) key = malformed (members s.items) key := by
  unfold malformed
  rw [dictGet_members, dictGet_members, get_arrived]
  cases hv : s.items.get key with
  | none => rfl
  | some v =>
    have hdoc := isSome_get h hv
    cases v with
    | list vs =>
      rw [Option.map_some, doc_list hdoc]
      rfl
    | tuple vs =>
      rw [Option.map_some, doc_tuple, doc_list (by rwa [dumps_tuple] at hdoc)]
      rfl
    | dict es =>
      rw [Option.map_some, doc_dict hdoc]
      rfl
    | float x =>
      rw [Option.map_some, doc_float hdoc]
      rfl
    | data fs => cases hdoc
    | other text => cases hdoc
    | _ => rfl

theorem arrived_at (h : (dumps I fmt s.value).isSome) {key : String} {p : Dict String Value}
    (hp : s.items.get key = some (.dict (members p))) :
    (arrived I fmt s.items).get key = some (.dict (members (arrived I fmt p))) := by
  rw [get_arrived, hp, Option.map_some, loads_members (isSome_get h hp)]

theorem productViolation_congr {a a' : Dict String Value} (h : ∀ k, a'.get k = a.get k)
    (k : String) (v : Value) :
    productViolation I sha256 (members a') (.str k, v) =
      productViolation I sha256 (members a) (.str k, v) := by
  simp only [productViolation, dictGet_members, h]

theorem slotViolation_congr {a a' : Dict String Value} (h : ∀ k, a'.get k = a.get k) :
    slotViolation I (members a') = slotViolation I (members a) := by
  funext r
  simp only [slotViolation, dictGet_members, h]

theorem reread_iff (hnan : fmt.allowNan = true) {v : Value} (h : (dumps I compact v).isSome) :
    dumps I compact (loads (doc I fmt v)) = some (doc I compact v) ↔ v.ascending I := by
  have hfmt : (dumps I fmt v).isSome := isSome_dumps (fun _ => rfl) (fun _ => hnan) h
  cases hsort : fmt.sortKeys with
  | false => exact dumps_loads_unsorted_iff rfl hsort h hfmt
  | true =>
    have hsame : fmt.sortKeys = compact.sortKeys := hsort
    rw [doc_congr hsame h hfmt]
    exact dumps_loads_iff rfl h

theorem sha256Json_iff (hnan : fmt.allowNan = true) {v : Value} (h : (dumps I compact v).isSome)
    (hsha : Apart I sha256 v (loads (doc I fmt v))) :
    sha256Json I sha256 (loads (doc I fmt v)) = sha256Json I sha256 v ↔ v.ascending I := by
  rw [← reread_iff hnan h]
  unfold sha256Json
  rw [dumps_doc h]
  cases hj : dumps I compact (loads (doc I fmt v)) with
  | none => simp
  | some j =>
    simp only [Except.ok.injEq, Option.some.injEq]
    exact ⟨fun hsame => (hsha _ (dumps_doc h) j hj (by rw [hsame])).symm,
      fun hsame => by rw [hsame]⟩

theorem mem_products (h : (dumps I compact s.value).isSome) (hs : s.Shaped)
    {e : String × Value} (he : e ∈ s.products.items) : (dumps I compact e.2).isSome :=
  ((isSome_dict.mp (isSome_get h hs.products)).2 (.str e.1, e.2)
    (List.mem_map.mpr ⟨e, he, rfl⟩)).2

theorem violation_eq {e : String × Value} (h : (dumps I compact e.2).isSome) :
    productViolation I sha256 (members s.sidecar) (.str e.1, e.2) =
      if s.mismatched I sha256 e then some (s.line I sha256 e) else none := by
  rw [productViolation, sha256Json, Shipment.mismatched, dumps_doc h]
  simp only [dictGet_members, Key.value, Interp.str, Shipment.line]
  cases isText (s.sidecar.get e.1) (sha256 (doc I compact e.2)).text <;> rfl

theorem arrived_violation (hnan : fmt.allowNan = true) (h : (dumps I compact s.value).isSome)
    (hs : s.Shaped) (hasc : (Value.dict (members s.products)).ascending I) {e : String × Value}
    (he : e ∈ s.products.items) :
    productViolation I sha256 (members (arrived I fmt s.sidecar))
        (.str e.1, loads (doc I fmt e.2)) =
      productViolation I sha256 (members s.sidecar) (.str e.1, e.2) := by
  have hdoc := mem_products h hs he
  have hsame := (reread_iff hnan hdoc).mpr
    ((ascending_dict.mp hasc).2 (.str e.1, e.2) (List.mem_map.mpr ⟨e, he, rfl⟩))
  rw [productViolation_congr (get_scalars s.hashes_scalar (isSome_get h hs.sidecar)),
    productViolation, productViolation, sha256Json, sha256Json, hsame, dumps_doc hdoc]

def Shipment.listed (s : Shipment) (I : Interp) (fmt : Format) : Dict String Value :=
  if fmt.sortKeys then byName I s.products else s.products

theorem listed_perm : (s.listed I fmt).items.Perm s.products.items := by
  unfold Shipment.listed
  split
  · exact byName_perm
  · exact .refl _

theorem violations_eq (h : (dumps I compact s.value).isSome) (hs : s.Shaped)
    {es : List (String × Value)} (hes : es.Perm s.products.items) :
    (es.map (Prod.map Key.str id)).filterMap
        (productViolation I sha256 (members s.sidecar)) =
      (es.filter (s.mismatched I sha256)).map (s.line I sha256) := by
  rw [List.filterMap_map, ← filterMap_ite]
  exact List.filterMap_congr fun e he => violation_eq (mem_products h hs (hes.mem_iff.mp he))

theorem violations_arrived (hnan : fmt.allowNan = true) (h : (dumps I compact s.value).isSome)
    (hs : s.Shaped) (hasc : (Value.dict (members s.products)).ascending I) :
    (members (arrived I fmt s.products)).filterMap
        (productViolation I sha256 (members (arrived I fmt s.sidecar))) =
      ((s.listed I fmt).items.filter (s.mismatched I sha256)).map (s.line I sha256) := by
  have hmap : members (arrived I fmt s.products) =
      (s.listed I fmt).items.map (fun e => (Key.str e.1, loads (doc I fmt e.2))) := by
    rw [arrived, members, Dict.map, List.map_map]
    rfl
  rw [hmap, List.filterMap_map, ← violations_eq h hs listed_perm, List.filterMap_map]
  exact List.filterMap_congr fun e he =>
    arrived_violation hnan h hs hasc (listed_perm.mem_iff.mp he)

/-- What a shipment needs to be governed alike: on a path that sorts, its mismatched products
have to give the same lines by name. -/
structure Shipment.Stable (s : Shipment) (I : Interp) (sha256 : Json → Digest) (fmt : Format) :
    Prop where
  ascending : ∀ v, s.items.get "products" = some v → v.ascending I
  lines : s.Shaped → ((s.listed I fmt).items.filter (s.mismatched I sha256)).map (s.line I sha256) =
    (s.products.items.filter (s.mismatched I sha256)).map (s.line I sha256)

theorem content_iff (hnan : fmt.allowNan = true) (h : (dumps I compact s.value).isSome)
    (hsha : ∀ v, s.items.get "products" = some v → Apart I sha256 v (loads (doc I fmt v))) :
    content I sha256 (s.arrived I fmt) = content I sha256 s.value ↔
      ∀ v, s.items.get "products" = some v → v.ascending I := by
  have hfmt : (dumps I fmt s.value).isSome := isSome_dumps (fun _ => rfl) (fun _ => hnan) h
  rw [Shipment.arrived, Shipment.value, loads_members hfmt]
  simp only [content, dictGet_members, get_arrived]
  cases hv : s.items.get "products" with
  | none => simp
  | some v =>
    simp only [Option.map_some, Option.some.injEq, forall_eq']
    exact sha256Json_iff hnan (isSome_get h hv) (hsha v hv)

theorem verify_unshaped (h : (dumps I fmt s.value).isSome) (hs : ¬ WellShaped (members s.items)) :
    verifyShipment I sha256 requiredShas (s.arrived I fmt) =
      verifyShipment I sha256 requiredShas s.value := by
  have hsame : ["products", "sidecar", "attested_shas"].filterMap
      (malformed (members (arrived I fmt s.items))) =
        ["products", "sidecar", "attested_shas"].filterMap (malformed (members s.items)) :=
    List.filterMap_congr fun key _ => malformed_arrived h key
  have hnot : ["products", "sidecar", "attested_shas"].filterMap (malformed (members s.items)) ≠
      [] := fun hnil => hs (wellShaped_iff.mp hnil)
  rw [Shipment.arrived, Shipment.value, loads_members h, verifyShipment, verifyShipment, hsame,
    if_pos hnot, if_pos hnot]

theorem verify_iff (hnan : fmt.allowNan = true) (h : (dumps I compact s.value).isSome)
    (hs : s.Shaped) (hasc : (Value.dict (members s.products)).ascending I) :
    verifyShipment I sha256 requiredShas (s.arrived I fmt) =
        verifyShipment I sha256 requiredShas s.value ↔
      ((s.listed I fmt).items.filter (s.mismatched I sha256)).map (s.line I sha256) =
        (s.products.items.filter (s.mismatched I sha256)).map (s.line I sha256) := by
  have hfmt : (dumps I fmt s.value).isSome := isSome_dumps (fun _ => rfl) (fun _ => hnan) h
  have hslots : slotViolation I (members (arrived I fmt s.attested)) =
      slotViolation I (members s.attested) :=
    slotViolation_congr (get_scalars s.shas_scalar (isSome_get h hs.attested))
  have hsent : (members s.products).filterMap (productViolation I sha256 (members s.sidecar)) =
      (s.products.items.filter (s.mismatched I sha256)).map (s.line I sha256) :=
    violations_eq h hs (.refl _)
  rw [Shipment.arrived, Shipment.value, loads_members hfmt, verify_members
    (arrived_at hfmt hs.products) (arrived_at hfmt hs.sidecar) (arrived_at hfmt hs.attested),
    verify_members hs.products hs.sidecar hs.attested, violations_arrived hnan h hs hasc, hslots,
    hsent, List.append_cancel_right_eq]

theorem sameVerdict_iff (hnan : fmt.allowNan = true) (h : (dumps I compact s.value).isSome)
    (hsha : ∀ v, s.items.get "products" = some v → Apart I sha256 v (loads (doc I fmt v))) :
    SameVerdict I sha256 requiredShas s.value (s.arrived I fmt) ↔ s.Stable I sha256 fmt := by
  have hfmt : (dumps I fmt s.value).isSome := isSome_dumps (fun _ => rfl) (fun _ => hnan) h
  constructor
  · intro hsame
    have hasc := (content_iff hnan h hsha).mp hsame.content
    exact ⟨hasc, fun hs => (verify_iff hnan h hs (hasc _ hs.products)).mp hsame.violations⟩
  · intro hstable
    refine ⟨?_, (content_iff hnan h hsha).mpr hstable.ascending⟩
    by_cases hs : WellShaped (members s.items)
    · have hshaped := shaped_of hs
      exact (verify_iff hnan h hshaped (hstable.ascending _ hshaped.products)).mpr
        (hstable.lines hshaped)
    · exact verify_unshaped hfmt hs

theorem lines_iff (hhex : ∀ e ∈ s.products.items, s.mismatched I sha256 e = true →
      ∃ want : Option Digest, s.sidecar.get e.1 = want.map (fun d => .str d.text)) :
    ((byName I s.products).items.filter (s.mismatched I sha256)).map (s.line I sha256) =
        (s.products.items.filter (s.mismatched I sha256)).map (s.line I sha256) ↔
      ((s.products.items.filter (s.mismatched I sha256)).map Prod.fst).Pairwise (· < ·) := by
  have hlt : (((byName I s.products).items.filter (s.mismatched I sha256)).map
      Prod.fst).Pairwise (· < ·) :=
    byName_lt.sublist (List.filter_sublist.map Prod.fst)
  constructor
  · intro heq
    have hnames : ((byName I s.products).items.filter (s.mismatched I sha256)).map Prod.fst =
        (s.products.items.filter (s.mismatched I sha256)).map Prod.fst := by
      refine map_eq_of_map_eq (P := fun e => e ∈ s.products.items ∧ s.mismatched I sha256 e = true)
        (fun a b ha hb hab => ?_) (fun a ha => ?_) (fun a ha => ?_) heq
      · obtain ⟨want, hwant⟩ := hhex a ha.1 ha.2
        obtain ⟨want', hwant'⟩ := hhex b hb.1 hb.2
        rw [Shipment.line, Shipment.line, hwant, hwant'] at hab
        exact mismatch_name hab
      · obtain ⟨hin, hmis⟩ := List.mem_filter.mp ha
        exact ⟨byName_perm.mem_iff.mp hin, hmis⟩
      · exact List.mem_filter.mp ha
    rwa [hnames] at hlt
  · intro hlt'
    have heq : (byName I s.products).items.filter (s.mismatched I sha256) =
        s.products.items.filter (s.mismatched I sha256) :=
      List.Perm.eq_of_pairwise (fun a b _ _ hab hba => absurd hba (lt_asymm hab))
        (List.pairwise_map.mp hlt) (List.pairwise_map.mp hlt') (byName_perm.filter _)
    rw [heq]

/-- A shipment is governed alike in memory, from the result line and from DONE.json exactly when
its products are ascending and the lines of those that do not match the sidecar are the same by
name. -/
theorem verdict_survives (run : String) (s : Shipment) (h : (dumps I compact s.value).isSome)
    (hsha : ∀ fmt ∈ [lineFormat, doneFormat], ∀ v, s.items.get "products" = some v →
      Apart I sha256 v (loads (doc I fmt v))) :
    ((∃ v, lineResult I run s.value = some v ∧ SameVerdict I sha256 requiredShas s.value v) ∧
      ∃ v, doneResult I s.value = some v ∧ SameVerdict I sha256 requiredShas s.value v) ↔
    s.Stable I sha256 doneFormat := by
  obtain ⟨hline, hdone⟩ := isSome_plain h
  rw [lineResult_eq hline, doneResult_eq hdone]
  simp only [Option.some.injEq, exists_eq_left']
  rw [sameVerdict_iff rfl h (hsha _ (by simp)), sameVerdict_iff rfl h (hsha _ (by simp))]
  exact ⟨And.right, fun hstable => ⟨⟨hstable.ascending, fun _ => rfl⟩, hstable⟩⟩

end Way

/-- A shipment of one product, a dict with these keys, under the hash `d`. -/
def levelsShipment (low high : Key) (d : Digest) : Shipment where
  items := ⟨[("products", .dict [(.str "levels", .dict [(low, .int 1), (high, .int 2)])]),
    ("sidecar", .dict [(.str "levels", .str d.text)]), ("attested_shas", .dict [])], by simp⟩
  products := ⟨[("levels", .dict [(low, .int 1), (high, .int 2)])], by simp⟩
  sidecar := ⟨[("levels", .str d.text)], by simp⟩
  attested := Dict.empty
  products_at _ h := by cases h; rfl
  sidecar_at _ h := by cases h; rfl
  attested_at _ h := by cases h; rfl
  hashes_scalar := by simp [scalar]
  shas_scalar := by simp [Dict.empty]

/-- The digests of `{"2":1,"10":2}` and of `{"10":2,"2":1}`. -/
def ascendingDigest : Digest where
  text := "2a2cda3c45f41d7f15f792f391f8f8553955b51b1aa8c2a4f0cb6566ea3f794b"
  hex := ⟨rfl, hex_of rfl⟩

def stringDigest : Digest where
  text := "cc0e4215ce9b47856142f2356851f02410d82609e64d037ee873afc483f703f6"
  hex := ⟨rfl, hex_of rfl⟩

def levelsSha : Json → Digest
  | .obj (("2", _) :: _) => ascendingDigest
  | .obj (("10", _) :: _) => stringDigest
  | .obj ((_, .obj (("2", _) :: _)) :: _) => oneDigest
  | _ => twoDigest

theorem stringLevels_survive :
    ((∃ v, lineResult sampleInterp "run_0"
        (levelsShipment (.str "2") (.str "10") stringDigest).value = some v ∧
        SameVerdict sampleInterp levelsSha Dict.empty
          (levelsShipment (.str "2") (.str "10") stringDigest).value v) ∧
      ∃ v, doneResult sampleInterp (levelsShipment (.str "2") (.str "10") stringDigest).value
        = some v ∧ SameVerdict sampleInterp levelsSha Dict.empty
          (levelsShipment (.str "2") (.str "10") stringDigest).value v) := by
  refine (verdict_survives "run_0" (levelsShipment (.str "2") (.str "10") stringDigest) (by decide)
    ?_).mpr ⟨fun v hv => ?_, fun _ => by decide⟩
  · intro fmt hfmt v hv j hj j' hj' _
    cases hv
    rw [List.mem_pair] at hfmt
    rcases hfmt with rfl | rfl <;> cases hj <;> cases hj' <;> rfl
  · cases hv
    decide

theorem intLevels_rejected :
    ¬ ∀ (I : Interp) (sha256 : Json → Digest) (requiredShas : Dict String String) (run : String)
      (s : Shipment), (dumps I compact s.value).isSome →
      (∀ fmt ∈ [lineFormat, doneFormat], ∀ v, s.items.get "products" = some v →
        Apart I sha256 v (loads (doc I fmt v))) →
      (∃ v, lineResult I run s.value = some v ∧ SameVerdict I sha256 requiredShas s.value v) ∧
        ∃ v, doneResult I s.value = some v ∧ SameVerdict I sha256 requiredShas s.value v := by
  intro h
  have hapart : ∀ fmt ∈ [lineFormat, doneFormat], ∀ v,
      (levelsShipment (.int 2) (.int 10) ascendingDigest).items.get "products" = some v →
      Apart sampleInterp levelsSha v (loads (doc sampleInterp fmt v)) := by
    intro fmt hfmt v hv j hj j' hj' hsame
    cases hv
    rw [List.mem_pair] at hfmt
    rcases hfmt with rfl | rfl <;> cases hj <;> cases hj' <;> exact absurd hsame (by decide)
  obtain ⟨⟨v, hv, hsame⟩, _⟩ := h sampleInterp levelsSha Dict.empty "run_0"
    (levelsShipment (.int 2) (.int 10) ascendingDigest) (by decide) hapart
  have hsent : verifyShipment sampleInterp levelsSha Dict.empty
      (levelsShipment (.int 2) (.int 10) ascendingDigest).value = [] := by decide
  have hverdict := hsame.violations
  rw [hsent] at hverdict
  cases hv
  revert hverdict
  decide

end RunFarm
