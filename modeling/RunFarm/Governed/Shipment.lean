import RunFarm.Config

/-! `verify_shipment`: the product hashes of a sidecar and the worker's attestations. -/
set_option autoImplicit false

namespace RunFarm
open Python

structure Digest where
  text : String
  hex : text.length = 64 ∧ ∀ c ∈ text.toList, c ∈ "0123456789abcdef".toList

theorem hex_of {text : String}
    (h : text.toList.all (fun c => "0123456789abcdef".toList.contains c) = true) :
    ∀ c ∈ text.toList, c ∈ "0123456789abcdef".toList := by
  simpa using h

/-- `s[:n]`. -/
def cut (n : Nat) (s : String) : String := String.ofList (s.toList.take n)

/-- The format of `sha256_json`. -/
def compact : Format := { sortKeys := true, allowNan := false }

/-- `sha256` is the digest of a document's text; the error is what `dumps` raises. -/
def sha256Json (I : Interp) (sha256 : Json → Digest) (v : Value) : Except String Digest :=
  match dumps I compact v with
  | some j => .ok (sha256 j)
  | none => .error (I.error v)

/-- `v == s` of what a dict holds and a string. -/
def isText (v : Option Value) (s : String) : Bool :=
  match v with
  | some (.str t) => t = s
  | _ => false

def malformed (es : List (Key × Value)) (key : String) : Option String :=
  match dictGet es (.str key) with
  | none => some ("MALFORMED " ++ key ++ ": missing")
  | some (.dict _) => none
  | some _ => some ("MALFORMED " ++ key ++ ": not a dict")

/-- `shipment.get(key, {})` of a shipment in shape. -/
def part (es : List (Key × Value)) (key : String) : List (Key × Value) :=
  match dictGet es (.str key) with
  | some (.dict ps) => ps
  | _ => []

def mismatch (name : String) (want : Value) (got : Digest) (I : Interp) : String :=
  "HASH_MISMATCH " ++ name ++ ": sidecar " ++ cut 12 (I.str want) ++ " != shipped " ++
    cut 12 got.text

def productViolation (I : Interp) (sha256 : Json → Digest) (sidecar : List (Key × Value))
    (e : Key × Value) : Option String :=
  match sha256Json I sha256 e.2 with
  | .error text => some ("UNHASHABLE " ++ I.str e.1.value ++ ": " ++ text)
  | .ok got =>
    let want := dictGet sidecar e.1
    if isText want got.text then none
    else some (mismatch (I.str e.1.value) (want.getD .none) got I)

def slotViolation (I : Interp) (attested : List (Key × Value)) (required : String × String) :
    Option String :=
  let att := dictGet attested (.str required.1)
  if isText att required.2 then none
  else some ("SHA_MISMATCH " ++ required.1 ++ ": host ran " ++ I.str (att.getD .none) ++
    ", tag requires " ++ required.2)

def verifyShipment (I : Interp) (sha256 : Json → Digest) (requiredShas : Dict String String) :
    Value → List String
  | .dict es =>
    let v := ["products", "sidecar", "attested_shas"].filterMap (malformed es)
    if v ≠ [] then v
    else (part es "products").filterMap (productViolation I sha256 (part es "sidecar")) ++
      requiredShas.items.filterMap (slotViolation I (part es "attested_shas"))
  | _ => ["MALFORMED shipment: not a dict"]

/-- The `sha256_json(shipment["products"])` of `_ingest`. -/
def content (I : Interp) (sha256 : Json → Digest) : Value → Option (Except String Digest)
  | .dict es => (dictGet es (.str "products")).map (sha256Json I sha256)
  | _ => none

variable {I : Interp} {sha256 : Json → Digest} {requiredShas : Dict String String}
  {es es' ps' : List (Key × Value)}

theorem isText_iff {v : Option Value} {s : String} : isText v s ↔ v = some (.str s) := by
  cases v with
  | none => simp [isText]
  | some v => cases v <;> simp [isText]

theorem malformed_eq_none {key : String} :
    malformed es key = none ↔ dictGet es (.str key) = some (.dict (part es key)) := by
  unfold malformed part
  split <;> simp_all

theorem productViolation_eq_none {sidecar : List (Key × Value)} {e : Key × Value} :
    productViolation I sha256 sidecar e = none ↔
      ∃ j, dumps I compact e.2 = some j ∧ dictGet sidecar e.1 = some (.str (sha256 j).text) := by
  unfold productViolation sha256Json
  cases dumps I compact e.2 with
  | none => simp
  | some j => simp [isText_iff]

structure WellShaped (es : List (Key × Value)) : Prop where
  products : dictGet es (.str "products") = some (.dict (part es "products"))
  sidecar : dictGet es (.str "sidecar") = some (.dict (part es "sidecar"))
  attested : dictGet es (.str "attested_shas") = some (.dict (part es "attested_shas"))

theorem wellShaped_iff :
    ["products", "sidecar", "attested_shas"].filterMap (malformed es) = [] ↔ WellShaped es := by
  simp only [List.filterMap_eq_nil_iff, List.forall_mem_cons, malformed_eq_none]
  exact ⟨fun h => ⟨h.1, h.2.1, h.2.2.1⟩, fun h => ⟨h.products, h.sidecar, h.attested, by simp⟩⟩

theorem verify_wellShaped (h : WellShaped es) :
    verifyShipment I sha256 requiredShas (.dict es) =
      (part es "products").filterMap (productViolation I sha256 (part es "sidecar")) ++
        requiredShas.items.filterMap (slotViolation I (part es "attested_shas")) := by
  rw [verifyShipment, if_neg (not_not.mpr (wellShaped_iff.mpr h))]

theorem verify_eq_nil :
    verifyShipment I sha256 requiredShas (.dict es) = [] ↔ WellShaped es ∧
      (∀ e ∈ part es "products", productViolation I sha256 (part es "sidecar") e = none) ∧
      ∀ r ∈ requiredShas.items, slotViolation I (part es "attested_shas") r = none := by
  by_cases h : WellShaped es
  · rw [verify_wellShaped h, List.append_eq_nil_iff, List.filterMap_eq_nil_iff,
      List.filterMap_eq_nil_iff]
    exact ⟨fun hv => ⟨h, hv⟩, fun hv => hv.2⟩
  · rw [verifyShipment, if_pos (fun hv => h (wellShaped_iff.mp hv))]
    exact ⟨fun hv => absurd (wellShaped_iff.mp hv) h, fun hv => absurd hv.1 h⟩

theorem dictGet_congr {k k' : Key} (h : k.norm = k'.norm) : dictGet es k = dictGet es k' := by
  rw [dictGet, dictGet, h]

theorem mem_of_dictGet {k : Key} {x : Value} (h : dictGet es k = some x) :
    ∃ k₀, (k₀, x) ∈ es ∧ k₀.norm = k.norm := by
  obtain ⟨e, he, rfl⟩ := Option.map_eq_some_iff.mp h
  exact ⟨e.1, List.mem_of_find?_eq_some he, by simpa using List.find?_some he⟩

def NamesProducts (es : List (Key × Value)) : Prop :=
  ∀ k, (dictGet (part es "sidecar") k).isSome = (dictGet (part es "products") k).isSome

/-- `es'` has the sidecar and the attestations of `es`, and these products. -/
structure Retouched (es es' ps' : List (Key × Value)) : Prop where
  products : dictGet es' (.str "products") = some (.dict ps')
  sidecar : dictGet es' (.str "sidecar") = dictGet es (.str "sidecar")
  attested : dictGet es' (.str "attested_shas") = dictGet es (.str "attested_shas")

/-- `sha256` tells the encodings of the two values apart. -/
def Apart (I : Interp) (sha256 : Json → Digest) (x y : Value) : Prop :=
  ∀ j ∈ dumps I compact x, ∀ j' ∈ dumps I compact y,
    (sha256 j).text = (sha256 j').text → j = j'

def Separates (I : Interp) (sha256 : Json → Digest) (ps ps' : List (Key × Value)) : Prop :=
  ∀ e ∈ ps, ∀ e' ∈ ps', Apart I sha256 e.2 e'.2

/-- The product is in `ps` under its name, with the same encoding. -/
def Carried (I : Interp) (ps : List (Key × Value)) (e : Key × Value) : Prop :=
  ∃ x, dictGet ps e.1 = some x ∧ dumps I compact e.2 = dumps I compact x

theorem Retouched.parts (h : Retouched es es' ps') :
    part es' "products" = ps' ∧ part es' "sidecar" = part es "sidecar" ∧
      part es' "attested_shas" = part es "attested_shas" := by
  refine ⟨?_, ?_, ?_⟩
  · rw [part, h.products]
  · rw [part, h.sidecar, part]
  · rw [part, h.attested, part]

theorem Retouched.wellShaped (h : Retouched es es' ps') (hes : WellShaped es) :
    WellShaped es' where
  products := by rw [h.products, h.parts.1]
  sidecar := by rw [h.sidecar, h.parts.2.1, hes.sidecar]
  attested := by rw [h.attested, h.parts.2.2, hes.attested]

theorem violation_iff_carried {sidecar ps : List (Key × Value)} {e : Key × Value}
    (hps : ∀ e ∈ ps, productViolation I sha256 sidecar e = none)
    (hnames : ∀ k, (dictGet sidecar k).isSome = (dictGet ps k).isSome)
    (hsha : Separates I sha256 ps [e]) :
    productViolation I sha256 sidecar e = none ↔ Carried I ps e := by
  -- what the sidecar has for a product of `ps` of the same name
  have hside : ∀ x, dictGet ps e.1 = some x → ∃ k j, (k, x) ∈ ps ∧ dumps I compact x = some j ∧
      dictGet sidecar e.1 = some (.str (sha256 j).text) := by
    intro x hx
    obtain ⟨k, hk, hnorm⟩ := mem_of_dictGet hx
    obtain ⟨j, hj, hwant⟩ := productViolation_eq_none.mp (hps _ hk)
    exact ⟨k, j, hk, hj, (dictGet_congr hnorm).symm.trans hwant⟩
  rw [productViolation_eq_none]
  constructor
  · rintro ⟨j, hj, hwant⟩
    have hsome : (dictGet ps e.1).isSome := by rw [← hnames, hwant]; rfl
    obtain ⟨x, hx⟩ := Option.isSome_iff_exists.mp hsome
    obtain ⟨k, j', hk, hj', hwant'⟩ := hside x hx
    have hsame : (sha256 j').text = (sha256 j).text := by simpa [hwant] using hwant'.symm
    have := hsha _ hk _ (by simp) j' hj' j hj hsame
    exact ⟨x, hx, by rw [hj, hj', this]⟩
  · rintro ⟨x, hx, hdoc⟩
    obtain ⟨k, j, _, hj, hwant⟩ := hside x hx
    exact ⟨j, hdoc.trans hj, hwant⟩

/-- Of all changes to the products of a verified shipment, those are seen that leave a product
which was not in it before: an altered one or an added one. -/
theorem tampered_iff (h : verifyShipment I sha256 requiredShas (.dict es) = [])
    (hnames : NamesProducts es) (hre : Retouched es es' ps')
    (hsha : Separates I sha256 (part es "products") ps') :
    verifyShipment I sha256 requiredShas (.dict es') ≠ [] ↔
      ∃ e ∈ ps', ¬ Carried I (part es "products") e := by
  obtain ⟨hes, hproducts, hslots⟩ := verify_eq_nil.mp h
  obtain ⟨hp, hs, ha⟩ := hre.parts
  have hviolation : ∀ e ∈ ps', productViolation I sha256 (part es "sidecar") e = none ↔
      Carried I (part es "products") e := fun e he =>
    violation_iff_carried hproducts hnames fun e₀ he₀ e' he' => by
      rw [List.mem_singleton] at he'
      exact hsha e₀ he₀ e' (he' ▸ he)
  have hall : verifyShipment I sha256 requiredShas (.dict es') = [] ↔
      ∀ e ∈ ps', Carried I (part es "products") e := by
    rw [verify_eq_nil, hp, hs, ha]
    exact ⟨fun hv e he => (hviolation e he).mp (hv.2.1 e he), fun hc =>
      ⟨hre.wellShaped hes, fun e he => (hviolation e he).mpr (hc e he), hslots⟩⟩
  simp only [Ne, hall, not_forall, exists_prop]

/-- The digests of the texts `1` and `2`. -/
def oneDigest : Digest where
  text := "6b86b273ff34fce19d6b804eff5a3f5747ada4eaa22f1d49c01e52ddb7875b4b"
  hex := ⟨rfl, hex_of rfl⟩

def twoDigest : Digest where
  text := "d4735e3a265e16eee03f59718b9b5d03019c07d8b6c51f90da3a666eec13ab35"
  hex := ⟨rfl, hex_of rfl⟩

def sampleSha : Json → Digest
  | .int 1 => oneDigest
  | _ => twoDigest

def sampleShipment (products : List (Key × Value)) : List (Key × Value) :=
  [(.str "products", .dict products),
    (.str "sidecar", .dict [(.str "record", .str oneDigest.text),
      (.str "field", .str twoDigest.text)]),
    (.str "attested_shas", .dict [])]

def bothProducts : List (Key × Value) := [(.str "record", .int 1), (.str "field", .int 2)]

def swappedProducts : List (Key × Value) := [(.str "record", .int 2), (.str "field", .int 1)]

def oneProduct : List (Key × Value) := [(.str "record", .int 1)]

theorem isSome_dictGet (k : Key) :
    (dictGet es k).isSome = (es.map Prod.fst).any (fun k' => k'.norm = k.norm) := by
  rw [dictGet, Option.isSome_map, List.isSome_find?, List.any_map]
  rfl

theorem bothProducts_named : NamesProducts (sampleShipment bothProducts) := by
  intro k
  rw [isSome_dictGet, isSome_dictGet]
  rfl

theorem sampleShipment_retouched (ps ps' : List (Key × Value)) :
    Retouched (sampleShipment ps) (sampleShipment ps') ps' := ⟨rfl, rfl, rfl⟩

theorem oneDigest_ne : oneDigest.text ≠ twoDigest.text := by decide

theorem sample_separates {ps ps' : List (Key × Value)}
    (hps : ∀ e ∈ ps, e.2 = .int 1 ∨ e.2 = .int 2) (hps' : ∀ e ∈ ps', e.2 = .int 1 ∨ e.2 = .int 2) :
    Separates sampleInterp sampleSha ps ps' := by
  intro e he e' he' j hj j' hj' hsame
  rcases hps e he with h | h <;> rcases hps' e' he' with h' | h' <;> rw [h] at hj <;>
    rw [h'] at hj' <;> cases hj <;> cases hj'
  · rfl
  · exact absurd hsame oneDigest_ne
  · exact absurd hsame.symm oneDigest_ne
  · rfl

theorem bothProducts_numbers : ∀ e ∈ bothProducts, e.2 = .int 1 ∨ e.2 = .int 2 := by
  simp [bothProducts]

theorem swappedProducts_seen :
    verifyShipment sampleInterp sampleSha Dict.empty (.dict (sampleShipment swappedProducts)) ≠
      [] := by
  have hsent : verifyShipment sampleInterp sampleSha Dict.empty
      (.dict (sampleShipment bothProducts)) = [] := by decide
  refine (tampered_iff hsent bothProducts_named (sampleShipment_retouched _ swappedProducts)
    (sample_separates bothProducts_numbers (by simp [swappedProducts]))).mpr
    ⟨(.str "record", .int 2), by simp [swappedProducts], ?_⟩
  rintro ⟨x, hx, hdoc⟩
  cases hx
  cases hdoc

/-- The second product is lost and the shipment still verifies. -/
theorem oneProduct_unseen :
    ¬ ∀ (I : Interp) (sha256 : Json → Digest) (requiredShas : Dict String String)
      (es es' ps' : List (Key × Value)),
      verifyShipment I sha256 requiredShas (.dict es) = [] → NamesProducts es →
      Retouched es es' ps' → Separates I sha256 (part es "products") ps' →
      (∃ k, (dictGet ps' k).isSome ≠ (dictGet (part es "products") k).isSome) →
      verifyShipment I sha256 requiredShas (.dict es') ≠ [] := by
  intro h
  exact h sampleInterp sampleSha Dict.empty (sampleShipment bothProducts)
    (sampleShipment oneProduct) oneProduct (by decide) bothProducts_named
    (sampleShipment_retouched _ _)
    (sample_separates bothProducts_numbers (by simp [oneProduct]))
    ⟨.str "field", by decide⟩ (by decide)

end RunFarm
