import RunFarm.Python.Fallible
import RunFarm.Python.Floats
import RunFarm.Python.JsonText
import RunFarm.Renting.Create

/-! `offers` of the two adapters: what they take from the catalog of a marketplace. -/
set_option autoImplicit false

namespace RunFarm
open Python

structure HostSpec where
  gpuName : String := "RTX_3090"
  numGpus : Int := 1
  maxDph : Flt := .fin (2 / 5)
  minReliability : Flt := .fin (19 / 20)
  minInetMbps : Flt := .fin 100
  minCuda : Flt := .fin 12
  minGpuFrac : Flt := .fin 0
  minGpuRamMb : Int := 0

/-- An `Offer` with everything that is read of its entry in the catalog. -/
structure CatalogOffer where
  id : String
  dph : Flt
  gpuName : Value
  numGpus : Int
  reliability : Flt
  inetDownMbps : Flt
  cudaMax : Flt
  geolocation : Value
  provider : String

def typeName : Value → String
  | .none => "NoneType"
  | .bool _ => "bool"
  | .int _ => "int"
  | .float _ => "float"
  | .str _ => "str"
  | .list _ => "list"
  | .tuple _ => "tuple"
  | .dict _ => "dict"
  | .data _ | .other _ => "object"

/-- `for x in v`. -/
def elements : Value → Except Exc (List Value)
  | .list vs | .tuple vs => .ok vs
  | .dict es => .ok (es.map fun e => e.1.value)
  | .str s => .ok (s.toList.map fun c => .str c.toString)
  | v => .error ⟨.typeError, none, "'" ++ typeName v ++ "' object is not iterable"⟩

/-- `d[k]`. -/
def item (es : List (Key × Value)) (k : String) : Except Exc Value :=
  match dictGet es (.str k) with
  | some v => .ok v
  | none => .error ⟨.keyError, none, "'" ++ k ++ "'"⟩

def compared (op : String) (v : Value) : Except Exc Flt :=
  match v.number with
  | some x => .ok x
  | none => .error ⟨.typeError, none, "'" ++ op ++ "' not supported between instances of '" ++
      typeName v ++ "' and 'float'"⟩

/-- `s.replace("_", " ")`. -/
def spaced (s : String) : String :=
  String.ofList (s.toList.map fun c => if c = '_' then ' ' else c)

def taken (round : Value → Except Exc (Option CatalogOffer)) :
    List Value → Except Exc (List (Value × CatalogOffer))
  | [] => .ok []
  | g :: gs => do
    let first ← round g
    let rest ← taken round gs
    pure (first.toList.map (fun o => (g, o)) ++ rest)

variable (I : Interp)

def floatItem (v : Value) : Except Exc Flt :=
  match v.toFloat with
  | .ok x => .ok x
  | .error e => .error (intFailed ("float() of " ++ I.repr v) e)

def intItem (v : Value) : Except Exc Int :=
  match v.toInt with
  | .ok n => .ok n
  | .error e => .error (intFailed ("int() of " ++ I.repr v) e)

def clause (op : String) (v : Value) : Value := .dict [(.str op, v)]

/-- The query of `VastProvider.offers`. -/
def vastQuery (spec : HostSpec) : Value :=
  .dict ([(.str "verified", clause "eq" (.bool true)), (.str "rentable", clause "eq" (.bool true)),
    (.str "rented", clause "eq" (.bool false)),
    (.str "gpu_name", clause "eq" (.str (spaced spec.gpuName))),
    (.str "num_gpus", clause "eq" (.int spec.numGpus)),
    (.str "reliability2", clause "gte" (.float spec.minReliability)),
    (.str "inet_down", clause "gte" (.float spec.minInetMbps)),
    (.str "cuda_max_good", clause "gte" (.float spec.minCuda)),
    (.str "order", .list [.list [.str "dph_total", .str "asc"]]),
    (.str "type", .str "on-demand"), (.str "limit", .int 64),
    (.str "allocated_storage", .float (.fin 5))] ++
    (if spec.minGpuFrac.gt (.fin 0) then
      [(.str "gpu_frac", clause "gte" (.float spec.minGpuFrac))] else []) ++
    (if 0 < spec.minGpuRamMb then
      [(.str "gpu_ram", clause "gte" (.int spec.minGpuRamMb))] else []))

/-- The condition of the list that `VastProvider.offers` returns. -/
def vastKeeps (spec : HostSpec) (es : List (Key × Value)) : Except Exc Bool := do
  let price ← compared "<=" ((dictGet es (.str "dph_total")).getD (.float (.fin 1000000000)))
  if price.le spec.maxDph then
    if spec.minGpuRamMb = 0 then pure true
    else
      let ram ← floatItem I (orElse (dictGet es (.str "gpu_ram")) (some (.int 0)))
      pure ((Flt.fin spec.minGpuRamMb).le ram)
  else pure false

def vastOffer (es : List (Key × Value)) : Except Exc CatalogOffer := do
  let id ← item es "id"
  let dph ← item es "dph_total"
  let dph ← floatItem I dph
  let gpuName ← item es "gpu_name"
  let numGpus ← item es "num_gpus"
  let numGpus ← intItem I numGpus
  let reliability ← floatItem I ((dictGet es (.str "reliability2")).getD (.int 0))
  let inetDownMbps ← floatItem I ((dictGet es (.str "inet_down")).getD (.int 0))
  let cudaMax ← floatItem I ((dictGet es (.str "cuda_max_good")).getD (.int 0))
  let geolocation := (dictGet es (.str "geolocation")).getD (.str "")
  pure { id := I.str id, dph, gpuName, numGpus, reliability, inetDownMbps, cudaMax, geolocation,
         provider := "vast" }

def vastRound (spec : HostSpec) : Value → Except Exc (Option CatalogOffer)
  | .dict es => do
    if ← vastKeeps I spec es then
      let offer ← vastOffer I es
      pure (some offer)
    else pure none
  | v => .error (noAttribute v)

/-- `VastProvider.offers`, each offer with its entry; `ask` is `_req` for a query. -/
def vastPicks (ask : Value → Except Exc Value) (spec : HostSpec) :
    Except Exc (List (Value × CatalogOffer)) := do
  match ← ask (vastQuery spec) with
  | .dict es =>
    let raw ← elements ((dictGet es (.str "offers")).getD (.list []))
    taken (vastRound I spec) raw
  | v => .error (noAttribute v)

/-- What `RunPodProvider.offers` reads and refreshes of the provider. -/
structure RunPodProvider where
  cloudType : String
  minCuda : Option Flt
  minInet : Option Flt
  cudaPinned : Bool
  inetPinned : Bool

namespace RunPodProvider

def refreshed (P : RunPodProvider) (spec : HostSpec) : RunPodProvider :=
  let P := if P.cudaPinned then P else { P with minCuda := some spec.minCuda }
  if P.inetPinned then P else { P with minInet := some spec.minInetMbps }

def priceForTier (P : RunPodProvider) (es : List (Key × Value)) : Value :=
  (dictGet es (.str (if P.cloudType = "COMMUNITY" then "communityPrice" else "securePrice"))).getD
    .none

def tierAvailable (P : RunPodProvider) (es : List (Key × Value)) : Bool :=
  ((dictGet es (.str (if P.cloudType = "COMMUNITY" then "communityCloud" else "secureCloud"))).getD
    .none).truthy

/-- `g.get("displayName") or g.get("id") or ""`. -/
def nameOf (es : List (Key × Value)) : Value :=
  orElse (some (orElse (dictGet es (.str "displayName")) (dictGet es (.str "id"))))
    (some (.str ""))

/-- `lower` is `str.lower`. -/
def wanted (lower : String → String) (spec : HostSpec) (name : String)
    (es : List (Key × Value)) : Bool :=
  let want := lower (spaced spec.gpuName)
  mentions [want] (lower name) ||
    mentions [want] (lower (I.str ((dictGet es (.str "id")).getD (.str ""))))

variable (lower : String → String) (P : RunPodProvider) (spec : HostSpec)

def offerOf (name : String) (price : Value) (es : List (Key × Value)) :
    Except Exc CatalogOffer := do
  let id ← item es "id"
  let dph ← floatItem I price
  pure { id := I.str id, dph, gpuName := .str name, numGpus := spec.numGpus,
         reliability := .nan 0, inetDownMbps := .nan 0, cudaMax := .nan 0,
         geolocation := .str P.cloudType, provider := "runpod" }

/-- One round of the loop of `offers`. -/
def consider : Value → Except Exc (Option CatalogOffer)
  | .dict es =>
    match nameOf es with
    | .str name =>
      if wanted I lower spec name es && P.tierAvailable es then
        match P.priceForTier es with
        | .none => .ok none
        | price => do
          let x ← compared ">" price
          if x.gt spec.maxDph then pure none
          else
            let offer ← offerOf I P spec name price es
            pure (some offer)
      else .ok none
    | v => .error ⟨.attributeError, none, "'" ++ typeName v ++ "' object has no attribute 'lower'"⟩
  | v => .error (noAttribute v)

def catalog : Value → Except Exc (List Value)
  | .dict es =>
    let errors := (dictGet es (.str "errors")).getD .none
    if errors.truthy then
      match dumps I {} errors with
      | some j =>
        .error (providerError ("gpuTypes query: " ++ cutTo 200 (String.ofList (j.text I))))
      | none => .error ⟨.typeError, none, I.error errors⟩
    else
      match (dictGet es (.str "data")).getD (.dict []) with
      | .dict data => elements ((dictGet data (.str "gpuTypes")).getD (.list []))
      | v => .error (noAttribute v)
  | v => .error (noAttribute v)

/-- `sorted(out, key=lambda o: o.dph)`. -/
def cheapestFirst (out : List (Value × CatalogOffer)) : List (Value × CatalogOffer) :=
  (I.sorted (out.map fun p => (Key.float p.2.dph, p))).map Prod.snd

/-- `RunPodProvider.offers`, each offer with its entry, and the provider after it. -/
def picks (answer : Except Exc Value) :
    Except Exc (List (Value × CatalogOffer)) × RunPodProvider :=
  (do
    let resp ← answer
    let gs ← catalog I resp
    let out ← taken (consider I lower P spec) gs
    pure (cheapestFirst I out), P.refreshed spec)

end RunPodProvider

def vastMemory : Value → Option Flt
  | .dict es => (orElse (dictGet es (.str "gpu_ram")) (some (.int 0))).toFloat.toOption
  | _ => none

def podMemory : Value → Option Flt
  | .dict es => ((dictGet es (.str "memoryInGb")).getD .none).toFloat.toOption
  | _ => none

def HostSpec.Holds (spec : HostSpec) (unit : ℚ) (memory : Option Flt) : Prop :=
  0 < spec.minGpuRamMb → ∃ m, memory = some m ∧ (Flt.fin (spec.minGpuRamMb / unit)).le m = true

/-- The offer costs no more than the spec allows, and its card has the memory it asks for. -/
structure Suits (spec : HostSpec) (unit : ℚ) (memory : Value → Option Flt)
    (p : Value × CatalogOffer) : Prop where
  cost : p.2.dph.le spec.maxDph = true
  memory : spec.Holds unit (memory p.1)

variable {I} {spec : HostSpec} {round : Value → Except Exc (Option CatalogOffer)}
  {gs : List Value} {ps : List (Value × CatalogOffer)} {o : CatalogOffer}

theorem taken_cons (g : Value) (h : taken round (g :: gs) = .ok ps) :
    ∃ first rest, round g = .ok first ∧ taken round gs = .ok rest ∧
      ps = first.toList.map (fun o => (g, o)) ++ rest := by
  simp only [taken, bind_eq_ok, pure_eq_ok] at h
  obtain ⟨first, hfirst, rest, hrest, rfl⟩ := h
  exact ⟨first, rest, hfirst, hrest, rfl⟩

theorem mem_taken (h : taken round gs = .ok ps) (p : Value × CatalogOffer) :
    p ∈ ps ↔ p.1 ∈ gs ∧ round p.1 = .ok (some p.2) := by
  induction gs generalizing ps with
  | nil =>
    cases h
    simp
  | cons g gs ih =>
    obtain ⟨first, rest, hfirst, hrest, rfl⟩ := taken_cons g h
    obtain ⟨g', o⟩ := p
    rw [List.mem_append, ih hrest, List.mem_cons]
    constructor
    · rintro (hp | ⟨hmem, hround⟩)
      · simp only [List.mem_map, Option.mem_toList, Prod.mk.injEq] at hp
        obtain ⟨o', rfl, rfl, rfl⟩ := hp
        exact ⟨.inl rfl, hfirst⟩
      · exact ⟨.inr hmem, hround⟩
    · rintro ⟨rfl | hmem, hround⟩
      · rw [hfirst] at hround
        cases hround
        exact .inl (by simp)
      · exact .inr ⟨hmem, hround⟩

theorem taken_ok : (∃ ps, taken round gs = .ok ps) ↔ ∀ g ∈ gs, ∃ found, round g = .ok found := by
  induction gs with
  | nil => simp [taken]
  | cons g gs ih =>
    rw [List.forall_mem_cons, ← ih]
    constructor
    · rintro ⟨ps, h⟩
      obtain ⟨first, rest, hfirst, hrest, -⟩ := taken_cons g h
      exact ⟨⟨first, hfirst⟩, rest, hrest⟩
    · rintro ⟨⟨first, hfirst⟩, rest, hrest⟩
      refine ⟨first.toList.map (fun o => (g, o)) ++ rest, ?_⟩
      simp only [taken, hfirst, hrest]
      rfl

theorem floatItem_ok {v : Value} {x : Flt} (h : floatItem I v = .ok x) : v.toFloat = .ok x := by
  unfold floatItem at h
  split at h
  · simp_all
  · cases h

theorem compared_ok {op : String} {v : Value} {x : Flt} :
    compared op v = .ok x ↔ v.number = some x := by
  unfold compared
  cases v.number <;> simp

theorem vastKeeps_true {es : List (Key × Value)} (h : vastKeeps I spec es = .ok true) :
    (∃ x, ((dictGet es (.str "dph_total")).getD (.float (.fin 1000000000))).number = some x ∧
      x.le spec.maxDph = true) ∧ spec.Holds 1 (vastMemory (.dict es)) := by
  simp only [vastKeeps, bind_eq_ok, compared_ok] at h
  obtain ⟨x, hx, h⟩ := h
  split at h
  · rename_i hle
    refine ⟨⟨x, hx, hle⟩, fun hfloor => ?_⟩
    rw [if_neg (by omega)] at h
    simp only [bind_eq_ok, pure_eq_ok] at h
    obtain ⟨ram, hram, hle⟩ := h
    exact ⟨ram, by simp [vastMemory, floatItem_ok hram, Except.toOption], by simpa using hle⟩
  · cases h

theorem vastOffer_dph {es : List (Key × Value)} (h : vastOffer I es = .ok o) :
    ∃ v, dictGet es (.str "dph_total") = some v ∧ v.toFloat = .ok o.dph := by
  simp only [vastOffer, bind_eq_ok, pure_eq_ok] at h
  obtain ⟨-, -, v, hv, dph, hdph, -, -, -, -, -, -, -, -, -, -, -, -, rfl⟩ := h
  refine ⟨v, ?_, floatItem_ok hdph⟩
  unfold item at hv
  split at hv
  · simp_all
  · cases hv

theorem vastRound_suits {g : Value} (h : vastRound I spec g = .ok (some o)) :
    Suits spec 1 vastMemory (g, o) := by
  cases g with
  | dict es =>
    simp only [vastRound, bind_eq_ok] at h
    obtain ⟨keeps, hkeeps, h⟩ := h
    cases keeps with
    | false => cases h
    | true =>
      simp only [if_true, bind_eq_ok, pure_eq_ok, Option.some.injEq] at h
      obtain ⟨offer, hoffer, rfl⟩ := h
      obtain ⟨⟨x, hx, hle⟩, hmemory⟩ := vastKeeps_true hkeeps
      obtain ⟨v, hv, hdph⟩ := vastOffer_dph hoffer
      rw [hv, Option.getD_some] at hx
      exact ⟨by rw [toFloat_number hx hdph]; exact hle, hmemory⟩
  | _ => cases h

theorem vastPicks_suit {ask : Value → Except Exc Value} (h : vastPicks I ask spec = .ok ps)
    (p : Value × CatalogOffer) (hp : p ∈ ps) : Suits spec 1 vastMemory p := by
  simp only [vastPicks, bind_eq_ok] at h
  obtain ⟨v, -, h⟩ := h
  cases v with
  | dict es =>
    simp only [bind_eq_ok] at h
    obtain ⟨raw, -, htaken⟩ := h
    exact vastRound_suits ((mem_taken htaken p).mp hp).2
  | _ => cases h

namespace RunPodProvider
variable {lower : String → String} {P : RunPodProvider}

section
variable (I) (lower) (P) (spec)

/-- The tests that `RunPodProvider.offers` makes of an entry. -/
structure Passes (es : List (Key × Value)) : Prop where
  named : ∃ name, nameOf es = .str name ∧ wanted I lower spec name es = true
  tier : P.tierAvailable es = true
  price : ∃ x, (P.priceForTier es).number = some x ∧ x.gt spec.maxDph = false

/-- No NaN stands on either side of the price test, and the card has the memory asked for. -/
structure Plain (es : List (Key × Value)) : Prop where
  price : ∀ x, (P.priceForTier es).number = some x → x.isNan = false
  cap : spec.maxDph.isNan = false
  memory : spec.Holds 1024 (podMemory (.dict es))

def Readable (g : Value) : Prop := ∃ found, P.consider I lower spec g = .ok found

end

theorem offerOf_dph {name : String} {price : Value} {es : List (Key × Value)}
    (h : offerOf I P spec name price es = .ok o) : price.toFloat = .ok o.dph := by
  simp only [offerOf, bind_eq_ok, pure_eq_ok] at h
  obtain ⟨-, -, dph, hdph, rfl⟩ := h
  exact floatItem_ok hdph

theorem consider_priced {name : String} {es : List (Key × Value)} (hname : nameOf es = .str name)
    (hwanted : wanted I lower spec name es = true) (htier : P.tierAvailable es = true)
    (hprice : P.priceForTier es ≠ .none) :
    P.consider I lower spec (.dict es) = (do
      let x ← compared ">" (P.priceForTier es)
      if x.gt spec.maxDph then pure none
      else
        let offer ← offerOf I P spec name (P.priceForTier es) es
        pure (some offer)) := by
  unfold consider
  simp only [hname, hwanted, htier, Bool.and_self, if_true]

theorem consider_some {g : Value} (h : P.consider I lower spec g = .ok (some o)) :
    ∃ es, g = .dict es ∧ Passes I spec lower P es ∧
      (P.priceForTier es).number = some o.dph := by
  cases g with
  | dict es =>
    refine ⟨es, rfl, ?_⟩
    cases hname : nameOf es with
    | str name =>
      by_cases htests : wanted I lower spec name es = true ∧ P.tierAvailable es = true
      · obtain ⟨hwanted, htier⟩ := htests
        by_cases hprice : P.priceForTier es = .none
        · simp [consider, hname, hwanted, htier, hprice] at h
        · rw [consider_priced hname hwanted htier hprice] at h
          simp only [bind_eq_ok, compared_ok] at h
          obtain ⟨x, hx, h⟩ := h
          split at h
          · cases h
          · rename_i hgt
            simp only [bind_eq_ok, pure_eq_ok, Option.some.injEq] at h
            obtain ⟨offer, hoffer, rfl⟩ := h
            have hdph := toFloat_number hx (offerOf_dph hoffer)
            exact ⟨⟨⟨name, hname, hwanted⟩, htier, x, hx, by simpa using hgt⟩, by rw [hdph, hx]⟩
      · have hskip : (wanted I lower spec name es && P.tierAvailable es) = false := by
          rw [← Bool.not_eq_true, Bool.and_eq_true]
          exact htests
        simp [consider, hname, hskip] at h
    | _ => simp [consider, hname] at h
  | _ => cases h

theorem consider_passes {es : List (Key × Value)} (hpasses : Passes I spec lower P es)
    (hread : Readable I spec lower P (.dict es)) :
    ∃ o, P.consider I lower spec (.dict es) = .ok (some o) := by
  obtain ⟨found, hfound⟩ := hread
  obtain ⟨name, hname, hwanted⟩ := hpasses.named
  obtain ⟨x, hx, hgt⟩ := hpasses.price
  have hprice : P.priceForTier es ≠ .none := by
    intro hnone
    rw [hnone] at hx
    cases hx
  rw [consider_priced hname hwanted hpasses.tier hprice] at hfound ⊢
  simp only [compared_ok.mpr hx, bind_eq_ok, Except.ok.injEq, exists_eq_left', hgt,
    Bool.false_eq_true, if_false, pure_eq_ok] at hfound ⊢
  obtain ⟨offer, hoffer, -⟩ := hfound
  exact ⟨offer, offer, hoffer, rfl⟩

theorem mem_cheapestFirst {p : Value × CatalogOffer} : p ∈ cheapestFirst I ps ↔ p ∈ ps := by
  have hperm := (I.sorted_perm (ps.map fun p => (Key.float p.2.dph, p))).map Prod.snd
  rw [List.map_map, show (Prod.snd ∘ fun p : Value × CatalogOffer => (Key.float p.2.dph, p)) = id
    from rfl, List.map_id] at hperm
  exact hperm.mem_iff

theorem cheapestFirst_sorted (h : ∀ p ∈ ps, p.2.dph.isNan = false) :
    ((cheapestFirst I ps).map Prod.snd).Pairwise fun a b => a.dph.le b.dph = true := by
  have hkeys : ∀ e ∈ I.sorted (ps.map fun p => (Key.float p.2.dph, p)),
      e.2 ∈ ps ∧ e.1 = .float e.2.2.dph := by
    intro e he
    obtain ⟨p, hp, rfl⟩ := List.mem_map.mp ((I.sorted_perm _).mem_iff.mp he)
    exact ⟨hp, rfl⟩
  have hsorted := I.sorted_le (ps.map fun p => (Key.float p.2.dph, p))
    (by simp [sortable, Key.isNumber]) fun e he => by
      obtain ⟨p, hp, rfl⟩ := List.mem_map.mp he
      have hnan := h p hp
      cases hdph : p.2.dph <;> simp_all [Key.isNan, Flt.isNan]
  rw [cheapestFirst, List.map_map, List.pairwise_map]
  refine hsorted.imp_of_mem fun {a b} ha hb hle => ?_
  obtain ⟨hamem, hakey⟩ := hkeys a ha
  obtain ⟨hbmem, hbkey⟩ := hkeys b hb
  rw [hakey, hbkey] at hle
  exact Flt.le_iff.mpr ⟨⟨h a.2 hamem, h b.2 hbmem⟩, hle⟩

theorem picks_ok {answer : Except Exc Value} (h : (P.picks I lower spec answer).1 = .ok ps) :
    ∃ resp gs out, answer = .ok resp ∧ catalog I resp = .ok gs ∧
      taken (P.consider I lower spec) gs = .ok out ∧ ps = cheapestFirst I out := by
  simp only [picks, bind_eq_ok, pure_eq_ok] at h
  obtain ⟨resp, hresp, gs, hgs, out, hout, rfl⟩ := h
  exact ⟨resp, gs, out, hresp, hgs, hout, rfl⟩

theorem consider_suits {g : Value} (h : P.consider I lower spec g = .ok (some o)) :
    Suits spec 1024 podMemory (g, o) ↔ ∃ es, g = .dict es ∧ Plain spec P es := by
  obtain ⟨es, rfl, hpasses, hnumber⟩ := consider_some h
  obtain ⟨x, hx, hgt⟩ := hpasses.price
  obtain rfl : x = o.dph := Option.some.inj (hx.symm.trans hnumber)
  constructor
  · intro hsuits
    obtain ⟨-, hprice, hcap⟩ := Flt.le_iff_gt.mp hsuits.cost
    refine ⟨es, rfl, fun y hy => ?_, hcap, hsuits.memory⟩
    obtain rfl : o.dph = y := Option.some.inj (hx.symm.trans hy)
    exact hprice
  · rintro ⟨es', hes, hplain⟩
    cases hes
    exact ⟨Flt.le_iff_gt.mpr ⟨hgt, hplain.price _ hx, hplain.cap⟩, hplain.memory⟩

theorem taken_suits {gs : List Value} (h : taken (P.consider I lower spec) gs = .ok ps) :
    (∀ p ∈ ps, Suits spec 1024 podMemory p) ↔
      ∀ es, .dict es ∈ gs → Passes I spec lower P es → Plain spec P es := by
  constructor
  · intro hsuits es hmem hpasses
    have hread : Readable I spec lower P (.dict es) := taken_ok.mp ⟨ps, h⟩ _ hmem
    obtain ⟨o, ho⟩ := consider_passes hpasses hread
    obtain ⟨es', hes, hplain⟩ := (consider_suits ho).mp
      (hsuits (.dict es, o) ((mem_taken h _).mpr ⟨hmem, ho⟩))
    cases hes
    exact hplain
  · intro hplain p hp
    obtain ⟨hmem, hround⟩ := (mem_taken h p).mp hp
    obtain ⟨es, hes, hpasses, -⟩ := consider_some hround
    rw [hes] at hmem
    exact (consider_suits hround).mpr ⟨es, hes, hplain es hmem hpasses⟩

section
variable (I) (spec) (lower) (P)

/-- Of a catalog that can be read, every entry that passes the tests is plain. -/
def Stocked (answer : Except Exc Value) : Prop :=
  ∀ resp gs, answer = .ok resp → catalog I resp = .ok gs →
    (∀ g ∈ gs, Readable I spec lower P g) →
    ∀ es, .dict es ∈ gs → Passes I spec lower P es → Plain spec P es

end

theorem picks_suit_iff {answer : Except Exc Value} :
    (∀ ps, (P.picks I lower spec answer).1 = .ok ps → ∀ p ∈ ps, Suits spec 1024 podMemory p) ↔
      Stocked I spec lower P answer := by
  constructor
  · intro hruns resp gs hresp hgs hread
    obtain ⟨out, hout⟩ := taken_ok.mpr hread
    refine (taken_suits hout).mp fun p hp => ?_
    refine hruns (cheapestFirst I out) ?_ p (mem_cheapestFirst.mpr hp)
    simp [picks, hresp, hgs, hout, bind, Except.bind, pure, Except.pure]
  · intro hplain ps hps p hp
    obtain ⟨resp, gs, out, hresp, hgs, hout, rfl⟩ := picks_ok hps
    have hall := (taken_suits hout).mpr (hplain resp gs hresp hgs (taken_ok.mp ⟨out, hout⟩))
    exact hall p (mem_cheapestFirst.mp hp)

theorem picks_sorted {answer : Except Exc Value} (h : (P.picks I lower spec answer).1 = .ok ps)
    (hsuits : ∀ p ∈ ps, Suits spec 1024 podMemory p) :
    (ps.map Prod.snd).Pairwise fun a b => a.dph.le b.dph = true := by
  obtain ⟨resp, gs, out, -, -, -, rfl⟩ := picks_ok h
  refine cheapestFirst_sorted fun p hp => ?_
  exact (Flt.le_iff_gt.mp (hsuits p (mem_cheapestFirst.mpr hp)).cost).2.1

end RunPodProvider

/-- Both adapters select what the spec asks for, and RunPod's list is in the order of its
prices. -/
structure Select (I : Interp) (lower : String → String) (spec : HostSpec)
    (ask : Value → Except Exc Value) (P : RunPodProvider) (answer : Except Exc Value) :
    Prop where
  vast : ∀ ps, vastPicks I ask spec = .ok ps → ∀ p ∈ ps, Suits spec 1 vastMemory p
  runpod : ∀ ps, (P.picks I lower spec answer).1 = .ok ps → ∀ p ∈ ps, Suits spec 1024 podMemory p
  sorted : ∀ ps, (P.picks I lower spec answer).1 = .ok ps →
    (ps.map Prod.snd).Pairwise fun a b => a.dph.le b.dph = true

/-- RunPod has no test of the memory, and its price test lets a NaN through. -/
theorem select_iff (I : Interp) (lower : String → String) (spec : HostSpec)
    (ask : Value → Except Exc Value) (P : RunPodProvider) (answer : Except Exc Value) :
    Select I lower spec ask P answer ↔ RunPodProvider.Stocked I spec lower P answer := by
  rw [← RunPodProvider.picks_suit_iff]
  constructor
  · exact Select.runpod
  · intro hruns
    exact ⟨fun ps => vastPicks_suit, hruns,
      fun ps hps => RunPodProvider.picks_sorted hps (hruns ps hps)⟩

def smallCard : List (Key × Value) :=
  [(.str "id", .str "NVIDIA A100"), (.str "displayName", .str "A100"),
    (.str "memoryInGb", .int 40), (.str "communityCloud", .bool true),
    (.str "communityPrice", .float (.fin 1))]

def smallCatalog : Value :=
  .dict [(.str "data", .dict [(.str "gpuTypes", .list [.dict smallCard])])]

def smallOffer : CatalogOffer where
  id := "NVIDIA A100"
  dph := .fin 1
  gpuName := .str "A100"
  numGpus := 1
  reliability := .nan 0
  inetDownMbps := .nan 0
  cudaMax := .nan 0
  geolocation := .str "COMMUNITY"
  provider := "runpod"

theorem small_card_selected : ¬ (∀ (I : Interp) (lower : String → String) (spec : HostSpec)
    (ask : Value → Except Exc Value) (P : RunPodProvider) (answer : Except Exc Value),
    Select I lower spec ask P answer) := by
  intro h
  have hselect := h wholeInterp (fun s => s)
    { gpuName := "A100", maxDph := .fin 2, minGpuRamMb := 81920 } .ok
    ⟨"COMMUNITY", none, none, false, false⟩ (.ok smallCatalog)
  have hsuits := hselect.runpod [(.dict smallCard, smallOffer)] rfl _ List.mem_cons_self
  obtain ⟨m, hm, hle⟩ := hsuits.memory (by decide)
  have hlisted : podMemory (.dict smallCard) = some (.fin 40) := by decide +kernel
  obtain rfl : Flt.fin 40 = m := Option.some.inj (hlisted.symm.trans hm)
  exact absurd hle (by decide +kernel)

end RunFarm
