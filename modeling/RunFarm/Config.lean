import RunFarm.Python.Canonical

/-! A run's identity: the bytes of `to_json`, the hash of them and the name of the run. -/
set_option autoImplicit false

namespace RunFarm
open Python

structure SimpleRunConfig where
  name : String := "run"
  dtype : String := "float32"
  params : List (Key × Value) := []

namespace SimpleRunConfig

/-- `dataclasses.asdict(self)`. -/
def value (c : SimpleRunConfig) : Value :=
  .dict [(.str "name", .str c.name), (.str "dtype", .str c.dtype),
    (.str "params", asdict (.dict c.params))]

def toJson (I : Interp) (c : SimpleRunConfig) : Option Json :=
  dumps I { sortKeys := true } c.value

/-- One keyword argument of `cls(**json.loads(s))`. A name that is no field is a TypeError;
values of other types than the fields declare are not followed. -/
def withArgument (c : SimpleRunConfig) : Key × Value → Option SimpleRunConfig
  | (.str "name", .str s) => some { c with name := s }
  | (.str "dtype", .str s) => some { c with dtype := s }
  | (.str "params", .dict es) => some { c with params := es }
  | _ => none

def fromJson (j : Json) : Option SimpleRunConfig :=
  match loads j with
  | .dict es => es.foldlM withArgument {}
  | _ => none

/-- `sha256` is the hex digest of a document's text. -/
def configHash (I : Interp) (sha256 : Json → String) (c : SimpleRunConfig) (n : Nat := 12) :
    Option String :=
  (c.toJson I).map (fun j => String.ofList ((sha256 j).toList.take n))

def runName (I : Interp) (sha256 : Json → String) (c : SimpleRunConfig) : Option String :=
  (c.configHash I sha256).map (fun h => c.name ++ "_" ++ h)

/-- `from_json(to_json(c))`: the config that the worker rebuilds. -/
def rebuilt (I : Interp) (c : SimpleRunConfig) : Option SimpleRunConfig :=
  (c.toJson I).bind fromJson

structure SameRun (I : Interp) (sha256 : Json → String) (c c' : SimpleRunConfig) : Prop where
  json : c'.toJson I = c.toJson I
  hash : ∀ n, c'.configHash I sha256 n = c.configHash I sha256 n
  name : c'.runName I sha256 = c.runName I sha256

end SimpleRunConfig

open SimpleRunConfig
variable {I : Interp}

theorem sorted_fields {α : Type} (name dtype params : α) :
    I.sorted [(.str "name", name), (.str "dtype", dtype), (.str "params", params)] =
      [(.str "dtype", dtype), (.str "name", name), (.str "params", params)] := by
  refine sorted_eq (by simp [Key.isStr]) (List.Perm.swap _ _ _) ?_
  simp only [List.map_cons, List.map_nil, Key.text]
  decide

theorem toJson_eq (c : SimpleRunConfig) :
    c.toJson I = (dumps I { sortKeys := true } (asdict (.dict c.params))).map fun p =>
      .obj [("dtype", .str c.dtype), ("name", .str c.name), ("params", p)] := by
  rw [toJson, value]
  generalize asdict (.dict c.params) = v
  cases hp : dumps I { sortKeys := true } v with
  | none => simp [dumps, dumpsItems, hp]
  | some p =>
    rw [Option.map_some, dumps_dict]
    refine ⟨⟨rfl, ?_⟩, ?_⟩
    · simp [hp, dumps, Format.takes]
    · simp [Format.arrange, sorted_fields, Key.text, doc, hp, dumps]

theorem isSome_toJson {c : SimpleRunConfig} :
    (c.toJson I).isSome ↔ (dumps I { sortKeys := true } (asdict (.dict c.params))).isSome := by
  rw [toJson_eq, Option.isSome_map]

theorem asdict_loads (j : Json) : asdict (loads j) = loads j := by
  induction j using Json.induct with
  | null | bool _ | int _ | float _ | str _ => rfl
  | arr js ih =>
    rw [loads, loadsList_eq, asdict, asdictList_eq, List.map_map]
    exact congrArg Value.list (List.map_congr_left ih)
  | obj ms ih =>
    rw [loads, loadsMembers_eq, asdict_dict, List.map_congr_left (g := id), List.map_id]
    intro e he
    obtain ⟨m, hm, rfl⟩ := mem_dictOf he
    obtain ⟨m', hm', rfl⟩ := List.mem_map.mp hm
    simp [ih m' hm']

theorem loads_params {es : List (Key × Value)} {fmt : Format}
    (h : (dumps I fmt (asdict (.dict es))).isSome) :
    ∃ es', loads (doc I fmt (asdict (.dict es))) = .dict es' := by
  rw [asdict_dict] at h ⊢
  rw [doc_dict h, loads]
  exact ⟨_, rfl⟩

theorem rebuilt_eq {c : SimpleRunConfig} (h : (c.toJson I).isSome) :
    ∃ c', c.rebuilt I = some c' ∧ c'.name = c.name ∧ c'.dtype = c.dtype ∧
      Value.dict c'.params = loads (doc I { sortKeys := true } (asdict (.dict c.params))) := by
  have hp := isSome_toJson.mp h
  obtain ⟨es, hes⟩ := loads_params hp
  refine ⟨{ c with params := es }, ?_, rfl, rfl, hes.symm⟩
  rw [rebuilt, toJson_eq, dumps_doc hp, Option.map_some, Option.bind_some, fromJson,
    loads_obj (by simp)]
  simp [hes, loads, withArgument]

theorem sameRun_of_json {sha256 : Json → String} {c c' : SimpleRunConfig}
    (hname : c'.name = c.name) (hjson : c'.toJson I = c.toJson I) : SameRun I sha256 c c' where
  json := hjson
  hash n := by rw [configHash, configHash, hjson]
  name := by rw [runName, runName, configHash, configHash, hjson, hname]

/-- The rebuilt config names the same run exactly when the keys of every dict inside `params`
sort as their JSON texts do. -/
theorem identity_survives (sha256 : Json → String) (c : SimpleRunConfig)
    (h : (c.toJson I).isSome) :
    (∃ c', c.rebuilt I = some c' ∧ SameRun I sha256 c c') ↔ (Value.dict c.params).ascending I := by
  have hp := isSome_toJson.mp h
  obtain ⟨c', hrebuilt, hname, hdtype, hparams⟩ := rebuilt_eq h
  have hjson : c'.toJson I = c.toJson I ↔ (Value.dict c.params).ascending I := by
    rw [toJson_eq, toJson_eq, hname, hdtype, hparams, asdict_loads, dumps_doc hp,
      ← ascending_asdict, ← dumps_loads_iff rfl hp, Option.map_some]
    simp [Option.map_eq_some_iff]
  rw [← hjson]
  constructor
  · rintro ⟨c'', h'', hsame⟩
    rw [hrebuilt] at h''
    cases h''
    exact hsame.json
  · exact fun hsame => ⟨c', hrebuilt, sameRun_of_json hname hsame⟩

def nativeConfig : SimpleRunConfig where
  params := [(.str "steps", .dict [(.str "b", .list [.int 1, .int 2]), (.str "a", .int 1)])]

def sampleInterp : Interp := .insertion (fun q => toString q) (fun _ => "") (fun _ => "")

theorem nativeConfig_survives :
    ∃ c', nativeConfig.rebuilt sampleInterp = some c' ∧
      SameRun sampleInterp (fun _ => "") nativeConfig c' :=
  (identity_survives (fun _ => "") nativeConfig (by decide)).mpr (by decide)

def levelsConfig : SimpleRunConfig where
  params := [(.str "levels", .dict [(.int 2, .int 4), (.int 10, .int 8)])]

theorem levelsConfig_renamed :
    ¬ ∀ (I : Interp) (sha256 : Json → String) (c : SimpleRunConfig), (c.toJson I).isSome →
      ∃ c', c.rebuilt I = some c' ∧ SameRun I sha256 c c' := by
  intro h
  obtain ⟨c', hrebuilt, hsame⟩ := h sampleInterp (fun _ => "") levelsConfig (by decide)
  have hjson : (levelsConfig.rebuilt sampleInterp).bind (toJson sampleInterp) =
      levelsConfig.toJson sampleInterp := by
    rw [hrebuilt, Option.bind_some, hsame.json]
  cases hjson

end RunFarm
