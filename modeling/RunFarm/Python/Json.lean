import Mathlib.Algebra.Order.Ring.Rat
import Mathlib.Data.List.Sort
import Mathlib.Data.Prod.Lex
import Mathlib.Data.String.Basic
import RunFarm.Python.Dict

/-! Python's `json`: `dumps` and `loads` between values and documents. A document is the
tree that its text spells. -/
set_option autoImplicit false

namespace Python

/-- Two NaN objects differ, as dictionary keys do. -/
inductive Flt where
  | fin (q : ℚ) | negZero | inf | negInf
  | nan (obj : Nat)
  deriving DecidableEq, Repr

/-- A dictionary key; `other` has its text. -/
inductive Key where
  | str (s : String)
  | int (n : Int)
  | float (x : Flt)
  | bool (b : Bool)
  | none
  | other (text : String)
  deriving DecidableEq, Repr

/-- `data` is a dataclass instance, `other` an object that is none of these, by its text. -/
inductive Value where
  | none
  | bool (b : Bool)
  | int (n : Int)
  | float (x : Flt)
  | str (s : String)
  | list (vs : List Value)
  | tuple (vs : List Value)
  | dict (es : List (Key × Value))
  | data (fs : List (String × Value))
  | other (text : String)
  deriving Repr

inductive Json where
  | null
  | bool (b : Bool)
  | int (n : Int)
  | float (x : Flt)
  | str (s : String)
  | arr (js : List Json)
  | obj (ms : List (String × Json))
  deriving Repr

theorem Value.induct {P : Value → Prop} (none : P .none) (bool : ∀ b, P (.bool b))
    (int : ∀ n, P (.int n)) (float : ∀ x, P (.float x)) (str : ∀ s, P (.str s))
    (list : ∀ vs, (∀ v ∈ vs, P v) → P (.list vs))
    (tuple : ∀ vs, P (.list vs) → P (.tuple vs))
    (dict : ∀ es, (∀ e ∈ es, P e.2) → P (.dict es))
    (data : ∀ fs, (∀ f ∈ fs, P f.2) → P (.data fs))
    (other : ∀ text, P (.other text)) (v : Value) : P v := by
  apply Value.rec (motive_1 := P) (motive_2 := fun vs => ∀ v ∈ vs, P v)
    (motive_3 := fun es => ∀ e ∈ es, P e.2) (motive_4 := fun fs => ∀ f ∈ fs, P f.2)
    (motive_5 := fun e => P e.2) (motive_6 := fun f => P f.2) none bool int float str list
    (fun vs h => tuple vs (list vs h)) dict data other
  all_goals simp_all

theorem Json.induct {P : Json → Prop} (null : P .null) (bool : ∀ b, P (.bool b))
    (int : ∀ n, P (.int n)) (float : ∀ x, P (.float x)) (str : ∀ s, P (.str s))
    (arr : ∀ js, (∀ j ∈ js, P j) → P (.arr js))
    (obj : ∀ ms, (∀ m ∈ ms, P m.2) → P (.obj ms)) (j : Json) : P j := by
  apply Json.rec (motive_1 := P) (motive_2 := fun js => ∀ j ∈ js, P j)
    (motive_3 := fun ms => ∀ m ∈ ms, P m.2) (motive_4 := fun m => P m.2)
    null bool int float str arr obj
  all_goals simp_all

def Key.norm : Key → Key
  | .bool b => .int (if b then 1 else 0)
  | .float (.fin q) => if q.den = 1 then .int q.num else .float (.fin q)
  | .float .negZero => .int 0
  | k => k

/-- `d.get(k)`. -/
def dictGet (es : List (Key × Value)) (k : Key) : Option Value :=
  (es.find? (fun e => e.1.norm = k.norm)).map Prod.snd

def Flt.finite : Flt → Bool
  | .fin _ | .negZero => true
  | _ => false

def Key.isStr : Key → Bool
  | .str _ => true
  | _ => false

def Key.isNumber : Key → Bool
  | .int _ | .float _ | .bool _ => true
  | _ => false

def Key.isNan : Key → Bool
  | .float (.nan _) => true
  | _ => false

/-- The order that `<` gives two strings or two numbers; every other pair is placed
somewhere. -/
def Key.place : Key → ℕ ×ₗ ℚ ×ₗ String
  | .str s => toLex (0, toLex (0, s))
  | .float .negInf => toLex (1, toLex (0, ""))
  | .int n => toLex (2, toLex ((n : ℚ), ""))
  | .bool b => toLex (2, toLex (if b then 1 else 0, ""))
  | .float (.fin q) => toLex (2, toLex (q, ""))
  | .float .negZero => toLex (2, toLex (0, ""))
  | .float .inf => toLex (3, toLex (0, ""))
  | .float (.nan _) => toLex (4, toLex (0, ""))
  | .none => toLex (5, toLex (0, ""))
  | .other text => toLex (6, toLex (0, text))

/-- `sorted` compares any two of the keys without a TypeError. -/
def sortable (ks : List Key) : Bool :=
  ks.length ≤ 1 || ks.all Key.isStr || ks.all Key.isNumber

/-- What is left to the interpreter: the text of a finite float, the `repr` of an object, the
message of what `dumps` raises for it, and `sorted(d.items())`, which only looks at the keys of
a dict; where it puts a NaN key among others is not fixed. -/
structure Interp where
  floatRepr : ℚ → String
  repr : Value → String
  error : Value → String
  sorted : {α : Type} → List (Key × α) → List (Key × α)
  sorted_perm : ∀ {α : Type} (es : List (Key × α)), (sorted es).Perm es
  sorted_le : ∀ {α : Type} (es : List (Key × α)), sortable (es.map Prod.fst) →
    (∀ e ∈ es, e.1.isNan = false) → (sorted es).Pairwise (fun a b => a.1.place ≤ b.1.place)
  sorted_map : ∀ {α β : Type} (f : α → β) (es : List (Key × α)),
    sorted (es.map (Prod.map id f)) = (sorted es).map (Prod.map id f)

def Interp.floatText (I : Interp) : Flt → String
  | .fin q => I.floatRepr q
  | .negZero => "-0.0"
  | .inf => "Infinity"
  | .negInf => "-Infinity"
  | .nan _ => "NaN"

def Key.value : Key → Value
  | .str s => .str s
  | .int n => .int n
  | .float x => .float x
  | .bool b => .bool b
  | .none => .none
  | .other text => .other text

/-- `str(v)`. -/
def Interp.str (I : Interp) : Value → String
  | .str s => s
  | .int n => toString n
  | .bool b => if b then "True" else "False"
  | .none => "None"
  | .other text => text
  | v => I.repr v

/-- The `sort_keys` and `allow_nan` of a `dumps` call. -/
structure Format where
  sortKeys : Bool := false
  allowNan : Bool := true

def Flt.token : Flt → Flt
  | .nan _ => .nan 0
  | x => x

def Format.float (fmt : Format) (x : Flt) : Option Flt :=
  if fmt.allowNan || x.finite then some x.token else none

def Key.text (I : Interp) : Key → String
  | .str s => s
  | .int n => toString n
  | .float x => I.floatText x
  | .bool b => if b then "true" else "false"
  | .none => "null"
  | .other text => text

def Format.takes (fmt : Format) : Key → Bool
  | .float x => fmt.allowNan || x.finite
  | .other _ => false
  | _ => true

def Format.arrange (fmt : Format) (I : Interp) {α : Type} (es : List (Key × α)) :
    List (Key × α) :=
  if fmt.sortKeys then I.sorted es else es

def Format.arranges (fmt : Format) (ks : List Key) : Bool := !fmt.sortKeys || sortable ks

def Format.members (fmt : Format) (I : Interp) (es : List (Key × Json)) :
    Option (List (String × Json)) :=
  if fmt.arranges (es.map Prod.fst) && es.all (fun e => fmt.takes e.1) then
    some ((fmt.arrange I es).map (fun e => (e.1.text I, e.2)))
  else none

mutual

/-- `json.dumps`; `none` is a `TypeError` or a `ValueError`. -/
def dumps (I : Interp) (fmt : Format) : Value → Option Json
  | .none => some .null
  | .bool b => some (.bool b)
  | .int n => some (.int n)
  | .float x => (fmt.float x).map .float
  | .str s => some (.str s)
  | .list vs | .tuple vs => (dumpsList I fmt vs).map .arr
  | .dict es => (dumpsItems I fmt es).bind fun js => (fmt.members I js).map .obj
  | .data _ | .other _ => none

def dumpsList (I : Interp) (fmt : Format) : List Value → Option (List Json)
  | [] => some []
  | v :: vs => (dumps I fmt v).bind fun j => (dumpsList I fmt vs).map (j :: ·)

def dumpsItems (I : Interp) (fmt : Format) : List (Key × Value) → Option (List (Key × Json))
  | [] => some []
  | (k, v) :: es => (dumps I fmt v).bind fun j => (dumpsItems I fmt es).map ((k, j) :: ·)

end

def dictOf (ms : List (String × Value)) : List (Key × Value) :=
  ms.foldl (fun es m => setItem (Key.str m.1) m.2 es) []

mutual

def loads : Json → Value
  | .null => .none
  | .bool b => .bool b
  | .int n => .int n
  | .float x => .float x
  | .str s => .str s
  | .arr js => .list (loadsList js)
  | .obj ms => .dict (dictOf (loadsMembers ms))

def loadsList : List Json → List Value
  | [] => []
  | j :: js => loads j :: loadsList js

def loadsMembers : List (String × Json) → List (String × Value)
  | [] => []
  | (s, j) :: ms => (s, loads j) :: loadsMembers ms

end

mutual

/-- `dataclasses.asdict`, below the top: every dataclass instance becomes a dict. -/
def asdict : Value → Value
  | .list vs => .list (asdictList vs)
  | .tuple vs => .tuple (asdictList vs)
  | .dict es => .dict (asdictItems es)
  | .data fs => .dict (asdictFields fs)
  | v => v

def asdictList : List Value → List Value
  | [] => []
  | v :: vs => asdict v :: asdictList vs

def asdictItems : List (Key × Value) → List (Key × Value)
  | [] => []
  | (k, v) :: es => (k, asdict v) :: asdictItems es

def asdictFields : List (String × Value) → List (Key × Value)
  | [] => []
  | (s, v) :: fs => (.str s, asdict v) :: asdictFields fs

end

variable {I : Interp} {fmt : Format}

attribute [local simp] dumps dumpsList dumpsItems loads loadsList loadsMembers asdict asdictList
  asdictItems asdictFields

/-- The document of a value that `dumps` accepts. -/
def doc (I : Interp) (fmt : Format) (v : Value) : Json := (dumps I fmt v).getD .null

theorem dumps_eq_some {v : Value} {j : Json} :
    dumps I fmt v = some j ↔ (dumps I fmt v).isSome ∧ j = doc I fmt v := by
  cases h : dumps I fmt v <;> simp [doc, h, eq_comm]

theorem dumpsList_eq_some {vs : List Value} {js : List Json} :
    dumpsList I fmt vs = some js ↔
      (∀ v ∈ vs, (dumps I fmt v).isSome) ∧ js = vs.map (doc I fmt) := by
  induction vs generalizing js with
  | nil => simp only [dumpsList, Option.some.injEq, List.map_nil]; grind
  | cons v vs ih =>
    simp only [dumpsList, Option.bind_eq_some_iff, Option.map_eq_some_iff, ih, dumps_eq_some,
      List.forall_mem_cons, List.map_cons]
    constructor
    · rintro ⟨_, ⟨hv, rfl⟩, _, ⟨hvs, rfl⟩, rfl⟩
      exact ⟨⟨hv, hvs⟩, rfl⟩
    · rintro ⟨⟨hv, hvs⟩, rfl⟩
      exact ⟨_, ⟨hv, rfl⟩, _, ⟨hvs, rfl⟩, rfl⟩

theorem dumpsItems_eq_some {es : List (Key × Value)} {js : List (Key × Json)} :
    dumpsItems I fmt es = some js ↔
      (∀ e ∈ es, (dumps I fmt e.2).isSome) ∧ js = es.map (Prod.map id (doc I fmt)) := by
  induction es generalizing js with
  | nil => simp only [dumpsItems, Option.some.injEq, List.map_nil]; grind
  | cons e es ih =>
    simp only [dumpsItems, Option.bind_eq_some_iff, Option.map_eq_some_iff, ih, dumps_eq_some,
      List.forall_mem_cons, List.map_cons]
    constructor
    · rintro ⟨_, ⟨hv, rfl⟩, _, ⟨hvs, rfl⟩, rfl⟩
      exact ⟨⟨hv, hvs⟩, rfl⟩
    · rintro ⟨⟨hv, hvs⟩, rfl⟩
      exact ⟨_, ⟨hv, rfl⟩, _, ⟨hvs, rfl⟩, rfl⟩

theorem Format.arrange_map {α β : Type} (f : α → β) (es : List (Key × α)) :
    fmt.arrange I (es.map (Prod.map id f)) = (fmt.arrange I es).map (Prod.map id f) := by
  unfold Format.arrange
  split
  · exact I.sorted_map f es
  · rfl

theorem Format.arrange_perm {α : Type} (es : List (Key × α)) : (fmt.arrange I es).Perm es := by
  unfold Format.arrange
  split
  · exact I.sorted_perm es
  · exact .refl es

theorem dumps_list {vs : List Value} {j : Json} :
    dumps I fmt (.list vs) = some j ↔
      (∀ v ∈ vs, (dumps I fmt v).isSome) ∧ j = .arr (vs.map (doc I fmt)) := by
  simp only [dumps, Option.map_eq_some_iff, dumpsList_eq_some]
  constructor
  · rintro ⟨_, ⟨hvs, rfl⟩, rfl⟩
    exact ⟨hvs, rfl⟩
  · rintro ⟨hvs, rfl⟩
    exact ⟨_, ⟨hvs, rfl⟩, rfl⟩

theorem dumps_tuple (vs : List Value) : dumps I fmt (.tuple vs) = dumps I fmt (.list vs) := by
  simp

theorem dumps_dict {es : List (Key × Value)} {j : Json} :
    dumps I fmt (.dict es) = some j ↔
      (fmt.arranges (es.map Prod.fst) ∧
        ∀ e ∈ es, fmt.takes e.1 ∧ (dumps I fmt e.2).isSome) ∧
      j = .obj ((fmt.arrange I es).map (fun e => (e.1.text I, doc I fmt e.2))) := by
  simp only [dumps, Option.bind_eq_some_iff, Option.map_eq_some_iff, dumpsItems_eq_some,
    Format.members]
  constructor
  · rintro ⟨_, ⟨hes, rfl⟩, ms, hms, rfl⟩
    split at hms
    · rename_i htakes
      cases hms
      simp only [List.map_map, Bool.and_eq_true, List.all_map, List.all_eq_true] at htakes
      refine ⟨⟨htakes.1, fun e he => ⟨htakes.2 e he, hes e he⟩⟩, ?_⟩
      simp [Format.arrange_map, Function.comp_def]
    · cases hms
  · rintro ⟨⟨harr, hes⟩, rfl⟩
    refine ⟨_, ⟨fun e he => (hes e he).2, rfl⟩, _, ?_, rfl⟩
    rw [if_pos]
    · simp [Format.arrange_map, Function.comp_def]
    · simp only [List.map_map, Bool.and_eq_true, List.all_map, List.all_eq_true]
      exact ⟨harr, fun e he => (hes e he).1⟩

theorem dumps_float {x : Flt} {j : Json} :
    dumps I fmt (.float x) = some j ↔ (fmt.allowNan || x.finite) ∧ j = .float x.token := by
  simp only [dumps, Format.float]
  split
  · rename_i h
    simp only [h, true_and, Option.map_some, Option.some.injEq]
    exact ⟨Eq.symm, Eq.symm⟩
  · simp_all

theorem dumps_doc {v : Value} (h : (dumps I fmt v).isSome) :
    dumps I fmt v = some (doc I fmt v) := dumps_eq_some.mpr ⟨h, rfl⟩

theorem doc_of_dumps {v : Value} {j : Json} (h : dumps I fmt v = some j) :
    doc I fmt v = j := (dumps_eq_some.mp h).2.symm

theorem isSome_float {x : Flt} :
    (dumps I fmt (.float x)).isSome ↔ (fmt.allowNan || x.finite) :=
  ⟨fun h => (dumps_float.mp (dumps_doc h)).1, fun h => by rw [dumps_float.mpr ⟨h, rfl⟩]; rfl⟩

theorem isSome_list {vs : List Value} :
    (dumps I fmt (.list vs)).isSome ↔ ∀ v ∈ vs, (dumps I fmt v).isSome :=
  ⟨fun h => (dumps_list.mp (dumps_doc h)).1, fun h => by rw [dumps_list.mpr ⟨h, rfl⟩]; rfl⟩

theorem isSome_dict {es : List (Key × Value)} :
    (dumps I fmt (.dict es)).isSome ↔ fmt.arranges (es.map Prod.fst) ∧
      ∀ e ∈ es, fmt.takes e.1 ∧ (dumps I fmt e.2).isSome :=
  ⟨fun h => (dumps_dict.mp (dumps_doc h)).1, fun h => by rw [dumps_dict.mpr ⟨h, rfl⟩]; rfl⟩

theorem doc_float {x : Flt} (h : (dumps I fmt (.float x)).isSome) :
    doc I fmt (.float x) = .float x.token := (dumps_float.mp (dumps_doc h)).2

theorem doc_list {vs : List Value} (h : (dumps I fmt (.list vs)).isSome) :
    doc I fmt (.list vs) = .arr (vs.map (doc I fmt)) := (dumps_list.mp (dumps_doc h)).2

theorem doc_tuple (vs : List Value) : doc I fmt (.tuple vs) = doc I fmt (.list vs) := by
  rw [doc, dumps_tuple, doc]

theorem doc_dict {es : List (Key × Value)} (h : (dumps I fmt (.dict es)).isSome) :
    doc I fmt (.dict es) =
      .obj ((fmt.arrange I es).map (fun e => (e.1.text I, doc I fmt e.2))) :=
  (dumps_dict.mp (dumps_doc h)).2

theorem loadsList_eq (js : List Json) : loadsList js = js.map loads := by
  induction js with
  | nil => rfl
  | cons j js ih => simp [ih]

theorem loadsMembers_eq (ms : List (String × Json)) :
    loadsMembers ms = ms.map (Prod.map id loads) := by
  induction ms with
  | nil => rfl
  | cons m ms ih => simp [Prod.map, ih]

theorem asdictList_eq (vs : List Value) : asdictList vs = vs.map asdict := by
  induction vs with
  | nil => rfl
  | cons v vs ih => simp [ih]

theorem asdictItems_eq (es : List (Key × Value)) :
    asdictItems es = es.map (Prod.map id asdict) := by
  induction es with
  | nil => rfl
  | cons e es ih => simp [Prod.map, ih]

theorem asdictFields_eq (fs : List (String × Value)) :
    asdictFields fs = fs.map (Prod.map .str asdict) := by
  induction fs with
  | nil => rfl
  | cons f fs ih => simp [Prod.map, ih]

instance placeTotal {α : Type} :
    Std.Total (fun a b : Key × α => a.1.place ≤ b.1.place) := ⟨fun _ _ => le_total _ _⟩

instance placeTrans {α : Type} :
    IsTrans (Key × α) (fun a b => a.1.place ≤ b.1.place) := ⟨fun _ _ _ => le_trans⟩

def Interp.insertion (floatRepr : ℚ → String) (repr error : Value → String) : Interp where
  floatRepr := floatRepr
  repr := repr
  error := error
  sorted := fun es => es.insertionSort (fun a b => a.1.place ≤ b.1.place)
  sorted_perm := List.perm_insertionSort _
  sorted_le := fun es _ _ => List.pairwise_insertionSort _ es
  sorted_map := fun f es => (List.map_insertionSort _ _ (Prod.map id f) es
    fun _ _ _ _ => Iff.rfl).symm

end Python
