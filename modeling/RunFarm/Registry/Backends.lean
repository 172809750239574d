import Mathlib.Data.List.Sort
import RunFarm.Files.Disk
import RunFarm.Python.Canonical

/-! The two run registries, over a directory tree and over a key-value store. -/
set_option autoImplicit false

namespace RunFarm
open Files Python

class RunNamed (C : Type) where
  runName : C → String

open RunNamed (runName)

structure RunHandle (C : Type) where
  config : C
  dir : Path
  name : String
  deriving DecidableEq, Repr

structure ManifestEntry (C : Type) where
  run : String
  config : C
  deriving DecidableEq, Repr

/-- What the bytes of a file or of a blob stand for. -/
inductive Stored (C S : Type) where
  | config (c : C)
  | manifest (rows : List (ManifestEntry C))
  | checkpoint (state : S) (c : C) (step : Int)
  | done (result : Json)
  | event (record : Json)

def Stored.rows {C S : Type} : Stored C S → List (ManifestEntry C)
  | .manifest rows => rows
  | _ => []

/-- The formats: `json.dumps` of the interpreter, and what the arrays of a checkpoint are once
`np.load` and `jnp.asarray` have read them back. -/
structure RunFormats (S : Type) where
  I : Interp
  restore : S → S

def RunFormats.json {S : Type} (F : RunFormats S) (v : Value) : Option Json :=
  dumps F.I { sortKeys := true } v

/-- `register` in its effects; `none` is an exception. -/
structure Registration (C D : Type) where
  mkdir : C → D → Option D
  configured : C → D → Bool
  writeConfig : C → D → Option D
  record : C → D → Option D

/-- An effect that raises leaves what was done before it. -/
def Registration.register {C D : Type} (R : Registration C D) (c : C) (d : D) : Option Unit × D :=
  match R.mkdir c d with
  | none => (none, d)
  | some d =>
    if R.configured c d then (some (), d)
    else
      match R.writeConfig c d with
      | none => (none, d)
      | some d =>
        match R.record c d with
        | none => (none, d)
        | some d => (some (), d)

theorem Registration.register_some {C D : Type} {R : Registration C D} {c : C} {d d' : D} :
    R.register c d = (some (), d') ↔ ∃ d₁, R.mkdir c d = some d₁ ∧
      ((R.configured c d₁ = true ∧ d₁ = d') ∨ (R.configured c d₁ = false ∧
        ∃ d₂, R.writeConfig c d₁ = some d₂ ∧ R.record c d₂ = some d')) := by
  unfold Registration.register
  cases R.mkdir c d with
  | none => simp
  | some d₁ =>
    cases hconf : R.configured c d₁ with
    | true => simp [hconf]
    | false =>
      cases hwrite : R.writeConfig c d₁ with
      | none => simp [hconf, hwrite]
      | some d₂ => cases hrecord : R.record c d₂ <;> simp [hconf, hwrite, hrecord]

/-- The protocol; `none` is an exception. -/
structure RunRegistry (C S D : Type) where
  register : C → D → Option (RunHandle C) × D
  isComplete : RunHandle C → D → Bool
  load : RunHandle C → D → Option (Option (S × Int))
  save : RunHandle C → S → Int → D → Option Unit × D
  finish : RunHandle C → Value → D → Option Unit × D

variable {C S : Type} [RunNamed C]

/-- `under name` is where the path `base / name` leads. -/
structure FileRunRegistry where
  base : Path
  under : String → Path

abbrev Tree (C S : Type) := Disk (Stored C S)

def rowsAt (d : Tree C S) (p : Path) : List (ManifestEntry C) :=
  match d p with
  | some (.file stored) => stored.rows
  | _ => []

/-- `open("a")` and `open("w")` fail where a replacing does: on a directory, or in none. -/
def appendRow (p : Path) (row : ManifestEntry C) (d : Tree C S) : Option (Tree C S) :=
  (Op.replace p (.manifest (rowsAt d p ++ [row]))).exec d

def attempt (ops : List (Op (Stored C S))) (d : Tree C S) : Option Unit × Tree C S :=
  match runTo d ops with
  | (d, true) => (some (), d)
  | (d, false) => (none, d)

namespace FileRunRegistry

variable (r : FileRunRegistry)

def configFile (c : C) : Path := r.under (runName c) ++ ["config.json"]

def manifestFile : Path := r.base ++ ["MANIFEST.jsonl"]

/-- `run_dir`. -/
def registration : Registration C (Tree C S) where
  mkdir c := (Op.mkdir (r.under (runName c))).exec
  configured c d := (d (r.configFile c)).isSome
  writeConfig c := (Op.replace (r.configFile c) (.config c)).exec
  record c := appendRow r.manifestFile ⟨runName c, c⟩

def handle (c : C) : RunHandle C := ⟨c, r.under (runName c), runName c⟩

def register (c : C) (d : Tree C S) : Option (RunHandle C) × Tree C S :=
  match r.registration.register c d with
  | (some (), d) => (some (r.handle c), d)
  | (none, d) => (none, d)

theorem register_some {c : C} {h : RunHandle C} {d d' : Tree C S} :
    r.register c d = (some h, d') ↔
      h = r.handle c ∧ r.registration.register c d = (some (), d') := by
  unfold register
  rcases r.registration.register c d with ⟨_ | _, d₁⟩ <;> simp [eq_comm]

def ckpt (h : RunHandle C) : Path := h.dir ++ ["checkpoint.npz"]

/-- `_done`. -/
def doneFile (h : RunHandle C) : Path := h.dir ++ ["DONE.json"]

def isComplete (h : RunHandle C) (d : Tree C S) : Bool := (d (doneFile h)).isSome

def load (F : RunFormats S) (h : RunHandle C) (d : Tree C S) : Option (Option (S × Int)) :=
  match d (ckpt h) with
  | none => some none
  | some (.file (.checkpoint state _ step)) => some (some (F.restore state, step))
  | some _ => none

def save (h : RunHandle C) (state : S) (step : Int) : Tree C S → Option Unit × Tree C S :=
  attempt [.mkdir h.dir, .replace (ckpt h) (.checkpoint state h.config step)]

def finish (F : RunFormats S) (h : RunHandle C) (result : Value) (d : Tree C S) :
    Option Unit × Tree C S :=
  match F.json result with
  | none => (none, d)
  | some j => attempt [.replace (doneFile h) (.done j)] d

def registry (F : RunFormats S) : RunRegistry C S (Tree C S) where
  register := r.register
  isComplete := isComplete
  load := load F
  save := save
  finish := finish F

end FileRunRegistry

abbrev BlobStore (C S : Type) := Dict String (Stored C S)

/-- `base` has no slash at its end. -/
structure ObjectStoreRunRegistry where
  base : String
  under : String → Path

namespace ObjectStoreRunRegistry

variable (r : ObjectStoreRunRegistry)

/-- `_key`, of one part. -/
def key (name part : String) : String := r.base ++ "/" ++ name ++ "/" ++ part

def manifestKey (name : String) : String := r.base ++ "/_manifest/" ++ name ++ ".json"

def registration : Registration C (BlobStore C S) where
  mkdir _ := some
  configured c w := (w.get (r.key (runName c) "config.json")).isSome
  writeConfig c w := some (w.set (r.key (runName c) "config.json") (.config c))
  record c w := some (w.set (r.manifestKey (runName c)) (.manifest [⟨runName c, c⟩]))

def handle (c : C) : RunHandle C := ⟨c, r.under (runName c), runName c⟩

def register (c : C) (w : BlobStore C S) : Option (RunHandle C) × BlobStore C S :=
  match r.registration.register c w with
  | (some (), w) => (some (r.handle c), w)
  | (none, w) => (none, w)

theorem register_configured {c : C} {w : BlobStore C S}
    (hconf : (w.get (r.key (runName c) "config.json")).isSome = true) :
    r.register c w = (some (r.handle c), w) := by
  simp only [register, Registration.register, registration, hconf, if_true]

theorem register_new {c : C} {w : BlobStore C S}
    (hconf : ¬ (w.get (r.key (runName c) "config.json")).isSome = true) :
    r.register c w = (some (r.handle c),
      (w.set (r.key (runName c) "config.json") (.config c)).set (r.manifestKey (runName c))
        (.manifest [⟨runName c, c⟩])) := by
  simp only [register, Registration.register, registration, hconf]
  rfl

def isComplete (h : RunHandle C) (w : BlobStore C S) : Bool :=
  (w.get (r.key h.name "DONE.json")).isSome

def load (F : RunFormats S) (h : RunHandle C) (w : BlobStore C S) : Option (Option (S × Int)) :=
  match w.get (r.key h.name "checkpoint.npz") with
  | none => some none
  | some (.checkpoint state _ step) => some (some (F.restore state, step))
  | some _ => none

def save (h : RunHandle C) (state : S) (step : Int) (w : BlobStore C S) :
    Option Unit × BlobStore C S :=
  (some (), w.set (r.key h.name "checkpoint.npz") (.checkpoint state h.config step))

def finish (F : RunFormats S) (h : RunHandle C) (result : Value) (w : BlobStore C S) :
    Option Unit × BlobStore C S :=
  match F.json result with
  | none => (none, w)
  | some j => (some (), w.set (r.key h.name "DONE.json") (.done j))

def registry (F : RunFormats S) : RunRegistry C S (BlobStore C S) where
  register := r.register
  isComplete := r.isComplete
  load := r.load F
  save := r.save
  finish := r.finish F

/-- `sorted(store.list(f"{base}/_manifest/"))`. -/
def manifestKeys (w : BlobStore C S) : List String :=
  ((w.items.map Prod.fst).filter fun k =>
    (r.base ++ "/_manifest/").toList.isPrefixOf k.toList).mergeSort

def manifest (w : BlobStore C S) : List (Stored C S) := (r.manifestKeys w).filterMap w.get

end ObjectStoreRunRegistry

def plainFiles : FileRunRegistry := ⟨[], fun name => [name]⟩

def plainObjects (base : String) : ObjectStoreRunRegistry := ⟨base, fun name => [name]⟩

structure SampleConfig where
  name : String
  deriving DecidableEq, Repr

instance : RunNamed SampleConfig := ⟨SampleConfig.name⟩

end RunFarm
