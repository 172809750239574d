import Mathlib.Data.List.Sort
import Mathlib.Data.String.Basic
import RunFarm.Files.Disk

set_option autoImplicit false

namespace RunFarm
open Files

variable {α : Type}

inductive ProblemKind where
  | truncated | unreadable | empty | missing | tmpResidue
  deriving DecidableEq, Repr

def ProblemKind.text : ProblemKind → String
  | .truncated => "truncated"
  | .unreadable => "unreadable"
  | .empty => "empty"
  | .missing => "missing"
  | .tmpResidue => "tmp_residue"

/-- `path` is relative to the directory the disk is seen from. -/
structure ArrivalProblem where
  path : Path
  kind : ProblemKind
  detail : String
  fatal : Bool := true
  deriving DecidableEq, Repr

/-- What the standard library makes of a file's bytes: its size, and the problem each
`_verify_*` reports when it reads the format to the end. -/
structure Formats (α : Type) where
  size : α → Nat
  zip : α → Option (ProblemKind × String)
  gzip : α → Option (ProblemKind × String)
  tar : α → Option (ProblemKind × String)
  json : α → Option (ProblemKind × String)
  npy : α → Option (ProblemKind × String)

def residueSuffixes : List String := [".tmp", ".part", ".partial", ".crdownload", ".filepart"]

def suffixes (name : String) : List String :=
  if name.toList.getLast? = some '.' then []
  else
    let stem := name.toList.dropWhile (fun c => c = '.')
    (stem.splitOn '.').tail.map (fun s => "." ++ (String.ofList s).toLower)

def verifiers (F : Formats α) : List (String × (α → Option (ProblemKind × String))) :=
  [(".zip", F.zip), (".npz", F.zip), (".whl", F.zip), (".gz", F.gzip), (".gzip", F.gzip),
   (".tar", F.tar), (".tgz", F.tar), (".json", F.json), (".npy", F.npy)]

def verifierFor (F : Formats α) (name : String) : Option (α → Option (ProblemKind × String)) :=
  let suffixes := (suffixes name).reverse
  if suffixes[1]? = some ".tar" then some F.tar
  else (verifiers F).lookup (suffixes.head?.getD "")

def verifyFile (F : Formats α) (p : Path) (c : α) : Option ArrivalProblem :=
  if F.size c = 0 then some { path := p, kind := .empty, detail := "zero bytes" }
  else match verifierFor F (p.getLast?.getD "") with
    | none => none
    | some verifier => (verifier c).map (fun e => { path := p, kind := e.1, detail := e.2 })

structure ArrivalReport where
  root : Path
  problems : List ArrivalProblem := []
  verified : List Path := []
  unverifiable : List Path := []
  deriving DecidableEq, Repr

def ArrivalReport.ok (r : ArrivalReport) : Bool := !r.problems.any ArrivalProblem.fatal

def ArrivalReport.fatal (r : ArrivalReport) : List ArrivalProblem :=
  r.problems.filter ArrivalProblem.fatal

def ArrivalReport.summary (r : ArrivalReport) : String :=
  match r.fatal with
  | [] => toString r.verified.length ++ " verified, " ++ toString r.unverifiable.length ++ " opaque"
  | first :: more =>
    first.path.getLast?.getD "" ++ ": [" ++ first.kind.text ++ "] " ++ first.detail ++
      if more.isEmpty then "" else " (+" ++ toString more.length ++ " more)"

def isResidue (p : Path) : Bool :=
  let name := (p.getLast?.getD "").toLower.toList
  residueSuffixes.any (fun s => s.toList <:+ name)

def scanFile (F : Formats α) (r : ArrivalReport) (e : Path × α) : ArrivalReport :=
  if isResidue e.1 then
    { r with problems := r.problems ++ [{
        path := e.1, kind := .tmpResidue, fatal := false
        detail := "leftover temp file -- a writer died mid-write here; the " ++
          "corresponding final file may be from an earlier attempt" }] }
  else
    let r := { r with problems := r.problems ++ (verifyFile F e.1 e.2).toList }
    if (verifierFor F (e.1.getLast?.getD "")).isSome then
      { r with verified := r.verified ++ [e.1] }
    else { r with unverifiable := r.unverifiable ++ [e.1] }

def rglob (d : Disk α) (root : Path) : List Path :=
  ((d.items.map Prod.fst).filter (fun p => root <+: p ∧ p ≠ root)).insertionSort (· ≤ ·)

/-- Before its loop `verify_report` returns for a root that is no directory, or lists it. -/
def listRoot (d : Disk α) (root : Path) : Except ArrivalReport (List Path) :=
  match d root with
  | none => .error { root, problems := [{
      path := root, kind := .missing, detail := "output root does not exist" }] }
  | some (.file _) => .error { root, problems := [{
      path := root, kind := .missing, detail := "output root is not a directory" }] }
  | some .dir => .ok (rglob d root)

def scanPath (F : Formats α) (d : Disk α) (r : ArrivalReport) (p : Path) : ArrivalReport :=
  match d p with
  | some (.file c) => scanFile F r (p, c)
  | _ => r

/-- What `verify_report` does after its loop. -/
def closeReport (r : ArrivalReport) : ArrivalReport :=
  if r.verified.isEmpty && r.unverifiable.isEmpty then
    { r with problems := r.problems ++ [{
        path := r.root, kind := .empty, fatal := false
        detail := "fetch produced no files -- nothing was transferred. If this leg must " ++
          "not accept an empty result, give it a precise done_when (e.g. " ++
          "'out/manifest.json') rather than the fetch directory itself." }] }
  else r

def verifyReport (F : Formats α) (d : Disk α) (root : Path) : ArrivalReport :=
  match listRoot d root with
  | .error r => r
  | .ok paths => closeReport (paths.foldl (scanPath F d) { root })

end RunFarm
