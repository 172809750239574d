import Mathlib.Data.Rat.Defs

set_option autoImplicit false

namespace RunFarm

/-- The exception classes the program tells apart. `provider` is `VastError` and
`RunPodError`; the six from `typeError` on are `reap._BUG_TYPES`. -/
inductive ExcKind where
  | provider | hostProbeFailed | rentUnavailable | leakRisk | budgetExceeded | timeout
  | typeError | keyError | attributeError | indexError | nameError | valueError
  | other (name : String)
  deriving DecidableEq, Repr

/-- `code` is an integer `.code` attribute, `text` is `str(e)`. -/
structure Exc where
  kind : ExcKind
  code : Option Int
  text : String
  deriving DecidableEq, Repr

/-- Vast ids are integers, RunPod ids are strings. -/
inductive InstanceId where
  | int (n : Int)
  | text (s : String)
  deriving DecidableEq, Repr

def InstanceId.str : InstanceId → String
  | .int n => toString n
  | .text s => s

/-- `reliability` is `none` where the catalog gives NaN, `geolocation` where it has a JSON null. -/
structure Offer where
  id : String
  dph : ℚ
  gpuName : String
  reliability : Option ℚ
  geolocation : Option String
  provider : String
  deriving DecidableEq, Repr

end RunFarm
