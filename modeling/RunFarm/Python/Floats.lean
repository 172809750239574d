import RunFarm.Python.Coerce

/-! Python's comparisons of numbers, and `float(v)`. -/
set_option autoImplicit false

namespace Python

def Flt.isNan : Flt → Bool
  | .nan _ => true
  | _ => false

/-- `x <= y`; a NaN is not comparable. -/
def Flt.le (x y : Flt) : Bool :=
  !x.isNan && !y.isNan && decide ((Key.float x).place ≤ (Key.float y).place)

/-- `x > y`. -/
def Flt.gt (x y : Flt) : Bool :=
  !x.isNan && !y.isNan && decide ((Key.float y).place < (Key.float x).place)

/-- What is compared with a float; `none` is a `TypeError`. -/
def Value.number : Value → Option Flt
  | .int n => .some (.fin n)
  | .bool b => .some (.fin (if b then 1 else 0))
  | .float x => .some x
  | _ => .none

def floatBound : Nat := 2 ^ 1024 - 2 ^ 970

/-- `float(v)`, without rounding. -/
def Value.toFloat : Value → Except IntError Flt
  | .int n => if n.natAbs < floatBound then .ok (.fin n) else .error .overflow
  | .bool b => .ok (.fin (if b then 1 else 0))
  | .float x => .ok x
  | .str s =>
    match floatOf s with
    | .some x => .ok x
    | .none => .error .value
  | _ => .error .type

theorem Flt.le_iff {x y : Flt} : x.le y = true ↔
    (x.isNan = false ∧ y.isNan = false) ∧ (Key.float x).place ≤ (Key.float y).place := by
  simp [Flt.le]

theorem Flt.gt_eq_false {x y : Flt} : x.gt y = false ↔
    (x.isNan = false → y.isNan = false → x.le y = true) := by
  simp only [Flt.gt, Flt.le]
  cases x.isNan <;> cases y.isNan <;> simp

theorem Flt.le_iff_gt {x y : Flt} : x.le y = true ↔
    x.gt y = false ∧ x.isNan = false ∧ y.isNan = false := by
  rw [Flt.gt_eq_false]
  constructor
  · intro h
    exact ⟨fun _ _ => h, (Flt.le_iff.mp h).1⟩
  · rintro ⟨h, hx, hy⟩
    exact h hx hy

theorem toFloat_number {v : Value} {x y : Flt} (hx : v.number = some x)
    (hy : v.toFloat = .ok y) : y = x := by
  cases v with
  | int n =>
    simp only [Value.toFloat] at hy
    split at hy
    · simp_all [Value.number]
    · cases hy
  | bool b => simp_all [Value.number, Value.toFloat]
  | float z => simp_all [Value.number, Value.toFloat]
  | _ => cases hx

end Python
