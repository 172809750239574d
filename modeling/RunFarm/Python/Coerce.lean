import RunFarm.Python.Json

/-! Python's `bool(v)`, `int(v)`, `float(s)` and `s.splitlines()`. -/
set_option autoImplicit false

namespace Python

def Value.truthy : Value → Bool
  | .none => false
  | .bool b => b
  | .int n => n ≠ 0
  | .float (.fin q) => q ≠ 0
  | .float .negZero => false
  | .float _ => true
  | .str s => s ≠ ""
  | .list vs => !vs.isEmpty
  | .tuple vs => !vs.isEmpty
  | .dict es => !es.isEmpty
  | .data _ => true
  | .other _ => true

def digits : List Char → Nat → Option Nat
  | [], n => some n
  | '_' :: d :: cs, n =>
    if d.isDigit then digits cs (10 * n + (d.toNat - '0'.toNat)) else none
  | d :: cs, n =>
    if d.isDigit then digits cs (10 * n + (d.toNat - '0'.toNat)) else none

def natOf : List Char → Option Nat
  | d :: cs => if d.isDigit then digits (d :: cs) 0 else none
  | [] => none

def blanks (cs : List Char) : List Char := cs.dropWhile Char.isWhitespace

/-- `int(s)`; `none` is a `ValueError`. -/
def intOf (s : String) : Option Int :=
  match (blanks (blanks s.toList).reverse).reverse with
  | '-' :: cs => (natOf cs).map fun n => -(n : Int)
  | '+' :: cs => (natOf cs).map Int.ofNat
  | cs => (natOf cs).map Int.ofNat

/-- What `int(v)` raises. -/
inductive IntError where
  | value | type | overflow
  deriving DecidableEq, Repr

def Value.toInt : Value → Except IntError Int
  | .int n => .ok n
  | .bool b => .ok (if b then 1 else 0)
  | .float (.fin q) => .ok (q.num.tdiv q.den)
  | .float .negZero => .ok 0
  | .float (.nan _) => .error .value
  | .float _ => .error .overflow
  | .str s =>
    match intOf s with
    | .some n => .ok n
    | .none => .error .value
  | _ => .error .type

example : [" 42\n", "-7", "1_000", "0x1f", "_1", ""].map intOf =
    [some 42, some (-7), some 1000, none, none, none] := by decide

/-- `12`, `1.5`, `.5` and `5.`, without a sign. -/
def decimalOf (cs : List Char) : Option ℚ :=
  let part : List Char → Option Nat := fun ds => if ds.isEmpty then some 0 else natOf ds
  match cs.splitOn '.' with
  | [whole] => (natOf whole).map fun n => (n : ℚ)
  | [whole, frac] =>
    if whole.isEmpty && frac.isEmpty then none
    else match part whole, part frac with
      | some n, some m => some (n + m / 10 ^ frac.countP Char.isDigit)
      | _, _ => none
  | _ => none

def scaled (q : ℚ) : List Char → Option ℚ
  | '-' :: cs => (natOf cs).map fun n => q / 10 ^ n
  | '+' :: cs => (natOf cs).map fun n => q * 10 ^ n
  | cs => (natOf cs).map fun n => q * 10 ^ n

def unsigned (cs : List Char) : Option Flt :=
  if cs = "inf".toList ∨ cs = "infinity".toList then some .inf
  else if cs = "nan".toList then some (.nan 0)
  else match cs.splitOn 'e' with
    | [m] => (decimalOf m).map .fin
    | [m, x] => ((decimalOf m).bind fun q => scaled q x).map .fin
    | _ => none

def Flt.neg : Flt → Flt
  | .fin q => if q = 0 then .negZero else .fin (-q)
  | .negZero => .fin 0
  | .inf => .negInf
  | .negInf => .inf
  | .nan obj => .nan obj

def stripLower (s : String) : List Char :=
  ((blanks (blanks s.toList).reverse).reverse).map Char.toLower

/-- `float(s)`, without rounding; `none` is a `ValueError`. -/
def floatOf (s : String) : Option Flt :=
  match stripLower s with
  | '-' :: cs => (unsigned cs).map Flt.neg
  | '+' :: cs => unsigned cs
  | cs => unsigned cs

example : ["1.5", " 6e2\n", ".5", "-0", "1_0", "inf", "", "1.5h"].map floatOf =
    [some (.fin (3 / 2)), some (.fin 600), some (.fin (1 / 2)), some .negZero, some (.fin 10),
      some .inf, none, none] := by decide +kernel

def isLineBreak (c : Char) : Bool :=
  c ∈ ['\n', '\r', '\x0b', '\x0c', '\x1c', '\x1d', '\x1e', '\u0085', '\u2028', '\u2029']

/-- The lines from here, where `line` has been read of the first of them, last character first. -/
def linesFrom (line : List Char) : List Char → List String
  | [] => if line.isEmpty then [] else [String.ofList line.reverse]
  | '\r' :: '\n' :: cs => String.ofList line.reverse :: linesFrom [] cs
  | c :: cs =>
    if isLineBreak c then String.ofList line.reverse :: linesFrom [] cs
    else linesFrom (c :: line) cs

def splitlines (s : String) : List String := linesFrom [] s.toList

example : splitlines "a\r\nb\n\nc" = ["a", "b", "", "c"] := by decide

/-- `a or b`, of what `d.get` gives. -/
def orElse (a b : Option Value) : Value :=
  if (a.getD .none).truthy then a.getD .none else b.getD .none

end Python
