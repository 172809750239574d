import RunFarm.Protocols
import RunFarm.Python.Dict
import RunFarm.Python.Rounding

set_option autoImplicit false

namespace RunFarm
open Python (Dict)

/-- A field read by `e.get(key, default)`, which tells a missing key from a `null`. -/
inductive Field (α : Type) where
  | absent
  | null
  | val (a : α)
  deriving DecidableEq, Repr

def Field.getD {α : Type} (default : α) : Field α → Option α
  | .absent => some default
  | .null => none
  | .val a => some a

def Field.ofOption {α : Type} : Option α → Field α
  | none => .null
  | some a => .val a

@[simp] theorem Field.getD_val {α : Type} (default a : α) :
    (Field.val a).getD default = some a := rfl

inductive Event where
  | rented | running | destroyed
  | other (name : String)
  deriving DecidableEq, Repr

/-- `rent` logs `unverified: ...` when the listing it re-checks with fails. -/
inductive Verify where
  | gone | present
  | unverified (why : String)
  deriving DecidableEq, Repr

/-- One line of the ledger file. A field is an `Option` where no reader tells a
missing key from a `null`. -/
structure Row where
  event : Event
  ts : Option ℚ := none
  instanceId : Option InstanceId := none
  offerId : Option String := none
  provider : Option String := none
  gpu : Option String := none
  dph : Option ℚ := none
  reliability : Option ℚ := none
  geo : Option String := none
  provisionS : Option ℚ := none
  outcome : Field String := .absent
  reason : Option String := none
  billedS : Field ℚ := .absent
  estCostUsd : Field ℚ := .absent
  destroyed : Option Bool := none
  verify : Option Verify := none
  reconciled : Option Bool := none
  costUnknown : Option Bool := none
  billedSUpperBound : Option ℚ := none
  estCostUsdUpperBound : Option ℚ := none
  deriving DecidableEq, Repr

def Row.stamp (now : ℚ) (row : Row) : Row := { row with ts := some (Python.round now 3) }

/-- `RentalLedger.record`: the file only ever grows at its end. -/
def record (now : ℚ) (row : Row) (rows : List Row) : List Row := rows ++ [row.stamp now]

/-- `sum(get(e) for e in rows)`: adding `None` to a number is a `TypeError`. -/
def sumOf (get : Row → Option ℚ) : ℚ → List Row → Except Exc ℚ
  | total, [] => .ok total
  | total, e :: es => match get e with
    | some x => sumOf get (total + x) es
    | none => .error ⟨.typeError, none, "unsupported operand type(s) for +"⟩

theorem sumOf_ok (get : Row → Option ℚ) (total : ℚ) (rows : List Row) :
    (∃ x, sumOf get total rows = .ok x) ↔ ∀ e ∈ rows, get e ≠ none := by
  induction rows generalizing total with
  | nil => simp [sumOf]
  | cons e es ih =>
    cases he : get e with
    | none => simp [sumOf, he]
    | some x => simp [sumOf, he, ih]

theorem sumOf_eq (get : Row → Option ℚ) (total : ℚ) (rows : List Row)
    (h : ∀ e ∈ rows, get e ≠ none) :
    sumOf get total rows = .ok (total + (rows.map (fun e => (get e).getD 0)).sum) := by
  induction rows generalizing total with
  | nil => simp [sumOf]
  | cons e es ih =>
    have hes : ∀ e' ∈ es, get e' ≠ none := fun e' he' => h e' (by simp [he'])
    obtain ⟨x, hx⟩ := Option.ne_none_iff_exists'.mp (h e (by simp))
    simp [sumOf, hx, ih _ hes, add_assoc]

structure Summary where
  rentals : Nat
  byOutcome : Dict (Option String) Nat
  totalBilledMin : ℚ
  totalEstCostUsd : ℚ

def destroyedRows (rows : List Row) : List Row := rows.filter (fun e => e.event = .destroyed)

theorem destroyedRows_cons (e : Row) (rows : List Row) : destroyedRows (e :: rows) =
    if e.event = .destroyed then e :: destroyedRows rows else destroyedRows rows := by
  simp [destroyedRows, List.filter_cons]

def countOutcome (tally : Dict (Option String) Nat) (e : Row) : Dict (Option String) Nat :=
  let o := e.outcome.getD "?"
  tally.set o ((tally.get o).getD 0 + 1)

def summary (rows : List Row) : Except Exc Summary := do
  let destroyed := destroyedRows rows
  let billed ← sumOf (fun e => e.billedS.getD 0) 0 destroyed
  let cost ← sumOf (fun e => e.estCostUsd.getD 0) 0 destroyed
  pure {
    rentals := (rows.filter (fun e => e.event = .rented)).length
    byOutcome := destroyed.foldl countOutcome Dict.empty
    totalBilledMin := Python.round (billed / 60) 1
    totalEstCostUsd := Python.round cost 6 }

/-- No field that `summary` adds up is `null` in this row. -/
def Row.Summable (e : Row) : Prop :=
  e.event = .destroyed → e.billedS ≠ .null ∧ e.estCostUsd ≠ .null

instance (e : Row) : Decidable e.Summable :=
  inferInstanceAs (Decidable (_ → _ ∧ _))

theorem Field.getD_ne_none {α : Type} (default : α) (f : Field α) :
    f.getD default ≠ none ↔ f ≠ .null := by cases f <;> simp [Field.getD]

theorem summary_ok (rows : List Row) :
    (∃ s, summary rows = .ok s) ↔ ∀ e ∈ rows, e.Summable := by
  have hmem : ∀ e, e ∈ destroyedRows rows ↔ e ∈ rows ∧ e.event = .destroyed := by
    simp [destroyedRows]
  constructor
  · rintro ⟨s, hs⟩ e he hd
    have hin := (hmem e).mpr ⟨he, hd⟩
    unfold summary at hs
    cases hb : sumOf (fun e => e.billedS.getD 0) 0 (destroyedRows rows) with
    | error err => simp [hb, bind, Except.bind] at hs
    | ok billed =>
      cases hc : sumOf (fun e => e.estCostUsd.getD 0) 0 (destroyedRows rows) with
      | error err => simp [hb, hc, bind, Except.bind] at hs
      | ok cost =>
        have h₁ := (sumOf_ok _ _ _).mp ⟨billed, hb⟩ e hin
        have h₂ := (sumOf_ok _ _ _).mp ⟨cost, hc⟩ e hin
        exact ⟨(Field.getD_ne_none _ _).mp h₁, (Field.getD_ne_none _ _).mp h₂⟩
  · intro h
    have hb := sumOf_eq (fun e => e.billedS.getD 0) 0 (destroyedRows rows) fun e he =>
      (Field.getD_ne_none _ _).mpr (h e ((hmem e).mp he).1 ((hmem e).mp he).2).1
    have hc := sumOf_eq (fun e => e.estCostUsd.getD 0) 0 (destroyedRows rows) fun e he =>
      (Field.getD_ne_none _ _).mpr (h e ((hmem e).mp he).1 ((hmem e).mp he).2).2
    exact ⟨_, by simp [summary, hb, hc, bind, Except.bind, pure, Except.pure]; rfl⟩

end RunFarm
