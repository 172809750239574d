import RunFarm.Registry.Calls

/-! `execute_config`: register, skip or resume, run, finish, with an exception at any of the
effects of the `RunFn`. -/
set_option autoImplicit false

namespace RunFarm
open Files Python
open RunNamed (runName)

/-- What a `RunFn` does with its context. -/
inductive RunSteps (S : Type) where
  | returns (result : Value)
  | works (rest : RunSteps S)
  | checkpoint (state : S) (step : Int) (rest : RunSteps S)
  | emit (record : Value) (rest : RunSteps S)

/-- The `RunFn`, of `ctx.resume` and `ctx.resume_step`. -/
abbrev RunFn (S : Type) := Option S → Option Int → RunSteps S

structure EventSink (C D : Type) where
  emit : RunHandle C → Value → D → Option Unit × D

variable {C S D : Type}

/-- `cut` effects are done before the exception, if it comes; `none` is an exception. -/
def RunSteps.run (reg : RunRegistry C S D) (sink : EventSink C D) (h : RunHandle C) :
    RunSteps S → Option Nat → D → Option Value × D
  | .returns result, _, d => (some result, d)
  | .works rest, cut, d =>
    if cut = some 0 then (none, d) else rest.run reg sink h (cut.map Nat.pred) d
  | .checkpoint state step rest, cut, d =>
    if cut = some 0 then (none, d)
    else
      match reg.save h state step d with
      | (none, d) => (none, d)
      | (some _, d) => rest.run reg sink h (cut.map Nat.pred) d
  | .emit record rest, cut, d =>
    if cut = some 0 then (none, d)
    else
      match sink.emit h record d with
      | (none, d) => (none, d)
      | (some _, d) => rest.run reg sink h (cut.map Nat.pred) d

/-- The `try` block after the `RunFn`. -/
def finishRun (reg : RunRegistry C S D) (h : RunHandle C) :
    Option Value × D → Option (Option Value) × D
  | (none, d) => (none, d)
  | (some result, d) =>
    match reg.finish h result d with
    | (none, d) => (none, d)
    | (some _, d) => (some (some result), d)

/-- An exception, or what `execute_config` returns: `None` for a run that is complete. -/
def executeConfig (reg : RunRegistry C S D) (sink : EventSink C D) (fn : RunFn S) (c : C)
    (cut : Option Nat) (d : D) : Option (Option Value) × D :=
  match reg.register c d with
  | (none, d) => (none, d)
  | (some h, d) =>
    if reg.isComplete h d then (some none, d)
    else
      match reg.load h d with
      | none => (none, d)
      | some resume =>
        finishRun reg h ((fn (resume.map Prod.fst) (resume.map Prod.snd)).run reg sink h cut d)

/-- The sink over the same store; `stamp` is the time and the UUID in the key. -/
def objectSink [RunNamed C] (o : ObjectStoreRunRegistry) (F : RunFormats S)
    (stamp : BlobStore C S → String) : EventSink C (BlobStore C S) where
  emit h record w :=
    match F.json record with
    | none => (none, w)
    | some j => (some (), w.set (o.key h.name ("events/" ++ stamp w ++ ".json")) (.event j))

structure Counting (S : Type) where
  init : S
  advance : S → S
  steps : Nat
  record : Int → S → Value
  result : S → Value

namespace Counting

variable (P : Counting S)

def loop : Nat → Int → S → RunSteps S
  | 0, _, s => .returns (P.result s)
  | left + 1, step, s =>
    .works (.checkpoint (P.advance s) step (.emit (P.record step (P.advance s))
      (loop left (step + 1) (P.advance s))))

/-- `range(start, steps + 1)`, with `start` one past the step that is resumed. -/
def runFn : RunFn S
  | some s, resumeStep =>
    P.loop (P.steps - resumeStep.getD 0).toNat (resumeStep.getD 0 + 1) s
  | none, _ => P.loop P.steps 1 P.init

def state (k : Nat) : S := P.advance^[k] P.init

def whole : Value := P.result (P.state P.steps)

end Counting

end RunFarm
