import RunFarm.Observation
import RunFarm.Registry.Backends

/-! The calls of a registry, what each backend makes of them, and a registry as it is meant. -/
set_option autoImplicit false

namespace RunFarm
open Files Python
open RunNamed (runName)

/-- The handle of every other call is the one that `register` returned for the config. -/
inductive RegistryCall (C S : Type) where
  | register (c : C)
  | isComplete (c : C)
  | load (c : C)
  | save (c : C) (state : S) (step : Int)
  | finish (c : C) (result : Value)

inductive RegistryAnswer (C S : Type) where
  | handle (h : RunHandle C)
  | flag (b : Bool)
  | resume (from_ : Option (S × Int))
  | returned
  | raised

variable {C S D : Type} [RunNamed C]

def plainHandle (c : C) : RunHandle C := ⟨c, [runName c], runName c⟩

def returnedOr {S : Type} : Option Unit → RegistryAnswer C S
  | some _ => .returned
  | none => .raised

def RunRegistry.answer (reg : RunRegistry C S D) : RegistryCall C S → D → RegistryAnswer C S × D
  | .register c, d =>
    match reg.register c d with
    | (some h, d) => (.handle h, d)
    | (none, d) => (.raised, d)
  | .isComplete c, d => (.flag (reg.isComplete (plainHandle c) d), d)
  | .load c, d =>
    match reg.load (plainHandle c) d with
    | some from_ => (.resume from_, d)
    | none => (.raised, d)
  | .save c state step, d =>
    match reg.save (plainHandle c) state step d with
    | (done, d) => (returnedOr done, d)
  | .finish c result, d =>
    match reg.finish (plainHandle c) result d with
    | (done, d) => (returnedOr done, d)

structure RunLog (S : Type) where
  registered : List String := []
  saved : String → Option (S × Int) := fun _ => none
  finished : List String := []

def RunLog.next (F : RunFormats S) : RegistryCall C S → RunLog S → RunLog S
  | .register c, l => { l with registered := runName c :: l.registered }
  | .save c state step, l =>
    { l with saved := Function.update l.saved (runName c) (some (state, step)) }
  | .finish c result, l =>
    if (F.json result).isSome then { l with finished := runName c :: l.finished } else l
  | _, l => l

def RunLog.answer (F : RunFormats S) (l : RunLog S) : RegistryCall C S → RegistryAnswer C S
  | .register c => .handle (plainHandle c)
  | .isComplete c => .flag (runName c ∈ l.finished)
  | .load c => .resume ((l.saved (runName c)).map fun p => (F.restore p.1, p.2))
  | .save _ _ _ => .returned
  | .finish _ result => if (F.json result).isSome then .returned else .raised

def RunLog.Handled (l : RunLog S) : RegistryCall C S → Prop
  | .register _ => True
  | .isComplete c | .load c | .save c _ _ | .finish c _ => runName c ∈ l.registered

end RunFarm
