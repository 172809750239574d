import RunFarm.Executors.Provider

/-! The hosts that a `ProviderExecutor` holds over a whole run: one at a time, from offers in
order, and none at the end. -/
set_option autoImplicit false

namespace RunFarm
open Program Python

variable {C σ α β : Type}

/-- A listing, a rental with its host if there is one, a call that goes to a host, the worker
command for the config `c` at place `k` with its answer if there is one, and a teardown. -/
inductive LeaseNote (C : Type) where
  | listed (offers : List Offer)
  | rent (offer : Offer) (host : Option Host)
  | used (host : Host)
  | asked (host : Host) (k : Nat) (c : C) (answer : Option (Int × String))
  | teardown (host : Host)

def returned : Except (Stop Exc) α → Option α
  | .ok a => some a
  | .error _ => none

/-- The offers that were listed and those that a rental was tried of, and the host that is held. -/
structure Leases where
  listed : List Offer := []
  tried : List Offer := []
  current : Option Host := none

def Leases.step (l : Leases) : LeaseNote C → Leases
  | .listed offers => { l with listed := offers }
  | .rent offer host => { l with tried := l.tried ++ [offer], current := host }
  | .used _ => l
  | .asked _ _ _ _ => l
  | .teardown _ => { l with current := none }

def leasesAfter (notes : List (LeaseNote C)) : Leases := notes.foldl Leases.step {}

/-- What was last heard on the host of a worker for a place in the list, and for which config. -/
def hear (heard : Nat → Option (C × Int × String)) :
    LeaseNote C → Nat → Option (C × Int × String)
  | .rent _ _ => fun _ => none
  | .asked _ k c (some answer) => Function.update heard k (some (c, answer))
  | _ => heard

def heardAfter (notes : List (LeaseNote C)) : Nat → Option (C × Int × String) :=
  notes.foldl hear fun _ => none

/-- Nothing is rented while a host is held, and only the held host is used and torn down. -/
def LeaseAllows (before : List (LeaseNote C)) : LeaseNote C → Prop
  | .listed _ => True
  | .rent _ _ => (leasesAfter before).current = none
  | .used host | .asked host _ _ _ | .teardown host =>
    (leasesAfter before).current = some host

def OneLease (notes : List (LeaseNote C)) : Prop := Throughout LeaseAllows notes

@[simp] theorem leasesAfter_snoc (notes : List (LeaseNote C)) (note : LeaseNote C) :
    leasesAfter (notes ++ [note]) = (leasesAfter notes).step note := by
  simp [leasesAfter]

@[simp] theorem heardAfter_snoc (notes : List (LeaseNote C)) (note : LeaseNote C) :
    heardAfter (notes ++ [note]) = hear (heardAfter notes) note := by
  simp [heardAfter]

structure LeasedAs (l : Leases) (notes : List (LeaseNote C)) : Prop where
  one : OneLease notes
  leases : leasesAfter notes = l

variable {l : Leases} {notes : List (LeaseNote C)} {host : Host}

theorem LeasedAs.used (h : LeasedAs l notes) (hheld : l.current = some host) :
    LeasedAs l (notes ++ [.used host]) where
  one := throughout_snoc.mpr ⟨h.one, by rw [LeaseAllows, h.leases, hheld]⟩
  leases := by rw [leasesAfter_snoc, h.leases]; rfl

theorem LeasedAs.asked (h : LeasedAs l notes) (hheld : l.current = some host) (k : Nat) (c : C)
    (answer : Option (Int × String)) : LeasedAs l (notes ++ [.asked host k c answer]) where
  one := throughout_snoc.mpr ⟨h.one, by rw [LeaseAllows, h.leases, hheld]⟩
  leases := by rw [leasesAfter_snoc, h.leases]; rfl

/-- A program that concerns no host but `host`, while it is held. -/
def Uses (host : Host) (P : List (LeaseNote C) → Prop) (p : Prog (σ × List (LeaseNote C)) Exc α)
    (Q : α → List (LeaseNote C) → Prop) : Prop :=
  ∀ l : Leases, l.current = some host →
    Runs (Seen fun notes => P notes ∧ LeasedAs l notes) p
      (fun a => Seen fun notes => Q a notes ∧ LeasedAs l notes)
      (fun _ => Seen (LeasedAs l)) (Seen (LeasedAs l))

namespace Uses

variable {p : Prog (σ × List (LeaseNote C)) Exc α} {f : α → Prog (σ × List (LeaseNote C)) Exc β}
  {P : List (LeaseNote C) → Prop} {Q : α → List (LeaseNote C) → Prop}
  {R : β → List (LeaseNote C) → Prop}

theorem ret {a : α} (h : ∀ notes, P notes → Q a notes) :
    Uses host P (pure a : Prog (σ × List (LeaseNote C)) Exc α) Q :=
  fun _ _ => .ret fun _ hs => ⟨h _ hs.1, hs.2⟩

theorem raise {e : Exc} : Uses host P (Prog.raise e : Prog (σ × List (LeaseNote C)) Exc α) Q :=
  fun _ _ => .raise fun _ hs => hs.2

theorem stuck : Uses host P (Prog.stuck : Prog (σ × List (LeaseNote C)) Exc α) Q :=
  fun _ _ => .stuck fun _ hs => hs.2

theorem bind (hp : Uses host P p Q) (hf : ∀ a, Uses host (Q a) (f a) R) :
    Uses host P (p >>= f) R :=
  fun l hl => .bind (hp l hl) fun a => hf a l hl

theorem ite {c : Prop} [Decidable c] {q : Prog (σ × List (LeaseNote C)) Exc α}
    (ht : Uses host P p Q) (hf : Uses host P q Q) : Uses host P (if c then p else q) Q :=
  fun l hl => .ite (fun _ => ht l hl) fun _ => hf l hl

theorem pre {P' : List (LeaseNote C) → Prop} (h : Uses host P p Q)
    (hP : ∀ notes, P' notes → P notes) : Uses host P' p Q :=
  fun l hl => (h l hl).pre fun _ hs => ⟨hP _ hs.1, hs.2⟩

theorem given {F : Prop} (h : F → Uses host P p Q) :
    Uses host (fun notes => P notes ∧ F) p Q := by
  intro l hl s hs
  exact h hs.1.2 l hl s ⟨hs.1.1, hs.2⟩

theorem beside (p : Prog σ Exc α) :
    Uses host P (p.beside : Prog (σ × List (LeaseNote C)) Exc α) fun _ => P :=
  fun _ _ => .seen_beside p (fun _ _ hs => hs) (fun _ _ hs => hs.2) fun _ hs => hs.2

end Uses

def Told (heard : Nat → Option (C × Int × String)) (notes : List (LeaseNote C)) : Prop :=
  heardAfter notes = heard

variable {heard : Nat → Option (C × Int × String)}

theorem Told.used (h : Told heard notes) : Told heard (notes ++ [.used host]) := by
  rw [Told, heardAfter_snoc, h]
  rfl

theorem Uses.calls (p : Prog σ Exc α) :
    Uses host (Told heard) (p.noting fun _ => LeaseNote.used host) fun _ => Told heard :=
  fun _ hl => .seen_noting p (fun _ _ hs => ⟨hs.1.used, hs.2.used hl⟩)
    (fun _ _ hs => hs.2.used hl) fun _ hs => hs.2.used hl

namespace ProviderExecutor

variable (ex : ProviderExecutor C) (B : Boxes C σ)

/-- What `_run_worker` gives back after it last heard `last`: that, with a remark, or the report
that the time has run out. -/
inductive Reports (last : Int × String) : Int × String → Prop
  | said (remark : String) : Reports last (last.1, last.2 ++ remark)
  | late (i : Nat) : Reports last (124, "run_timeout " ++ ex.seconds ex.runTimeout ++
      "s exhausted across " ++ toString i ++ " attempt(s); last: " ++ lastOf 200 last.2)

theorem Reports.self (last : Int × String) : ex.Reports last last := by
  have h : ex.Reports last (last.1, last.2 ++ "") := .said ""
  rwa [String.append_empty] at h

end ProviderExecutor

/-- No host is held, and `rest` of the offers is still to be tried. -/
structure Walking (listed attempts rest : List Offer) (notes : List (LeaseNote C)) : Prop where
  one : OneLease notes
  free : (leasesAfter notes).current = none
  listed : (leasesAfter notes).listed = listed
  tried : (leasesAfter notes).tried ++ rest = attempts

structure Holding (host : Host) (listed attempts rest : List Offer) (notes : List (LeaseNote C)) :
    Prop where
  one : OneLease notes
  held : (leasesAfter notes).current = some host
  listed : (leasesAfter notes).listed = listed
  tried : (leasesAfter notes).tried ++ rest = attempts

structure Bounded (listed attempts : List Offer) (notes : List (LeaseNote C)) : Prop where
  one : OneLease notes
  listed : (leasesAfter notes).listed = listed
  tried : (leasesAfter notes).tried <+: attempts

variable {listed attempts rest : List Offer} {offer : Offer}

theorem Holding.bounded (h : Holding host listed attempts rest notes) :
    Bounded listed attempts notes := ⟨h.one, h.listed, ⟨rest, h.tried⟩⟩

theorem Walking.bounded (h : Walking listed attempts rest notes) :
    Bounded listed attempts notes := ⟨h.one, h.listed, ⟨rest, h.tried⟩⟩

theorem Walking.rented (h : Walking listed attempts (offer :: rest) notes) (host : Host) :
    Holding host listed attempts rest (notes ++ [.rent offer (some host)]) where
  one := throughout_snoc.mpr ⟨h.one, h.free⟩
  held := by rw [leasesAfter_snoc]; rfl
  listed := by rw [leasesAfter_snoc]; exact h.listed
  tried := by
    rw [leasesAfter_snoc, Leases.step, List.append_assoc]
    exact h.tried

namespace ProviderExecutor

variable (ex : ProviderExecutor C) (B : Boxes C σ)

end ProviderExecutor

end RunFarm
