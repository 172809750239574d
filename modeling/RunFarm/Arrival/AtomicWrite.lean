import RunFarm.Files.Device
import RunFarm.Transition

/-! Calls of `atomic_write` on one path: each may raise or be killed anywhere, several may be
under way at once, and the power may be lost. -/
set_option autoImplicit false

namespace RunFarm
open Files Transition

variable {β : Type}

/-- `path.with_name(path.name + ".tmp")`. -/
def tmpName (name : String) : String := name ++ ".tmp"

theorem tmpName_ne (name : String) : tmpName name ≠ name := by
  intro h
  have hlength := congrArg String.length h
  simp [tmpName] at hlength

/-- Where a call is: in `write_fn`, after `flush`, outside the `with`, after `os.replace`. -/
inductive WriteStage where
  | writing | flushed | closed | replaced
  deriving DecidableEq, Repr

/-- A call, with the file that it opened and what `write_fn` has given to the handle. -/
structure WriteCall (β : Type) where
  inode : Nat
  given : List β
  stage : WriteStage
  deriving DecidableEq, Repr

/-- `shown` is what a reader was to find under the path, the newest first: whole contents, and
at the end what was there before the first call. -/
structure AtomicWrite (β : Type) where
  device : Device β
  calls : List (WriteCall β) := []
  shown : List (Option (List β))

/-- `refused` is an `open` that raises, `gave` a write on the handle and what it makes of the
content, `spilled` what the buffer hands over before the flush. -/
inductive WriteEvent (β : Type) where
  | opened
  | refused
  | gave (i : Nat) (given : List β)
  | spilled (i : Nat) (cs : List β)
  | flushed (i : Nat)
  | closed (i : Nat)
  | replaced (i : Nat)
  | returned (i : Nat)
  | raised (i : Nat)
  | killed (i : Nat)
  | lost (k : Nat) (left : Nat → List β)

def WriteEvent.isLost : WriteEvent β → Bool
  | .lost _ _ => true
  | _ => false

def WriteEvent.isKilled : WriteEvent β → Bool
  | .killed _ => true
  | _ => false

namespace AtomicWrite

def start (d : Device β) (name : String) : AtomicWrite β := { device := d, shown := [d.reads name] }

def during (s : AtomicWrite β) (i : Nat) (stage : WriteStage) : Option (WriteCall β) :=
  s.calls[i]?.filter (fun w => w.stage = stage)

/-- At most `most` calls are under way at once. -/
def step (fsync : Bool) (most : Nat) (name : String) (s : AtomicWrite β) :
    WriteEvent β → Option (AtomicWrite β)
  | .opened =>
    if s.calls.length < most then
      let (inode, device) := s.device.create (tmpName name)
      some { s with device, calls := s.calls ++ [{ inode, given := [], stage := .writing }] }
    else none
  | .refused =>
    if s.calls.length < most then some { s with device := s.device.unlink (tmpName name) } else none
  | .gave i given => (s.during i .writing).map fun w =>
      { s with calls := s.calls.set i { w with given } }
  | .spilled i cs => (s.during i .writing).map fun w =>
      { s with device := s.device.write w.inode cs }
  | .flushed i => (s.during i .writing).map fun w =>
      { s with device := s.device.write w.inode w.given
               calls := s.calls.set i { w with stage := .flushed } }
  | .closed i => (s.during i .flushed).map fun w =>
      { s with device := if fsync then s.device.sync w.inode else s.device
               calls := s.calls.set i { w with stage := .closed } }
  | .replaced i =>
    if (s.device.names (tmpName name)).isSome then
      (s.during i .closed).map fun w =>
        { s with device := s.device.rename (tmpName name) name
                 calls := s.calls.set i { w with stage := .replaced }
                 shown := some w.given :: s.shown }
    else none
  | .returned i => (s.during i .replaced).map fun _ => { s with calls := s.calls.eraseIdx i }
  | .raised i => s.calls[i]?.map fun _ =>
      { s with device := s.device.unlink (tmpName name), calls := s.calls.eraseIdx i }
  | .killed i => s.calls[i]?.map fun _ => { s with calls := s.calls.eraseIdx i }
  | .lost k left => (s.device.lose k left).map fun device => { s with device, calls := [] }

inductive WriteStep (fsync : Bool) (most : Nat) (name : String) (s : AtomicWrite β) :
    WriteEvent β → AtomicWrite β → Prop
  | opened (room : s.calls.length < most) : WriteStep fsync most name s .opened
      { s with device := (s.device.create (tmpName name)).2
               calls := s.calls ++ [{ inode := (s.device.create (tmpName name)).1, given := [],
                                      stage := .writing }] }
  | refused (room : s.calls.length < most) : WriteStep fsync most name s .refused
      { s with device := s.device.unlink (tmpName name) }
  | gave (i : Nat) (given : List β) (w : WriteCall β) (at_ : s.during i .writing = some w) :
      WriteStep fsync most name s (.gave i given)
        { s with calls := s.calls.set i { w with given } }
  | spilled (i : Nat) (cs : List β) (w : WriteCall β) (at_ : s.during i .writing = some w) :
      WriteStep fsync most name s (.spilled i cs) { s with device := s.device.write w.inode cs }
  | flushed (i : Nat) (w : WriteCall β) (at_ : s.during i .writing = some w) :
      WriteStep fsync most name s (.flushed i)
        { s with device := s.device.write w.inode w.given
                 calls := s.calls.set i { w with stage := .flushed } }
  | closed (i : Nat) (w : WriteCall β) (at_ : s.during i .flushed = some w) :
      WriteStep fsync most name s (.closed i)
        { s with device := if fsync then s.device.sync w.inode else s.device
                 calls := s.calls.set i { w with stage := .closed } }
  | replaced (i : Nat) (w : WriteCall β) (at_ : s.during i .closed = some w) :
      WriteStep fsync most name s (.replaced i)
        { s with device := s.device.rename (tmpName name) name
                 calls := s.calls.set i { w with stage := .replaced }
                 shown := some w.given :: s.shown }
  | returned (i : Nat) (w : WriteCall β) (at_ : s.during i .replaced = some w) :
      WriteStep fsync most name s (.returned i) { s with calls := s.calls.eraseIdx i }
  | raised (i : Nat) (w : WriteCall β) (mem : s.calls[i]? = some w) :
      WriteStep fsync most name s (.raised i)
        { s with device := s.device.unlink (tmpName name), calls := s.calls.eraseIdx i }
  | killed (i : Nat) (w : WriteCall β) (mem : s.calls[i]? = some w) :
      WriteStep fsync most name s (.killed i) { s with calls := s.calls.eraseIdx i }
  | lost (k : Nat) (left : Nat → List β) (d : Device β) (lose : s.device.lose k left = some d) :
      WriteStep fsync most name s (.lost k left) { s with device := d, calls := [] }

variable {fsync : Bool} {most : Nat} {name : String} {s s' : AtomicWrite β} {e : WriteEvent β}

theorem during_some {i : Nat} {stage : WriteStage} {w : WriteCall β} :
    s.during i stage = some w ↔ s.calls[i]? = some w ∧ w.stage = stage := by
  simp [during, Option.filter_eq_some_iff]

theorem write_step (h : s.step fsync most name e = some s') :
    WriteStep fsync most name s e s' := by
  cases e with
  | opened =>
    simp only [step] at h
    split at h <;> cases h
    exact .opened ‹_›
  | refused =>
    simp only [step] at h
    split at h <;> cases h
    exact .refused ‹_›
  | gave i given =>
    obtain ⟨w, hw, rfl⟩ := Option.map_eq_some_iff.mp h
    exact .gave i given w hw
  | spilled i cs =>
    obtain ⟨w, hw, rfl⟩ := Option.map_eq_some_iff.mp h
    exact .spilled i cs w hw
  | flushed i =>
    obtain ⟨w, hw, rfl⟩ := Option.map_eq_some_iff.mp h
    exact .flushed i w hw
  | closed i =>
    obtain ⟨w, hw, rfl⟩ := Option.map_eq_some_iff.mp h
    exact .closed i w hw
  | replaced i =>
    simp only [step] at h
    split at h
    · obtain ⟨w, hw, rfl⟩ := Option.map_eq_some_iff.mp h
      exact .replaced i w hw
    · cases h
  | returned i =>
    obtain ⟨w, hw, rfl⟩ := Option.map_eq_some_iff.mp h
    exact .returned i w hw
  | raised i =>
    obtain ⟨w, hw, rfl⟩ := Option.map_eq_some_iff.mp h
    exact .raised i w hw
  | killed i =>
    obtain ⟨w, hw, rfl⟩ := Option.map_eq_some_iff.mp h
    exact .killed i w hw
  | lost k left =>
    obtain ⟨d, hd, rfl⟩ := Option.map_eq_some_iff.mp h
    exact .lost k left d hd

def Held (fsync : Bool) (tmp : String) (d : Device β) (w : WriteCall β) : Prop :=
  match w.stage with
  | .writing => d.names tmp = some w.inode
  | .flushed => d.names tmp = some w.inode ∧ d.data w.inode = w.given
  | .closed => d.names tmp = some w.inode ∧ d.data w.inode = w.given ∧
      (fsync = true → d.dirty w.inode = false)
  | .replaced => d.names tmp = none

structure Laid (fsync : Bool) (name : String) (s : AtomicWrite β) : Prop where
  apart : s.device.Apart (tmpName name) name
  one : s.calls.length ≤ 1
  held : ∀ w ∈ s.calls, Held fsync (tmpName name) s.device w

theorem only_call (hone : s.calls.length ≤ 1) {i : Nat} {w : WriteCall β}
    (hw : s.calls[i]? = some w) : i = 0 ∧ s.calls = [w] := by
  obtain ⟨hi, heq⟩ := List.getElem?_eq_some_iff.mp hw
  obtain ⟨v, hv⟩ := List.length_eq_one_iff.mp (show s.calls.length = 1 by omega)
  have hzero : i = 0 := by omega
  subst hzero
  simp only [hv, List.getElem?_cons_zero, Option.some.injEq] at hw
  exact ⟨rfl, hv.trans (congrArg (fun v => [v]) hw)⟩

theorem Laid.held_at (h : Laid fsync name s) {i : Nat} {w : WriteCall β} {stage : WriteStage}
    (hw : s.during i stage = some w) :
    i = 0 ∧ s.calls = [w] ∧ w.stage = stage ∧ Held fsync (tmpName name) s.device w := by
  obtain ⟨hmem, hstage⟩ := during_some.mp hw
  obtain ⟨hi, hcalls⟩ := only_call h.one hmem
  exact ⟨hi, hcalls, hstage, h.held w (List.mem_of_getElem? hmem)⟩

theorem Laid.set_only (h : Laid fsync name s) {i : Nat} {w : WriteCall β} {stage : WriteStage}
    (hw : s.during i stage = some w) (w' : WriteCall β) : s.calls.set i w' = [w'] := by
  obtain ⟨hi, hcalls, -⟩ := h.held_at hw
  rw [hi, hcalls]
  rfl

theorem Laid.of_one {d : Device β} {calls : List (WriteCall β)} {shown : List (Option (List β))}
    {w : WriteCall β} (hcalls : calls = [w]) (hd : d.Apart (tmpName name) name)
    (hw : Held fsync (tmpName name) d w) : Laid fsync name ⟨d, calls, shown⟩ := by
  subst hcalls
  exact ⟨hd, le_rfl, by simpa using hw⟩

theorem Laid.of_none {d : Device β} {calls : List (WriteCall β)} {shown : List (Option (List β))}
    (hcalls : calls = []) (hd : d.Apart (tmpName name) name) :
    Laid fsync name ⟨d, calls, shown⟩ := by
  subst hcalls
  exact ⟨hd, Nat.zero_le 1, by simp⟩

theorem laid_step (hmost : most ≤ 1) (h : s.step fsync most name e = some s')
    (hs : Laid fsync name s) : Laid fsync name s' := by
  have hne := tmpName_ne name
  have hover : ∀ {i : Nat} {w : WriteCall β}, s.calls[i]? = some w → s.calls.eraseIdx i = [] := by
    intro i w hw
    obtain ⟨hi, hcalls⟩ := only_call hs.one hw
    rw [hi, hcalls]
    rfl
  cases write_step h with
  | opened room =>
    have hnone : s.calls = [] := List.eq_nil_of_length_eq_zero (by omega)
    rw [hnone, List.nil_append]
    exact .of_one rfl (Device.create_apart hne hs.apart) (Device.create_names _ _)
  | refused room =>
    have hnone : s.calls = [] := List.eq_nil_of_length_eq_zero (by omega)
    exact .of_none hnone (Device.unlink_apart hne hs.apart)
  | gave i given w at_ =>
    obtain ⟨-, -, hstage, hheld⟩ := hs.held_at at_
    refine .of_one (hs.set_only at_ _) hs.apart ?_
    simpa only [Held, hstage] using hheld
  | spilled i cs w at_ =>
    obtain ⟨-, hcalls, hstage, hheld⟩ := hs.held_at at_
    refine .of_one hcalls (Device.write_apart hs.apart _ _) ?_
    simp only [Held, hstage] at hheld ⊢
    exact hheld
  | flushed i w at_ =>
    obtain ⟨-, -, hstage, hheld⟩ := hs.held_at at_
    refine .of_one (hs.set_only at_ _) (Device.write_apart hs.apart _ _) ?_
    simp only [Held, hstage] at hheld ⊢
    exact ⟨hheld, Function.update_self ..⟩
  | closed i w at_ =>
    obtain ⟨-, -, hstage, hheld⟩ := hs.held_at at_
    simp only [Held, hstage] at hheld
    obtain ⟨hnames, hdata⟩ := hheld
    cases fsync with
    | false => exact .of_one (hs.set_only at_ _) hs.apart ⟨hnames, hdata, Bool.noConfusion⟩
    | true =>
      exact .of_one (hs.set_only at_ _) (Device.sync_apart hs.apart _)
        ⟨hnames, hdata, fun _ => Function.update_self ..⟩
  | replaced i w at_ =>
    exact .of_one (hs.set_only at_ _) (Device.rename_apart hne hs.apart)
      (Device.rename_names hne s.device).1
  | returned i w at_ => exact .of_none (hover (during_some.mp at_).1) hs.apart
  | raised i w mem => exact .of_none (hover mem) (Device.unlink_apart hne hs.apart)
  | killed i w mem => exact .of_none (hover mem) hs.apart
  | lost k left d lose => exact .of_none rfl (Device.lose_apart hs.apart lose)

inductive Effect (fsync : Bool) (name : String) (s : AtomicWrite β) :
    WriteEvent β → AtomicWrite β → Prop
  | still (e : WriteEvent β) (s' : AtomicWrite β) (shown : s'.shown = s.shown)
      (leaves : s.device.Leaves s'.device name) : Effect fsync name s e s'
  | synced (e : WriteEvent β) (s' : AtomicWrite β) (j : Nat) (shown : s'.shown = s.shown)
      (device : s'.device = s.device.sync j) : Effect fsync name s e s'
  | shows (e : WriteEvent β) (s' : AtomicWrite β) (given : List β)
      (shown : s'.shown = some given :: s.shown)
      (device : s'.device = s.device.rename (tmpName name) name)
      (whole : s.device.reads (tmpName name) = some given)
      (clean : fsync = true → ∀ i, s.device.names (tmpName name) = some i →
        s.device.dirty i = false) : Effect fsync name s e s'
  | lost (k : Nat) (left : Nat → List β) (s' : AtomicWrite β) (shown : s'.shown = s.shown)
      (lose : s.device.lose k left = some s'.device) : Effect fsync name s (.lost k left) s'

theorem effect (h : s.step fsync most name e = some s') (hs : Laid fsync name s) :
    Effect fsync name s e s' := by
  have hne := tmpName_ne name
  cases write_step h with
  | opened room => exact .still _ _ rfl (Device.create_leaves hne hs.apart)
  | refused room => exact .still _ _ rfl (Device.unlink_leaves hne _)
  | gave i given w at_ => exact .still _ _ rfl (.refl _ _)
  | spilled i cs w at_ =>
    obtain ⟨-, -, hstage, hheld⟩ := hs.held_at at_
    simp only [Held, hstage] at hheld
    exact .still _ _ rfl (Device.write_leaves hs.apart hheld cs)
  | flushed i w at_ =>
    obtain ⟨-, -, hstage, hheld⟩ := hs.held_at at_
    simp only [Held, hstage] at hheld
    exact .still _ _ rfl (Device.write_leaves hs.apart hheld w.given)
  | closed i w at_ =>
    cases fsync with
    | false => exact .still _ _ rfl (.refl _ _)
    | true => exact .synced _ _ w.inode rfl rfl
  | replaced i w at_ =>
    obtain ⟨-, -, hstage, hheld⟩ := hs.held_at at_
    simp only [Held, hstage] at hheld
    obtain ⟨hnames, hdata, hclean⟩ := hheld
    refine .shows _ _ w.given rfl rfl ?_ fun hfsync j hj => ?_
    · rw [Device.reads, hnames, Option.map_some, hdata]
    · rw [hnames] at hj
      cases hj
      exact hclean hfsync
  | returned i w at_ => exact .still _ _ rfl (.refl _ _)
  | raised i w mem => exact .still _ _ rfl (Device.unlink_leaves hne _)
  | killed i w mem => exact .still _ _ rfl (.refl _ _)
  | lost k left d lose => exact .lost k left _ rfl lose

theorem shown_step (h : s.step fsync most name e = some s') (hlost : e.isLost = false)
    (hs : Laid fsync name s) (hshown : s.shown.head? = some (s.device.reads name)) :
    s'.shown.head? = some (s'.device.reads name) := by
  cases effect h hs with
  | still _ _ shown leaves => rw [shown, hshown, leaves.reads]
  | synced _ _ j shown device =>
    rw [shown, hshown, device]
    rfl
  | shows _ _ given shown device whole clean =>
    rw [shown, device, Device.rename_reads (tmpName_ne name), whole, List.head?_cons]
  | lost k left _ shown lose => cases hlost

theorem safe_step (h : s.step true most name e = some s') (hs : Laid true name s)
    (hsafe : s.device.Safe (· ∈ s.shown) name) : s'.device.Safe (· ∈ s'.shown) name := by
  cases effect h hs with
  | still _ _ shown leaves =>
    rw [shown]
    exact leaves.safe hsafe
  | synced _ _ j shown device =>
    rw [shown, device]
    exact Device.sync_safe j hsafe
  | shows _ _ given shown device whole clean =>
    rw [shown, device]
    refine Device.rename_safe (tmpName_ne name) (clean rfl) ?_
      (hsafe.mono fun c hc => .tail _ hc)
    rw [whole]
    exact .head _
  | lost k left _ shown lose =>
    rw [shown]
    exact Device.lose_safe hsafe lose

theorem residue_step (h : s.step fsync most name e = some s') (hlost : e.isLost = false)
    (hkilled : e.isKilled = false) (hs : Laid fsync name s)
    (hnone : s.calls = [] → s.device.names (tmpName name) = none) :
    s'.calls = [] → s'.device.names (tmpName name) = none := by
  have hset : ∀ {i : Nat} {stage : WriteStage} {w w' : WriteCall β},
      s.during i stage = some w → s.calls.set i w' ≠ [] := by
    intro i stage w w' hw
    rw [hs.set_only hw]
    exact List.cons_ne_nil _ _
  cases write_step h with
  | opened room => exact fun hnil => absurd hnil (by simp)
  | refused room => exact fun _ => Function.update_self ..
  | gave i given w at_ => exact fun hnil => absurd hnil (hset at_)
  | spilled i cs w at_ => exact hnone
  | flushed i w at_ => exact fun hnil => absurd hnil (hset at_)
  | closed i w at_ => exact fun hnil => absurd hnil (hset at_)
  | replaced i w at_ => exact fun hnil => absurd hnil (hset at_)
  | returned i w at_ =>
    obtain ⟨-, -, hstage, hheld⟩ := hs.held_at at_
    simp only [Held, hstage] at hheld
    exact fun _ => hheld
  | raised i w mem => exact fun _ => Function.update_self ..
  | killed i w mem => cases hkilled
  | lost k left d lose => cases hlost

theorem laid_start {d : Device β} (h : d.Settled (tmpName name) name) :
    Laid fsync name (start d name) := .of_none rfl h.apart

/-- What there is after these events if the power was not lost. -/
structure Tidy (d : Device β) (name : String) (events : List (WriteEvent β))
    (s : AtomicWrite β) : Prop where
  newest : s.shown.head? = some (s.device.reads name)
  residue : d.names (tmpName name) = none → (∀ e ∈ events, e.isKilled = false) →
    s.calls = [] → s.device.names (tmpName name) = none

theorem tidy {d : Device β} {events : List (WriteEvent β)} (hmost : most ≤ 1)
    (hd : d.Settled (tmpName name) name)
    (h : exec (step fsync most name) (start d name) events = some s)
    (hlost : ∀ e ∈ events, e.isLost = false) : Tidy d name events s := by
  constructor
  · refine (exec_keeps_mem (P := fun e => e.isLost = false)
      (I := fun t => Laid fsync name t ∧ t.shown.head? = some (t.device.reads name))
      ?_ hlost h ⟨laid_start hd, rfl⟩).2
    intro t e t' he hstep ht
    exact ⟨laid_step hmost hstep ht.1, shown_step hstep he ht.1 ht.2⟩
  · intro htmp hkilled
    refine (exec_keeps_mem (P := fun e => e.isLost = false ∧ e.isKilled = false)
      (I := fun t => Laid fsync name t ∧ (t.calls = [] → t.device.names (tmpName name) = none))
      ?_ (fun e he => ⟨hlost e he, hkilled e he⟩) h ⟨laid_start hd, fun _ => htmp⟩).2
    intro t e t' he hstep ht
    exact ⟨laid_step hmost hstep ht.1, residue_step hstep he.1 he.2 ht.1 ht.2⟩

theorem safe_run {d : Device β} {events : List (WriteEvent β)} (hmost : most ≤ 1)
    (hd : d.Settled (tmpName name) name)
    (h : exec (step true most name) (start d name) events = some s) :
    s.device.Safe (· ∈ s.shown) name := by
  refine (exec_keeps (I := fun t => Laid true name t ∧ t.device.Safe (· ∈ t.shown) name)
    ?_ h ⟨laid_start hd, hd.safe (.head _)⟩).2
  intro t e t' hstep ht
  exact ⟨laid_step hmost hstep ht.1, safe_step hstep ht.1 ht.2⟩

theorem idle_step (h : s.step fsync 0 name e = some s') (hs : s.calls = []) :
    s'.calls = [] ∧ s'.shown = s.shown ∧ ∃ k left, s.device.lose k left = some s'.device := by
  have hnone : ∀ {i : Nat} {w : WriteCall β}, s.calls[i]? ≠ some w := by simp [hs]
  cases write_step h with
  | opened room => exact absurd room (Nat.not_lt_zero _)
  | refused room => exact absurd room (Nat.not_lt_zero _)
  | raised i w mem => exact absurd mem hnone
  | killed i w mem => exact absurd mem hnone
  | lost k left d lose => exact ⟨rfl, rfl, k, left, lose⟩
  | _ => exact absurd (during_some.mp ‹_›).1 hnone

theorem idle_safe {d : Device β} {events : List (WriteEvent β)}
    (hd : d.Settled (tmpName name) name)
    (h : exec (step fsync 0 name) (start d name) events = some s) :
    s.device.Safe (· ∈ s.shown) name := by
  refine (exec_keeps (I := fun t => t.calls = [] ∧ t.device.Safe (· ∈ t.shown) name)
    ?_ h ⟨rfl, hd.safe (.head _)⟩).2
  intro t e t' hstep ht
  obtain ⟨hcalls, hshown, k, left, hlose⟩ := idle_step hstep ht.1
  exact ⟨hcalls, hshown ▸ Device.lose_safe ht.2 hlose⟩

def bare : Device UInt8 where
  data _ := []
  dirty _ := false
  names _ := none
  fresh := 0

theorem bare_settled (name : String) : bare.Settled (tmpName name) name := by
  constructor <;> simp [bare]

theorem two_calls (fsync : Bool) {most : Nat} (hmost : 1 < most) (name : String) :
    ∃ s, exec (step fsync most name) (start bare name)
        [.opened, .gave 0 [1], .flushed 0, .closed 0, .opened, .replaced 0] = some s ∧
      s.device.reads name = some [] ∧ s.shown = [some [1], none] := by
  have hne := (tmpName_ne name).symm
  have hpos : 0 < most := by omega
  cases fsync <;>
    simp [exec, step, start, bare, during, Device.create, Device.enter, Device.write, Device.sync,
      Device.rename, Device.reads, Option.filter_some, hpos, hmost, hne]

theorem unsynced_call {most : Nat} (hmost : 0 < most) (name : String) :
    ∃ s, exec (step false most name) (start bare name)
        [.opened, .gave 0 [1], .flushed 0, .closed 0, .replaced 0, .lost 0 fun _ => []] = some s ∧
      s.device.reads name = some [] ∧ s.shown = [some [1], none] := by
  have hne := (tmpName_ne name).symm
  simp [exec, step, start, bare, during, Device.create, Device.enter, Device.write,
    Device.rename, Device.reads, Device.lose, Option.filter_some, hmost, hne]

/-- While the power is there a reader finds the newest content that was written whole, whatever
call raises or is killed, if no two calls are under way at once, and only then. -/
theorem tidy_iff (fsync : Bool) (most : Nat) (name : String) :
    (∀ (d : Device UInt8) (events : List (WriteEvent UInt8)) (s : AtomicWrite UInt8),
      d.Settled (tmpName name) name →
      exec (step fsync most name) (start d name) events = some s →
      (∀ e ∈ events, e.isLost = false) → Tidy d name events s) ↔ most ≤ 1 := by
  refine ⟨fun hall => ?_, fun hmost d events s hd h hlost => tidy hmost hd h hlost⟩
  by_contra hmost
  obtain ⟨s, hrun, hreads, hshown⟩ := two_calls fsync (Nat.lt_of_not_le hmost) name
  have hnewest := (hall bare _ s (bare_settled name) hrun (by simp [WriteEvent.isLost])).newest
  rw [hshown, hreads] at hnewest
  simp at hnewest

/-- After losses of power too a reader finds what was there before or what some call wrote
whole, if the calls sync and no two are under way at once, and only then. -/
theorem survives_iff (fsync : Bool) (most : Nat) (name : String) :
    (∀ (d : Device UInt8) (events : List (WriteEvent UInt8)) (s : AtomicWrite UInt8),
      d.Settled (tmpName name) name →
      exec (step fsync most name) (start d name) events = some s →
      s.device.reads name ∈ s.shown) ↔ most = 0 ∨ most = 1 ∧ fsync = true := by
  constructor
  · intro hall
    by_contra hnot
    have hbreak : ∃ events s, exec (step fsync most name) (start bare name) events = some s ∧
        s.device.reads name = some [] ∧ s.shown = [some [1], none] := by
      by_cases htwo : 1 < most
      · exact ⟨_, two_calls fsync htwo name⟩
      · have hone : most = 1 := by omega
        have hsync : fsync = false := by simpa [hone] using hnot
        subst hsync
        exact ⟨_, unsynced_call (by omega) name⟩
    obtain ⟨events, s, hrun, hreads, hshown⟩ := hbreak
    have hin := hall bare events s (bare_settled name) hrun
    rw [hshown, hreads] at hin
    simp at hin
  · rintro (rfl | ⟨hone, rfl⟩) d events s hd h
    · exact (idle_safe hd h).reads
    · exact (safe_run (by omega) hd h).reads

end AtomicWrite

end RunFarm
