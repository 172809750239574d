import Mathlib.Logic.Function.Basic

/-! One directory of a file system that may lose power: what a reader sees, and what may be
there after a loss. Its entries reach the device in the order in which they were changed; the
content of a file does when it is synced. -/
set_option autoImplicit false

namespace Files

/-- `data` is what a reader finds in each inode, and `dirty` are those that were written to
since they were last synced; `past` are the states that the directory had before, each of
which a loss may leave. No inode from `fresh` on was ever used. -/
structure Device (β : Type) where
  data : Nat → List β
  dirty : Nat → Bool
  names : String → Option Nat
  past : List (String → Option Nat) := []
  fresh : Nat

variable {β : Type}

namespace Device

def reads (d : Device β) (n : String) : Option (List β) := (d.names n).map d.data

def write (d : Device β) (i : Nat) (cs : List β) : Device β :=
  { d with data := Function.update d.data i cs, dirty := Function.update d.dirty i true }

def enter (d : Device β) (n : String) : Device β where
  data := Function.update d.data d.fresh []
  dirty := Function.update d.dirty d.fresh true
  names := Function.update d.names n (some d.fresh)
  past := d.names :: d.past
  fresh := d.fresh + 1

/-- `open(n, "wb")`, with the inode that is written to. -/
def create (d : Device β) (n : String) : Nat × Device β :=
  match d.names n with
  | some i => (i, d.write i [])
  | none => (d.fresh, d.enter n)

/-- `os.fsync`. -/
def sync (d : Device β) (i : Nat) : Device β := { d with dirty := Function.update d.dirty i false }

/-- `os.replace`, of a name that is there. -/
def rename (d : Device β) (a b : String) : Device β :=
  { d with
    names := Function.update (Function.update d.names b (d.names a)) a none
    past := d.names :: d.past }

def unlink (d : Device β) (a : String) : Device β :=
  { d with names := Function.update d.names a none, past := d.names :: d.past }

/-- The power is lost: the directory is as it was at some time, and of a file that was not
synced anything may be left. -/
def lose (d : Device β) (k : Nat) (left : Nat → List β) : Option (Device β) :=
  ((d.names :: d.past)[k]?).map fun names => {
    data := fun i => if d.dirty i then left i else d.data i
    dirty := fun _ => false
    names := names
    fresh := d.fresh }

/-- Under one name there never was an inode that is under the other one, and none is there
that was ever under the other. -/
structure Apart (d : Device β) (a b : String) : Prop where
  bounded : ∀ D ∈ d.names :: d.past, ∀ n i, D n = some i → i < d.fresh
  never : ∀ D ∈ d.names :: d.past, ∀ i, D a = some i → D b ≠ some i
  now : ∀ i, d.names a = some i → ∀ D ∈ d.names :: d.past, D b ≠ some i

/-- Nothing is to be written back, and the two names are not those of one file. -/
structure Settled (d : Device β) (a b : String) : Prop where
  past : d.past = []
  clean : ∀ i, d.names b = some i → d.dirty i = false
  bounded : ∀ n i, d.names n = some i → i < d.fresh
  unlinked : ∀ i, d.names a = some i → d.names b ≠ some i

/-- Whatever a loss may leave under a name, its content is synced and has `P`. -/
def Safe (P : Option (List β) → Prop) (d : Device β) (b : String) : Prop :=
  ∀ D ∈ d.names :: d.past, (∀ i, D b = some i → d.dirty i = false) ∧ P ((D b).map d.data)

variable {d d' : Device β} {a b : String} {P : Option (List β) → Prop}

theorem Settled.apart (h : d.Settled a b) : d.Apart a b := by
  have honly : ∀ D ∈ d.names :: d.past, D = d.names := by simp [h.past]
  constructor
  · intro D hD
    exact honly D hD ▸ h.bounded
  · intro D hD
    exact honly D hD ▸ h.unlinked
  · intro i hi D hD
    exact honly D hD ▸ h.unlinked i hi

theorem Settled.safe (h : d.Settled a b) (hP : P (d.reads b)) : d.Safe P b := by
  intro D hD
  rw [h.past, List.mem_singleton] at hD
  rw [hD]
  exact ⟨h.clean, hP⟩

theorem Safe.mono {Q : Option (List β) → Prop} (h : d.Safe P b) (hPQ : ∀ c, P c → Q c) :
    d.Safe Q b :=
  fun D hD => (h D hD).imp id (hPQ _)

theorem Safe.reads (h : d.Safe P b) : P (d.reads b) := (h _ (.head _)).2

structure Leaves (d d' : Device β) (b : String) : Prop where
  agree : ∀ D ∈ d.names :: d.past, ∀ i, D b = some i →
    d'.dirty i = d.dirty i ∧ d'.data i = d.data i
  names : d'.names b = d.names b
  past : ∀ D' ∈ d'.names :: d'.past, ∃ D ∈ d.names :: d.past, D' b = D b

theorem Leaves.refl (d : Device β) (b : String) : d.Leaves d b :=
  ⟨fun _ _ _ _ => ⟨rfl, rfl⟩, rfl, fun D hD => ⟨D, hD, rfl⟩⟩

theorem Leaves.data (h : d.Leaves d' b) {D : String → Option Nat} (hD : D ∈ d.names :: d.past) :
    (D b).map d'.data = (D b).map d.data :=
  Option.map_congr fun i hi => (h.agree D hD i hi).2

theorem Leaves.reads (h : d.Leaves d' b) : d'.reads b = d.reads b := by
  unfold Device.reads
  rw [h.names]
  exact h.data (.head _)

theorem Leaves.safe (h : d.Leaves d' b) (hs : d.Safe P b) : d'.Safe P b := by
  intro D' hD'
  obtain ⟨D, hD, hb⟩ := h.past D' hD'
  obtain ⟨hclean, hP⟩ := hs D hD
  rw [hb]
  exact ⟨fun i hi => (h.agree D hD i hi).1.trans (hclean i hi), (h.data hD).symm ▸ hP⟩

theorem Apart.fresh_not (h : d.Apart a b) : ∀ D ∈ d.names :: d.past, D b ≠ some d.fresh :=
  fun D hD hb => Nat.lt_irrefl _ (h.bounded D hD b _ hb)

theorem create_names (d : Device β) (a : String) :
    (d.create a).2.names a = some (d.create a).1 := by
  unfold create
  split
  · assumption
  · simp [enter]

theorem enter_names (d : Device β) (a n : String) :
    (d.enter a).names n = if n = a then some d.fresh else d.names n := Function.update_apply ..

theorem write_apart (h : d.Apart a b) (i : Nat) (cs : List β) : (d.write i cs).Apart a b :=
  ⟨h.bounded, h.never, h.now⟩

theorem enter_apart (hab : a ≠ b) (h : d.Apart a b) : (d.enter a).Apart a b := by
  have hb : (d.enter a).names b = d.names b := by rw [enter_names, if_neg hab.symm]
  have ha : (d.enter a).names a = some d.fresh := by rw [enter_names, if_pos rfl]
  constructor
  · intro D hD n i hi
    rcases List.mem_cons.mp hD with rfl | hD
    · rw [enter_names] at hi
      split at hi
      · cases hi
        exact Nat.lt_succ_self _
      · exact Nat.lt_succ_of_lt (h.bounded _ (.head _) n i hi)
    · exact Nat.lt_succ_of_lt (h.bounded D hD n i hi)
  · intro D hD i hi
    rcases List.mem_cons.mp hD with rfl | hD
    · rw [ha] at hi
      cases hi
      exact hb ▸ h.fresh_not _ (.head _)
    · exact h.never D hD i hi
  · intro i hi D hD
    rw [ha] at hi
    cases hi
    rcases List.mem_cons.mp hD with rfl | hD
    · exact hb ▸ h.fresh_not _ (.head _)
    · exact h.fresh_not D hD

theorem create_apart (hab : a ≠ b) (h : d.Apart a b) : (d.create a).2.Apart a b := by
  unfold create
  split
  · exact write_apart h _ _
  · exact enter_apart hab h

theorem write_leaves (h : d.Apart a b) {i : Nat} (hi : d.names a = some i) (cs : List β) :
    d.Leaves (d.write i cs) b := by
  refine ⟨fun D hD j hj => ?_, rfl, fun D hD => ⟨D, hD, rfl⟩⟩
  have hne : j ≠ i := fun heq => h.now i hi D hD (heq ▸ hj)
  simp only [write, Function.update_of_ne hne, and_self]

theorem enter_leaves (hab : a ≠ b) (h : d.Apart a b) : d.Leaves (d.enter a) b := by
  have hb : (d.enter a).names b = d.names b := by rw [enter_names, if_neg hab.symm]
  refine ⟨fun D hD j hj => ?_, hb, fun D hD => ?_⟩
  · have hne : j ≠ d.fresh := fun heq => h.fresh_not D hD (heq ▸ hj)
    simp only [enter, Function.update_of_ne hne, and_self]
  · rcases List.mem_cons.mp hD with rfl | hD
    · exact ⟨_, .head _, hb⟩
    · exact ⟨D, hD, rfl⟩

theorem create_leaves (hab : a ≠ b) (h : d.Apart a b) : d.Leaves (d.create a).2 b := by
  unfold create
  split
  · exact write_leaves h ‹_› _
  · exact enter_leaves hab h

theorem sync_apart (h : d.Apart a b) (i : Nat) : (d.sync i).Apart a b :=
  ⟨h.bounded, h.never, h.now⟩

theorem sync_safe (i : Nat) (hs : d.Safe P b) : (d.sync i).Safe P b := by
  intro D hD
  obtain ⟨hclean, hP⟩ := hs D hD
  refine ⟨fun j hj => ?_, hP⟩
  by_cases hij : j = i
  · simp [sync, hij]
  · simp only [sync, Function.update_of_ne hij]
    exact hclean j hj

theorem rename_names (hab : a ≠ b) (d : Device β) :
    (d.rename a b).names a = none ∧ (d.rename a b).names b = d.names a := by
  simp [rename, Function.update_of_ne hab.symm]

theorem rename_apart (hab : a ≠ b) (h : d.Apart a b) : (d.rename a b).Apart a b := by
  obtain ⟨ha, hb⟩ := rename_names hab d
  constructor
  · intro D hD n i hi
    rcases List.mem_cons.mp hD with rfl | hD
    · by_cases hna : n = a
      · rw [hna, ha] at hi
        cases hi
      · by_cases hnb : n = b
        · rw [hnb, hb] at hi
          exact h.bounded _ (.head _) a i hi
        · simp only [rename, Function.update_of_ne hna, Function.update_of_ne hnb] at hi
          exact h.bounded _ (.head _) n i hi
    · exact h.bounded D hD n i hi
  · intro D hD i hi
    rcases List.mem_cons.mp hD with rfl | hD
    · rw [ha] at hi
      cases hi
    · exact h.never D hD i hi
  · intro i hi
    rw [ha] at hi
    cases hi

theorem rename_reads (hab : a ≠ b) (d : Device β) : (d.rename a b).reads b = d.reads a := by
  rw [reads, (rename_names hab d).2]
  rfl

theorem rename_safe (hab : a ≠ b) (hclean : ∀ i, d.names a = some i → d.dirty i = false)
    (hP : P (d.reads a)) (hs : d.Safe P b) : (d.rename a b).Safe P b := by
  intro D hD
  rcases List.mem_cons.mp hD with rfl | hD
  · rw [(rename_names hab d).2]
    exact ⟨hclean, hP⟩
  · exact hs D hD

theorem unlink_apart (hab : a ≠ b) (h : d.Apart a b) : (d.unlink a).Apart a b := by
  have hb : (d.unlink a).names b = d.names b := Function.update_of_ne hab.symm _ _
  constructor
  · intro D hD n i hi
    rcases List.mem_cons.mp hD with rfl | hD
    · by_cases hna : n = a
      · simp [unlink, hna] at hi
      · simp only [unlink, Function.update_of_ne hna] at hi
        exact h.bounded _ (.head _) n i hi
    · exact h.bounded D hD n i hi
  · intro D hD i hi
    rcases List.mem_cons.mp hD with rfl | hD
    · simp [unlink] at hi
    · exact h.never D hD i hi
  · intro i hi
    simp [unlink] at hi

theorem unlink_leaves (hab : a ≠ b) (d : Device β) : d.Leaves (d.unlink a) b := by
  have hb : (d.unlink a).names b = d.names b := Function.update_of_ne hab.symm _ _
  refine ⟨fun D hD i hi => ⟨rfl, rfl⟩, hb, fun D hD => ?_⟩
  rcases List.mem_cons.mp hD with rfl | hD
  · exact ⟨_, .head _, hb⟩
  · exact ⟨D, hD, rfl⟩

theorem lose_from {k : Nat} {left : Nat → List β} (h : d.lose k left = some d') :
    d'.names ∈ d.names :: d.past ∧ d'.past = [] ∧ d'.fresh = d.fresh ∧
      (∀ i, d'.dirty i = false) ∧ ∀ i, d.dirty i = false → d'.data i = d.data i := by
  obtain ⟨names, hk, rfl⟩ := Option.map_eq_some_iff.mp h
  exact ⟨List.mem_of_getElem? hk, rfl, rfl, fun _ => rfl, fun i hi => by simp [hi]⟩

theorem lose_apart {k : Nat} {left : Nat → List β} (h : d.Apart a b)
    (hlose : d.lose k left = some d') : d'.Apart a b := by
  obtain ⟨hin, hpast, hfresh, -, -⟩ := lose_from hlose
  constructor
  · intro D hD n i hi
    rw [hpast, List.mem_singleton] at hD
    rw [hfresh]
    exact h.bounded _ (hD ▸ hin) n i hi
  · intro D hD i hi
    rw [hpast, List.mem_singleton] at hD
    exact h.never D (hD ▸ hin) i hi
  · intro i hi D hD
    rw [hpast, List.mem_singleton] at hD
    exact hD ▸ h.never _ hin i hi

theorem lose_safe {k : Nat} {left : Nat → List β} (hs : d.Safe P b)
    (hlose : d.lose k left = some d') : d'.Safe P b := by
  obtain ⟨hin, hpast, -, hclean, hdata⟩ := lose_from hlose
  intro D hD
  rw [hpast, List.mem_singleton] at hD
  obtain ⟨hold, hP⟩ := hs D (hD ▸ hin)
  have hsame : (D b).map d'.data = (D b).map d.data :=
    Option.map_congr fun i hi => hdata i (hold i hi)
  exact ⟨fun i _ => hclean i, hsame ▸ hP⟩

end Device

end Files
