import RunFarm.Python.Padded
import RunFarm.Registry.Execute

/-! `ObjectStoreEventSink`: a blob for each record, and the records of a run read back. -/
set_option autoImplicit false

namespace RunFarm
open Files Python

structure ObjectStoreEventSink where
  base : String
  deriving DecidableEq, Repr

/-- `uuid.uuid4().hex`. -/
def uuidHex (uuid : BitVec 128) : String := String.ofList (padded 16 32 uuid.toNat)

/-- `_blob_key`, of `time.time_ns()` and `uuid.uuid4()`. -/
def blobKey (tick : Int64) (uuid : BitVec 128) : String :=
  String.ofList (zeroPadded 20 tick.toInt) ++ "-" ++ uuidHex uuid

namespace ObjectStoreEventSink

variable {C S : Type} (sink : ObjectStoreEventSink)

def place (name : String) : String := sink.base ++ "/" ++ name

def emit (F : RunFormats S) (handle : RunHandle C) (record : Value) (tick : Int64)
    (uuid : BitVec 128) (w : BlobStore C S) : Option Unit × BlobStore C S :=
  match F.json record with
  | none => (none, w)
  | some j =>
    (some (), w.set (sink.place handle.name ++ "/events/" ++ blobKey tick uuid ++ ".json")
      (.event j))

/-- `sorted(store.list(f"{base}/{name}/events/"))`. -/
def eventKeys (name : String) (w : BlobStore C S) : List String :=
  ((w.items.map Prod.fst).filter fun k =>
    (sink.place name ++ "/events/").toList.isPrefixOf k.toList).mergeSort

def events (name : String) (w : BlobStore C S) : List (Stored C S) :=
  (sink.eventKeys name w).filterMap w.get

end ObjectStoreEventSink

/-- A call of `emit` by one of the writers, with what the clock and `uuid4` gave it. -/
structure Emission (W C : Type) where
  writer : W
  sink : ObjectStoreEventSink
  handle : RunHandle C
  record : Value
  tick : Int64
  uuid : BitVec 128

variable {W C S : Type}

namespace Emission

def key (e : Emission W C) : String :=
  e.sink.place e.handle.name ++ "/events/" ++ blobKey e.tick e.uuid ++ ".json"

def exec (F : RunFormats S) (w : BlobStore C S) (e : Emission W C) : BlobStore C S :=
  (e.sink.emit F e.handle e.record e.tick e.uuid w).2

/-- What is written of the record; `json.dumps` may raise. -/
def image (F : RunFormats S) (e : Emission W C) : Option Json := F.json e.record

def OfRun (F : RunFormats S) (sink : ObjectStoreEventSink) (name : String) (e : Emission W C) :
    Prop :=
  (e.image F).isSome = true ∧ e.sink = sink ∧ e.handle.name = name

instance (F : RunFormats S) (sink : ObjectStoreEventSink) (name : String) (e : Emission W C) :
    Decidable (e.OfRun F sink name) := by
  unfold OfRun
  infer_instance

end Emission

def emitAll (F : RunFormats S) (calls : List (Emission W C)) (w : BlobStore C S) :
    BlobStore C S :=
  calls.foldl (Emission.exec F) w

theorem objectSink_emit [RunNamed C] (o : ObjectStoreRunRegistry) (F : RunFormats S)
    (h : RunHandle C) (record : Value) (tick : Int64) (uuid : BitVec 128) (w : BlobStore C S) :
    (objectSink o F fun _ => blobKey tick uuid).emit h record w =
      (⟨o.base⟩ : ObjectStoreEventSink).emit F h record tick uuid w := by
  have hkey : o.key h.name ("events/" ++ blobKey tick uuid ++ ".json") =
      o.base ++ "/" ++ h.name ++ "/events/" ++ blobKey tick uuid ++ ".json" := by
    simp [ObjectStoreRunRegistry.key, ← String.toList_inj, List.append_assoc]
  simp only [objectSink, hkey]
  rfl

theorem length_tickText (t : Int64) : (zeroPadded 20 t.toInt).length = 20 := by
  have hlt := t.toInt_lt
  have hle := t.le_toInt
  exact length_zeroPadded (w := 18) (by omega)

theorem length_uuidText (u : BitVec 128) : (padded 16 32 u.toNat).length = 32 :=
  length_padded (b := 16) (w := 31) (by decide) u.isLt

theorem uuidText_inj {u v : BitVec 128} :
    padded 16 32 u.toNat = padded 16 32 v.toNat ↔ u = v := by
  rw [padded_inj (b := 16) (w := 31) (by decide) (by decide) u.isLt v.isLt,
    BitVec.toNat_inj]

theorem uuidText_lt_iff {u v : BitVec 128} :
    padded 16 32 u.toNat < padded 16 32 v.toNat ↔ u < v := by
  rw [padded_lt_iff (b := 16) (w := 31) (by decide) (by decide) u.isLt v.isLt,
    BitVec.lt_def]

theorem tickText_lt_iff {s t : Int64} (hle : s ≤ t) :
    zeroPadded 20 s.toInt < zeroPadded 20 t.toInt ↔ s < t ∧ 0 ≤ t := by
  have hs := s.toInt_lt
  have hs' := s.le_toInt
  have ht := t.toInt_lt
  have ht' := t.le_toInt
  rw [zeroPadded_lt_iff (w := 18) (by omega) (by omega) (Int64.le_iff_toInt_le.mp hle),
    Int64.lt_iff_toInt_lt, Int64.le_iff_toInt_le, Int64.toInt_zero]

theorem tickText_inj {s t : Int64} :
    zeroPadded 20 s.toInt = zeroPadded 20 t.toInt ↔ s = t := by
  have hs := s.toInt_lt
  have hs' := s.le_toInt
  have ht := t.toInt_lt
  have ht' := t.le_toInt
  rw [zeroPadded_inj (w := 18) (by omega) (by omega), Int64.toInt_inj]

namespace Emission

variable {F : RunFormats S} {sink : ObjectStoreEventSink} {name : String} {a b e : Emission W C}

theorem key_toList (e : Emission W C) : e.key.toList =
    (e.sink.place e.handle.name ++ "/events/").toList ++ (zeroPadded 20 e.tick.toInt ++
      '-' :: (padded 16 32 e.uuid.toNat ++ ".json".toList)) := by
  simp [key, blobKey, uuidHex, List.append_assoc]

theorem uuid_of_key (h : a.key = b.key) : a.uuid = b.uuid := by
  have hlist := congrArg String.toList h
  rw [key_toList, key_toList, ← List.append_assoc, ← List.append_assoc] at hlist
  have htail := (List.append_inj' hlist (by simp [length_uuidText])).2
  rw [List.cons.injEq] at htail
  exact uuidText_inj.mp (List.append_inj' htail.2 rfl).1

theorem key_lt_iff (ha : a.OfRun F sink name) (hb : b.OfRun F sink name) (hle : a.tick ≤ b.tick) :
    a.key < b.key ↔ a.tick < b.tick ∧ 0 ≤ b.tick ∨ a.tick = b.tick ∧ a.uuid < b.uuid := by
  rw [String.lt_iff_toList_lt, key_toList, key_toList, ha.2.1, ha.2.2, hb.2.1, hb.2.2,
    append_lt_append_iff rfl, append_lt_append_iff (by simp [length_tickText]),
    List.cons_lt_cons_iff, append_lt_append_iff (by simp [length_uuidText]),
    tickText_lt_iff hle, tickText_inj, uuidText_lt_iff]
  simp

end Emission
end RunFarm
