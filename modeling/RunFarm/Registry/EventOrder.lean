import RunFarm.Registry.EventSink
import RunFarm.Registry.Restart

/-! What `events` reads back of the records that writers put into one store. -/
set_option autoImplicit false

namespace RunFarm
open Files Python

variable {W C S : Type}

/-- The blobs of the run at `q` have keys among those of the run at `p`. -/
def Encloses (p q : String) : Prop :=
  p = q ∨ (p ++ "/events/").toList <+: (q ++ "/").toList

instance (p q : String) : Decidable (Encloses p q) := by
  unfold Encloses
  infer_instance

/-- `read` is what `events` reads: each record of the run once and no other, those of one writer
in the order in which it emitted them. -/
structure ReadsBack [DecidableEq W] (F : RunFormats S) (sink : ObjectStoreEventSink)
    (name : String) (calls : List (Emission W C)) (w : BlobStore C S)
    (read : List (Emission W C)) : Prop where
  once : read.Perm (calls.filter fun e => e.OfRun F sink name)
  ordered : ∀ p : W, (read.filter fun e => e.writer = p) =
    (calls.filter fun e => e.OfRun F sink name).filter fun e => e.writer = p
  keys : sink.eventKeys name w = read.map Emission.key
  rows : (sink.events name w).map some = read.map fun e => (e.image F).map Stored.event

/-- The later of two records has a later tick, not before the epoch, or at one tick the greater
UUID. -/
def Emission.StampedBefore (a b : Emission W C) : Prop :=
  a.tick < b.tick ∧ 0 ≤ b.tick ∨ a.tick = b.tick ∧ a.uuid < b.uuid

instance (a b : Emission W C) : Decidable (a.StampedBefore b) := by
  unfold Emission.StampedBefore
  infer_instance

theorem eq_of_separated {α : Type} {c : α} {l m z : List α} (hl : c ∉ l) (hm : c ∉ m)
    (h : z ++ [c] <+: l ++ c :: m) : z = l := by
  obtain ⟨t, ht⟩ := h
  rw [List.append_assoc, List.singleton_append] at ht
  rcases List.append_eq_append_iff.mp ht with ⟨a, rfl, ha⟩ | ⟨b, rfl, hb⟩
  · cases a with
    | nil => simp
    | cons x a =>
      obtain ⟨rfl, -⟩ := List.cons.inj ha
      exact absurd (by simp) hl
  · cases b with
    | nil => simp
    | cons x b =>
      obtain ⟨rfl, rfl⟩ := List.cons.inj hb
      exact absurd (by simp) hm

theorem slash_not_mem_padded {b w n : Nat} (hb : 1 < b) (hb' : b ≤ 16)
    (hn : n < b ^ (w + 1)) : '/' ∉ padded b (w + 1) n := by
  intro h
  obtain ⟨d, hd, heq⟩ := mem_padded hb hn h
  have hno : ∀ i : Fin 16, '/' ≠ i.val.digitChar := by decide
  exact hno ⟨d, by omega⟩ heq

namespace Emission

theorem slash_not_mem_stem (e : Emission W C) :
    '/' ∉ zeroPadded 20 e.tick.toInt ++ '-' :: (padded 16 32 e.uuid.toNat ++ ".json".toList) := by
  have hlt := e.tick.toInt_lt
  have hle := e.tick.le_toInt
  have htick : '/' ∉ zeroPadded 20 e.tick.toInt := by
    unfold zeroPadded
    split
    · exact slash_not_mem_padded (w := 19) (by decide) (by decide) (by omega)
    · rw [List.mem_cons, not_or]
      exact ⟨by decide, slash_not_mem_padded (w := 18) (by decide) (by decide) (by omega)⟩
  have huuid : '/' ∉ padded 16 32 e.uuid.toNat :=
    slash_not_mem_padded (w := 31) (by decide) (by decide) e.uuid.isLt
  simp [htick, huuid]

theorem listed_iff {sink : ObjectStoreEventSink} {name : String} {e : Emission W C} :
    (sink.place name ++ "/events/").toList <+: e.key.toList ↔
      Encloses (sink.place name) (e.sink.place e.handle.name) := by
  generalize hp : sink.place name = p
  have hkey : e.key.toList = (e.sink.place e.handle.name ++ "/").toList ++
      ("events".toList ++ '/' :: (zeroPadded 20 e.tick.toInt ++
        '-' :: (padded 16 32 e.uuid.toNat ++ ".json".toList))) := by
    simp [key_toList]
  generalize e.sink.place e.handle.name = q at hkey
  rw [hkey]
  constructor
  · intro h
    rcases List.prefix_or_prefix_of_prefix h (List.prefix_append _ _) with hin | ⟨z, hz⟩
    · exact .inr hin
    · rcases List.eq_nil_or_concat' z with rfl | ⟨z, c, rfl⟩
      · exact .inr ⟨[], by simpa using hz.symm⟩
      · have hlast : c = '/' := by simpa using congrArg (fun l => l.reverse.head?) hz
        subst hlast
        rw [← hz, List.prefix_append_right_inj] at h
        obtain rfl := eq_of_separated (by decide) e.slash_not_mem_stem h
        refine .inl ?_
        rw [← String.toList_inj]
        simpa using hz.symm
  · rintro (rfl | hin)
    · exact ⟨zeroPadded 20 e.tick.toInt ++ '-' :: (padded 16 32 e.uuid.toNat ++ ".json".toList),
        by simp⟩
    · exact hin.trans (List.prefix_append _ _)

end Emission

variable {F : RunFormats S} {sink : ObjectStoreEventSink} {name : String}
  {calls : List (Emission W C)} {w : BlobStore C S}

theorem exec_get (e : Emission W C) (w : BlobStore C S) (k : String) :
    (e.exec F w).get k =
      if k = e.key ∧ (e.image F).isSome then (e.image F).map .event else w.get k := by
  unfold Emission.exec ObjectStoreEventSink.emit Emission.image
  cases F.json e.record with
  | none => simp
  | some j =>
    rw [Dict.get_set]
    simp [Emission.key]

theorem emitAll_get (hkeys : calls.Pairwise fun a b => a.uuid ≠ b.uuid) (k : String) :
    (∀ e ∈ calls, e.key = k → (e.image F).isSome →
      (emitAll F calls w).get k = (e.image F).map .event) ∧
    ((∀ e ∈ calls, e.key = k → (e.image F).isSome = false) →
      (emitAll F calls w).get k = w.get k) := by
  induction calls generalizing w with
  | nil => simp [emitAll]
  | cons c calls ih =>
    rw [List.pairwise_cons] at hkeys
    have hstep : emitAll F (c :: calls) w = emitAll F calls (c.exec F w) := rfl
    rw [hstep]
    obtain ⟨hin, hout⟩ := ih (w := c.exec F w) hkeys.2
    refine ⟨fun e he hk hsome => ?_, fun hno => ?_⟩
    · rcases List.mem_cons.mp he with rfl | he
      · have hother : ∀ e' ∈ calls, e'.key = k → (e'.image F).isSome = false := by
          intro e' he' hk'
          exact absurd (Emission.uuid_of_key (hk.trans hk'.symm)) (hkeys.1 e' he')
        rw [hout hother, exec_get, if_pos ⟨hk.symm, hsome⟩]
      · exact hin e he hk hsome
    · rw [hout fun e he => hno e (List.mem_cons_of_mem _ he), exec_get, if_neg]
      rintro ⟨rfl, hsome⟩
      rw [hno c List.mem_cons_self rfl] at hsome
      cases hsome

theorem mem_eventKeys {k : String} : k ∈ sink.eventKeys name w ↔
    (w.get k).isSome ∧ (sink.place name ++ "/events/").toList <+: k.toList := by
  rw [ObjectStoreEventSink.eventKeys, (List.mergeSort_perm _ _).mem_iff, List.mem_filter,
    Dict.isSome_get]
  simp

theorem nodup_eventKeys : (sink.eventKeys name w).Nodup :=
  (List.mergeSort_perm _ _).nodup_iff.mpr (w.nodup.filter _)

theorem sorted_eventKeys : (sink.eventKeys name w).Pairwise (· ≤ ·) := by
  have hsorted := @List.pairwise_mergeSort String (fun a b => decide (a ≤ b))
    (by simpa using fun _ _ _ => le_trans) (by simpa using le_total)
    ((w.items.map Prod.fst).filter fun k =>
      (sink.place name ++ "/events/").toList.isPrefixOf k.toList)
  exact hsorted.imp fun h => by simpa using h

theorem mem_eventKeys_emitAll (huuid : calls.Pairwise fun a b => a.uuid ≠ b.uuid)
    (hnew : sink.eventKeys name w = []) {k : String} :
    k ∈ sink.eventKeys name (emitAll F calls w) ↔ ∃ e ∈ calls, e.key = k ∧
      (e.image F).isSome ∧ Encloses (sink.place name) (e.sink.place e.handle.name) := by
  rw [mem_eventKeys]
  constructor
  · rintro ⟨hsome, hunder⟩
    by_cases hput : ∃ e ∈ calls, e.key = k ∧ (e.image F).isSome
    · obtain ⟨e, he, rfl, himage⟩ := hput
      exact ⟨e, he, rfl, himage, Emission.listed_iff.mp hunder⟩
    · have hno : ∀ e ∈ calls, e.key = k → (e.image F).isSome = false := fun e he hk =>
        Bool.eq_false_iff.mpr fun h => hput ⟨e, he, hk, h⟩
      rw [(emitAll_get huuid k).2 hno] at hsome
      have hold : k ∈ sink.eventKeys name w := mem_eventKeys.mpr ⟨hsome, hunder⟩
      rw [hnew] at hold
      cases hold
  · rintro ⟨e, he, rfl, himage, hplace⟩
    refine ⟨?_, Emission.listed_iff.mpr hplace⟩
    rw [(emitAll_get huuid e.key).1 e he rfl himage, Option.isSome_map]
    exact himage

theorem eq_of_uuid (huuid : calls.Pairwise fun a b => a.uuid ≠ b.uuid) {a b : Emission W C}
    (ha : a ∈ calls) (hb : b ∈ calls) (h : a.uuid = b.uuid) : a = b := by
  have hnodup : (calls.map Emission.uuid).Nodup := List.pairwise_map.mpr huuid
  exact List.inj_on_of_nodup_map hnodup ha hb h

variable [DecidableEq W]

theorem ReadsBack.sublist {read : List (Emission W C)} (h : ReadsBack F sink name calls w read)
    {a b : Emission W C} (hab : [a, b].Sublist calls) (ha : a.OfRun F sink name)
    (hb : b.OfRun F sink name) (hwriter : a.writer = b.writer) : [a, b].Sublist read := by
  have hmine : [a, b].Sublist (calls.filter fun e => e.OfRun F sink name) := by
    have := hab.filter fun e => decide (e.OfRun F sink name)
    simpa [ha, hb] using this
  have hown := hmine.filter fun e => decide (e.writer = a.writer)
  rw [← h.ordered] at hown
  simp only [hwriter, decide_true, List.filter_cons_of_pos, List.filter_nil] at hown
  exact hown.trans List.filter_sublist

theorem ReadsBack.stamped {read : List (Emission W C)}
    (huuid : calls.Pairwise fun a b => a.uuid ≠ b.uuid)
    (hclock : calls.Pairwise fun a b => a.writer = b.writer → a.tick ≤ b.tick)
    (h : ReadsBack F sink name calls w read) :
    calls.Pairwise fun a b => a.OfRun F sink name → b.OfRun F sink name →
      a.writer = b.writer → a.StampedBefore b := by
  rw [List.pairwise_iff_forall_sublist] at huuid hclock ⊢
  intro a b hab ha hb hwriter
  have hsorted : ([a, b].map Emission.key).Pairwise (· ≤ ·) := by
    have hread := (h.sublist hab ha hb hwriter).map Emission.key
    rw [← h.keys] at hread
    exact sorted_eventKeys.sublist hread
  have hle : a.key ≤ b.key := by simpa using hsorted
  have hne : a.key ≠ b.key := fun heq => huuid hab (Emission.uuid_of_key heq)
  exact (Emission.key_lt_iff ha hb (hclock hab hwriter)).mp (lt_of_le_of_ne hle hne)

theorem ReadsBack.apart {read : List (Emission W C)}
    (huuid : calls.Pairwise fun a b => a.uuid ≠ b.uuid) (hnew : sink.eventKeys name w = [])
    (h : ReadsBack F sink name calls (emitAll F calls w) read) {e : Emission W C}
    (he : e ∈ calls) (himage : (e.image F).isSome)
    (hplace : Encloses (sink.place name) (e.sink.place e.handle.name)) :
    e.OfRun F sink name := by
  have hkey : e.key ∈ sink.eventKeys name (emitAll F calls w) :=
    (mem_eventKeys_emitAll huuid hnew).mpr ⟨e, he, rfl, himage, hplace⟩
  rw [h.keys, List.mem_map] at hkey
  obtain ⟨e', he', hkey⟩ := hkey
  have hmine := h.once.mem_iff.mp he'
  rw [List.mem_filter, decide_eq_true_eq] at hmine
  obtain rfl := eq_of_uuid huuid hmine.1 he (Emission.uuid_of_key hkey)
  exact hmine.2

def byKey (F : RunFormats S) (sink : ObjectStoreEventSink) (name : String)
    (calls : List (Emission W C)) : List (Emission W C) :=
  (calls.filter fun e => e.OfRun F sink name).mergeSort fun a b => decide (a.key ≤ b.key)

omit [DecidableEq W] in
theorem byKey_perm :
    (byKey F sink name calls).Perm (calls.filter fun e => e.OfRun F sink name) :=
  List.mergeSort_perm _ _

omit [DecidableEq W] in
theorem byKey_sorted : (byKey F sink name calls).Pairwise fun a b => a.key ≤ b.key := by
  have hsorted := @List.pairwise_mergeSort (Emission W C) (fun a b => decide (a.key ≤ b.key))
    (by simpa using fun _ _ _ => le_trans) (by simpa using fun _ _ => le_total _ _)
    (calls.filter fun e => e.OfRun F sink name)
  exact hsorted.imp fun h => by simpa using h

theorem byKey_ordered (huuid : calls.Pairwise fun a b => a.uuid ≠ b.uuid)
    (hclock : calls.Pairwise fun a b => a.writer = b.writer → a.tick ≤ b.tick)
    (hstamped : calls.Pairwise fun a b => a.OfRun F sink name → b.OfRun F sink name →
      a.writer = b.writer → a.StampedBefore b) (p : W) :
    ((byKey F sink name calls).filter fun e => e.writer = p) =
      (calls.filter fun e => e.OfRun F sink name).filter fun e => e.writer = p := by
  refine @List.Perm.eq_of_pairwise (Emission W C) (fun a b => a.key ≤ b.key) _ _
    (fun a b ha hb hab hba => ?_) (byKey_sorted.filter _) ?_ (byKey_perm.filter _)
  · have ha := byKey_perm.mem_iff.mp (List.mem_of_mem_filter ha)
    have hb := List.mem_of_mem_filter hb
    exact eq_of_uuid huuid (List.mem_of_mem_filter ha) (List.mem_of_mem_filter hb)
      (Emission.uuid_of_key (le_antisymm hab hba))
  · rw [List.pairwise_filter, List.pairwise_filter]
    refine (hclock.and hstamped).imp fun {a b} h ha hb hpa hpb => ?_
    rw [decide_eq_true_eq] at ha hb hpa hpb
    have hwriter : a.writer = b.writer := hpa.trans hpb.symm
    exact ((Emission.key_lt_iff ha hb (h.1 hwriter)).mpr (h.2 ha hb hwriter)).le

omit [DecidableEq W] in
theorem eventKeys_byKey (huuid : calls.Pairwise fun a b => a.uuid ≠ b.uuid)
    (hnew : sink.eventKeys name w = [])
    (happart : ∀ e ∈ calls, (e.image F).isSome →
      Encloses (sink.place name) (e.sink.place e.handle.name) → e.OfRun F sink name) :
    sink.eventKeys name (emitAll F calls w) = (byKey F sink name calls).map Emission.key := by
  refine @List.Perm.eq_of_pairwise String (fun a b => a ≤ b) _ _
    (fun a b _ _ => le_antisymm) sorted_eventKeys (List.pairwise_map.mpr byKey_sorted) ?_
  have hnodup : ((byKey F sink name calls).map Emission.key).Nodup := by
    rw [(byKey_perm.map Emission.key).nodup_iff]
    exact List.pairwise_map.mpr
      ((huuid.filter _).imp fun hne heq => hne (Emission.uuid_of_key heq))
  rw [List.perm_ext_iff_of_nodup nodup_eventKeys hnodup]
  intro k
  rw [mem_eventKeys_emitAll huuid hnew, List.mem_map]
  constructor
  · rintro ⟨e, he, hk, himage, hplace⟩
    refine ⟨e, byKey_perm.mem_iff.mpr ?_, hk⟩
    rw [List.mem_filter, decide_eq_true_eq]
    exact ⟨he, happart e he himage hplace⟩
  · rintro ⟨e, he, hk⟩
    have hmine := byKey_perm.mem_iff.mp he
    rw [List.mem_filter, decide_eq_true_eq] at hmine
    obtain ⟨hmem, himage, rfl, rfl⟩ := hmine
    exact ⟨e, hmem, hk, himage, .inl rfl⟩

theorem map_some_filterMap {α β : Type} {f : α → Option β} {l : List α}
    (h : ∀ a ∈ l, (f a).isSome) : (l.filterMap f).map some = l.map f := by
  induction l with
  | nil => rfl
  | cons a l ih =>
    obtain ⟨b, hb⟩ := Option.isSome_iff_exists.mp (h a List.mem_cons_self)
    rw [List.filterMap_cons_some hb, List.map_cons, List.map_cons, hb,
      ih fun a ha => h a (List.mem_cons_of_mem _ ha)]

omit [DecidableEq W] in
theorem events_byKey (huuid : calls.Pairwise fun a b => a.uuid ≠ b.uuid)
    (hkeys : sink.eventKeys name (emitAll F calls w) =
      (byKey F sink name calls).map Emission.key) :
    (sink.events name (emitAll F calls w)).map some =
      (byKey F sink name calls).map fun e => (e.image F).map Stored.event := by
  have hget : ∀ e ∈ byKey F sink name calls,
      (emitAll F calls w).get e.key = (e.image F).map .event ∧ (e.image F).isSome := by
    intro e he
    have hmine := byKey_perm.mem_iff.mp he
    rw [List.mem_filter, decide_eq_true_eq] at hmine
    exact ⟨(emitAll_get huuid e.key).1 e hmine.1 rfl hmine.2.1, hmine.2.1⟩
  rw [ObjectStoreEventSink.events, hkeys, List.filterMap_map, map_some_filterMap]
  · exact List.map_congr_left fun e he => (hget e he).1
  · intro e he
    rw [Function.comp_apply, (hget e he).1, Option.isSome_map]
    exact (hget e he).2

/-- Whatever the order of the puts, a run reads back right just where no other run that is emitted
for lies at the same place or beneath its events, and of any two of its records that one writer
emits the later has the later stamp. -/
theorem events_read_back_iff (F : RunFormats S) (sink : ObjectStoreEventSink) (name : String)
    (calls : List (Emission W C)) (w : BlobStore C S)
    (huuid : calls.Pairwise fun a b => a.uuid ≠ b.uuid)
    (hclock : calls.Pairwise fun a b => a.writer = b.writer → a.tick ≤ b.tick)
    (hnew : sink.eventKeys name w = []) :
    (∃ read, ReadsBack F sink name calls (emitAll F calls w) read) ↔
      (∀ e ∈ calls, (e.image F).isSome → ¬ (e.sink = sink ∧ e.handle.name = name) →
        ¬ Encloses (sink.place name) (e.sink.place e.handle.name)) ∧
      calls.Pairwise fun a b => a.OfRun F sink name → b.OfRun F sink name →
        a.writer = b.writer → a.StampedBefore b := by
  constructor
  · rintro ⟨read, h⟩
    exact ⟨fun e he himage hother hplace => hother (h.apart huuid hnew he himage hplace).2,
      h.stamped huuid hclock⟩
  · rintro ⟨happart, hstamped⟩
    have hkeys := eventKeys_byKey (F := F) huuid hnew fun e he himage hplace =>
      ⟨himage, by_contra fun hother => happart e he himage hother hplace⟩
    exact ⟨byKey F sink name calls, byKey_perm, byKey_ordered huuid hclock hstamped, hkeys,
      events_byKey huuid hkeys⟩

def sampleEmission (step tick : Nat) (uuid : BitVec 128) : Emission Unit SampleConfig where
  writer := ()
  sink := ⟨"runs"⟩
  handle := (plainObjects "runs").handle ⟨"a"⟩
  record := .dict [(.str "step", .int step)]
  tick := .ofNat tick
  uuid := uuid

theorem read_back_in_two_ticks : ∃ read, ReadsBack (countFormats true) ⟨"runs"⟩ "a"
    [sampleEmission 0 5 1, sampleEmission 10 6 0]
    (emitAll (countFormats true) [sampleEmission 0 5 1, sampleEmission 10 6 0] Dict.empty)
    read := by
  have hnone : (⟨"runs"⟩ : ObjectStoreEventSink).eventKeys "a"
      (Dict.empty : BlobStore SampleConfig CountArray) = [] := by
    simp [ObjectStoreEventSink.eventKeys, Dict.empty]
  have huuid : [sampleEmission 0 5 1, sampleEmission 10 6 0].Pairwise
      fun a b => a.uuid ≠ b.uuid := by simp [sampleEmission]
  have hclock : [sampleEmission 0 5 1, sampleEmission 10 6 0].Pairwise
      fun a b => a.writer = b.writer → a.tick ≤ b.tick := by
    simp only [List.pairwise_cons, List.mem_singleton, forall_eq]
    decide
  refine (events_read_back_iff (countFormats true) ⟨"runs"⟩ "a" _ Dict.empty huuid hclock hnone).mpr
    ⟨?_, ?_⟩
  · intro e he _ hother
    have hown : e.sink = ⟨"runs"⟩ ∧ e.handle.name = "a" := by
      rcases List.mem_pair.mp he with rfl | rfl <;> exact ⟨rfl, rfl⟩
    exact absurd hown hother
  · rw [List.pairwise_pair]
    intro _ _ _
    decide

theorem same_tick_swapped : ¬ ∀ calls : List (Emission Unit SampleConfig),
    (calls.Pairwise fun a b => a.uuid ≠ b.uuid) →
    (calls.Pairwise fun a b => a.writer = b.writer → a.tick ≤ b.tick) →
    ∃ read, ReadsBack (countFormats true) ⟨"runs"⟩ "a" calls
      (emitAll (countFormats true) calls Dict.empty) read := by
  intro h
  have huuid : [sampleEmission 0 5 1, sampleEmission 10 5 0].Pairwise
      fun a b => a.uuid ≠ b.uuid := by simp [sampleEmission]
  have hclock : [sampleEmission 0 5 1, sampleEmission 10 5 0].Pairwise
      fun a b => a.writer = b.writer → a.tick ≤ b.tick := by simp [sampleEmission]
  obtain ⟨read, hread⟩ := h _ huuid hclock
  have hstamped := hread.stamped huuid hclock
  rw [List.pairwise_cons] at hstamped
  have hof : ∀ step tick uuid,
      (sampleEmission step tick uuid).OfRun (countFormats true) ⟨"runs"⟩ "a" :=
    fun _ _ _ => ⟨rfl, rfl, rfl⟩
  have hbefore := hstamped.1 _ List.mem_cons_self (hof _ _ _) (hof _ _ _) rfl
  revert hbefore
  decide

end RunFarm
