import RunFarm.ReapCall
import RunFarm.Transition

/-! Reap runs one after the other on one ledger, with rows of the drivers in between and in the
middle of them. -/
set_option autoImplicit false

namespace RunFarm
open Python (Dict)
open Relation (ReflTransGen)

inductive ReapStage where
  | idle
  | swept (live : List Instance) (killed : List String) (now : ℚ)
  | rentsRead (live : List Instance) (killed : List String) (now : ℚ) (rents : Dict String Row)
  | closing (todo : List Row)

/-- `written` are the rows that reap runs appended; no step reads it. -/
structure LedgerFile where
  rows : List Row
  run : ReapStage := .idle
  written : List Row := []

/-- A run reads its suspects and destroys, reads the `rented` rows, reads what is still open, and
writes its rows one by one. -/
inductive LedgerMove : LedgerFile → LedgerFile → Prop
  | swept (f : LedgerFile) (c : ReapCall) (s : Sweep) (run : f.run = .idle)
      (sweep : (c.swept f.rows).1 = .ok s) :
      LedgerMove f { f with run := .swept s.live s.outcomes.killed (c.now f.rows) }
  | rentsRead (f : LedgerFile) (live : List Instance) (killed : List String) (now : ℚ)
      (run : f.run = .swept live killed now) :
      LedgerMove f { f with run := .rentsRead live killed now (rentRows f.rows) }
  | openRead (f : LedgerFile) (live : List Instance) (killed : List String) (now : ℚ)
      (rents : Dict String Row) (run : f.run = .rentsRead live killed now rents) :
      LedgerMove f { f with
        run := .closing (closingRows killed
          (vanishedAmong (leakedIds f.rows) rents live killed now) rents now) }
  | recorded (f : LedgerFile) (now : ℚ) (row : Row) (todo : List Row)
      (run : f.run = .closing (row :: todo)) :
      LedgerMove f {
        rows := record now row f.rows
        run := .closing todo
        written := f.written ++ [row.stamp now] }
  -- it returned, or it was interrupted
  | ended (f : LedgerFile) : LedgerMove f { f with run := .idle }
  | logged (f : LedgerFile) (now : ℚ) (e : Row) :
      LedgerMove f { f with rows := record now e f.rows }

def Row.idStr (e : Row) : Option String := e.instanceId.map InstanceId.str

def Taken (start : List Row) (f : LedgerFile) (iid : String) : Prop :=
  (∃ e ∈ f.written, e.idStr = some iid) ∨ ∃ r ∈ start, confirmedGoneId r = some iid

/-- What a run is going to close has not been closed yet, and is closed once. -/
def ReapStage.Sound (taken : String → Prop) : ReapStage → Prop
  | .idle => True
  | .swept _ killed _ => ∀ iid ∈ killed, ¬ taken iid
  | .rentsRead _ killed _ rents => (∀ iid ∈ killed, ¬ taken iid) ∧ ∃ rows, rents = rentRows rows
  | .closing todo => (todo.map Row.idStr).Nodup ∧ ∀ row ∈ todo, row.event = .destroyed ∧
      row.verify = some .gone ∧ row.reconciled = some true ∧
      ∃ iid, row.idStr = some iid ∧ ¬ taken iid

structure ClosedOnce (start : List Row) (f : LedgerFile) : Prop where
  kept : ∀ e ∈ start, e ∈ f.rows
  written : ∀ e ∈ f.written, e ∈ f.rows ∧ e.event = .destroyed ∧ e.reconciled = some true ∧
    ∃ iid, e.idStr = some iid ∧ confirmedGoneId e = some iid ∧
      ∀ r ∈ start, confirmedGoneId r ≠ some iid
  once : (f.written.map Row.idStr).Nodup
  sound : f.run.Sound (Taken start f)

variable {start : List Row} {f g : LedgerFile}

theorem ClosedOnce.leaked (h : ClosedOnce start f) {iid : String} (hleak : iid ∈ leakedIds f.rows) :
    ¬ Taken start f iid := by
  have hopen := (mem_leakedIds.mp hleak).2
  rintro (⟨e, he, hid⟩ | ⟨r, hr, hgone⟩)
  · obtain ⟨hrow, -, -, iid', hid', hgone, -⟩ := h.written e he
    rw [hid] at hid'
    cases hid'
    exact hopen e hrow hgone
  · exact hopen r (h.kept r hr) hgone

theorem closingRows_ids {killed vanished : List String} (rows : List Row) (now : ℚ)
    (hdisjoint : ∀ iid ∈ vanished, iid ∉ killed) :
    ((closingRows killed vanished (rentRows rows) now).map Row.idStr).Nodup ∧
    ∀ row ∈ closingRows killed vanished (rentRows rows) now, row.event = .destroyed ∧
      row.verify = some .gone ∧ row.reconciled = some true ∧
      ∃ iid, row.idStr = some iid ∧ (iid ∈ killed ∨ iid ∈ vanished) := by
  have hids : (closingRows killed vanished (rentRows rows) now).map Row.idStr =
      (sorted killed ++ sorted vanished).map some := by
    rw [closingRows, List.map_map]
    exact List.map_congr_left fun iid _ => closeRow_names rows iid (iid ∈ killed) now
  constructor
  · have hnodup : (sorted killed ++ sorted vanished).Nodup := by
      refine List.nodup_append.mpr ⟨sorted_nodup _, sorted_nodup _, fun a ha b hb heq => ?_⟩
      subst heq
      exact hdisjoint a (mem_sorted.mp hb) (mem_sorted.mp ha)
    rw [hids]
    exact hnodup.map (Option.some_injective _)
  · intro row hrow
    obtain ⟨iid, hiid, rfl⟩ := List.mem_map.mp hrow
    refine ⟨rfl, rfl, rfl, iid, closeRow_names rows iid _ now, ?_⟩
    simpa using hiid

theorem ClosedOnce.move (h : ClosedOnce start f) (hm : LedgerMove f g) : ClosedOnce start g := by
  have hsound := h.sound
  cases hm with
  | swept c s hrun hsweep =>
    refine ⟨h.kept, h.written, h.once, fun iid hiid => h.leaked ?_⟩
    refine ReapCall.killed_leaked (c := c) ?_
    simpa [ReapCall.killed, hsweep] using hiid
  | rentsRead live killed now hrun =>
    rw [hrun] at hsound
    exact ⟨h.kept, h.written, h.once, hsound, f.rows, rfl⟩
  | openRead live killed now rents hrun =>
    rw [hrun] at hsound
    obtain ⟨hkilled, rows, rfl⟩ := hsound
    have hvanished : ∀ iid ∈ vanishedAmong (leakedIds f.rows) (rentRows rows) live killed now,
        iid ∈ leakedIds f.rows ∧ iid ∉ killed := by
      intro iid hiid
      simp only [vanishedAmong, List.mem_filter, decide_eq_true_eq] at hiid
      exact ⟨hiid.1, hiid.2.2.1⟩
    obtain ⟨hnodup, hall⟩ := closingRows_ids rows now fun iid hiid => (hvanished iid hiid).2
    refine ⟨h.kept, h.written, h.once, hnodup, fun row hrow => ?_⟩
    obtain ⟨hev, hgone, hrec, iid, hid, hin⟩ := hall row hrow
    refine ⟨hev, hgone, hrec, iid, hid, ?_⟩
    rcases hin with hin | hin
    · exact hkilled iid hin
    · exact h.leaked (hvanished iid hin).1
  | recorded now row todo hrun =>
    rw [hrun] at hsound
    obtain ⟨hnodup, hall⟩ := hsound
    rw [List.map_cons, List.nodup_cons] at hnodup
    obtain ⟨hev, hgone, hrec, iid, hid, hfree⟩ := hall row (.head _)
    have hkeep : ∀ e ∈ f.rows, e ∈ record now row f.rows := fun e he => List.mem_append_left _ he
    refine ⟨fun e he => hkeep e (h.kept e he), fun e he => ?_, ?_, hnodup.2, fun e he => ?_⟩
    · rcases List.mem_append.mp he with he | he
      · exact ⟨hkeep e (h.written e he).1, (h.written e he).2⟩
      · cases List.mem_singleton.mp he
        refine ⟨by simp [record], hev, hrec, iid, hid, ?_, fun r hr hgone' => ?_⟩
        · exact (confirmedGoneId_of hev hgone).trans hid
        · exact hfree (.inr ⟨r, hr, hgone'⟩)
    · rw [List.map_append, List.nodup_append]
      refine ⟨h.once, List.nodup_singleton _, fun a ha b hb heq => ?_⟩
      cases List.mem_singleton.mp hb
      obtain ⟨e, he, rfl⟩ := List.mem_map.mp ha
      exact hfree (.inl ⟨e, he, heq.trans hid⟩)
    · obtain ⟨hev', hgone', hrec', iid', hid', hfree'⟩ := hall e (.tail _ he)
      refine ⟨hev', hgone', hrec', iid', hid', ?_⟩
      -- the row that is written now has another id than those that follow
      rintro (⟨e', he', hsame⟩ | hbefore)
      · rcases List.mem_append.mp he' with he' | he'
        · exact hfree' (.inl ⟨e', he', hsame⟩)
        · cases List.mem_singleton.mp he'
          refine hnodup.1 (List.mem_map.mpr ⟨e, he, ?_⟩)
          rw [hid']
          exact hsame.symm
      · exact hfree' (.inr hbefore)
  | ended => exact ⟨h.kept, h.written, h.once, trivial⟩
  | logged now e =>
    have hkeep : ∀ e' ∈ f.rows, e' ∈ record now e f.rows := fun e' he => List.mem_append_left _ he
    exact ⟨fun e' he => hkeep e' (h.kept e' he),
      fun e' he => ⟨hkeep e' (h.written e' he).1, (h.written e' he).2⟩, h.once, hsound⟩

theorem ClosedOnce.init (start : List Row) : ClosedOnce start { rows := start } :=
  ⟨fun _ he => he, by simp, List.nodup_nil, trivial⟩

theorem writing_moves {todo out : List Row} (h : List.Forall₂ Stamps todo out)
    (rows written : List Row) :
    ReflTransGen LedgerMove { rows := rows, run := .closing todo, written := written }
      { rows := rows ++ out, run := .closing [], written := written ++ out } := by
  induction h generalizing rows written with
  | nil => simpa using ReflTransGen.refl
  | @cons row _ todo out hs _ ih =>
    obtain ⟨now, rfl⟩ := hs
    have hrest := ih (record now row rows) (written ++ [row.stamp now])
    rw [record, List.append_assoc, List.append_assoc] at hrest
    exact .head (.recorded _ now _ _ rfl) hrest

theorem reapCall_moves (c : ReapCall) (rows written : List Row) :
    ReflTransGen LedgerMove { rows := rows, written := written }
      { rows := c.file rows, written := written ++ c.wrote rows } := by
  obtain ⟨hstamps, hfile⟩ := c.wrote_stamps rows
  cases hs : (c.swept rows).1 with
  | error e =>
    have hnone : c.closing rows = [] := by
      simp [ReapCall.closing, ReapCall.killed, ReapCall.vanished, hs, closingRows, sorted]
    rw [hnone] at hstamps
    rw [hfile, List.forall₂_nil_left_iff.mp hstamps, List.append_nil, List.append_nil]
  | ok s =>
    have hclosing : c.closing rows = closingRows s.outcomes.killed
        (vanishedAmong (leakedIds rows) (rentRows rows) s.live s.outcomes.killed (c.now rows))
        (rentRows rows) (c.now rows) := by
      simp [ReapCall.closing, ReapCall.killed, ReapCall.vanished, hs, vanishedIds]
    rw [hclosing] at hstamps
    rw [hfile]
    refine .head (.swept _ c s rfl hs) (.head (.rentsRead _ _ _ _ rfl) (.head
      (.openRead _ _ _ _ _ rfl) (.trans (writing_moves hstamps rows written) (.single ?_))))
    exact .ended _

theorem file_unchanged_iff (c : ReapCall) (rows : List Row) :
    c.file rows = rows ↔ ∀ iid, ¬ c.Cleared rows iid ∧ ¬ c.Overlooks rows iid := by
  rw [(c.wrote_stamps rows).2, List.append_right_eq_self]
  constructor
  · intro hnone iid
    have hopen : ¬ Closes (c.wrote rows) iid := by
      rw [hnone]
      rintro ⟨e, he, -⟩
      cases he
    rwa [c.wrote_closes, not_or] at hopen
  · intro h
    refine List.eq_nil_iff_forall_not_mem.mpr fun e he => ?_
    obtain ⟨q, hq, now, rfl⟩ := stamps_mem (c.wrote_stamps rows).1 he
    obtain ⟨iid, _, rfl⟩ := List.mem_map.mp hq
    have hclosed : Closes (c.wrote rows) iid :=
      ⟨_, he, rfl, closeRow_names rows iid (iid ∈ c.killed rows) (c.now rows)⟩
    rw [c.wrote_closes] at hclosed
    exact hclosed.elim (h iid).1 (h iid).2

/-- Over any history of reap runs and of rows that drivers append, also in the middle of a run, an
id is closed by one row at most, and never where it was closed before. -/
theorem closing_idempotent :
    (∀ rows f, ReflTransGen LedgerMove { rows := rows } f →
      (f.written.map Row.idStr).Nodup ∧ ∀ e ∈ f.written, e ∈ f.rows ∧ e.event = .destroyed ∧
        e.reconciled = some true ∧ ∃ iid, e.idStr = some iid ∧
          ∀ r ∈ rows, confirmedGoneId r ≠ some iid) ∧
    ∀ (c : ReapCall) rows, (∀ written, ReflTransGen LedgerMove
        { rows := rows, written := written }
        { rows := c.file rows, written := written ++ c.wrote rows }) ∧
      (c.file rows = rows ↔ ∀ iid, ¬ c.Cleared rows iid ∧ ¬ c.Overlooks rows iid) := by
  refine ⟨fun rows f hrun => ?_, fun c rows =>
    ⟨fun written => reapCall_moves c rows written, file_unchanged_iff c rows⟩⟩
  have honce := Transition.run_keeps (I := ClosedOnce rows) (fun hm h => h.move hm) hrun
    (.init rows)
  refine ⟨honce.once, fun e he => ?_⟩
  obtain ⟨hrow, hev, hrec, iid, hid, -, hfree⟩ := honce.written e he
  exact ⟨hrow, hev, hrec, iid, hid, hfree⟩

end RunFarm
