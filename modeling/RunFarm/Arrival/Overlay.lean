import RunFarm.Arrival.Accounting
import RunFarm.Fleet.Leg

/-! `publish` with both of its trees: what it writes over the destination and what it leaves
of the staging directory. -/
set_option autoImplicit false

namespace RunFarm
open Files Python

variable {α : Type}

def nodeEntry : Node α → Entry α
  | .file c => .file c
  | .dir _ => .dir

def opEntry : Op α → Path × Entry α
  | .mkdir p => (p, .dir)
  | .replace p c => (p, .file c)

def treeEntries (d : Path) : Forest α → List (Path × Entry α)
  | .nil => []
  | .file n c rest => (d ++ [n], .file c) :: treeEntries d rest
  | .dir n kids rest => (d ++ [n], .dir) :: (treeEntries (d ++ [n]) kids ++ treeEntries d rest)

theorem treeEntries_perm (name : String) (d : Path) (f : Forest α) :
    (((entryOps name d f).flatMap Prod.snd).map opEntry).Perm (treeEntries d f) := by
  induction f generalizing d with
  | nil => exact .refl _
  | file n c rest ih =>
    simp only [entryOps, treeEntries, List.flatMap_cons, List.singleton_append, List.map_cons,
      opEntry]
    exact (ih d).cons _
  | dir n kids rest ihk ih =>
    have hkids := (flatMap_lastNamed_perm name (entryOps name (d ++ [n]) kids)).map opEntry
    simp only [entryOps, treeEntries, List.flatMap_cons, List.cons_append, List.map_cons,
      List.map_append, opEntry]
    exact ((hkids.trans (ihk _)).append (ih d)).cons _

theorem opEntry_path (op : Op α) : (opEntry op).1 = op.path := by
  cases op <;> rfl

theorem treeEntries_nodup (d : Path) {f : Forest α} (h : f.WF) :
    ((treeEntries d f).map Prod.fst).Nodup := by
  have hperm := (treeEntries_perm "" d f).map Prod.fst
  rw [List.map_map, show Prod.fst ∘ opEntry = Op.path from funext (opEntry_path (α := α))] at hperm
  exact hperm.nodup_iff.mp (paths_nodup "" d h)

def stagingDisk (staging : DirTree α) : Disk α where
  items := ([], .dir) :: treeEntries [] staging.forest
  nodup := by
    rw [List.map_cons, List.nodup_cons]
    refine ⟨fun hin => ?_, treeEntries_nodup [] staging.wf⟩
    have hperm := (treeEntries_perm "" [] staging.forest).map Prod.fst
    obtain ⟨e, hentry, heq⟩ := List.mem_map.mp (hperm.mem_iff.mpr hin)
    obtain ⟨op, hop, rfl⟩ := List.mem_map.mp hentry
    obtain ⟨s, _, hbelow⟩ := ops_below hop
    rw [opEntry_path] at heq
    exact not_below_self hbelow (heq ▸ List.prefix_rfl)

structure Publishing (α : Type) where
  staging : Disk α
  dest : Disk α

/-- `os.replace` takes from the staging directory whatever is there. -/
def Publishing.move (s : Publishing α) : Op α → Option (Publishing α)
  | .mkdir p => ((Op.mkdir p).exec s.dest).map (fun dest => { s with dest })
  | .replace p _ =>
    match s.staging p with
    | some (.file c) => ((Op.replace p c).exec s.dest).map (fun dest =>
        { staging := s.staging.keep (fun q => q ≠ p), dest })
    | _ => none

def pathRoot (text : String) : List String :=
  match text.toList with
  | '/' :: '/' :: '/' :: _ => ["/"]
  | '/' :: '/' :: _ => ["//"]
  | '/' :: _ => ["/"]
  | _ => []

/-- `Path(marker).parts[0] if marker else ""`; a path without parts raises `IndexError`. -/
def markerFirst (marker : String) : Option String :=
  if marker = "" then some "" else (pathRoot marker ++ parts marker).head?

def markerName (marker : String) : String := (parts marker).getLast?.getD ""

/-- The loop of `publish` over the entries of the staging directory. -/
def entryMoves (staging : DirTree α) (first name : String) : List (Op α) :=
  (lastNamed first (entryOps name [] staging.forest)).flatMap Prod.snd

/-- What `verify_tree` finds before the first move. -/
def arrivalProblems (X : Reading α) (staging : DirTree α) (verify : Bool) :
    Option (List ArrivalProblem) :=
  if verify then
    (verifyRequired X (stagingDisk staging) [] []).toOption.map ArrivalReport.problems
  else some []

/-- `publish` up to its `rmtree`: the problems found, and the two directories. -/
def publishMoving (X : Reading α) (staging : DirTree α) (dest : Disk α) (marker : String)
    (verify : Bool) : Option (List ArrivalProblem × Publishing α) := do
  let problems ← arrivalProblems X staging verify
  let made ← Publishing.move ⟨stagingDisk staging, dest⟩ (.mkdir [])
  let first ← markerFirst marker
  let moved ← Transition.exec Publishing.move made (entryMoves staging first (markerName marker))
  some (problems, moved)

/-- `shutil.rmtree(staging, ignore_errors=True)` takes away what is left. -/
def publishWhole (X : Reading α) (staging : DirTree α) (dest : Disk α) (marker : String)
    (verify : Bool) : Option (List ArrivalProblem × Publishing α) :=
  (publishMoving X staging dest marker verify).map (fun r =>
    (r.1, { r.2 with staging := Dict.empty }))

theorem lookup_file (n : String) (c : α) (rest : Forest α) (s : String) (p : Path) :
    (Forest.file n c rest).lookup (s :: p) =
      if s = n then (if p = [] then some (.file c) else none) else rest.lookup (s :: p) := by
  rw [Forest.lookup, Forest.find]
  by_cases hs : s = n
  · simp [hs]
  · simp [hs, Forest.lookup]

theorem lookup_dir (n : String) (kids rest : Forest α) (s : String) (p : Path) :
    (Forest.dir n kids rest).lookup (s :: p) =
      if s = n then kids.lookup p else rest.lookup (s :: p) := by
  rw [Forest.lookup, Forest.find]
  by_cases hs : s = n
  · simp [hs]
  · simp [hs, Forest.lookup]

theorem lookup_names {f : Forest α} {s : String} {p : Path} {node : Node α}
    (h : f.lookup (s :: p) = some node) : s ∈ f.names := by
  refine Forest.find_names.mpr fun hnone => ?_
  rw [Forest.lookup, hnone] at h
  cases h

theorem lookup_above {f kids : Forest α} {p q : Path} (h : f.lookup (p ++ q) = some (.dir kids)) :
    ∃ kids', f.lookup p = some (.dir kids') := by
  induction p generalizing f with
  | nil => exact ⟨f, rfl⟩
  | cons s p ih =>
    rw [List.cons_append, Forest.lookup] at h
    rw [Forest.lookup]
    cases hs : f.find s with
    | none => simp [hs] at h
    | some node =>
      cases node with
      | file c =>
        simp only [hs] at h
        split at h <;> cases h
      | dir kids' =>
        simp only [hs] at h
        exact ih h

theorem mem_treeEntries {d : Path} {f : Forest α} (h : f.WF) {e : Path × Entry α} :
    e ∈ treeEntries d f ↔
      ∃ s p node, f.lookup (s :: p) = some node ∧ e = (d ++ s :: p, nodeEntry node) := by
  induction f generalizing d with
  | nil => simp [treeEntries, Forest.lookup, Forest.find]
  | file n c rest ih =>
    rw [treeEntries, List.mem_cons, ih h.2]
    constructor
    · rintro (rfl | ⟨s, p, node, hlook, rfl⟩)
      · exact ⟨n, [], .file c, by simp [lookup_file], rfl⟩
      · have hs : s ≠ n := fun hs => h.1 (hs ▸ lookup_names hlook)
        exact ⟨s, p, node, by rwa [lookup_file, if_neg hs], rfl⟩
    · rintro ⟨s, p, node, hlook, rfl⟩
      rw [lookup_file] at hlook
      by_cases hs : s = n
      · rw [if_pos hs] at hlook
        split at hlook
        · cases hlook
          rename_i hp
          exact .inl (by rw [hs, hp, nodeEntry])
        · cases hlook
      · exact .inr ⟨s, p, node, by rwa [if_neg hs] at hlook, rfl⟩
  | dir n kids rest ihk ih =>
    rw [treeEntries, List.mem_cons, List.mem_append, ihk h.2.1, ih h.2.2]
    constructor
    · rintro (rfl | ⟨s, p, node, hlook, rfl⟩ | ⟨s, p, node, hlook, rfl⟩)
      · exact ⟨n, [], .dir kids, by rw [lookup_dir, if_pos rfl, Forest.lookup], rfl⟩
      · exact ⟨n, s :: p, node, by rwa [lookup_dir, if_pos rfl], by simp⟩
      · have hs : s ≠ n := fun hs => h.1 (hs ▸ lookup_names hlook)
        exact ⟨s, p, node, by rwa [lookup_dir, if_neg hs], rfl⟩
    · rintro ⟨s, p, node, hlook, rfl⟩
      rw [lookup_dir] at hlook
      by_cases hs : s = n
      · rw [if_pos hs] at hlook
        cases p with
        | nil =>
          cases hlook
          exact .inl (by rw [hs, nodeEntry])
        | cons s' p => exact .inr (.inl ⟨s', p, node, hlook, by simp [hs]⟩)
      · exact .inr (.inr ⟨s, p, node, by rwa [if_neg hs] at hlook, rfl⟩)

theorem stagingDisk_get (staging : DirTree α) (p : Path) :
    stagingDisk staging p = (staging.forest.lookup p).map nodeEntry := by
  refine Option.ext fun e => ?_
  rw [← Dict.mem_items, stagingDisk, List.mem_cons, mem_treeEntries staging.wf,
    Option.map_eq_some_iff]
  cases p with
  | nil =>
    constructor
    · rintro (heq | ⟨s, p, node, _, heq⟩)
      · cases heq
        exact ⟨.dir staging.forest, rfl, rfl⟩
      · cases heq
    · rintro ⟨node, hnode, rfl⟩
      cases hnode
      exact .inl rfl
  | cons s p =>
    constructor
    · rintro (heq | ⟨s', p', node, hlook, heq⟩)
      · cases heq
      · cases heq
        exact ⟨node, hlook, rfl⟩
    · rintro ⟨node, hlook, rfl⟩
      exact .inr ⟨s, p, node, hlook, rfl⟩

theorem opEntry_inj {a b : Op α} (h : opEntry a = opEntry b) : a = b := by
  cases a <;> cases b <;> simp_all [opEntry]

theorem mem_entryMoves {staging : DirTree α} {first name : String} {op : Op α} :
    op ∈ entryMoves staging first name ↔
      op.path ≠ [] ∧ stagingDisk staging op.path = some (opEntry op).2 := by
  have hperm := (treeEntries_perm name [] staging.forest).mem_iff (a := opEntry op)
  rw [List.mem_map, mem_treeEntries staging.wf] at hperm
  rw [entryMoves, (flatMap_lastNamed_perm first _).mem_iff, stagingDisk_get,
    Option.map_eq_some_iff]
  constructor
  · intro hop
    obtain ⟨s, p, node, hlook, heq⟩ := hperm.mp ⟨op, hop, rfl⟩
    rw [← opEntry_path, heq]
    exact ⟨List.cons_ne_nil _ _, node, hlook, rfl⟩
  · rintro ⟨hne, node, hlook, hnode⟩
    obtain ⟨s, p, hpath⟩ := List.exists_cons_of_ne_nil hne
    rw [hpath] at hlook
    obtain ⟨op', hop, heq⟩ := hperm.mpr ⟨s, p, node, hlook,
      Prod.ext (by rw [opEntry_path, hpath]; rfl) hnode.symm⟩
    exact opEntry_inj heq ▸ hop

def movedFiles (ops : List (Op α)) : List Path := (ops.filter Op.isReplace).map Op.path

/-- While the files to be moved are still there, the moves do to the destination what the
steps of `publishOps` do, and take these files out of the staging directory. -/
theorem exec_moves {s : Publishing α} {ops : List (Op α)} (hnodup : (ops.map Op.path).Nodup)
    (hsource : ∀ p c, Op.replace p c ∈ ops → s.staging p = some (.file c)) :
    Transition.exec Publishing.move s ops = (run s.dest ops).map (fun dest =>
      { staging := s.staging.keep (fun q => q ∉ movedFiles ops), dest }) := by
  induction ops generalizing s with
  | nil =>
    have hall : s.staging.keep (fun q => q ∉ movedFiles ([] : List (Op α))) = s.staging :=
      Dict.ext (by simp [Dict.keep, movedFiles])
    rw [Transition.exec_nil, run_nil, Option.map_some, hall]
  | cons op ops ih =>
    obtain ⟨hfresh, hothers⟩ := List.nodup_cons.mp hnodup
    rw [run_cons]
    cases op with
    | mkdir p =>
      cases hexec : (Op.mkdir p).exec s.dest with
      | none => simp [Transition.exec, Publishing.move, hexec]
      | some dest =>
        have hstep : Publishing.move s (.mkdir p) = some { s with dest } := by
          simp [Publishing.move, hexec]
        have hrest := @ih { s with dest } hothers fun q c hq => hsource q c (.tail _ hq)
        rw [Transition.exec_cons_of hstep, hrest]
        rfl
    | replace p c =>
      have hfile := hsource p c (.head _)
      cases hexec : (Op.replace p c).exec s.dest with
      | none => simp [Transition.exec, Publishing.move, hfile, hexec]
      | some dest =>
        have hstep : Publishing.move s (.replace p c) =
            some { staging := s.staging.keep (fun q => q ≠ p), dest } := by
          simp [Publishing.move, hfile, hexec]
        have hrest : ∀ q c', Op.replace q c' ∈ ops →
            s.staging.keep (fun q => q ≠ p) q = some (.file c') := by
          intro q c' hq
          have hin : q ∈ ops.map Op.path := mem_path hq
          have hne : q ≠ p := fun hqp => hfresh (hqp ▸ hin)
          rw [Dict.get_keep, if_pos (by simpa using hne), hsource q c' (.tail _ hq)]
        rw [Transition.exec_cons_of hstep, ih hothers hrest]
        have hkeep : (s.staging.keep (fun q => q ≠ p)).keep (fun q => q ∉ movedFiles ops) =
            s.staging.keep (fun q => q ∉ movedFiles (.replace p c :: ops)) := by
          refine Dict.ext ?_
          simp only [Dict.keep, List.filter_filter, movedFiles, Op.isReplace, List.filter_cons,
            if_true, List.map_cons, Op.path, List.mem_cons]
          refine List.filter_congr fun e _ => ?_
          simp [Bool.and_comm]
        rw [hkeep, Option.bind_some]

/-- No path is a file in one of the trees and a directory in the other. -/
def Compatible (a b : Disk α) : Prop :=
  ∀ p c, ¬ (a p = some (.file c) ∧ b p = some .dir) ∧ ¬ (a p = some .dir ∧ b p = some (.file c))

variable {staging : DirTree α} {dest dest' : Disk α} {first name : String}

theorem stagingDisk_above {p q : Path} (h : stagingDisk staging (p ++ q) ≠ none) :
    stagingDisk staging p ≠ none := by
  rw [stagingDisk_get, Ne, Option.map_eq_none_iff] at h ⊢
  exact Forest.lookup_append h

theorem fits_of_compatible (h : Compatible (stagingDisk staging) dest) :
    Fits dest (.mkdir [] :: entryMoves staging first name) := by
  have hdir {p : Path} (hp : Op.mkdir p ∈ (.mkdir [] :: entryMoves staging first name)) :
      stagingDisk staging p = some .dir := by
    rcases List.mem_cons.mp hp with hp | hp
    · cases hp
      rfl
    · exact (mem_entryMoves.mp hp).2
  constructor
  · intro p hp q hq c hfile
    obtain ⟨r, rfl⟩ := hq
    have habove := hdir hp
    rw [stagingDisk_get, Option.map_eq_some_iff] at habove
    obtain ⟨node, hlook, hnode⟩ := habove
    cases node with
    | file c' => cases hnode
    | dir kids =>
      obtain ⟨kids', hkids⟩ := lookup_above hlook
      exact (h q c).2 ⟨by rw [stagingDisk_get, hkids]; rfl, hfile⟩
  · intro p c hp hold
    rcases List.mem_cons.mp hp with hp | hp
    · cases hp
    · exact (h p c).1 ⟨(mem_entryMoves.mp hp).2, hold⟩

theorem run_completes (h : Compatible (stagingDisk staging) dest) :
    ∃ dest', run dest (.mkdir [] :: entryMoves staging first name) = some dest' :=
  -- the steps are those of a marker that starts and ends in these two names
  run_fits (publishOps_prepared staging [first, name]) (fun _ h => h.elim)
    (fits_of_compatible h) (publishOps_separate staging [first, name])

theorem run_overlay (h : run dest (.mkdir [] :: entryMoves staging first name) = some dest')
    (p : Path) : dest' p = (stagingDisk staging p).or (dest p) := by
  cases hstaged : stagingDisk staging p with
  | some e =>
    cases e with
    | file c =>
      have hne : p ≠ [] := by
        rintro rfl
        cases hstaged
      refine run_replaced h (.tail _ (mem_entryMoves.mpr ⟨hne, hstaged⟩)) fun c' hc' => ?_
      rcases List.mem_cons.mp hc' with hc' | hc'
      · cases hc'
      · have hsame := hstaged.symm.trans (mem_entryMoves.mp hc').2
        cases hsame
        rfl
    | dir =>
      refine run_made h ?_
      by_cases hp : p = []
      · exact hp ▸ .head _
      · exact .tail _ (mem_entryMoves.mpr ⟨hp, hstaged⟩)
  | none =>
    refine run_untouched h fun op hop hbelow => ?_
    obtain ⟨q, hq⟩ := hbelow
    refine @stagingDisk_above α staging p q ?_ hstaged
    rw [hq]
    rcases List.mem_cons.mp hop with rfl | hop
    · exact fun hnone => by cases hnone
    · simp [(mem_entryMoves.mp hop).2]

theorem exec_publish {s : Publishing α} (hs : s.staging = stagingDisk staging) :
    Transition.exec Publishing.move s (.mkdir [] :: entryMoves staging first name) =
      (run s.dest (.mkdir [] :: entryMoves staging first name)).map (fun dest =>
        { staging := (stagingDisk staging).keep (fun q =>
            q ∉ movedFiles (entryMoves staging first name)), dest }) := by
  have hsource : ∀ p c, Op.replace p c ∈ (.mkdir [] :: entryMoves staging first name) →
      s.staging p = some (.file c) := by
    intro p c hp
    rcases List.mem_cons.mp hp with hp | hp
    · cases hp
    · exact hs ▸ (mem_entryMoves.mp hp).2
  have hmoves := exec_moves (publishOps_nodup staging [first, name]) hsource
  rw [hs] at hmoves
  exact hmoves

theorem publishMoving_some {X : Reading α} {marker : String} {verify : Bool}
    {problems : List ArrivalProblem} {moved : Publishing α} :
    publishMoving X staging dest marker verify = some (problems, moved) ↔
      arrivalProblems X staging verify = some problems ∧ ∃ first, markerFirst marker = some first ∧
        run dest (.mkdir [] :: entryMoves staging first (markerName marker)) = some moved.dest ∧
        moved.staging = (stagingDisk staging).keep (fun q =>
          q ∉ movedFiles (entryMoves staging first (markerName marker))) := by
  have hexec (first : String) : (∃ made,
      Publishing.move ⟨stagingDisk staging, dest⟩ (.mkdir []) = some made ∧
      Transition.exec Publishing.move made (entryMoves staging first (markerName marker)) =
        some moved) ↔
      run dest (.mkdir [] :: entryMoves staging first (markerName marker)) = some moved.dest ∧
        moved.staging = (stagingDisk staging).keep (fun q =>
          q ∉ movedFiles (entryMoves staging first (markerName marker))) := by
    rw [← Option.bind_eq_some_iff]
    change Transition.exec Publishing.move ⟨stagingDisk staging, dest⟩
      (.mkdir [] :: entryMoves staging first (markerName marker)) = some moved ↔ _
    rw [exec_publish rfl, Option.map_eq_some_iff]
    constructor
    · rintro ⟨dest', hrun, rfl⟩
      exact ⟨hrun, rfl⟩
    · rintro ⟨hrun, hstaging⟩
      exact ⟨_, hrun, by rw [← hstaging]⟩
  unfold publishMoving
  simp only [Option.bind_eq_bind, Option.bind_eq_some_iff, Option.some.injEq, Prod.mk.injEq]
  constructor
  · rintro ⟨problems', hproblems, made, hmade, first, hfirst, moved', hmoved, rfl, rfl⟩
    exact ⟨hproblems, first, hfirst, (hexec first).mp ⟨made, hmade, hmoved⟩⟩
  · rintro ⟨hproblems, first, hfirst, hrun⟩
    obtain ⟨made, hmade, hmoved⟩ := (hexec first).mpr hrun
    exact ⟨problems, hproblems, made, hmade, first, hfirst, moved, hmoved, rfl, rfl⟩

theorem moved_none {first name : String} (p : Path) (c : α) :
    ((stagingDisk staging).keep (fun q => q ∉ movedFiles (entryMoves staging first name))) p ≠
      some (.file c) := by
  intro hfile
  rw [Dict.get_keep] at hfile
  split at hfile
  · rename_i hkept
    have hne : p ≠ [] := by
      rintro rfl
      cases hfile
    have hin : Op.replace p c ∈ entryMoves staging first name := mem_entryMoves.mpr ⟨hne, hfile⟩
    simp only [decide_eq_true_eq] at hkept
    exact hkept (List.mem_map.mpr ⟨_, List.mem_filter.mpr ⟨hin, rfl⟩, rfl⟩)
  · cases hfile

theorem publishWhole_dest {X : Reading α} {marker : String} (hrel : pathRoot marker = []) :
    (publishWhole X staging dest marker false).map (fun r => r.2.dest) =
      if (publish staging marker dest).2 then some (publish staging marker dest).1 else none := by
  have hfirst : markerFirst marker =
      if publishRaises marker then none else some ((parts marker).head?.getD "") := by
    unfold markerFirst publishRaises
    by_cases hempty : marker = ""
    · subst hempty
      decide
    · rw [if_neg hempty, hrel, List.nil_append]
      cases hparts : parts marker with
      | nil => simp [hempty]
      | cons s p => simp
  have hops : publishOps staging (parts marker) = .mkdir [] ::
      entryMoves staging ((parts marker).head?.getD "") (markerName marker) := rfl
  refine Option.ext fun dest' => ?_
  simp only [publishWhole, Option.map_map, Option.map_eq_some_iff, Function.comp_apply,
    Prod.exists, publishMoving_some, hfirst, publish, publishSteps]
  by_cases hraises : publishRaises marker = true
  · simp [hraises]
  · rw [Bool.not_eq_true] at hraises
    simp only [hraises, Bool.false_eq_true, if_false, Option.some.injEq, hops, Bool.not_false,
      Bool.and_true]
    constructor
    · rintro ⟨problems, moved, ⟨_, first, rfl, hrun, _⟩, rfl⟩
      rw [runTo_done.mpr hrun]
      rfl
    · intro h
      split at h
      · rename_i hdone
        cases h
        exact ⟨[], ⟨_, _⟩, ⟨rfl, _, rfl, runTo_done.mp (Prod.ext rfl hdone), rfl⟩, rfl⟩
      · cases h

/-- A publish that completes lays the staging tree over the destination, whatever the marker;
only a marker without a path and a check that raises keep it from completing. -/
theorem publish_overlay (X : Reading α) (staging : DirTree α) (dest : Disk α)
    (hcompatible : Compatible (stagingDisk staging) dest) (marker : String) (verify : Bool) :
    ((publishWhole X staging dest marker verify).isSome ↔
      (markerFirst marker).isSome ∧ (arrivalProblems X staging verify).isSome) ∧
    ∀ problems after, publishWhole X staging dest marker verify = some (problems, after) →
      (∀ p, after.dest p = (stagingDisk staging p).or (dest p)) ∧
      after.staging = Dict.empty ∧
      (∀ moved, publishMoving X staging dest marker verify = some (problems, moved) →
        ∀ p c, moved.staging p ≠ some (.file c)) ∧
      ∀ marker' problems' after',
        publishWhole X staging dest marker' verify = some (problems', after') →
        problems' = problems ∧ ∀ p, after'.dest p = after.dest p := by
  have hout {marker : String} {problems : List ArrivalProblem} {after : Publishing α}
      (h : publishWhole X staging dest marker verify = some (problems, after)) :
      arrivalProblems X staging verify = some problems ∧
        (∀ p, after.dest p = (stagingDisk staging p).or (dest p)) ∧
        after.staging = Dict.empty := by
    obtain ⟨⟨problems', moved⟩, hmoved, heq⟩ := Option.map_eq_some_iff.mp h
    cases heq
    obtain ⟨hfound, first, _, hrun, _⟩ := publishMoving_some.mp hmoved
    exact ⟨hfound, run_overlay hrun, rfl⟩
  refine ⟨?_, fun problems after h => ?_⟩
  · rw [publishWhole, Option.isSome_map, Option.isSome_iff_exists]
    constructor
    · rintro ⟨⟨problems, moved⟩, hmoved⟩
      obtain ⟨hfound, first, hfirst, _⟩ := publishMoving_some.mp hmoved
      exact ⟨by simp [hfirst], by simp [hfound]⟩
    · rintro ⟨hfirst, hfound⟩
      obtain ⟨first, hfirst⟩ := Option.isSome_iff_exists.mp hfirst
      obtain ⟨problems, hfound⟩ := Option.isSome_iff_exists.mp hfound
      obtain ⟨dest', hrun⟩ := run_completes hcompatible
      exact ⟨⟨problems, ⟨_, dest'⟩⟩, publishMoving_some.mpr ⟨hfound, first, hfirst, hrun, rfl⟩⟩
  · obtain ⟨hfound, hdest, hgone⟩ := hout h
    refine ⟨hdest, hgone, fun moved hmoved => ?_, fun marker' problems' after' h' => ?_⟩
    · obtain ⟨_, first, _, _, hleft⟩ := publishMoving_some.mp hmoved
      rw [hleft]
      exact moved_none
    · obtain ⟨hfound', hdest', _⟩ := hout h'
      exact ⟨Option.some.inj (hfound'.symm.trans hfound), fun p =>
        (hdest' p).trans (hdest p).symm⟩

def banked : Disk String :=
  ((Dict.empty.set [] .dir).set ["out"] .dir).set ["out", "banked.npz"] (.file "earlier")

theorem banked_compatible : Compatible (stagingDisk fetchedOut) banked := by
  intro p c
  have hbanked (p : Path) : banked p = if p = ["out", "banked.npz"] then some (.file "earlier")
      else if p = ["out"] then some .dir else if p = [] then some .dir else none := by
    simp [banked]
  constructor
  · rintro ⟨hfile, hdir⟩
    rw [hbanked] at hdir
    split at hdir
    · cases hdir
    · split at hdir
      · rename_i hp
        rw [hp] at hfile
        exact absurd hfile (by simp [show stagingDisk fetchedOut ["out"] = some .dir from rfl])
      · split at hdir
        · rename_i hp
          rw [hp] at hfile
          cases hfile
        · cases hdir
  · rintro ⟨hdir, hfile⟩
    rw [hbanked] at hfile
    split at hfile
    · rename_i hp
      rw [hp] at hdir
      exact absurd hdir (by decide)
    · split at hfile
      · cases hfile
      · split at hfile <;> cases hfile

theorem banked_overlay : ∃ problems after,
    publishWhole tornReading fetchedOut banked "out/manifest.json" false =
      some (problems, after) ∧
    after.dest ["out", "banked.npz"] = some (.file "earlier") ∧
    after.dest ["out", "manifest.json"] = some (.file "done") := by
  have h := publish_overlay tornReading fetchedOut banked banked_compatible "out/manifest.json"
    false
  obtain ⟨⟨problems, after⟩, hdone⟩ := Option.isSome_iff_exists.mp (h.1.mpr (by decide))
  obtain ⟨hdest, _⟩ := h.2 problems after hdone
  exact ⟨problems, after, hdone, (hdest _).trans (by decide), (hdest _).trans (by decide)⟩

end RunFarm
