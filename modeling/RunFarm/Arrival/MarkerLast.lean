import RunFarm.Arrival.Publish

/-! When `publish` puts the completion marker in place after everything it vouches for. -/
set_option autoImplicit false

namespace RunFarm
open Files

variable {α : Type}

/-- Nothing that holds a file comes after the marker: at each level of its path no later
entry does, and neither does the marker itself if it is a directory. -/
def markerLast (markerName : String) : String → Forest α → Path → Bool
  | _, _, [] => true
  | last, f, s :: p =>
    f.names.all (fun s' => !(decide (After last s s') && (f.find s').any Node.hasFile)) &&
    match f.find s with
    | some (.dir kids) => if p = [] then !kids.hasFile else markerLast markerName markerName kids p
    | _ => true

/-- `publish` keeps the marker back to the end. -/
def KeepsBack (staging : DirTree α) (marker : Path) : Prop :=
  markerLast (marker.getLast?.getD "") (marker.head?.getD "") staging.forest marker = true

instance (staging : DirTree α) (marker : Path) : Decidable (KeepsBack staging marker) :=
  inferInstanceAs (Decidable (_ = true))

theorem moves_entryOps (name : String) (d : Path) (f : Forest α) :
    ((entryOps name d f).flatMap Prod.snd).any Op.isReplace = f.hasFile := by
  induction f generalizing d with
  | nil => rfl
  | file n c rest ih => simp [entryOps, Forest.hasFile, Op.isReplace]
  | dir n kids rest ihk ih =>
    have hperm := flatMap_lastNamed_perm name (entryOps name (d ++ [n]) kids)
    simp only [entryOps, List.flatMap_cons, List.cons_append, List.any_cons, List.any_append,
      hperm.any_eq, ihk, ih, Op.isReplace, Bool.false_or, Forest.hasFile]

theorem moves_nodeOps (name : String) (p : Path) (node : Node α) :
    (nodeOps name p node).any Op.isReplace = node.hasFile := by
  cases node with
  | file c => rfl
  | dir kids =>
    have hperm := flatMap_lastNamed_perm name (entryOps name p kids)
    simp only [nodeOps, List.any_cons, hperm.any_eq, moves_entryOps, Op.isReplace,
      Bool.false_or, Node.hasFile]

theorem moves_behind {name last s : String} {d : Path} {f : Forest α} (hf : f.WF)
    {behind : List (String × List (Op α))}
    (h : ∀ y, y ∈ behind ↔ y ∈ entryOps name d f ∧ After last s y.1) :
    (behind.flatMap Prod.snd).any Op.isReplace = false ↔
      f.names.all (fun s' => !(decide (After last s s') && (f.find s').any Node.hasFile)) =
        true := by
  have hfind {s' : String} {node : Node α} (hn : f.find s' = some node) : s' ∈ f.names :=
    Forest.find_names.mpr (by simp [hn])
  rw [List.any_eq_false, List.all_eq_true]
  constructor
  · intro hnone s' _
    cases hn : f.find s' with
    | none => simp
    | some node =>
      by_cases hafter : After last s s'
      · have hin : (s', nodeOps name (d ++ [s']) node) ∈ behind :=
          (h _).mpr ⟨(mem_entryOps hf).mpr ⟨node, hn, rfl⟩, hafter⟩
        have hmoves : (nodeOps name (d ++ [s']) node).any Op.isReplace = false :=
          List.any_eq_false.mpr fun op hop => hnone op (List.mem_flatMap.mpr ⟨_, hin, hop⟩)
        rw [moves_nodeOps] at hmoves
        simp [hmoves]
      · simp [hafter]
  · intro hall op hop
    obtain ⟨⟨s', ops⟩, hin, hop⟩ := List.mem_flatMap.mp hop
    obtain ⟨hentry, hafter⟩ := (h _).mp hin
    obtain ⟨node, hn, rfl⟩ := (mem_entryOps hf).mp hentry
    have hs' := hall s' (hfind hn)
    have hbare : node.hasFile = false := by simpa [hn, show After last s s' from hafter] using hs'
    have hmoves := moves_nodeOps name (d ++ [s']) node
    rw [hbare, List.any_eq_false] at hmoves
    exact hmoves op hop

/-- The steps of one entry, between those of the entries before it, which stay outside its
path, and those of the entries behind it. -/
theorem entry_split (name last : String) (d : Path) {f : Forest α} (hf : f.WF) {s : String}
    {node : Node α} (hn : f.find s = some node) :
    ∃ before behind, (lastNamed last (entryOps name d f)).flatMap Prod.snd =
        before ++ nodeOps name (d ++ [s]) node ++ behind ∧
      (∀ p, ∀ o ∈ before, ¬ d ++ s :: p <+: o.path) ∧
      (behind.any Op.isReplace = false ↔
        f.names.all (fun s' => !(decide (After last s s') && (f.find s').any Node.hasFile)) =
          true) := by
  have hentry : (s, nodeOps name (d ++ [s]) node) ∈ entryOps name d f :=
    (mem_entryOps hf).mpr ⟨node, hn, rfl⟩
  have hnames : ((entryOps name d f).map Prod.fst).Nodup :=
    entryOps_names name d f ▸ Forest.names_nodup hf
  obtain ⟨before, behind, heq, hbefore, hbehind⟩ := lastNamed_split last hnames hentry
  refine ⟨before.flatMap Prod.snd, behind.flatMap Prod.snd, by simp [heq], ?_,
    moves_behind hf hbehind⟩
  intro p o ho hpre
  have hchild : d ++ [s] <+: d ++ s :: p := by simp
  obtain ⟨⟨s', ops⟩, hin, ho⟩ := List.mem_flatMap.mp ho
  obtain ⟨hmem, hne⟩ := hbefore _ hin
  exact hne (same_child (entryOps_below hmem ho) (hchild.trans hpre))

/-- The step that makes the marker: nothing before it is at or below the marker's path, and
files are moved after it unless the marker is kept back. -/
theorem marker_split (name : String) {m : Path} (hm : m ≠ []) (last : String) (d : Path)
    {f : Forest α} (hf : f.WF) (hin : f.lookup m ≠ none) :
    ∃ before op behind, (lastNamed last (entryOps name d f)).flatMap Prod.snd =
        before ++ op :: behind ∧ op.path = d ++ m ∧ (∀ o ∈ before, ¬ d ++ m <+: o.path) ∧
      (behind.any Op.isReplace = false ↔ markerLast name last f m = true) := by
  induction m generalizing last d f with
  | nil => exact absurd rfl hm
  | cons s p ih =>
    cases hn : f.find s with
    | none => exact absurd (by rw [Forest.lookup, hn]) hin
    | some node =>
      obtain ⟨before, behind, hflat, hbefore, hlater⟩ := entry_split name last d hf hn
      rw [hflat]
      cases node with
      | file c =>
        have hp : p = [] := by
          by_contra hne
          exact hin (by simp [Forest.lookup, hn, hne])
        subst hp
        refine ⟨before, .replace (d ++ [s]) c, behind, by simp [nodeOps], rfl, hbefore [], ?_⟩
        simp only [markerLast, hn, Bool.and_true]
        exact hlater
      | dir kids =>
        have hkids := Forest.find_wf hf hn
        by_cases hp : p = []
        · subst hp
          refine ⟨before, .mkdir (d ++ [s]), _, by simp [nodeOps]; rfl, rfl, hbefore [], ?_⟩
          have hperm := flatMap_lastNamed_perm name (entryOps name (d ++ [s]) kids)
          simp only [List.any_append, Bool.or_eq_false_iff, hperm.any_eq, moves_entryOps, hlater,
            markerLast, hn, if_true, Bool.and_eq_true, Bool.not_eq_true', and_comm]
        · have hinkids : kids.lookup p ≠ none := by
            simpa [Forest.lookup, hn] using hin
          obtain ⟨before', op, behind', hops, hpath, hpre, hlast⟩ :=
            ih hp name (d ++ [s]) hkids hinkids
          have hpath' : d ++ [s] ++ p = d ++ s :: p := by simp
          rw [hpath'] at hpath hpre
          refine ⟨before ++ .mkdir (d ++ [s]) :: before', op, behind' ++ behind,
            by simp [nodeOps, hops], hpath, ?_, ?_⟩
          · intro o ho
            rcases List.mem_append.mp ho with ho | ho
            · exact hbefore p o ho
            · rcases List.mem_cons.mp ho with rfl | ho
              · -- the directory itself is a proper part of the marker's path
                intro hpre'
                have hlen := hpre'.length_le
                have hpos := List.length_pos_of_ne_nil hp
                simp only [Op.path, List.length_append, List.length_cons, List.length_nil] at hlen
                omega
              · exact hpre o ho
          · simp only [List.any_append, Bool.or_eq_false_iff, hlast, hlater, markerLast, hn,
              if_neg hp, Bool.and_eq_true, and_comm]

section
variable {staging : DirTree α} {marker : Path}

theorem publish_split (hm : marker ≠ []) (hin : staging.forest.lookup marker ≠ none) :
    ∃ before op behind, publishOps staging marker = before ++ op :: behind ∧
      op.path = marker ∧ (∀ o ∈ before, ¬ marker <+: o.path) ∧
      (behind.any Op.isReplace = false ↔ KeepsBack staging marker) := by
  obtain ⟨before, op, behind, hops, hpath, hpre, hlast⟩ :=
    marker_split (marker.getLast?.getD "") hm (marker.head?.getD "") [] staging.wf hin
  refine ⟨.mkdir [] :: before, op, behind, by simp [publishOps, hops], hpath, ?_, hlast⟩
  intro o ho
  rcases List.mem_cons.mp ho with rfl | ho
  · exact fun hroot => hm (List.prefix_nil.mp hroot)
  · exact hpre o ho

/-- After any number of steps, if the marker is in the destination then every file of the
staging tree has been moved there. -/
def Guarded (staging : DirTree α) (marker : Path) (dest : Disk α) : Prop :=
  ∀ k d, run dest ((publishOps staging marker).take k) = some d → d marker ≠ none →
    ∀ p c, (p, c) ∈ staging.files →
      Op.replace p c ∈ (publishOps staging marker).take k ∧ d p = some (.file c)

theorem guarded_of_keepsBack (hm : marker ≠ []) (hin : staging.forest.lookup marker ≠ none)
    (hback : KeepsBack staging marker) {dest : Disk α} (hnew : dest marker = none) :
    Guarded staging marker dest := by
  obtain ⟨before, op, behind, hops, _, hpre, hlast⟩ := publish_split hm hin
  have hbare := List.any_eq_false.mp (hlast.mpr hback)
  intro k d hrun hthere p c hfile
  have hall := (replace_mem_publishOps staging marker).mpr hfile
  have hdone : Op.replace p c ∈ (publishOps staging marker).take k := by
    obtain ⟨o, ho, hbelow⟩ := run_appears hrun hnew hthere
    rw [hops] at ho hall ⊢
    by_cases hk : k ≤ before.length
    · rw [List.take_append_of_le_length hk] at ho
      exact absurd hbelow (hpre o (List.mem_of_mem_take ho))
    · obtain ⟨j, rfl⟩ : ∃ j, k = before.length + (j + 1) := ⟨k - before.length - 1, by omega⟩
      rw [List.take_length_add_append, List.take_succ_cons]
      rcases List.mem_append.mp hall with hall | hall
      · exact List.mem_append_left _ hall
      · rcases List.mem_cons.mp hall with rfl | hall
        · exact List.mem_append_right _ (.head _)
        · exact absurd rfl (hbare _ hall)
  refine ⟨hdone, run_replaced hrun hdone fun c' hc' => ?_⟩
  exact publishOps_same staging marker (List.mem_of_mem_take hdone) (List.mem_of_mem_take hc')

theorem keepsBack_of_guarded (hm : marker ≠ []) (hin : staging.forest.lookup marker ≠ none)
    {dest : Disk α} (hfits : Fits dest (publishOps staging marker))
    (h : Guarded staging marker dest) : KeepsBack staging marker := by
  obtain ⟨before, op, behind, hops, hpath, _, hlast⟩ := publish_split hm hin
  obtain ⟨d, hrun⟩ := run_fits (publishOps_prepared staging marker) (fun _ h => h.elim) hfits
    (publishOps_separate staging marker)
  have htake : (publishOps staging marker).take (before.length + 1) = before ++ [op] := by
    rw [hops, List.take_length_add_append, List.take_succ_cons, List.take_zero]
  have hsplit : publishOps staging marker = before ++ [op] ++ behind := by simp [hops]
  rw [hsplit] at hrun
  obtain ⟨d₁, hfirst, _⟩ := run_append_some hrun
  have hthere : d₁ marker ≠ none := by
    obtain ⟨d₀, _, hstep⟩ := run_append_some hfirst
    obtain ⟨d₂, hexec, hrest⟩ := run_cons_some hstep
    cases hrest
    exact hpath ▸ exec_makes hexec
  rw [← hlast, List.any_eq_false]
  intro o ho hmoves
  cases o with
  | mkdir p => cases hmoves
  | replace p c =>
    -- a file that is moved later has not been moved when the marker appears
    have hfile : (p, c) ∈ staging.files := by
      rw [← replace_mem_publishOps staging marker, hsplit]
      exact List.mem_append_right _ ho
    have hearly := (h (before.length + 1) d₁ (htake ▸ hfirst) hthere p c hfile).1
    rw [htake] at hearly
    have hnodup := publishOps_nodup staging marker
    rw [hsplit, List.map_append] at hnodup
    exact (List.nodup_append.mp hnodup).2.2 _ (mem_path hearly) _ (mem_path ho) rfl

/-- A marker that is kept back never stands in the destination before its payload. Where
nothing is in the way of the tree, one that is not kept back does at some instant. -/
theorem publish_guarded_iff (hm : marker ≠ []) (hin : staging.forest.lookup marker ≠ none) :
    (KeepsBack staging marker → ∀ dest : Disk α, dest marker = none →
      Guarded staging marker dest) ∧
    ∀ dest : Disk α, dest marker = none → Fits dest (publishOps staging marker) →
      (Guarded staging marker dest ↔ KeepsBack staging marker) := by
  refine ⟨fun hback dest hnew => guarded_of_keepsBack hm hin hback hnew,
    fun dest hnew hfits => ⟨keepsBack_of_guarded hm hin hfits, fun hback => ?_⟩⟩
  exact guarded_of_keepsBack hm hin hback hnew

end

def fetchedOut : DirTree String where
  forest := .dir "out" (.file "field.npz" "array" (.file "manifest.json" "done" .nil)) .nil
  wf := by simp [Forest.WF, Forest.names]

theorem fetchedOut_guarded : Guarded fetchedOut ["out", "manifest.json"] Python.Dict.empty :=
  (publish_guarded_iff (by decide) (by decide)).1 (by decide +kernel) Python.Dict.empty rfl

def fetchedDeep : DirTree String where
  forest := .dir "out" (.dir "run" (.file "manifest.json" "done" .nil)
    (.dir "tables" (.file "field.npz" "array" .nil) .nil)) .nil
  wf := by simp [Forest.WF, Forest.names]

/-- The default marker, the fetched directory itself, is made before anything is moved; a
marker three levels down is overtaken by what sorts after its directory. -/
theorem marker_before_payload :
    ¬ Guarded fetchedOut ["out"] Python.Dict.empty ∧
    ¬ Guarded fetchedDeep ["out", "run", "manifest.json"] Python.Dict.empty ∧
    ¬ (∀ (staging : DirTree String) (marker : Path) (dest : Disk String), marker ≠ [] →
      staging.forest.lookup marker ≠ none → dest marker = none →
      Guarded staging marker dest) := by
  have hdir : ¬ Guarded fetchedOut ["out"] Python.Dict.empty := fun h =>
    absurd (keepsBack_of_guarded (by decide) (by decide) (fits_empty _) h) (by decide +kernel)
  have hdeep : ¬ Guarded fetchedDeep ["out", "run", "manifest.json"] Python.Dict.empty := fun h =>
    absurd (keepsBack_of_guarded (by decide) (by decide) (fits_empty _) h) (by decide +kernel)
  exact ⟨hdir, hdeep, fun h => hdir (h _ _ _ (by decide) (by decide) rfl)⟩

end RunFarm
