import Mathlib.Data.List.Sort
import Mathlib.Data.String.Basic
import RunFarm.Files.Forest

set_option autoImplicit false

namespace RunFarm
open Files

variable {α β : Type}

/-- The entries by name, the ones called `last` moved behind the others. -/
def lastNamed (last : String) (entries : List (String × β)) : List (String × β) :=
  let byName := entries.insertionSort (fun a b => a.1 ≤ b.1)
  byName.filter (fun e => e.1 ≠ last) ++ byName.filter (fun e => e.1 = last)

/-- The steps for each entry of a directory that is merged into `d`; below it `_merge_dir`
orders by the marker's name. -/
def entryOps (markerName : String) (d : Path) : Forest α → List (String × List (Op α))
  | .nil => []
  | .file n c rest => (n, [.replace (d ++ [n]) c]) :: entryOps markerName d rest
  | .dir n kids rest =>
    (n, .mkdir (d ++ [n]) ::
      (lastNamed markerName (entryOps markerName (d ++ [n]) kids)).flatMap Prod.snd) ::
    entryOps markerName d rest

/-- The steps of `publish`, in order; `marker` is the marker path by its parts. -/
def publishOps (staging : DirTree α) (marker : Path) : List (Op α) :=
  let markerFirst := marker.head?.getD ""
  let markerName := marker.getLast?.getD ""
  .mkdir [] ::
    (lastNamed markerFirst (entryOps markerName [] staging.forest)).flatMap Prod.snd

/-- `s` comes after `p` when one name is moved behind the others. -/
def After (last p s : String) : Prop := p ≠ last ∧ (s = last ∨ p < s)

instance (last p s : String) : Decidable (After last p s) :=
  inferInstanceAs (Decidable (_ ∧ (_ ∨ _)))

theorem After.asymm {last p s : String} (h : After last p s) : ¬ After last s p := by
  intro hback
  rcases h.2 with rfl | hlt
  · exact hback.1 rfl
  · rcases hback.2 with rfl | hgt
    · exact h.1 rfl
    · exact lt_asymm hlt hgt

theorem lastNamed_perm (last : String) (entries : List (String × β)) :
    (lastNamed last entries).Perm entries := by
  have hsplit := List.filter_append_perm (fun e : String × β => decide (e.1 ≠ last))
    (entries.insertionSort (fun a b => a.1 ≤ b.1))
  have hneg : (fun e : String × β => !decide (e.1 ≠ last)) = fun e => decide (e.1 = last) := by
    funext e
    simp
  rw [hneg] at hsplit
  exact hsplit.trans (List.perm_insertionSort _ _)

theorem lastNamed_after (last : String) {entries : List (String × β)}
    (h : (entries.map Prod.fst).Nodup) :
    (lastNamed last entries).Pairwise (fun a b => a.1 ≠ b.1 ∧ After last a.1 b.1) := by
  have hperm := List.perm_insertionSort (fun a b : String × β => a.1 ≤ b.1) entries
  have hnodup : (entries.insertionSort (fun a b => a.1 ≤ b.1)).Pairwise
      (fun a b => a.1 ≠ b.1) :=
    List.pairwise_map.mp ((hperm.map Prod.fst).nodup_iff.mpr h)
  have hsorted : (entries.insertionSort (fun a b => a.1 ≤ b.1)).Pairwise
      (fun a b => a.1 ≤ b.1) := List.pairwise_insertionSort _ _
  have hboth := hnodup.and hsorted
  refine List.pairwise_append.mpr ⟨?_, ?_, ?_⟩
  · refine (hboth.sublist List.filter_sublist).imp_of_mem ?_
    intro a b ha _ hab
    have halast : a.1 ≠ last := by simpa using (List.mem_filter.mp ha).2
    exact ⟨hab.1, halast, .inr (lt_of_le_of_ne hab.2 hab.1)⟩
  · refine (hboth.sublist List.filter_sublist).imp_of_mem ?_
    intro a b ha hb hab
    have halast : a.1 = last := by simpa using (List.mem_filter.mp ha).2
    have hblast : b.1 = last := by simpa using (List.mem_filter.mp hb).2
    exact absurd (halast.trans hblast.symm) hab.1
  · intro a ha b hb
    have halast : a.1 ≠ last := by simpa using (List.mem_filter.mp ha).2
    have hblast : b.1 = last := by simpa using (List.mem_filter.mp hb).2
    exact ⟨fun h => halast (h.trans hblast), halast, .inl hblast⟩

theorem lastNamed_split (last : String) {entries : List (String × β)}
    (h : (entries.map Prod.fst).Nodup) {x : String × β} (hx : x ∈ entries) :
    ∃ before behind, lastNamed last entries = before ++ x :: behind ∧
      (∀ y ∈ before, y ∈ entries ∧ y.1 ≠ x.1) ∧
      ∀ y, y ∈ behind ↔ y ∈ entries ∧ After last x.1 y.1 := by
  have hperm := lastNamed_perm last entries
  obtain ⟨before, behind, heq⟩ := List.append_of_mem (hperm.mem_iff.mpr hx)
  have hafter := lastNamed_after last h
  rw [heq] at hafter
  obtain ⟨_, htail, hcross⟩ := List.pairwise_append.mp hafter
  obtain ⟨hbehind, _⟩ := List.pairwise_cons.mp htail
  refine ⟨before, behind, heq, fun y hy =>
    ⟨hperm.mem_iff.mp (by simp [heq, hy]), (hcross y hy x (.head _)).1⟩, fun y => ?_⟩
  constructor
  · intro hy
    exact ⟨hperm.mem_iff.mp (by simp [heq, hy]), (hbehind y hy).2⟩
  · intro hy
    obtain ⟨hin, hyafter⟩ := hy
    have hmem : y ∈ before ++ x :: behind := heq ▸ hperm.mem_iff.mpr hin
    rcases List.mem_append.mp hmem with hy | hy
    · exact absurd hyafter (hcross y hy x (.head _)).2.asymm
    · rcases List.mem_cons.mp hy with rfl | hy
      · exact absurd hyafter hyafter.asymm
      · exact hy

theorem entryOps_names (name : String) (d : Path) (f : Forest α) :
    (entryOps name d f).map Prod.fst = f.names := by
  induction f generalizing d with
  | nil => rfl
  | file n c rest ih => simp [entryOps, Forest.names, ih]
  | dir n kids rest _ ih => simp [entryOps, Forest.names, ih]

def nodeOps (name : String) (p : Path) : Node α → List (Op α)
  | .file c => [.replace p c]
  | .dir kids => .mkdir p :: (lastNamed name (entryOps name p kids)).flatMap Prod.snd

theorem mem_entryOps {name : String} {d : Path} {f : Forest α} (h : f.WF)
    {s : String} {ops : List (Op α)} :
    (s, ops) ∈ entryOps name d f ↔
      ∃ node, f.find s = some node ∧ ops = nodeOps name (d ++ [s]) node := by
  induction f with
  | nil => simp [entryOps, Forest.find]
  | file n c rest ih =>
    simp only [entryOps, Forest.find, List.mem_cons, Prod.mk.injEq, ih h.2]
    by_cases hs : s = n
    · subst hs
      have hno : rest.find s = none := by
        by_contra hne
        exact h.1 (Forest.find_names.mpr hne)
      simp [hno, nodeOps]
    · simp [hs]
  | dir n kids rest _ ih =>
    simp only [entryOps, Forest.find, List.mem_cons, Prod.mk.injEq, ih h.2.2]
    by_cases hs : s = n
    · subst hs
      have hno : rest.find s = none := by
        by_contra hne
        exact h.1 (Forest.find_names.mpr hne)
      simp [hno, nodeOps]
    · simp [hs]

theorem flatMap_lastNamed_perm (last : String) (entries : List (String × List (Op α))) :
    ((lastNamed last entries).flatMap Prod.snd).Perm (entries.flatMap Prod.snd) :=
  (lastNamed_perm last entries).flatMap_right _

theorem replace_mem_entryOps {name : String} {d p : Path} {f : Forest α} {c : α} :
    Op.replace p c ∈ (entryOps name d f).flatMap Prod.snd ↔ (p, c) ∈ f.files d := by
  induction f generalizing d with
  | nil => simp [entryOps, Forest.files]
  | file n c' rest ih =>
    simp only [entryOps, Forest.files, List.flatMap_cons, List.mem_append, List.mem_cons,
      List.not_mem_nil, or_false, ih, Op.replace.injEq, Prod.mk.injEq]
  | dir n kids rest ihk ih =>
    simp only [entryOps, Forest.files, List.flatMap_cons, List.mem_append, List.mem_cons, ih,
      (flatMap_lastNamed_perm name _).mem_iff, ihk, reduceCtorEq, false_or]

theorem entryOps_below {name : String} {d : Path} {f : Forest α} {s : String}
    {ops : List (Op α)} (h : (s, ops) ∈ entryOps name d f) {op : Op α} (hop : op ∈ ops) :
    d ++ [s] <+: op.path := by
  induction f generalizing d s ops with
  | nil => cases h
  | file n c rest ih =>
    rcases List.mem_cons.mp h with h | h
    · cases h
      cases List.mem_singleton.mp hop
      exact List.prefix_rfl
    · exact ih h hop
  | dir n kids rest ihk ih =>
    rcases List.mem_cons.mp h with h | h
    · cases h
      rcases List.mem_cons.mp hop with rfl | hop
      · exact List.prefix_rfl
      · obtain ⟨⟨s', ops'⟩, hin, hop⟩ :=
          List.mem_flatMap.mp ((flatMap_lastNamed_perm name _).mem_iff.mp hop)
        exact (List.prefix_append _ _).trans (ihk hin hop)
    · exact ih h hop

theorem ops_below {name : String} {d : Path} {f : Forest α} {op : Op α}
    (h : op ∈ (entryOps name d f).flatMap Prod.snd) : ∃ s ∈ f.names, d ++ [s] <+: op.path := by
  obtain ⟨⟨s, ops⟩, hin, hop⟩ := List.mem_flatMap.mp h
  refine ⟨s, ?_, entryOps_below hin hop⟩
  rw [← entryOps_names name d f]
  exact List.mem_map_of_mem hin

theorem ops_lookup {name : String} {d : Path} {f : Forest α} (h : f.WF) {op : Op α}
    (hop : op ∈ (entryOps name d f).flatMap Prod.snd) :
    ∃ s p, op.path = d ++ s :: p ∧ f.lookup (s :: p) ≠ none := by
  induction f generalizing d with
  | nil => cases hop
  | file n c rest ih =>
    simp only [entryOps, List.flatMap_cons, List.singleton_append] at hop
    rcases List.mem_cons.mp hop with rfl | hop
    · exact ⟨n, [], rfl, by simp [Forest.lookup, Forest.find]⟩
    · obtain ⟨s, p, hpath, hlook⟩ := ih h.2 hop
      have hs : s ≠ n := by
        rintro rfl
        exact h.1 (Forest.find_names.mpr fun hnone => hlook (by rw [Forest.lookup, hnone]))
      exact ⟨s, p, hpath, by simpa [Forest.lookup, Forest.find, hs] using hlook⟩
  | dir n kids rest ihk ih =>
    simp only [entryOps, List.flatMap_cons, List.cons_append, List.mem_cons, List.mem_append,
      (flatMap_lastNamed_perm name _).mem_iff] at hop
    rcases hop with rfl | hop | hop
    · exact ⟨n, [], rfl, by simp [Forest.lookup, Forest.find]⟩
    · obtain ⟨s, p, hpath, hlook⟩ := ihk h.2.1 hop
      have hfound : (Forest.dir n kids rest).lookup (n :: s :: p) ≠ none := by
        rw [Forest.lookup, Forest.find, if_pos rfl]
        exact hlook
      exact ⟨n, s :: p, by simp [hpath], hfound⟩
    · obtain ⟨s, p, hpath, hlook⟩ := ih h.2.2 hop
      have hs : s ≠ n := by
        rintro rfl
        exact h.1 (Forest.find_names.mpr fun hnone => hlook (by rw [Forest.lookup, hnone]))
      exact ⟨s, p, hpath, by simpa [Forest.lookup, Forest.find, hs] using hlook⟩

theorem not_below_self {d p : Path} {s : String} (h : d ++ [s] <+: p) : ¬ p <+: d := by
  intro hback
  have hlen := h.length_le
  have hlen' := hback.length_le
  simp only [List.length_append, List.length_singleton] at hlen
  omega

theorem ops_outside {name : String} {d : Path} {f : Forest α} {n : String} (hn : n ∉ f.names)
    {p : Path} (hp : d ++ [n] <+: p) :
    p ∉ ((entryOps name d f).flatMap Prod.snd).map Op.path := by
  intro hin
  obtain ⟨op, hop, rfl⟩ := List.mem_map.mp hin
  obtain ⟨s, hs, hbelow⟩ := ops_below hop
  exact hn (same_child hp hbelow ▸ hs)

theorem mem_path {ops : List (Op α)} {op : Op α} (h : op ∈ ops) : op.path ∈ ops.map Op.path :=
  List.mem_map_of_mem h

theorem paths_nodup (name : String) (d : Path) {f : Forest α} (h : f.WF) :
    (((entryOps name d f).flatMap Prod.snd).map Op.path).Nodup := by
  induction f generalizing d with
  | nil => exact List.nodup_nil
  | file n c rest ih =>
    simp only [entryOps, List.flatMap_cons, List.singleton_append, List.map_cons]
    exact List.nodup_cons.mpr ⟨ops_outside h.1 List.prefix_rfl, ih d h.2⟩
  | dir n kids rest ihk ih =>
    have hperm := (flatMap_lastNamed_perm name (entryOps name (d ++ [n]) kids)).map Op.path
    simp only [entryOps, List.flatMap_cons, List.cons_append, List.map_cons, List.map_append]
    refine List.nodup_cons.mpr ⟨?_, List.nodup_append.mpr
      ⟨hperm.nodup_iff.mpr (ihk (d ++ [n]) h.2.1), ih d h.2.2, fun p hp q hq hpq => ?_⟩⟩
    · intro hin
      rcases List.mem_append.mp hin with hin | hin
      · obtain ⟨op, hop, heq⟩ := List.mem_map.mp (hperm.mem_iff.mp hin)
        obtain ⟨s, _, hbelow⟩ := ops_below hop
        exact not_below_self hbelow (heq ▸ List.prefix_rfl)
      · exact ops_outside h.1 List.prefix_rfl hin
    · obtain ⟨op, hop, rfl⟩ := List.mem_map.mp (hperm.mem_iff.mp hp)
      obtain ⟨s, _, hbelow⟩ := ops_below hop
      exact ops_outside h.1 ((List.prefix_append _ _).trans hbelow) (hpq ▸ hq)

theorem prepared_flatMap {known : Path → Prop} {entries : List (String × List (Op α))}
    (h : ∀ e ∈ entries, Prepared known e.2) : Prepared known (entries.flatMap Prod.snd) := by
  induction entries with
  | nil => trivial
  | cons e entries ih =>
    rw [List.flatMap_cons]
    exact (h e (.head _)).append (ih fun e' he' => h e' (.tail _ he'))

theorem entryOps_prepared {known : Path → Prop} (name : String) {d : Path} (hd : known d)
    (f : Forest α) : ∀ e ∈ entryOps name d f, Prepared known e.2 := by
  induction f generalizing known d with
  | nil =>
    intro e he
    cases he
  | file n c rest ih =>
    intro e he
    rcases List.mem_cons.mp he with rfl | he
    · exact ⟨by rwa [List.dropLast_concat], trivial⟩
    · exact ih hd e he
  | dir n kids rest ihk ih =>
    intro e he
    rcases List.mem_cons.mp he with rfl | he
    · have hkids := @ihk (fun q => known q ∨ q = d ++ [n]) (d ++ [n]) (.inr rfl)
      exact prepared_flatMap fun e he => hkids e ((lastNamed_perm name _).mem_iff.mp he)
    · exact ih hd e he

theorem entryOps_separate (name : String) (d : Path) {f : Forest α} (h : f.WF) :
    Separate ((entryOps name d f).flatMap Prod.snd) := by
  induction f generalizing d with
  | nil =>
    intro p c q hp
    cases hp
  | file n c' rest ih =>
    intro p c q hp hq hpre
    simp only [entryOps, List.flatMap_cons, List.singleton_append] at hp hq
    rcases List.mem_cons.mp hq with hq | hq
    · cases hq
    · rcases List.mem_cons.mp hp with hp | hp
      · cases hp
        obtain ⟨s, hs, hbelow⟩ := ops_below hq
        exact h.1 (same_child hpre hbelow ▸ hs)
      · exact ih d h.2 p c q hp hq hpre
  | dir n kids rest ihk ih =>
    intro p c q hp hq hpre
    simp only [entryOps, List.flatMap_cons, List.cons_append, List.mem_cons, List.mem_append,
      reduceCtorEq, false_or, (flatMap_lastNamed_perm name _).mem_iff, Op.mkdir.injEq] at hp hq
    rcases hp with hp | hp
    · obtain ⟨s, _, hbelow⟩ := ops_below hp
      have hdir : d ++ [n] <+: p := (List.prefix_append _ _).trans hbelow
      rcases hq with rfl | hq | hq
      · exact not_below_self hbelow hpre
      · exact ihk (d ++ [n]) h.2.1 p c q hp hq hpre
      · obtain ⟨s', hs', hbelow'⟩ := ops_below hq
        exact h.1 (same_child (hdir.trans hpre) hbelow' ▸ hs')
    · obtain ⟨s, hs, hbelow⟩ := ops_below hp
      rcases hq with rfl | hq | hq
      · exact h.1 (same_child (hbelow.trans hpre) List.prefix_rfl ▸ hs)
      · obtain ⟨s', _, hbelow'⟩ := ops_below hq
        have hdir : d ++ [n] <+: q := (List.prefix_append _ _).trans hbelow'
        exact h.1 (same_child (hbelow.trans hpre) hdir ▸ hs)
      · exact ih d h.2.2 p c q hp hq hpre

section
variable (staging : DirTree α) (marker : Path)

theorem publishOps_perm : (publishOps staging marker).Perm (.mkdir [] ::
    (entryOps (marker.getLast?.getD "") [] staging.forest).flatMap Prod.snd) :=
  (flatMap_lastNamed_perm _ _).cons _

theorem replace_mem_publishOps {p : Path} {c : α} :
    Op.replace p c ∈ publishOps staging marker ↔ (p, c) ∈ staging.files := by
  rw [(publishOps_perm staging marker).mem_iff, List.mem_cons, replace_mem_entryOps]
  simp [DirTree.files]

theorem publishOps_nodup : ((publishOps staging marker).map Op.path).Nodup := by
  refine ((publishOps_perm staging marker).map Op.path).nodup_iff.mpr ?_
  rw [List.map_cons]
  refine List.nodup_cons.mpr ⟨fun hin => ?_, paths_nodup _ [] staging.wf⟩
  obtain ⟨op, hop, heq⟩ := List.mem_map.mp hin
  obtain ⟨s, _, hbelow⟩ := ops_below hop
  exact not_below_self hbelow (heq ▸ List.prefix_rfl)

theorem publishOps_prepared : Prepared (fun _ => False) (publishOps staging marker) := by
  refine prepared_flatMap fun e he => ?_
  exact entryOps_prepared (marker.getLast?.getD "") (.inr rfl) staging.forest e
    ((lastNamed_perm _ _).mem_iff.mp he)

theorem publishOps_separate : Separate (publishOps staging marker) := by
  have hperm := publishOps_perm staging marker
  intro p c q hp hq hpre
  rw [hperm.mem_iff, List.mem_cons] at hp hq
  simp only [reduceCtorEq, false_or] at hp
  rcases hq with hq | hq
  · cases hq
    obtain ⟨s, _, hbelow⟩ := ops_below hp
    exact not_below_self hbelow hpre
  · exact entryOps_separate _ [] staging.wf p c q hp hq hpre

theorem publishOps_lookup {m : Path} (hm : m ≠ []) {op : Op α}
    (hop : op ∈ publishOps staging marker) (hbelow : m <+: op.path) :
    staging.forest.lookup m ≠ none := by
  rw [(publishOps_perm staging marker).mem_iff] at hop
  rcases List.mem_cons.mp hop with rfl | hop
  · exact absurd (List.prefix_nil.mp hbelow) hm
  · obtain ⟨s, p, hpath, hlook⟩ := ops_lookup staging.wf hop
    obtain ⟨q, hq⟩ := hbelow
    rw [hpath, List.nil_append] at hq
    exact Forest.lookup_append (hq ▸ hlook)

theorem publishOps_same {p : Path} {c c' : α} (h : Op.replace p c ∈ publishOps staging marker)
    (h' : Op.replace p c' ∈ publishOps staging marker) : c' = c := by
  have heq := List.inj_on_of_nodup_map (publishOps_nodup staging marker) h' h rfl
  cases heq
  rfl

end

end RunFarm
