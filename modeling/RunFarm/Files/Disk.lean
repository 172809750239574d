import Mathlib.Data.List.Infix
import RunFarm.Python.Dict
import RunFarm.Transition

/-! A file system seen from one directory, and the two steps that only add to it. -/
set_option autoImplicit false

namespace Files

/-- The names from the directory down; `[]` is the directory itself. -/
abbrev Path := List String

inductive Entry (α : Type) where
  | file (content : α)
  | dir
  deriving DecidableEq, Repr

def Entry.isFile {α : Type} : Entry α → Bool
  | .file _ => true
  | .dir => false

abbrev Disk (α : Type) := Python.Dict Path (Entry α)

instance {α : Type} : CoeFun (Disk α) (fun _ => Path → Option (Entry α)) := ⟨Python.Dict.get⟩

/-- `mkdir(parents=True, exist_ok=True)`, and `os.replace` of a file into place. -/
inductive Op (α : Type) where
  | mkdir (p : Path)
  | replace (p : Path) (content : α)
  deriving DecidableEq, Repr

variable {α : Type}

def Op.path : Op α → Path
  | .mkdir p => p
  | .replace p _ => p

def Op.isReplace : Op α → Bool
  | .mkdir _ => false
  | .replace _ _ => true

/-- No directory is made where a file is in the way, no file is put over a directory or
into a directory that is not there. -/
def Op.exec (d : Disk α) : Op α → Option (Disk α)
  | .mkdir p =>
    if p.inits.any (fun q => (d q).any Entry.isFile) then none
    else some (p.inits.foldl (fun d q => d.set q .dir) d)
  | .replace p c =>
    if (d p).any (fun e => !e.isFile) || !(d p.dropLast).any (fun e => !e.isFile) then none
    else some (d.set p (.file c))

def run (d : Disk α) (ops : List (Op α)) : Option (Disk α) := Transition.exec Op.exec d ops

@[simp] theorem run_nil (d : Disk α) : run d [] = some d := rfl

theorem run_cons (d : Disk α) (op : Op α) (ops : List (Op α)) :
    run d (op :: ops) = (op.exec d).bind (fun d' => run d' ops) := rfl

theorem run_append (d : Disk α) (a b : List (Op α)) :
    run d (a ++ b) = (run d a).bind (fun d' => run d' b) := Transition.exec_append Op.exec d a b

theorem run_cons_some {d d' : Disk α} {op : Op α} {ops : List (Op α)}
    (h : run d (op :: ops) = some d') : ∃ d₁, op.exec d = some d₁ ∧ run d₁ ops = some d' :=
  Transition.exec_cons_some h

theorem run_append_some {d d' : Disk α} {a b : List (Op α)} (h : run d (a ++ b) = some d') :
    ∃ d₁, run d a = some d₁ ∧ run d₁ b = some d' := by
  rw [run_append] at h
  exact Option.bind_eq_some_iff.mp h

def Op.put (d : Disk α) : Op α → Disk α
  | .mkdir p => p.inits.foldl (fun d q => d.set q .dir) d
  | .replace p c => d.set p (.file c)

theorem exec_put {d d' : Disk α} {op : Op α} (h : op.exec d = some d') : d' = op.put d := by
  cases op <;> simp only [Op.exec] at h <;> split at h <;> cases h <;> rfl

theorem run_put {d d' : Disk α} {ops : List (Op α)} (h : run d ops = some d') :
    d' = ops.foldl Op.put d := by
  induction ops generalizing d with
  | nil =>
    cases h
    rfl
  | cons op ops ih =>
    obtain ⟨d₁, hexec, hrun⟩ := run_cons_some h
    rw [List.foldl_cons, ← exec_put hexec]
    exact ih hrun

theorem get_setAll (e : Entry α) (ps : List Path) (d : Disk α) (q : Path) :
    (ps.foldl (fun d p => d.set p e) d) q = if q ∈ ps then some e else d q := by
  induction ps generalizing d with
  | nil => simp
  | cons p ps ih =>
    rw [List.foldl_cons, ih, Python.Dict.get_set]
    by_cases hq : q = p <;> simp [hq]

theorem exec_mkdir {d d' : Disk α} {p : Path} (h : (Op.mkdir p).exec d = some d') (q : Path) :
    d' q = if q <+: p then some .dir else d q := by
  simp only [Op.exec] at h
  split at h
  · cases h
  · cases h
    rw [get_setAll]
    simp only [List.mem_inits]

theorem exec_mkdir_noFile {d d' : Disk α} {p : Path} (h : (Op.mkdir p).exec d = some d')
    {q : Path} (hq : q <+: p) (c : α) : d q ≠ some (.file c) := by
  simp only [Op.exec] at h
  split at h
  · cases h
  · rename_i hany
    intro hfile
    exact hany (List.any_eq_true.mpr
      ⟨q, (List.mem_inits q p).mpr hq, by simp [hfile, Entry.isFile]⟩)

theorem exec_replace_noDir {d d' : Disk α} {p : Path} {c : α}
    (h : (Op.replace p c).exec d = some d') : d p ≠ some .dir := by
  intro hdir
  simp [Op.exec, hdir, Entry.isFile] at h

theorem exec_replace {d d' : Disk α} {p : Path} {c : α}
    (h : (Op.replace p c).exec d = some d') (q : Path) :
    d' q = if q = p then some (.file c) else d q := by
  simp only [Op.exec] at h
  split at h
  · cases h
  · cases h
    rw [Python.Dict.get_set]

theorem exec_appears {d d' : Disk α} {op : Op α} (h : op.exec d = some d') {q : Path}
    (hno : d q = none) (hq : d' q ≠ none) : q <+: op.path := by
  cases op with
  | mkdir p =>
    rw [exec_mkdir h] at hq
    by_cases hp : q <+: p
    · exact hp
    · rw [if_neg hp] at hq
      exact absurd hno hq
  | replace p c =>
    rw [exec_replace h] at hq
    by_cases hp : q = p
    · exact hp ▸ List.prefix_rfl
    · rw [if_neg hp] at hq
      exact absurd hno hq

theorem exec_makes {d d' : Disk α} {op : Op α} (h : op.exec d = some d') :
    d' op.path ≠ none := by
  cases op with
  | mkdir p => simp [Op.path, exec_mkdir h]
  | replace p c => simp [Op.path, exec_replace h]

theorem run_appears {d d' : Disk α} {ops : List (Op α)} (h : run d ops = some d') {q : Path}
    (hno : d q = none) (hq : d' q ≠ none) : ∃ op ∈ ops, q <+: op.path := by
  induction ops generalizing d with
  | nil =>
    cases h
    exact absurd hno hq
  | cons op ops ih =>
    obtain ⟨d₁, hexec, hrun⟩ := run_cons_some h
    cases hd : d₁ q with
    | none =>
      obtain ⟨op', hop, hpre⟩ := ih hrun hd
      exact ⟨op', .tail _ hop, hpre⟩
    | some e => exact ⟨op, .head _, exec_appears hexec hno (by simp [hd])⟩

theorem run_exists {d d' : Disk α} {ops : List (Op α)} (h : run d ops = some d') {q : Path}
    (hq : d q ≠ none) : d' q ≠ none := by
  induction ops generalizing d with
  | nil =>
    cases h
    exact hq
  | cons op ops ih =>
    obtain ⟨d₁, hexec, hrun⟩ := run_cons_some h
    refine ih hrun ?_
    cases op with
    | mkdir p =>
      rw [exec_mkdir hexec]
      split <;> simp_all
    | replace p c =>
      rw [exec_replace hexec]
      split <;> simp_all

theorem run_makes {d d' : Disk α} {ops : List (Op α)} (h : run d ops = some d') {op : Op α}
    (hop : op ∈ ops) : d' op.path ≠ none := by
  obtain ⟨a, b, rfl⟩ := List.append_of_mem hop
  obtain ⟨d₁, _, hrun⟩ := run_append_some h
  obtain ⟨d₂, hexec, hrun⟩ := run_cons_some hrun
  exact run_exists hrun (exec_makes hexec)

theorem run_keeps_file {d d' : Disk α} {ops : List (Op α)} (h : run d ops = some d')
    {p : Path} {c : α} (hp : d p = some (.file c))
    (hsame : ∀ c', Op.replace p c' ∈ ops → c' = c) : d' p = some (.file c) := by
  induction ops generalizing d with
  | nil =>
    cases h
    exact hp
  | cons op ops ih =>
    obtain ⟨d₁, hexec, hrun⟩ := run_cons_some h
    refine ih hrun ?_ (fun c' hc' => hsame c' (.tail _ hc'))
    cases op with
    | mkdir q =>
      have hout : ¬ p <+: q := fun hpre => exec_mkdir_noFile hexec hpre c hp
      rw [exec_mkdir hexec, if_neg hout, hp]
    | replace q c' =>
      rw [exec_replace hexec]
      by_cases hq : p = q
      · subst hq
        rw [if_pos rfl, hsame c' (.head _)]
      · rw [if_neg hq, hp]

theorem run_replaced {d d' : Disk α} {ops : List (Op α)} (h : run d ops = some d')
    {p : Path} {c : α} (hin : Op.replace p c ∈ ops)
    (hsame : ∀ c', Op.replace p c' ∈ ops → c' = c) : d' p = some (.file c) := by
  obtain ⟨a, b, rfl⟩ := List.append_of_mem hin
  obtain ⟨d₁, _, hrun⟩ := run_append_some h
  obtain ⟨d₂, hexec, hrun⟩ := run_cons_some hrun
  have hput : d₂ p = some (.file c) := by rw [exec_replace hexec, if_pos rfl]
  exact run_keeps_file hrun hput fun c' hc' => hsame c' (by simp [hc'])

theorem run_keeps_some_file {d d' : Disk α} {ops : List (Op α)} (h : run d ops = some d')
    {p : Path} {c : α} (hp : d p = some (.file c)) : ∃ c', d' p = some (.file c') := by
  induction ops generalizing d c with
  | nil =>
    cases h
    exact ⟨c, hp⟩
  | cons op ops ih =>
    obtain ⟨d₁, hexec, hrun⟩ := run_cons_some h
    have hstill : ∃ c', d₁ p = some (.file c') := by
      cases op with
      | mkdir q =>
        have hout : ¬ p <+: q := fun hpre => exec_mkdir_noFile hexec hpre c hp
        exact ⟨c, by rw [exec_mkdir hexec, if_neg hout, hp]⟩
      | replace q c' =>
        rw [exec_replace hexec]
        by_cases hq : p = q
        · exact ⟨c', if_pos hq⟩
        · exact ⟨c, by rw [if_neg hq, hp]⟩
    obtain ⟨c', hc'⟩ := hstill
    exact ih hrun hc'

theorem run_keeps_dir {d d' : Disk α} {ops : List (Op α)} (h : run d ops = some d') {p : Path}
    (hp : d p = some .dir) : d' p = some .dir := by
  induction ops generalizing d with
  | nil =>
    cases h
    exact hp
  | cons op ops ih =>
    obtain ⟨d₁, hexec, hrun⟩ := run_cons_some h
    refine ih hrun ?_
    cases op with
    | mkdir q =>
      rw [exec_mkdir hexec]
      split
      · rfl
      · exact hp
    | replace q c =>
      have hq : p ≠ q := fun hq => exec_replace_noDir hexec (hq ▸ hp)
      rw [exec_replace hexec, if_neg hq, hp]

theorem run_made {d d' : Disk α} {ops : List (Op α)} (h : run d ops = some d') {p : Path}
    (hin : Op.mkdir p ∈ ops) : d' p = some .dir := by
  obtain ⟨a, b, rfl⟩ := List.append_of_mem hin
  obtain ⟨d₁, _, hrun⟩ := run_append_some h
  obtain ⟨d₂, hexec, hrun⟩ := run_cons_some hrun
  exact run_keeps_dir hrun (by rw [exec_mkdir hexec, if_pos List.prefix_rfl])

theorem run_untouched {d d' : Disk α} {ops : List (Op α)} (h : run d ops = some d') {q : Path}
    (hout : ∀ op ∈ ops, ¬ q <+: op.path) : d' q = d q := by
  induction ops generalizing d with
  | nil =>
    cases h
    rfl
  | cons op ops ih =>
    obtain ⟨d₁, hexec, hrun⟩ := run_cons_some h
    rw [ih hrun fun op' hop' => hout op' (.tail _ hop')]
    have hop := hout op (.head _)
    cases op with
    | mkdir p => exact (exec_mkdir hexec q).trans (if_neg hop)
    | replace p c =>
      have hne : q ≠ p := fun hq => hop (hq ▸ List.prefix_rfl)
      rw [exec_replace hexec, if_neg hne]

theorem run_file_origin {d d' : Disk α} {ops : List (Op α)} (h : run d ops = some d')
    {p : Path} {c : α} (hp : d' p = some (.file c)) :
    d p = some (.file c) ∨ Op.replace p c ∈ ops := by
  induction ops generalizing d with
  | nil =>
    cases h
    exact .inl hp
  | cons op ops ih =>
    obtain ⟨d₁, hexec, hrun⟩ := run_cons_some h
    rcases ih hrun with hold | hin
    · cases op with
      | mkdir q =>
        rw [exec_mkdir hexec] at hold
        split at hold
        · cases hold
        · exact .inl hold
      | replace q c' =>
        rw [exec_replace hexec] at hold
        by_cases hq : p = q
        · rw [if_pos hq] at hold
          cases hold
          exact .inr (hq ▸ .head _)
        · rw [if_neg hq] at hold
          exact .inl hold
    · exact .inr (.tail _ hin)

def runTo (d : Disk α) : List (Op α) → Disk α × Bool
  | [] => (d, true)
  | op :: ops =>
    match op.exec d with
    | none => (d, false)
    | some d' => runTo d' ops

theorem runTo_done {d d' : Disk α} {ops : List (Op α)} :
    runTo d ops = (d', true) ↔ run d ops = some d' := by
  induction ops generalizing d with
  | nil => simp [runTo]
  | cons op ops ih =>
    rw [run_cons, runTo]
    cases op.exec d with
    | none => simp
    | some d₁ => exact ih

theorem runTo_append (d : Disk α) (a b : List (Op α)) : runTo d (a ++ b) =
    if (runTo d a).2 then runTo (runTo d a).1 b else runTo d a := by
  induction a generalizing d with
  | nil => rfl
  | cons op a ih =>
    rw [List.cons_append, runTo, runTo]
    cases op.exec d with
    | none => rfl
    | some d₁ => exact ih d₁

theorem runTo_take (d : Disk α) (ops : List (Op α)) :
    ∃ k, run d (ops.take k) = some (runTo d ops).1 := by
  induction ops generalizing d with
  | nil => exact ⟨0, rfl⟩
  | cons op ops ih =>
    rw [runTo]
    cases hexec : op.exec d with
    | none => exact ⟨0, rfl⟩
    | some d₁ =>
      obtain ⟨k, hk⟩ := ih d₁
      exact ⟨k + 1, by rw [List.take_succ_cons, run_cons, hexec, Option.bind_some, hk]⟩

theorem runTo_exists {d : Disk α} (ops : List (Op α)) {q : Path} (hq : d q ≠ none) :
    (runTo d ops).1 q ≠ none := by
  obtain ⟨k, hk⟩ := runTo_take d ops
  exact run_exists hk hq

theorem runTo_appears {d : Disk α} {ops : List (Op α)} {q : Path} (hno : d q = none)
    (hq : (runTo d ops).1 q ≠ none) : ∃ op ∈ ops, q <+: op.path := by
  obtain ⟨k, hk⟩ := runTo_take d ops
  obtain ⟨op, hop, hbelow⟩ := run_appears hk hno hq
  exact ⟨op, List.mem_of_mem_take hop, hbelow⟩

theorem runTo_stuck {d : Disk α} {a : List (Op α)} {op : Op α} (h : run d (a ++ [op]) = none)
    (b : List (Op α)) : runTo d (a ++ op :: b) = ((runTo d a).1, false) := by
  rw [runTo_append]
  cases hdone : (runTo d a).2 with
  | false => simp [Prod.ext_iff, hdone]
  | true =>
    have hrun : run d a = some (runTo d a).1 := runTo_done.mp (Prod.ext rfl hdone)
    rw [run_append, hrun, Option.bind_some, run_cons] at h
    rw [if_pos rfl, runTo]
    cases hexec : op.exec (runTo d a).1 with
    | none => rfl
    | some d₁ => simp [hexec] at h

def Prepared (known : Path → Prop) : List (Op α) → Prop
  | [] => True
  | .mkdir p :: ops => Prepared (fun q => known q ∨ q = p) ops
  | .replace p _ :: ops => known p.dropLast ∧ Prepared known ops

theorem Prepared.mono {known more : Path → Prop} (hsub : ∀ q, known q → more q)
    {ops : List (Op α)} (h : Prepared known ops) : Prepared more ops := by
  induction ops generalizing known more with
  | nil => trivial
  | cons op ops ih =>
    cases op with
    | mkdir p => exact ih (fun q hq => hq.imp (hsub q) id) h
    | replace p c => exact ⟨hsub _ h.1, ih hsub h.2⟩

theorem Prepared.append {known : Path → Prop} {a b : List (Op α)} (ha : Prepared known a)
    (hb : Prepared known b) : Prepared known (a ++ b) := by
  induction a generalizing known with
  | nil => exact hb
  | cons op a ih =>
    cases op with
    | mkdir p => exact ih ha (hb.mono fun q hq => .inl hq)
    | replace p c => exact ⟨ha.1, ih ha.2 hb⟩

/-- No step meets a file where it wants a directory, or a directory where it wants a file. -/
structure Fits (d : Disk α) (ops : List (Op α)) : Prop where
  dirs : ∀ p, Op.mkdir p ∈ ops → ∀ q, q <+: p → ∀ c, d q ≠ some (.file c)
  files : ∀ p c, Op.replace p c ∈ ops → d p ≠ some .dir

theorem fits_empty (ops : List (Op α)) : Fits Python.Dict.empty ops where
  dirs _ _ _ _ _ h := by cases h
  files _ _ _ h := by cases h

def Separate (ops : List (Op α)) : Prop :=
  ∀ p c q, Op.replace p c ∈ ops → Op.mkdir q ∈ ops → ¬ p <+: q

theorem exec_fits {known : Path → Prop} {d : Disk α} {op : Op α} {ops : List (Op α)}
    (hprep : Prepared known (op :: ops)) (hknown : ∀ q, known q → d q = some .dir)
    (hfits : Fits d (op :: ops)) : ∃ d', op.exec d = some d' := by
  cases op with
  | mkdir p =>
    have hnone : ¬ p.inits.any (fun q => (d q).any Entry.isFile) = true := by
      rw [List.any_eq_true]
      intro h
      obtain ⟨q, hq, hfile⟩ := h
      cases hd : d q with
      | none => simp [hd] at hfile
      | some e =>
        cases e with
        | dir => simp [hd, Entry.isFile] at hfile
        | file c => exact hfits.dirs p (.head _) q ((List.mem_inits q p).mp hq) c hd
    exact ⟨_, if_neg hnone⟩
  | replace p c =>
    have hparent : d p.dropLast = some .dir := hknown _ hprep.1
    have hfree : (d p).any (fun e => !e.isFile) = false := by
      cases hd : d p with
      | none => rfl
      | some e =>
        cases e with
        | file _ => rfl
        | dir => exact absurd hd (hfits.files p c (.head _))
    refine ⟨_, if_neg ?_⟩
    rw [hfree, hparent]
    simp [Entry.isFile]

theorem Prepared.of_append {known : Path → Prop} {a b : List (Op α)}
    (h : Prepared known (a ++ b)) : Prepared known a := by
  induction a generalizing known with
  | nil => trivial
  | cons op a ih =>
    cases op with
    | mkdir p => exact ih h
    | replace p c => exact ⟨h.1, ih h.2⟩

theorem Separate.of_append {a b : List (Op α)} (h : Separate (a ++ b)) : Separate a :=
  fun p c q hp hq => h p c q (List.mem_append_left _ hp) (List.mem_append_left _ hq)

theorem fits_of_run {d d' : Disk α} {ops : List (Op α)} (h : run d ops = some d') :
    Fits d ops := by
  constructor
  · intro p hp q hq c hfile
    obtain ⟨a, b, rfl⟩ := List.append_of_mem hp
    obtain ⟨d₁, hrun, hrest⟩ := run_append_some h
    obtain ⟨d₂, hexec, _⟩ := run_cons_some hrest
    obtain ⟨c', hc'⟩ := run_keeps_some_file hrun hfile
    exact exec_mkdir_noFile hexec hq c' hc'
  · intro p c hp hdir
    obtain ⟨a, b, rfl⟩ := List.append_of_mem hp
    obtain ⟨d₁, hrun, hrest⟩ := run_append_some h
    obtain ⟨d₂, hexec, _⟩ := run_cons_some hrest
    exact exec_replace_noDir hexec (run_keeps_dir hrun hdir)

theorem Fits.step {d d₁ : Disk α} {op : Op α} {ops : List (Op α)} (hfits : Fits d (op :: ops))
    (hsep : Separate (op :: ops)) (h : op.exec d = some d₁) : Fits d₁ ops := by
  cases op with
  | mkdir p =>
    refine ⟨fun q hq r hr c => ?_, fun q c hq => ?_⟩
    · rw [exec_mkdir h]
      split
      · simp
      · exact hfits.dirs q (.tail _ hq) r hr c
    · rw [exec_mkdir h, if_neg (hsep q c p (.tail _ hq) (.head _))]
      exact hfits.files q c (.tail _ hq)
  | replace p c =>
    refine ⟨fun q hq r hr c' => ?_, fun q c' hq => ?_⟩
    · rw [exec_replace h]
      by_cases hrp : r = p
      · exact absurd (hrp ▸ hr) (hsep p c q (.head _) (.tail _ hq))
      · rw [if_neg hrp]
        exact hfits.dirs q (.tail _ hq) r hr c'
    · rw [exec_replace h]
      split
      · simp
      · exact hfits.files q c' (.tail _ hq)

theorem run_fits {known : Path → Prop} {d : Disk α} {ops : List (Op α)}
    (hprep : Prepared known ops) (hknown : ∀ q, known q → d q = some .dir)
    (hfits : Fits d ops) (hsep : Separate ops) : ∃ d', run d ops = some d' := by
  induction ops generalizing known d with
  | nil => exact ⟨d, rfl⟩
  | cons op ops ih =>
    obtain ⟨d₁, hexec⟩ := exec_fits hprep hknown hfits
    have hfits₁ : Fits d₁ ops := hfits.step hsep hexec
    have hsep₁ : Separate ops := fun p c q hp hq => hsep p c q (.tail _ hp) (.tail _ hq)
    have hnext : ∃ d', run d₁ ops = some d' := by
      cases op with
      | mkdir p =>
        have hprep₁ : Prepared (fun q => known q ∨ q = p) ops := hprep
        refine ih hprep₁ (fun q hq => ?_) hfits₁ hsep₁
        rw [exec_mkdir hexec]
        rcases hq with hq | rfl
        · split
          · rfl
          · exact hknown q hq
        · rw [if_pos List.prefix_rfl]
      | replace p c =>
        refine ih hprep.2 (fun q hq => ?_) hfits₁ hsep₁
        rw [exec_replace hexec]
        by_cases hqp : q = p
        · exact absurd (hqp ▸ hknown q hq) (hfits.files p c (.head _))
        · rw [if_neg hqp, hknown q hq]
    obtain ⟨d', hd'⟩ := hnext
    exact ⟨d', by rw [run_cons, hexec, Option.bind_some, hd']⟩

/-- A directory tree: what has an entry in it is a directory. -/
def Grounded (d : Disk α) : Prop := ∀ p s, d (p ++ [s]) ≠ none → d p = some .dir

theorem Grounded.above {d : Disk α} (h : Grounded d) {p q : Path} (hq : q ≠ [])
    (hin : d (p ++ q) ≠ none) : d p = some .dir := by
  induction q using List.reverseRecOn with
  | nil => exact absurd rfl hq
  | append_singleton q s ih =>
    rw [← List.append_assoc] at hin
    have hparent := h (p ++ q) s hin
    by_cases hq' : q = []
    · simpa [hq'] using hparent
    · exact ih hq' (by simp [hparent])

def filesBelow (place : Path) (d : Disk α) : List (Path × α) :=
  d.items.filterMap fun x => match x.2 with
    | .file c => if place <+: x.1 then some (x.1.drop place.length, c) else none
    | .dir => none

theorem mem_filesBelow {place : Path} {d : Disk α} {q : Path} {c : α} :
    (q, c) ∈ filesBelow place d ↔ d (place ++ q) = some (.file c) := by
  rw [← Python.Dict.mem_items, filesBelow, List.mem_filterMap]
  constructor
  · rintro ⟨⟨p, entry⟩, hin, heq⟩
    cases entry with
    | dir => cases heq
    | file c' =>
      dsimp only at heq
      split at heq
      · rename_i hpre
        obtain ⟨q', rfl⟩ := hpre
        simp only [List.drop_left, Option.some_inj, Prod.mk.injEq] at heq
        rw [← heq.1, ← heq.2]
        exact hin
      · cases heq
  · intro hin
    exact ⟨_, hin, by simp⟩

theorem forall_below {place : Path} {d : Disk α} {P : Path → α → Prop} :
    (∀ k ∈ filesBelow place d, P k.1 k.2) ↔ ∀ q c, d (place ++ q) = some (.file c) → P q c :=
  ⟨fun h q c hfile => h (q, c) (mem_filesBelow.mpr hfile),
    fun h k hk => h k.1 k.2 (mem_filesBelow.mp hk)⟩

end Files
