import Mathlib.Data.List.DropRight
import RunFarm.Fleet.LatePull

/-! What a resumable leg takes from one host to the next: the pulls bring what the payload
has finished into the leg directory, and `_restore` puts it on the host that comes after. -/
set_option autoImplicit false

namespace RunFarm
open Files Transition

variable {α : Type}

/-- `s.rstrip("/")`. -/
def rstripSlash (s : String) : String := String.ofList (s.toList.rdropWhile (fun c => c = '/'))

def dirname (p : String) : String :=
  let head := p.toList.rdropWhile (fun c => c ≠ '/')
  if head.all (fun c => c = '/') then String.ofList head else rstripSlash (String.ofList head)

/-- The `remote` of `_fetch` and of `_restore`. -/
def remotePath (workDir : String) (leg : FleetLeg α) : String :=
  rstripSlash (if leg.fetch.toList.head? = some '/' then leg.fetch
    else workDir ++ "/" ++ leg.fetch)

/-- Where the payload writes on a host, and `_fetch` reads. -/
def remotePlace (workDir : String) (leg : FleetLeg α) : Path := parts (remotePath workDir leg)

/-- The `remote_parent` that `_restore` copies to. -/
def remoteParent (workDir : String) (leg : FleetLeg α) : Path :=
  parts (dirname (remotePath workDir leg) ++ "/")

/-- The `local` of `_restore`, from the leg directory down. -/
def localPlace (leg : FleetLeg α) : Path := parts (basename leg.fetch)

/-- The name under which `scp -r` puts `local` into a directory. -/
def localName (leg : FleetLeg α) : String := (parts leg.label ++ localPlace leg).getLast?.getD ""

/-- Where a copy to `remote_parent` lands if that is a directory. -/
def restorePlace (workDir : String) (leg : FleetLeg α) : Path :=
  remoteParent workDir leg ++ [localName leg]

theorem parts_append (s t : String) : parts (s ++ "/" ++ t) = parts s ++ parts t := by
  have htext : (s ++ "/" ++ t).toList = s.toList ++ '/' :: t.toList := by simp
  simp only [parts, htext, List.splitOn_append_cons_self, List.map_append, List.filter_append]

theorem parts_slash (s : String) : parts (s ++ "/") = parts s := by
  have h := parts_append s ""
  rw [String.append_empty] at h
  rw [h]
  simp [parts]

theorem parts_rstripSlash (s : String) : parts (rstripSlash s) = parts s := by
  obtain ⟨cs, rfl⟩ : ∃ cs, s = String.ofList cs := ⟨s.toList, by simp⟩
  rw [rstripSlash, String.toList_ofList]
  induction cs using List.reverseRecOn with
  | nil => rfl
  | append_singleton cs c ih =>
    by_cases hc : c = '/'
    · have hcut : String.ofList (cs ++ ['/']) = String.ofList cs ++ "/" := by
        rw [String.ofList_append]
      rw [hc, List.rdropWhile_concat_pos _ _ _ (by simp), ih, hcut, parts_slash]
    · rw [List.rdropWhile_concat_neg _ _ _ (by simpa using hc)]

theorem lastName_eq (cs : List Char) :
    (cs.splitOn '/').getLast?.getD [] = cs.rtakeWhile (fun c => c ≠ '/') := by
  have hsplit := List.rdropWhile_append_rtakeWhile (p := fun c : Char => decide (c ≠ '/')) (l := cs)
  have htail : '/' ∉ cs.rtakeWhile (fun c => c ≠ '/') := fun h => by
    simpa using List.mem_rtakeWhile_imp h
  generalize cs.rtakeWhile (fun c => decide (c ≠ '/')) = t at *
  have hlast := List.rdropWhile_last_not (fun c : Char => decide (c ≠ '/')) cs
  generalize cs.rdropWhile (fun c => decide (c ≠ '/')) = d at *
  subst hsplit
  rcases List.eq_nil_or_concat d with rfl | ⟨d', c, rfl⟩
  · rw [List.nil_append, List.splitOn_eq_singleton htail]
    rfl
  · have hc : c = '/' := by simpa using hlast (by simp)
    rw [hc, List.concat_eq_append, List.append_assoc, List.singleton_append,
      List.splitOn_append_cons_self, List.splitOn_eq_singleton htail]
    simp

theorem basename_eq (s : String) :
    basename s = String.ofList ((rstripSlash s).toList.rtakeWhile (fun c => c ≠ '/')) := by
  rw [← lastName_eq, rstripSlash, String.toList_ofList]
  rfl

theorem parts_dirname (p : String) : parts (dirname p ++ "/") ++
    parts (String.ofList (p.toList.rtakeWhile (fun c => c ≠ '/'))) = parts p := by
  have hsplit := List.rdropWhile_append_rtakeWhile (p := fun c : Char => decide (c ≠ '/'))
    (l := p.toList)
  have hlast := List.rdropWhile_last_not (fun c : Char => decide (c ≠ '/')) p.toList
  have hdir : parts (dirname p ++ "/") =
      parts (String.ofList (p.toList.rdropWhile (fun c => c ≠ '/'))) := by
    rw [parts_slash, dirname]
    split
    · rfl
    · exact parts_rstripSlash _
  have htext : p = String.ofList p.toList := by simp
  conv_rhs => rw [htext, ← hsplit]
  rw [hdir]
  generalize p.toList.rtakeWhile (fun c => decide (c ≠ '/')) = t at *
  generalize p.toList.rdropWhile (fun c => decide (c ≠ '/')) = d at *
  rcases List.eq_nil_or_concat d with rfl | ⟨d', c, rfl⟩
  · simp [parts]
  · have hc : c = '/' := by simpa using hlast (by simp)
    have hhead : String.ofList (d'.concat c) = String.ofList d' ++ "/" := by
      rw [hc, List.concat_eq_append, String.ofList_append]
    have hall : String.ofList (d'.concat c ++ t) =
        String.ofList d' ++ "/" ++ String.ofList t := by
      rw [String.ofList_append, hhead]
    rw [hhead, hall, parts_slash, parts_append]

/-- The fetched tree has a name of its own, and is not written over by the progress log. -/
structure Relays (leg : FleetLeg α) : Prop where
  named : parts (basename leg.fetch) = [basename leg.fetch]
  down : basename leg.fetch ≠ ".."
  unlogged : leg.streamProgress = true → basename leg.fetch ≠ progressLog

variable {leg : FleetLeg α} {workDir : String}

theorem rstripSlash_twice (s : String) : rstripSlash (rstripSlash s) = rstripSlash s := by
  simp only [rstripSlash, String.toList_ofList, List.rdropWhile_idempotent]

theorem basename_rstripSlash (s : String) : basename (rstripSlash s) = basename s := by
  rw [basename_eq, basename_eq, rstripSlash_twice]

theorem rstripSlash_under (w : String) {f : String} (hf : rstripSlash f ≠ "") :
    rstripSlash (w ++ "/" ++ f) = w ++ "/" ++ rstripSlash f := by
  have hne : (f.toList.reverse.dropWhile (fun c => decide (c = '/'))).isEmpty = false := by
    rw [List.isEmpty_eq_false_iff]
    intro hnil
    exact hf (by rw [rstripSlash, List.rdropWhile, hnil]; rfl)
  have htext : (w ++ "/" ++ f).toList = (w.toList ++ ['/']) ++ f.toList := by simp
  rw [rstripSlash, htext, List.rdropWhile, List.reverse_append, List.dropWhile_append, hne]
  simp [rstripSlash, List.rdropWhile, String.ofList_append, String.append_assoc]

theorem basename_under (w : String) {f : String} (h : basename f ≠ "") :
    basename (rstripSlash (w ++ "/" ++ f)) = basename f := by
  have hf : rstripSlash f ≠ "" := fun hnil => h (by rw [basename_eq, hnil]; rfl)
  have htext : (w ++ "/" ++ rstripSlash f).toList = w.toList ++ '/' :: (rstripSlash f).toList := by
    simp
  rw [basename_rstripSlash, basename_eq, basename_eq, rstripSlash_under w hf, htext,
    ← lastName_eq, ← lastName_eq, List.splitOn_append_cons_self]
  cases hs : (rstripSlash f).toList.splitOn '/' with
  | nil => exact absurd hs (List.splitOn_ne_nil _ _)
  | cons a as => simp [List.getLast?_cons]

theorem basename_remotePath (workDir : String) (h : basename leg.fetch ≠ "") :
    basename (remotePath workDir leg) = basename leg.fetch := by
  unfold remotePath
  split
  · exact basename_rstripSlash _
  · exact basename_under workDir h

theorem Relays.name_ne (h : Relays leg) : basename leg.fetch ≠ "" := by
  intro hnil
  have hnamed := h.named
  rw [hnil] at hnamed
  simp [parts] at hnamed

theorem Relays.restorePlace_eq (h : Relays leg) (workDir : String) :
    restorePlace workDir leg = remotePlace workDir leg := by
  have hlast := basename_eq (remotePath workDir leg)
  rw [basename_remotePath workDir h.name_ne, remotePath, rstripSlash_twice, ← remotePath] at hlast
  rw [remotePlace, ← parts_dirname, ← hlast, restorePlace, remoteParent, localName, localPlace,
    h.named, List.getLast?_append]
  rfl

/-- A leg with the files of its hosts: `boxes` are those that its command was started on, in
order, so that those of a resumable leg are in step with its pullers; `next` is the host that
is being set up, and `landing` where the copy of `_restore` lands on it, if one has begun. -/
structure Handover (α : Type) where
  leg : LegState α
  boxes : List (Disk α) := []
  next : Disk α := Python.Dict.empty
  landing : Option Path := none

/-- A host comes with these files; `_restore` begins its copy, and has copied a file; the
payload on a host has written a file of the fetched tree. -/
inductive HandEvent (α : Type) where
  | leg (e : LegEvent α)
  | arrived (box : Disk α)
  | restoring
  | sent (q : Path) (c : α)
  | computed (i : Nat) (q : Path) (c : α)

def putFile (d : Disk α) (p : Path) (c : α) : Option (Disk α) :=
  run d [.mkdir p.dropLast, .replace p c]

def isDirectory (d : Disk α) (p : Path) : Bool := (d p).any (fun e => !e.isFile)

def hasFile (d : Disk α) (p : Path) : Bool := (d p).any Entry.isFile

/-- `scp -r` puts `local` into a directory, and makes a copy of it where there is none. -/
def landingOf (workDir : String) (leg : FleetLeg α) (next : Disk α) : Path :=
  if isDirectory next (remoteParent workDir leg) then restorePlace workDir leg
  else remoteParent workDir leg

def fromBox (workDir : String) (leg : FleetLeg α) (box : Disk α) (landed : DirTree α) : Bool :=
  landed.files.all fun k => match k.1 with
    | [] => false
    | n :: q => n = basename (remotePath workDir leg) && hasFile box (remotePlace workDir leg ++ q)

/-- The payload of a resumable leg skips what exists, and writes atomically. A transfer may
break off: neither `_fetch` nor `_restore` looks at the code that `scp` returns. -/
def Handover.step (ex : Executor α) (workDir : String) (leg : FleetLeg α) (s : Handover α) :
    HandEvent α → Option (Handover α)
  | .arrived box => match s.leg.phase with
    | .renting => some { s with next := box, landing := none }
    | _ => none
  | .restoring => match s.leg.phase with
    | .renting =>
      if leg.resumable && leg.fetch ≠ "" && (s.leg.disk (localPlace leg)).isSome then
        some { s with landing := some (landingOf workDir leg s.next) }
      else none
    | _ => none
  | .sent q c => match s.leg.phase, s.landing with
    | .renting, some place =>
      if hasFile s.leg.disk (localPlace leg ++ q) then
        (putFile s.next (place ++ q) c).map (fun next => { s with next })
      else none
    | _, _ => none
  | .computed i q c => match s.boxes[i]? with
    | some box =>
      if (box (remotePlace workDir leg ++ q)).isNone then
        (putFile box (remotePlace workDir leg ++ q) c).map (fun box =>
          { s with boxes := s.boxes.set i box })
      else none
    | none => none
  | .leg .offered => (s.leg.step ex leg .offered).map (fun l =>
      { s with leg := l, next := Python.Dict.empty, landing := none })
  | .leg .started => (s.leg.step ex leg .started).map (fun l =>
      { s with leg := l, boxes := s.boxes ++ [s.next] })
  | .leg (.copied landed) =>
    if s.boxes.getLast?.any (fun box => fromBox workDir leg box landed) then
      (s.leg.step ex leg (.copied landed)).map (fun l => { s with leg := l })
    else none
  | .leg (.pull i (.copied landed)) =>
    if s.boxes[i]?.any (fun box => fromBox workDir leg box landed) then
      (s.leg.step ex leg (.pull i (.copied landed))).map (fun l => { s with leg := l })
    else none
  | .leg e => (s.leg.step ex leg e).map (fun l => { s with leg := l })

theorem putFile_self {d d' : Disk α} {p : Path} {c : α} (h : putFile d p c = some d') :
    d' p = some (.file c) := run_replaced h (by simp) (by simp)

theorem putFile_keeps {d d' : Disk α} {p q : Path} {c c' : α} (h : putFile d p c = some d')
    (hq : d q = some (.file c')) (hne : q ≠ p) : d' q = some (.file c') :=
  run_keeps_file h hq (by simp [hne])

theorem putFile_origin {d d' : Disk α} {p q : Path} {c c' : α} (h : putFile d p c = some d')
    (hq : d' q = some (.file c')) : d q = some (.file c') ∨ q = p ∧ c' = c := by
  rcases run_file_origin h hq with hold | hin
  · exact .inl hold
  · exact .inr (by simpa using hin)

theorem hasFile_iff {d : Disk α} {p : Path} :
    hasFile d p = true ↔ ∃ c, d p = some (.file c) := by
  unfold hasFile
  cases d p with
  | none => simp
  | some e => cases e <;> simp [Entry.isFile]

def LegEvent.hosted : LegEvent α → Bool
  | .offered | .started | .copied _ | .pull _ (.copied _) => true
  | _ => false

inductive HandStep (ex : Executor α) (workDir : String) (leg : FleetLeg α) (s : Handover α) :
    HandEvent α → Handover α → Prop
  | arrived (box : Disk α) (phase : s.leg.phase = .renting) :
      HandStep ex workDir leg s (.arrived box) { s with next := box, landing := none }
  | restoring (phase : s.leg.phase = .renting) :
      HandStep ex workDir leg s .restoring
        { s with landing := some (landingOf workDir leg s.next) }
  | sent (q : Path) (c : α) (place : Path) (next : Disk α) (phase : s.leg.phase = .renting)
      (landing : s.landing = some place) (there : hasFile s.leg.disk (localPlace leg ++ q) = true)
      (put : putFile s.next (place ++ q) c = some next) :
      HandStep ex workDir leg s (.sent q c) { s with next }
  | computed (i : Nat) (q : Path) (c : α) (box box' : Disk α) (mem : s.boxes[i]? = some box)
      (missing : box (remotePlace workDir leg ++ q) = none)
      (put : putFile box (remotePlace workDir leg ++ q) c = some box') :
      HandStep ex workDir leg s (.computed i q c) { s with boxes := s.boxes.set i box' }
  | offered (l : LegState α) (step : s.leg.step ex leg .offered = some l) :
      HandStep ex workDir leg s (.leg .offered)
        { s with leg := l, next := Python.Dict.empty, landing := none }
  | started (l : LegState α) (step : s.leg.step ex leg .started = some l) :
      HandStep ex workDir leg s (.leg .started) { s with leg := l, boxes := s.boxes ++ [s.next] }
  | brought (landed : DirTree α) (l : LegState α) (box : Disk α)
      (last : s.boxes.getLast? = some box) (from_ : fromBox workDir leg box landed = true)
      (step : s.leg.step ex leg (.copied landed) = some l) :
      HandStep ex workDir leg s (.leg (.copied landed)) { s with leg := l }
  | pulled (i : Nat) (landed : DirTree α) (l : LegState α) (box : Disk α)
      (mem : s.boxes[i]? = some box) (from_ : fromBox workDir leg box landed = true)
      (step : s.leg.step ex leg (.pull i (.copied landed)) = some l) :
      HandStep ex workDir leg s (.leg (.pull i (.copied landed))) { s with leg := l }
  | other (e : LegEvent α) (l : LegState α) (plain : e.hosted = false)
      (step : s.leg.step ex leg e = some l) :
      HandStep ex workDir leg s (.leg e) { s with leg := l }

variable {ex : Executor α} {s s' : Handover α} {e : HandEvent α}

theorem hand_step (h : s.step ex workDir leg e = some s') : HandStep ex workDir leg s e s' := by
  cases e with
  | arrived box =>
    simp only [Handover.step] at h
    split at h <;> cases h
    exact .arrived _ ‹_›
  | restoring =>
    simp only [Handover.step] at h
    split at h
    · split at h <;> cases h
      exact .restoring ‹_›
    · cases h
  | sent q c =>
    simp only [Handover.step] at h
    split at h
    · rename_i place hphase hlanding
      split at h
      · rename_i hthere
        obtain ⟨next, hput, rfl⟩ := Option.map_eq_some_iff.mp h
        exact .sent q c place next hphase hlanding hthere hput
      · cases h
    · cases h
  | computed i q c =>
    simp only [Handover.step] at h
    split at h
    · rename_i box hbox
      split at h
      · rename_i hmissing
        obtain ⟨box', hput, rfl⟩ := Option.map_eq_some_iff.mp h
        exact .computed i q c box box' hbox (Option.isNone_iff_eq_none.mp hmissing) hput
      · cases h
    · cases h
  | leg e =>
    cases e with
    | offered =>
      obtain ⟨l, hstep, rfl⟩ := Option.map_eq_some_iff.mp h
      exact .offered l hstep
    | started =>
      obtain ⟨l, hstep, rfl⟩ := Option.map_eq_some_iff.mp h
      exact .started l hstep
    | copied landed =>
      simp only [Handover.step] at h
      split at h
      · rename_i hfrom
        obtain ⟨box, hlast, hfrom⟩ := (Option.any_eq_true _ _).mp hfrom
        obtain ⟨l, hstep, rfl⟩ := Option.map_eq_some_iff.mp h
        exact .brought _ l box hlast hfrom hstep
      · cases h
    | pull i e =>
      cases e with
      | copied landed =>
        simp only [Handover.step] at h
        split at h
        · rename_i hfrom
          obtain ⟨box, hmem, hfrom⟩ := (Option.any_eq_true _ _).mp hfrom
          obtain ⟨l, hstep, rfl⟩ := Option.map_eq_some_iff.mp h
          exact .pulled _ _ l box hmem hfrom hstep
        · cases h
      | _ =>
        obtain ⟨l, hstep, rfl⟩ := Option.map_eq_some_iff.mp h
        exact .other _ l rfl hstep
    | _ =>
      obtain ⟨l, hstep, rfl⟩ := Option.map_eq_some_iff.mp h
      exact .other _ l rfl hstep

theorem stock_keeps (h : s.step ex workDir leg e = some s') {p : Path}
    (hp : hasFile s.leg.disk p = true) : hasFile s'.leg.disk p = true := by
  have hleg : ∀ {e : LegEvent α} {l : LegState α}, s.leg.step ex leg e = some l →
      hasFile l.disk p = true := by
    intro e l hstep
    obtain ⟨ops, hrun⟩ := step_runs hstep
    obtain ⟨c, hfile⟩ := hasFile_iff.mp hp
    exact hasFile_iff.mpr (run_keeps_some_file hrun hfile)
  cases hand_step h with
  | offered l step => exact hleg step
  | started l step => exact hleg step
  | brought landed l box last from_ step => exact hleg step
  | pulled i landed l box mem from_ step => exact hleg step
  | other e l plain step => exact hleg step
  | _ => exact hp

/-- Host `i` has this file. -/
def Handover.Holds (s : Handover α) (i : Nat) (p : Path) (c : α) : Prop :=
  ∃ box, s.boxes[i]? = some box ∧ box p = some (.file c)

theorem box_keeps (h : s.step ex workDir leg e = some s') {i : Nat} {p : Path} {c : α}
    (hp : s.Holds i p c) : s'.Holds i p c := by
  obtain ⟨box, hbox, hfile⟩ := hp
  cases hand_step h with
  | started l step =>
    have hi := (List.getElem?_eq_some_iff.mp hbox).1
    exact ⟨box, by rw [List.getElem?_append_left hi, hbox], hfile⟩
  | computed j q c' boxj box' mem missing put =>
    by_cases hij : j = i
    · subst hij
      rw [mem] at hbox
      cases hbox
      have hne : p ≠ remotePlace workDir leg ++ q := by
        intro heq
        rw [heq, missing] at hfile
        cases hfile
      have hj := (List.getElem?_eq_some_iff.mp mem).1
      exact ⟨box', List.getElem?_set_self hj, putFile_keeps put hfile hne⟩
    · exact ⟨box, by rw [List.getElem?_set_ne hij, hbox], hfile⟩
  | _ => exact ⟨box, hbox, hfile⟩

def Restored (workDir : String) (leg : FleetLeg α) (s : Handover α) : Prop :=
  ∀ q, hasFile s.leg.disk (localPlace leg ++ q) = true →
    hasFile s.next (restorePlace workDir leg ++ q) = true

theorem restored_iff {workDir : String} {leg : FleetLeg α} {s : Handover α} :
    Restored workDir leg s ↔ ∀ k ∈ filesBelow (localPlace leg) s.leg.disk,
      hasFile s.next (restorePlace workDir leg ++ k.1) = true := by
  rw [forall_below (P := fun q _ => hasFile s.next (restorePlace workDir leg ++ q) = true)]
  refine forall_congr' fun q => ?_
  rw [hasFile_iff, forall_exists_index]

instance (workDir : String) (leg : FleetLeg α) (s : Handover α) :
    Decidable (Restored workDir leg s) := decidable_of_iff _ restored_iff.symm

def HandEvent.starts : HandEvent α → Bool
  | .leg .started => true
  | _ => false

/-- Every start is one of a host that the tree was restored on. -/
def StartsRestored (workDir : String) (leg : FleetLeg α) (s : Handover α) (e : HandEvent α) :
    Prop :=
  e.starts = true → Restored workDir leg s

instance (workDir : String) (leg : FleetLeg α) (s : Handover α) (e : HandEvent α) :
    Decidable (StartsRestored workDir leg s e) :=
  inferInstanceAs (Decidable (e.starts = true → Restored workDir leg s))

def computes (q : Path) : HandEvent α → Bool
  | .computed _ q' _ => q' = q
  | _ => false

/-- The hosts without the file `q` of the fetched tree. -/
def Handover.missing (workDir : String) (leg : FleetLeg α) (q : Path) (s : Handover α) : Nat :=
  s.boxes.countP fun box => !hasFile box (remotePlace workDir leg ++ q)

/-- A host is started while the leg directory does not have the file `q`. -/
def startsBare (leg : FleetLeg α) (q : Path) (s : Handover α) (e : HandEvent α) : Nat :=
  if e.starts && !hasFile s.leg.disk (localPlace leg ++ q) then 1 else 0

def bareStarts (ex : Executor α) (workDir : String) (leg : FleetLeg α) (q : Path) :
    Handover α → List (HandEvent α) → Nat
  | _, [] => 0
  | s, e :: events => startsBare leg q s e +
      match s.step ex workDir leg e with
      | some s₁ => bareStarts ex workDir leg q s₁ events
      | none => 0

theorem put_missing {workDir : String} {leg : FleetLeg α} {q q' : Path} {box box' : Disk α} {c : α}
    (hnone : box (remotePlace workDir leg ++ q') = none)
    (hput : putFile box (remotePlace workDir leg ++ q') c = some box') :
    (if q' = q then 1 else 0) +
        (if !hasFile box' (remotePlace workDir leg ++ q) then 1 else 0) ≤
      if !hasFile box (remotePlace workDir leg ++ q) then 1 else 0 := by
  by_cases hq : q' = q
  · have hbefore : hasFile box (remotePlace workDir leg ++ q) = false := by
      simp [hasFile, ← hq, hnone]
    have hafter : hasFile box' (remotePlace workDir leg ++ q) = true :=
      hasFile_iff.mpr ⟨c, hq ▸ putFile_self hput⟩
    simp [hbefore, hafter, hq]
  · cases hbefore : hasFile box (remotePlace workDir leg ++ q) with
    | false =>
      simp only [if_neg hq, Bool.not_false, if_true, Nat.zero_add]
      split <;> simp
    | true =>
      obtain ⟨c', hfile⟩ := hasFile_iff.mp hbefore
      have hne : remotePlace workDir leg ++ q ≠ remotePlace workDir leg ++ q' :=
        fun heq => hq (List.append_cancel_left heq).symm
      have hafter : hasFile box' (remotePlace workDir leg ++ q) = true :=
        hasFile_iff.mpr ⟨c', putFile_keeps hput hfile hne⟩
      simp [hafter, hq]

/-- A payload computes a file on a host without it, and a host comes to be without it only by
a start while the leg directory is. -/
theorem step_missing (hleg : Relays leg) (h : s.step ex workDir leg e = some s')
    (hrest : StartsRestored workDir leg s e) (q : Path) :
    (if computes q e then 1 else 0) + s'.missing workDir leg q ≤
      s.missing workDir leg q + startsBare leg q s e := by
  cases hand_step h with
  | computed i q' c box box' mem missing put =>
    obtain ⟨hi, hget⟩ := List.getElem?_eq_some_iff.mp mem
    have hcost := put_missing (q := q) missing put
    have hin : (if !hasFile box (remotePlace workDir leg ++ q) then 1 else 0) ≤
        s.missing workDir leg q := by
      split
      · rename_i hbox
        exact List.countP_pos_iff.mpr ⟨box, List.mem_of_getElem? mem, hbox⟩
      · exact Nat.zero_le _
    have hset := List.countP_set (p := fun box => !hasFile box (remotePlace workDir leg ++ q))
      (l := s.boxes) (i := i) (a := box') hi
    rw [hget] at hset
    simp only [Handover.missing, computes, startsBare, HandEvent.starts, decide_eq_true_eq,
      Bool.false_and, Bool.false_eq_true, if_false] at hin ⊢
    omega
  | started l step =>
    have hnext : (if !hasFile s.next (remotePlace workDir leg ++ q) then 1 else 0) ≤
        startsBare leg q s (.leg .started) := by
      unfold startsBare
      cases hstock : hasFile s.leg.disk (localPlace leg ++ q) with
      | false => split <;> simp [HandEvent.starts]
      | true =>
        have hhas := hrest rfl q hstock
        rw [hleg.restorePlace_eq] at hhas
        simp [hhas]
    simp only [Handover.missing, computes, List.countP_append, List.countP_singleton] at hnext ⊢
    simpa using hnext
  | offered l step => simp [Handover.missing, computes]
  | other e l plain step => simp [Handover.missing, computes]
  | _ => simp [Handover.missing, computes]

/-- The number of times that a file of the fetched tree is computed is at most that of the
hosts that were without it, and of the starts of a host while the leg directory was. Once it
is in the leg directory it stays there, and no such start comes any more. -/
theorem work_bounded (hleg : Relays leg) {events : List (HandEvent α)}
    (h : exec (Handover.step ex workDir leg) s events = some s')
    (hrest : Along (StartsRestored workDir leg) (Handover.step ex workDir leg) s events)
    (q : Path) :
    events.countP (computes q) ≤
        s.missing workDir leg q + bareStarts ex workDir leg q s events ∧
      (hasFile s.leg.disk (localPlace leg ++ q) = true →
        bareStarts ex workDir leg q s events = 0 ∧
          hasFile s'.leg.disk (localPlace leg ++ q) = true) := by
  induction events generalizing s with
  | nil =>
    cases h
    exact ⟨Nat.zero_le _, fun hstock => ⟨rfl, hstock⟩⟩
  | cons e events ih =>
    obtain ⟨s₁, hstep, hlater⟩ := exec_cons_some h
    obtain ⟨hbound, hstays⟩ := ih hlater (hrest.2 s₁ hstep)
    have hcost := step_missing hleg hstep hrest.1 q
    rw [bareStarts, hstep, List.countP_cons]
    refine ⟨by dsimp only; omega, fun hstock => ?_⟩
    obtain ⟨hbare, hthere⟩ := hstays (stock_keeps hstep hstock)
    refine ⟨?_, hthere⟩
    have hnone : startsBare leg q s e = 0 := by simp [startsBare, hstock]
    simp [hnone, hbare]

/-- `run` has started the leg over the leg directory that there is. -/
def Handover.begin (d : Disk α) : Handover α where
  leg := { disk := d, phase := .queued }

def freshBox : Disk String := (Python.Dict.empty.set [] .dir).set ["root"] .dir

def pulledTree (text : String) : DirTree String where
  forest := .dir "out" (.file "field.npz" text .nil) .nil
  wf := by simp [Forest.WF, Forest.names]

def hostLost : Raised :=
  ⟨⟨.hostProbeFailed, none, "host 1 died mid-run: exited"⟩, "HostProbeFailed"⟩

/-- A host has computed the array, of which `text` was pulled before it was lost. -/
def lostHost (text : String) : List (HandEvent String) :=
  [.leg .offered, .arrived freshBox, .leg .started, .computed 0 ["field.npz"] "array"] ++
    [.began, .copied (pulledTree text), .moved, .moved, .moved, .moved].map (fun e =>
      .leg (.pull 0 e)) ++ [.leg (.raised hostLost)]

def setUp (text : String) : List (HandEvent String) :=
  [.leg .offered, .arrived freshBox, .restoring, .sent ["field.npz"] text]

def twoHosts : List (HandEvent String) :=
  lostHost "array" ++ setUp "array" ++ [.leg .started, .computed 1 ["manifest.json"] "done"]

def afterTwoHosts : Handover String :=
  (exec (Handover.step lenient "/root" pulledLeg) (.begin Python.Dict.empty) twoHosts).get
    (by decide +kernel)

theorem pulledLeg_relays : Relays pulledLeg :=
  ⟨by decide +kernel, by decide +kernel, by decide +kernel⟩

theorem twoHosts_bounded : twoHosts.countP (computes ["field.npz"]) ≤ 1 := by
  have hrun : exec (Handover.step lenient "/root" pulledLeg) (.begin Python.Dict.empty) twoHosts =
      some afterTwoHosts := (Option.some_get _).symm
  have hbare : bareStarts lenient "/root" pulledLeg ["field.npz"] (.begin Python.Dict.empty)
      twoHosts = 1 := by decide +kernel
  have hbound := (work_bounded pulledLeg_relays hrun (by decide +kernel) ["field.npz"]).1
  rw [hbare] at hbound
  exact hbound

end RunFarm
