import Mathlib.Data.List.Forall2
import Mathlib.Data.List.TakeWhile
import Mathlib.Logic.Function.Basic

/-! The words of a shell command. A text is read here only where the shell reads it as one simple
command with no expansion in it: on every other text the reading is `none`. -/
set_option autoImplicit false

namespace Shell

def apostrophe : Char := '\x27'

def backquote : Char := '\x60'

def isPlain (c : Char) : Bool :=
  c.isAlphanum || ['_', '@', '%', '+', '=', ':', ',', '.', '/', '-'].contains c

def isEscaped (c : Char) : Bool := ['$', backquote, '"', '\\'].contains c

inductive Quoting where
  | bare | single | double | bareEscape | doubleEscape
  deriving DecidableEq, Repr

/-- The words that have ended, and the one being read; it is `none` between two words. -/
structure Scan where
  quoting : Quoting := .bare
  word : Option (List Char) := none
  words : List (List Char) := []
  deriving DecidableEq, Repr

namespace Scan

def extend (s : Scan) (cs : List Char) : Scan := { s with word := some (s.word.getD [] ++ cs) }

def quoted (s : Scan) (q : Quoting) : Scan := { s.extend [] with quoting := q }

def blank (s : Scan) : Scan := { s with word := none, words := s.words ++ s.word.toList }

def stepBare (s : Scan) (c : Char) : Option Scan :=
  if c = ' ' ∨ c = '\t' then some s.blank
  else if c = apostrophe then some (s.quoted .single)
  else if c = '"' then some (s.quoted .double)
  else if c = '\\' then some { s with quoting := .bareEscape }
  else if isPlain c then some (s.extend [c])
  else none

def stepDouble (s : Scan) (c : Char) : Option Scan :=
  if c = '"' then some { s with quoting := .bare }
  else if c = '\\' then some { s with quoting := .doubleEscape }
  else if c = '$' ∨ c = backquote then none
  else some (s.extend [c])

def step (s : Scan) (c : Char) : Option Scan :=
  if c = '\x00' then none
  else match s.quoting with
    | .bare => s.stepBare c
    | .single =>
      if c = apostrophe then some { s with quoting := .bare } else some (s.extend [c])
    | .double => s.stepDouble c
    -- an escaped newline is no character of the text
    | .bareEscape =>
      some { (if c = '\n' then s else s.extend [c]) with quoting := .bare }
    | .doubleEscape =>
      some { (if isEscaped c then s.extend [c]
        else if c = '\n' then s else s.extend ['\\', c]) with quoting := .double }

def scan (s : Scan) (cs : List Char) : Option Scan := cs.foldlM step s

end Scan

def words (cs : List Char) : Option (List String) :=
  (Scan.scan {} cs).bind fun s =>
    if s.quoting = .bare then some ((s.words ++ s.word.toList).map String.ofList) else none

open Scan

theorem scan_append (s : Scan) (cs ds : List Char) :
    s.scan (cs ++ ds) = (s.scan cs).bind fun t => t.scan ds := List.foldlM_append

theorem extend_extend (s : Scan) (cs ds : List Char) :
    (s.extend cs).extend ds = s.extend (cs ++ ds) := by
  simp [extend]

@[simp] theorem quoting_extend (s : Scan) (cs : List Char) :
    (s.extend cs).quoting = s.quoting := rfl

def Spells (text word : List Char) : Prop :=
  ∀ s : Scan, s.quoting = .bare → s.scan text = some (s.extend word)

theorem Spells.append {text text' word word' : List Char} (h : Spells text word)
    (h' : Spells text' word') : Spells (text ++ text') (word ++ word') := by
  intro s hs
  rw [scan_append, h s hs, Option.bind_some, h' (s.extend word) hs, extend_extend]

theorem plain_ne {c : Char} (h : isPlain c = true) :
    c ≠ '\x00' ∧ c ≠ ' ' ∧ c ≠ '\t' ∧ c ≠ apostrophe ∧ c ≠ '"' ∧ c ≠ '\\' := by
  refine ⟨?_, ?_, ?_, ?_, ?_, ?_⟩ <;> rintro rfl <;> revert h <;> decide

theorem step_plain {s : Scan} (hs : s.quoting = .bare) {c : Char} (h : isPlain c = true) :
    s.step c = some (s.extend [c]) := by
  obtain ⟨hnul, hspace, htab, hsingle, hdouble, hback⟩ := plain_ne h
  simp [step, stepBare, hs, hnul, hspace, htab, hsingle, hdouble, hback, h]

theorem spells_char {c : Char} (h : isPlain c = true) : Spells [c] [c] := by
  intro s hs
  rw [scan, List.foldlM_cons, step_plain hs h]
  rfl

theorem spells_plain {cs : List Char} (hne : cs ≠ []) (h : cs.all isPlain = true) :
    Spells cs cs := by
  induction cs with
  | nil => exact absurd rfl hne
  | cons c cs ih =>
    rw [List.all_cons, Bool.and_eq_true] at h
    have hc := spells_char h.1
    cases cs with
    | nil => exact hc
    | cons d ds => exact hc.append (ih (List.cons_ne_nil d ds) h.2)

def SpellsQuoted (text word : List Char) : Prop :=
  ∀ s : Scan, s.quoting = .single → s.word.isSome → s.scan text = some (s.extend word)

theorem spellsQuoted_nil : SpellsQuoted [] [] := by
  rintro ⟨q, w, ws⟩ - hw
  obtain ⟨w, rfl⟩ := Option.isSome_iff_exists.mp hw
  simp [scan, extend]

theorem SpellsQuoted.append {text text' word word' : List Char} (h : SpellsQuoted text word)
    (h' : SpellsQuoted text' word') : SpellsQuoted (text ++ text') (word ++ word') := by
  intro s hs hw
  rw [scan_append, h s hs hw, Option.bind_some, h' (s.extend word) hs rfl, extend_extend]

theorem spellsQuoted_char {c : Char} (hnul : c ≠ '\x00') (h : c ≠ apostrophe) :
    SpellsQuoted [c] [c] := by
  intro s hs _
  simp [scan, step, hs, hnul, h]

theorem spellsQuoted_self {cs : List Char} (h : ∀ c ∈ cs, c ≠ '\x00' ∧ c ≠ apostrophe) :
    SpellsQuoted cs cs := by
  induction cs with
  | nil => exact spellsQuoted_nil
  | cons c cs ih =>
    obtain ⟨hnul, hquote⟩ := h c (List.mem_cons_self ..)
    exact (spellsQuoted_char hnul hquote).append (ih fun d hd => h d (List.mem_cons_of_mem c hd))

theorem spellsQuoted_apostrophe :
    SpellsQuoted [apostrophe, '"', apostrophe, '"', apostrophe] [apostrophe] := by
  intro s hs _
  simp [scan, step, stepBare, stepDouble, quoted, extend, apostrophe, backquote, hs]

theorem SpellsQuoted.closed {text word : List Char} (h : SpellsQuoted text word) :
    Spells (apostrophe :: (text ++ [apostrophe])) word := by
  intro s hs
  have hopen : s.scan [apostrophe] = some (s.quoted .single) := by
    simp [scan, step, stepBare, hs, apostrophe]
  have hclose : ((s.quoted .single).extend word).scan [apostrophe] = some (s.extend word) := by
    simp [scan, step, quoted, extend, apostrophe, hs]
  rw [← List.singleton_append, scan_append, hopen, Option.bind_some, scan_append,
    h (s.quoted .single) rfl rfl, Option.bind_some, hclose]

def line (texts : List (List Char)) : List Char := [' '].intercalate texts

theorem line_append {texts texts' : List (List Char)} (h : texts ≠ []) (h' : texts' ≠ []) :
    line (texts ++ texts') = line texts ++ ' ' :: line texts' := by
  induction texts with
  | nil => exact absurd rfl h
  | cons text texts ih =>
    cases texts with
    | nil =>
      obtain ⟨text', rest, rfl⟩ := List.exists_cons_of_ne_nil h'
      simp [line, List.intercalate_cons_cons]
    | cons next texts =>
      have hrest := ih (List.cons_ne_nil next texts)
      rw [List.cons_append, List.cons_append, line, List.intercalate_cons_cons, line,
        List.intercalate_cons_cons, List.append_assoc, List.append_assoc, List.append_assoc]
      exact congrArg (fun cs => text ++ ([' '] ++ cs)) hrest

theorem scan_line {texts spelled : List (List Char)} (h : List.Forall₂ Spells texts spelled)
    {s : Scan} (hs : s.quoting = .bare) (hword : s.word = none) :
    ∃ t, s.scan (line texts) = some t ∧ t.quoting = .bare ∧
      t.words ++ t.word.toList = s.words ++ spelled := by
  induction h generalizing s with
  | nil => exact ⟨s, rfl, hs, by simp [hword]⟩
  | @cons text word texts spelled htext hrest ih =>
    have hfirst := htext s hs
    cases hrest with
    | nil => exact ⟨s.extend word, by simpa [line] using hfirst, hs, by simp [extend, hword]⟩
    | @cons text' word' texts spelled htext' hrest' =>
      have hblank : (s.extend word).step ' ' = some (s.extend word).blank := by
        simp [step, stepBare, hs]
      obtain ⟨t, ht, hbare, hwords⟩ := ih (s := (s.extend word).blank) hs rfl
      refine ⟨t, ?_, hbare, hwords.trans (by simp [blank, extend, hword])⟩
      have hline : line (text :: text' :: texts) = text ++ ([' '] ++ line (text' :: texts)) := by
        rw [line, List.intercalate_cons_cons, List.append_assoc, line]
      rw [hline, scan_append, hfirst, Option.bind_some, scan_append]
      have hspace : (s.extend word).scan [' '] = some (s.extend word).blank := by
        rw [scan, List.foldlM_cons, hblank]
        rfl
      rw [hspace, Option.bind_some, ht]

theorem words_line {texts spelled : List (List Char)} (h : List.Forall₂ Spells texts spelled) :
    words (line texts) = some (spelled.map String.ofList) := by
  obtain ⟨t, ht, hbare, hwords⟩ := scan_line h (s := {}) rfl rfl
  rw [words, ht, Option.bind_some, if_pos hbare, hwords]
  rfl

abbrev Environ := String → Option String

def assignment (w : String) : Option (String × String) :=
  match w.toList.dropWhile (· ≠ '=') with
  | [] => none
  | _ :: value => some (String.ofList (w.toList.takeWhile (· ≠ '=')), String.ofList value)

def startsDash (w : String) : Bool := w.toList.head? = some '-'

/-- `env`: assignments, and then the program with its arguments. Its options are not read. -/
def env : List String → Environ → Option (Environ × List String)
  | [], _ => none
  | w :: ws, e =>
    if startsDash w then none
    else match assignment w with
      | some (name, value) => env ws (Function.update e name (some value))
      | none => some (e, w :: ws)

def reservedWords : List String :=
  ["!", "\x7b", "\x7d", "case", "do", "done", "elif", "else", "esac", "fi", "for", "if", "in",
    "then", "until", "while", "[[", "]]", "function", "select", "time", "coproc"]

def isProgram (w : String) : Bool :=
  w ≠ "" && !reservedWords.contains w && !w.toList.contains '=' && !startsDash w

/-- The program that a command starts, with its arguments and the environment it is given. -/
def started (e : Environ) (cs : List Char) : Option (Environ × List String) :=
  (words cs).bind fun ws =>
    match ws with
    | [] => none
    | w :: ws =>
      if !isProgram w then none
      else if w = "env" then env ws e
      else some (e, w :: ws)

theorem assignment_eq {name value : List Char} (h : '=' ∉ name) :
    assignment (String.ofList (name ++ '=' :: value)) =
      some (String.ofList name, String.ofList value) := by
  have hall : ∀ c ∈ name, decide (c ≠ '=') = true := fun c hc =>
    decide_eq_true fun heq => h (heq ▸ hc)
  rw [assignment, String.toList_ofList, List.takeWhile_append_of_pos hall,
    List.dropWhile_append_of_pos hall]
  simp

theorem assignment_program {w : String} (h : isProgram w = true) : assignment w = none := by
  have hno : ∀ c ∈ w.toList, decide (c ≠ '=') = true := by
    intro c hc
    refine decide_eq_true fun heq => ?_
    subst heq
    simp [isProgram, hc] at h
  rw [assignment, List.dropWhile_eq_nil_iff.mpr hno]

def assigned (e : Environ) (as : List (String × String)) : Environ :=
  as.foldl (fun e a => Function.update e a.1 (some a.2)) e

theorem env_assignments {as : List (String × String)} {assignments : List String}
    (h : List.Forall₂ (fun w a => startsDash w = false ∧ assignment w = some a) assignments as)
    {w : String} (hw : isProgram w = true) (ws : List String) (e : Environ) :
    env (assignments ++ w :: ws) e = some (assigned e as, w :: ws) := by
  induction h generalizing e with
  | nil =>
    have hdash : startsDash w = false := by
      simp only [isProgram, Bool.and_eq_true, Bool.not_eq_true'] at hw
      exact hw.2
    simp [env, hdash, assignment_program hw, assigned]
  | @cons word a words as ha _ ih =>
    rw [List.cons_append, env, if_neg (by simp [ha.1]), ha.2]
    exact ih (Function.update e a.1 (some a.2))

theorem assigned_lookup {as : List (String × String)} (h : (as.map Prod.fst).Nodup) (e : Environ)
    (name : String) : assigned e as name = (as.lookup name).or (e name) := by
  induction as generalizing e with
  | nil => rfl
  | cons a as ih =>
    rw [List.map_cons, List.nodup_cons] at h
    rw [assigned, List.foldl_cons]
    refine (ih h.2 _).trans ?_
    obtain ⟨first, value⟩ := a
    rw [List.lookup_cons]
    by_cases heq : name = first
    · have hnone : as.lookup name = none := by
        rw [List.lookup_eq_none_iff]
        intro b hb
        refine bne_iff_ne.mpr fun hsame => h.1 ?_
        exact List.mem_map.mpr ⟨b, hb, hsame.symm.trans heq⟩
      simp [← heq, hnone]
    · simp [beq_false_of_ne heq, heq, Function.update_of_ne]

end Shell
