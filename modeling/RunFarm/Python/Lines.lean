import Mathlib.Data.List.DropRight
import RunFarm.Python.Coerce
import RunFarm.Python.JsonText

/-! The lines of a text that others have written a part of, and `s.strip()`. -/
set_option autoImplicit false

namespace Python

def Unbroken (cs : List Char) : Prop := ∀ c ∈ cs, isLineBreak c = false

instance (cs : List Char) : Decidable (Unbroken cs) :=
  List.decidableBAll (isLineBreak · = false) cs

theorem unbroken_text {I : Interp} {R : FloatReader I} {j : Json} (h : j.known R) :
    Unbroken (j.text I) := by
  intro c hc
  obtain ⟨hlow, hhigh⟩ := printable_text h c hc
  by_contra hbreak
  rw [Bool.not_eq_false, isLineBreak, decide_eq_true_eq] at hbreak
  simp only [List.mem_cons, List.not_mem_nil, or_false] at hbreak
  rcases hbreak with rfl | rfl | rfl | rfl | rfl | rfl | rfl | rfl | rfl | rfl
  all_goals first
    | exact absurd hlow (by decide)
    | exact absurd hhigh (by decide)

def EndsLine (cs : List Char) : Prop := ∀ c ∈ cs.getLast?, isLineBreak c

instance (cs : List Char) : Decidable (EndsLine cs) :=
  Option.decidableForallMem cs.getLast?

theorem linesFrom_newline (line cs : List Char) :
    linesFrom line ('\n' :: cs) = String.ofList line.reverse :: linesFrom [] cs := by
  rw [linesFrom, if_pos (by decide)]
  exact fun _ h => nomatch h

theorem linesFrom_cons {c : Char} (h : isLineBreak c = false) (line cs : List Char) :
    linesFrom line (c :: cs) = linesFrom (c :: line) cs := by
  rw [linesFrom, if_neg (by rw [h]; exact Bool.false_ne_true)]
  rintro cs' rfl
  cases h

theorem linesFrom_unbroken {cs : List Char} (h : Unbroken cs) (line rest : List Char) :
    linesFrom line (cs ++ rest) = linesFrom (cs.reverse ++ line) rest := by
  induction cs generalizing line with
  | nil => rfl
  | cons c cs ih =>
    have hc := h c List.mem_cons_self
    have hcs : Unbroken cs := fun d hd => h d (List.mem_cons_of_mem _ hd)
    rw [List.cons_append, linesFrom_cons hc, ih hcs, List.reverse_cons, List.append_assoc]
    rfl

theorem linesFrom_line {cs : List Char} (h : Unbroken cs) (line rest : List Char) :
    linesFrom line (cs ++ '\n' :: rest) =
      String.ofList (line.reverse ++ cs) :: linesFrom [] rest := by
  rw [linesFrom_unbroken h, linesFrom_newline, List.reverse_append, List.reverse_reverse]

theorem linesFrom_last {cs : List Char} (h : Unbroken cs) :
    linesFrom [] cs = if cs.isEmpty then [] else [String.ofList cs] := by
  have hlines := linesFrom_unbroken h [] []
  rw [List.append_nil, List.append_nil] at hlines
  rw [hlines, linesFrom, List.isEmpty_reverse, List.reverse_reverse]

/-- Lines that are ended, and what there is of one that is not, last character first: the rest of
the text goes on from there. -/
structure Leaves (line cs : List Char) (whole : List String) (part : List Char) : Prop where
  goesOn : ∀ ds : List Char, ds.head? ≠ some '\n' →
    linesFrom line (cs ++ ds) = whole ++ linesFrom part ds
  part_nil : part = [] ↔ EndsLine cs ∧ (cs = [] → line = [])

theorem endsLine_cons {c : Char} {cs : List Char} (h : cs ≠ []) :
    EndsLine (c :: cs) ↔ EndsLine cs := by
  rw [EndsLine, List.getLast?_cons_of_ne_nil h]
  rfl

theorem linesFrom_break {c : Char} (hbreak : isLineBreak c) (line : List Char) {cs ds : List Char}
    (hpair : ∀ cs', ¬ (c = '\r' ∧ cs = '\n' :: cs')) (hds : ds.head? ≠ some '\n') :
    linesFrom line (c :: (cs ++ ds)) = String.ofList line.reverse :: linesFrom [] (cs ++ ds) := by
  rw [linesFrom, if_pos hbreak]
  rintro cs' rfl heq
  cases cs with
  | nil =>
    rw [List.nil_append] at heq
    rw [heq] at hds
    exact hds rfl
  | cons d cs =>
    obtain ⟨rfl, -⟩ := List.cons.inj heq
    exact hpair cs ⟨rfl, rfl⟩

theorem leaves (line cs : List Char) : ∃ whole part, Leaves line cs whole part := by
  induction line, cs using linesFrom.induct with
  | case1 line hline => exact ⟨[], line, fun _ _ => rfl, by simp [EndsLine]⟩
  | case2 line hline => exact ⟨[], line, fun _ _ => rfl, by simp [EndsLine]⟩
  | case3 line cs ih =>
    obtain ⟨whole, part, hgoes, hnil⟩ := ih
    refine ⟨String.ofList line.reverse :: whole, part, fun ds hds => ?_, ?_⟩
    · rw [List.cons_append, List.cons_append, linesFrom, hgoes ds hds]
      rfl
    · rw [hnil, endsLine_cons (List.cons_ne_nil _ _)]
      cases cs with
      | nil => simp [EndsLine, isLineBreak]
      | cons d cs => simp [endsLine_cons]
  | case4 line c cs hpair hbreak ih =>
    obtain ⟨whole, part, hgoes, hnil⟩ := ih
    refine ⟨String.ofList line.reverse :: whole, part, fun ds hds => ?_, ?_⟩
    · rw [List.cons_append, linesFrom_break hbreak line (fun cs' h => hpair cs' h.1 h.2) hds,
        hgoes ds hds]
      rfl
    · rw [hnil]
      cases cs with
      | nil => simp [EndsLine, hbreak]
      | cons d cs => simp [endsLine_cons]
  | case5 line c cs hpair hbreak ih =>
    obtain ⟨whole, part, hgoes, hnil⟩ := ih
    rw [Bool.not_eq_true] at hbreak
    refine ⟨whole, part, fun ds hds => ?_, ?_⟩
    · rw [List.cons_append, linesFrom_cons hbreak, hgoes ds hds]
    · rw [hnil]
      cases cs with
      | nil => simp [EndsLine, hbreak]
      | cons d cs => simp [endsLine_cons]

def isSpace (c : Char) : Bool :=
  isLineBreak c || c ∈ ['\t', '\x1f', ' ', '\u00a0', '\u1680', '\u202f', '\u205f', '\u3000'] ||
    '\u2000' ≤ c && c ≤ '\u200a'

def strip (cs : List Char) : List Char := (cs.dropWhile isSpace).rdropWhile isSpace

variable {c d : Char} {cs : List Char}

theorem strip_start (hc : isSpace c = false) : strip (c :: cs) <+: c :: cs := by
  rw [strip, List.dropWhile_cons_of_neg (by rw [hc]; exact Bool.false_ne_true)]
  exact List.rdropWhile_prefix _ _

theorem strip_ne_nil (hc : isSpace c = false) : strip (c :: cs) ≠ [] := by
  rw [strip, List.dropWhile_cons_of_neg (by rw [hc]; exact Bool.false_ne_true), ne_eq,
    List.rdropWhile_eq_nil_iff]
  intro hall
  rw [hall c List.mem_cons_self] at hc
  cases hc

theorem strip_between (hc : isSpace c = false) (hd : isSpace d = false) :
    strip (c :: (cs ++ [d])) = c :: (cs ++ [d]) := by
  rw [strip, List.dropWhile_cons_of_neg (by rw [hc]; exact Bool.false_ne_true), ← List.cons_append,
    List.rdropWhile_concat_neg _ _ _ (by rw [hd]; exact Bool.false_ne_true)]

end Python
