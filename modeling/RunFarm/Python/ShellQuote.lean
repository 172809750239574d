import RunFarm.Shell.Words

/-! `shlex.quote`. -/
set_option autoImplicit false

namespace Python
open Shell

/-- What `shlex` leaves unquoted, a word character of ASCII or one of these. -/
def isShlexSafe (c : Char) : Bool := c.isAlphanum || c = '_' || "@%+=:,./-".toList.contains c

/-- `s.replace("'", "'\"'\"'")`, of one character. -/
def reopened (c : Char) : List Char :=
  if c = apostrophe then [apostrophe, '"', apostrophe, '"', apostrophe] else [c]

def shlexQuote (s : String) : List Char :=
  if s = "" then [apostrophe, apostrophe]
  else if s.toList.all isShlexSafe then s.toList
  else apostrophe :: (s.toList.flatMap reopened ++ [apostrophe])

theorem plain_of_safe {c : Char} (h : isShlexSafe c = true) : isPlain c = true := by
  rw [isShlexSafe, Bool.or_eq_true, Bool.or_eq_true] at h
  rw [isPlain, Bool.or_eq_true]
  rcases h with (h | h) | h
  · exact .inl h
  · exact .inr (by simpa using .inl (of_decide_eq_true h))
  · refine .inr ?_
    simp only [List.contains_eq_mem, decide_eq_true_eq] at h ⊢
    exact List.mem_cons_of_mem '_' h

theorem spellsQuoted_reopened {cs : List Char} (h : '\x00' ∉ cs) :
    SpellsQuoted (cs.flatMap reopened) cs := by
  induction cs with
  | nil => exact spellsQuoted_nil
  | cons c cs ih =>
    rw [List.mem_cons, not_or] at h
    have hc : SpellsQuoted (reopened c) [c] := by
      by_cases hquote : c = apostrophe
      · subst hquote
        exact spellsQuoted_apostrophe
      · rw [reopened, if_neg hquote]
        exact spellsQuoted_char (Ne.symm h.1) hquote
    exact hc.append (ih h.2)

theorem spells_shlexQuote {s : String} (h : '\x00' ∉ s.toList) :
    Spells (shlexQuote s) s.toList := by
  by_cases hempty : s = ""
  · subst hempty
    exact spellsQuoted_nil.closed
  · rw [shlexQuote, if_neg hempty]
    by_cases hsafe : s.toList.all isShlexSafe = true
    · rw [if_pos hsafe]
      refine spells_plain (fun hnil => hempty (String.toList_eq_nil_iff.mp hnil)) ?_
      exact List.all_eq_true.mpr fun c hc => plain_of_safe (List.all_eq_true.mp hsafe c hc)
    · rw [if_neg hsafe]
      exact (spellsQuoted_reopened h).closed

end Python
