import Mathlib.Data.List.TakeWhile
import RunFarm.Python.JsonText

/-! The quotes and the brackets of a text: what is cut or run together is no document. -/
set_option autoImplicit false

namespace Python

inductive StringMode where
  | outside | inside | escape
  deriving DecidableEq, Repr

structure TextScan where
  depth : Nat
  mode : StringMode
  deriving DecidableEq, Repr

/-- `none` where no document goes on so. -/
def scanChar (s : TextScan) (c : Char) : Option TextScan :=
  match s.mode with
  | .inside =>
    if c = '"' then some ⟨s.depth, .outside⟩
    else if c = '\\' then some ⟨s.depth, .escape⟩
    else some s
  | .escape => if c = 'u' ∨ (backslash c).isSome then some ⟨s.depth, .inside⟩ else none
  | .outside =>
    if c = '"' then some ⟨s.depth, .inside⟩
    else if c = '{' ∨ c = '[' then some ⟨s.depth + 1, .outside⟩
    else if c = '}' ∨ c = ']' then
      match s.depth with
      | 0 => none
      | d + 1 => some ⟨d, .outside⟩
    else if c = '\\' ∨ c = '_' then none
    else some s

def scanText (s : TextScan) : List Char → Option TextScan
  | [] => some s
  | c :: cs => (scanChar s c).bind fun s => scanText s cs

theorem scanText_append (s : TextScan) (cs ds : List Char) :
    scanText s (cs ++ ds) = (scanText s cs).bind fun s => scanText s ds := by
  induction cs generalizing s with
  | nil => rfl
  | cons c cs ih =>
    rw [List.cons_append, scanText, scanText, Option.bind_assoc]
    congr 1
    funext s
    exact ih s

theorem scanChar_deeper {d d' : Nat} {m m' : StringMode} {c : Char}
    (h : scanChar ⟨d, m⟩ c = some ⟨d', m'⟩) : scanChar ⟨d + 1, m⟩ c = some ⟨d' + 1, m'⟩ := by
  cases m <;> simp only [scanChar] at h ⊢ <;> split_ifs at h ⊢ <;> try simp_all
  cases d <;> simp_all

theorem scanText_deeper {cs : List Char} {d d' : Nat} {m m' : StringMode}
    (h : scanText ⟨d, m⟩ cs = some ⟨d', m'⟩) :
    scanText ⟨d + 1, m⟩ cs = some ⟨d' + 1, m'⟩ := by
  induction cs generalizing d m with
  | nil =>
    cases h
    rfl
  | cons c cs ih =>
    obtain ⟨⟨d₁, m₁⟩, hstep, hrest⟩ := Option.bind_eq_some_iff.mp h
    rw [scanText, scanChar_deeper hstep]
    exact ih hrest

def Neutral (cs : List Char) : Prop :=
  ∀ d, scanText ⟨d, .outside⟩ cs = some ⟨d, .outside⟩

def InString (cs : List Char) : Prop :=
  ∀ d, scanText ⟨d, .inside⟩ cs = some ⟨d, .inside⟩

theorem Neutral.append {cs ds : List Char} (hcs : Neutral cs) (hds : Neutral ds) :
    Neutral (cs ++ ds) := by
  intro d
  rw [scanText_append, hcs d]
  exact hds d

theorem InString.append {cs ds : List Char} (hcs : InString cs) (hds : InString ds) :
    InString (cs ++ ds) := by
  intro d
  rw [scanText_append, hcs d]
  exact hds d

def PlainChar (c : Char) : Prop :=
  c ≠ '"' ∧ c ≠ '{' ∧ c ≠ '[' ∧ c ≠ '}' ∧ c ≠ ']' ∧ c ≠ '\\' ∧ c ≠ '_'

instance (c : Char) : Decidable (PlainChar c) := by
  unfold PlainChar
  infer_instance

theorem neutral_plain {cs : List Char} (h : ∀ c ∈ cs, PlainChar c) : Neutral cs := by
  intro d
  induction cs with
  | nil => rfl
  | cons c cs ih =>
    rw [List.forall_mem_cons] at h
    obtain ⟨⟨hquote, hbrace, hbracket, hbrace', hbracket', hback, hline⟩, hcs⟩ := h
    simp only [scanText, scanChar, hquote, hbrace, hbracket, hbrace', hbracket', hback, hline,
      or_self, if_false, Option.bind_some]
    exact ih hcs

theorem inString_chars {cs : List Char} (h : ∀ c ∈ cs, c ≠ '"' ∧ c ≠ '\\') : InString cs := by
  intro d
  induction cs with
  | nil => rfl
  | cons c cs ih =>
    rw [List.forall_mem_cons] at h
    simp only [scanText, scanChar, h.1.1, h.1.2, if_false, Option.bind_some]
    exact ih h.2

theorem neutral_string {cs : List Char} (h : InString cs) : Neutral ('"' :: (cs ++ ['"'])) := by
  intro d
  have hstart : scanChar ⟨d, .outside⟩ '"' = some ⟨d, .inside⟩ := by simp [scanChar]
  rw [scanText, hstart, Option.bind_some, scanText_append, h d]
  simp [scanText, scanChar]

theorem neutral_brackets {cs : List Char} {o c : Char} (ho : o = '[' ∧ c = ']' ∨ o = '{' ∧ c = '}')
    (h : Neutral cs) : Neutral (o :: (cs ++ [c])) := by
  intro d
  have hstart : scanChar ⟨d, .outside⟩ o = some ⟨d + 1, .outside⟩ := by
    rcases ho with ⟨rfl, -⟩ | ⟨rfl, -⟩ <;> simp [scanChar]
  rw [scanText, hstart, Option.bind_some, scanText_append, h (d + 1)]
  rcases ho with ⟨-, rfl⟩ | ⟨-, rfl⟩ <;> simp [scanText, scanChar]

theorem inString_unitText {n : Nat} (h : n < 16 ^ 4) : InString (unitText n) := by
  have hdigits : InString (padded 16 4 n) := inString_chars fun c hc => by
    obtain ⟨d, hd, rfl⟩ := mem_padded (w := 3) (by decide) h hc
    have hall : ∀ i : Fin 16, i.val.digitChar ≠ '"' ∧ i.val.digitChar ≠ '\\' := by decide
    exact hall ⟨d, hd⟩
  intro d
  have hstart : ∀ cs, scanText ⟨d, .inside⟩ ('\\' :: 'u' :: cs) = scanText ⟨d, .inside⟩ cs := by
    intro cs
    simp [scanText, scanChar]
  rw [unitText, hstart]
  exact hdigits d

theorem backslash_escape {c e : Char} (h : shortEscape c = some e) : (backslash e).isSome := by
  rw [(backslash_short h).2]
  rfl

theorem inString_escapeChar (c : Char) : InString (escapeChar c) := by
  have hvalid := toNat_valid c
  unfold escapeChar
  cases hshort : shortEscape c with
  | some e =>
    intro d
    simp [scanText, scanChar, backslash_escape hshort]
  | none =>
    have hquote : c ≠ '"' := by
      rintro rfl
      cases hshort
    have hback : c ≠ '\\' := by
      rintro rfl
      cases hshort
    simp only []
    split
    · refine inString_chars fun e he => ?_
      rw [List.mem_singleton.mp he]
      exact ⟨hquote, hback⟩
    · split
      · exact inString_unitText (by omega)
      · exact (inString_unitText (by unfold highUnit; omega)).append
          (inString_unitText (by unfold lowUnit; omega))

theorem inString_escaped (s : String) : InString (escaped s) := by
  unfold escaped
  induction s.toList with
  | nil => exact fun _ => rfl
  | cons c cs ih =>
    rw [List.flatMap_cons]
    exact (inString_escapeChar c).append ih

theorem neutral_quote (s : String) : Neutral (quote s) := neutral_string (inString_escaped s)

theorem plain_number {c : Char} (h : NumberChar c) : PlainChar c := by
  rcases h with h | rfl | rfl | rfl | rfl | rfl
  · have hne : ∀ d : Char, d.isDigit = false → c ≠ d := by
      rintro d hd rfl
      rw [hd] at h
      cases h
    exact ⟨hne _ (by decide), hne _ (by decide), hne _ (by decide), hne _ (by decide),
      hne _ (by decide), hne _ (by decide), hne _ (by decide)⟩
  all_goals decide

variable {I : Interp} {R : FloatReader I}

theorem plain_atomChar {c : Char} (h : AtomChar c) : PlainChar c := by
  rcases h with h | h
  · exact plain_number h
  · exact (forall_chars (by decide) : ∀ c ∈ "nultrefasNIiy".toList, PlainChar c) c h

theorem neutral_rules : TextRules R Neutral where
  nil _ := rfl
  append := Neutral.append
  comma := neutral_plain (forall_chars (by decide))
  colon := neutral_plain (forall_chars (by decide))
  quoted := neutral_quote
  atom hatom hknown := neutral_plain fun c hc => plain_atomChar (atom_chars hatom hknown c hc)
  brackets := neutral_brackets (.inl ⟨rfl, rfl⟩)
  braces := neutral_brackets (.inr ⟨rfl, rfl⟩)

theorem neutral_text {j : Json} (hknown : j.known R) : Neutral (j.text I) :=
  neutral_rules.text hknown

def Inverts (cs : List Char) : Prop :=
  ∀ d, scanText ⟨d, .inside⟩ cs = none ∨ ∃ d', scanText ⟨d, .inside⟩ cs = some ⟨d', .inside⟩

def StaysOut (cs : List Char) : Prop :=
  ∀ d, scanText ⟨d, .outside⟩ cs = none ∨ ∃ d', scanText ⟨d, .outside⟩ cs = some ⟨d', .outside⟩

theorem Inverts.append {cs ds : List Char} (hcs : Inverts cs) (hds : Inverts ds) :
    Inverts (cs ++ ds) := by
  intro d
  rw [scanText_append]
  rcases hcs d with h | ⟨d', h⟩ <;> rw [h]
  · exact .inl rfl
  · exact hds d'

theorem StaysOut.append {cs ds : List Char} (hcs : StaysOut cs) (hds : StaysOut ds) :
    StaysOut (cs ++ ds) := by
  intro d
  rw [scanText_append]
  rcases hcs d with h | ⟨d', h⟩ <;> rw [h]
  · exact .inl rfl
  · exact hds d'

theorem inverts_chars {cs : List Char} (h : ∀ c ∈ cs, c ≠ '"' ∧ c ≠ '\\') : Inverts cs :=
  fun d => .inr ⟨d, inString_chars h d⟩

theorem staysOut_backslash (cs : List Char) : StaysOut ('\\' :: cs) := by
  intro d
  left
  simp [scanText, scanChar]

theorem staysOut_char {c : Char} (h : c ≠ '"') : StaysOut [c] := by
  intro d
  rw [scanText]
  cases hstep : scanChar ⟨d, .outside⟩ c with
  | none => exact .inl rfl
  | some s =>
    right
    simp only [scanChar, h, if_false] at hstep
    split_ifs at hstep
    · cases hstep
      exact ⟨_, rfl⟩
    · cases d with
      | zero => cases hstep
      | succ d =>
        cases hstep
        exact ⟨_, rfl⟩
    · cases hstep
      exact ⟨_, rfl⟩

theorem staysOut_escapeChar (c : Char) : StaysOut (escapeChar c) := by
  unfold escapeChar
  cases hshort : shortEscape c with
  | some e => exact staysOut_backslash [e]
  | none =>
    have hquote : c ≠ '"' := by
      rintro rfl
      cases hshort
    simp only []
    split
    · exact staysOut_char hquote
    · split
      · exact staysOut_backslash _
      · exact staysOut_backslash _

theorem staysOut_escaped (s : String) : StaysOut (escaped s) := by
  unfold escaped
  induction s.toList with
  | nil => exact fun d => .inr ⟨d, rfl⟩
  | cons c cs ih =>
    rw [List.flatMap_cons]
    exact (staysOut_escapeChar c).append ih

theorem inverts_quote (s : String) : Inverts (quote s) := by
  intro d
  have hopen : scanChar ⟨d, .inside⟩ '"' = some ⟨d, .outside⟩ := by simp [scanChar]
  rw [quote, scanText, hopen, Option.bind_some, scanText_append]
  rcases staysOut_escaped s d with h | ⟨d', h⟩ <;> rw [h]
  · exact .inl rfl
  · exact .inr ⟨d', by simp [scanText, scanChar]⟩

theorem inverts_brackets {cs : List Char} {o c : Char} (ho : o ≠ '"' ∧ o ≠ '\\')
    (hc : c ≠ '"' ∧ c ≠ '\\') (h : Inverts cs) : Inverts (o :: (cs ++ [c])) := by
  have hopen : Inverts [o] := inverts_chars (by simpa using ho)
  have hclose : Inverts [c] := inverts_chars (by simpa using hc)
  exact hopen.append (h.append hclose)

theorem inverts_rules : TextRules R Inverts where
  nil d := .inr ⟨d, rfl⟩
  append := Inverts.append
  comma := inverts_chars (forall_chars (by decide))
  colon := inverts_chars (forall_chars (by decide))
  quoted := inverts_quote
  atom hatom hknown := inverts_chars fun c hc => by
    obtain ⟨hquote, -, -, -, -, hback, -⟩ := plain_atomChar (atom_chars hatom hknown c hc)
    exact ⟨hquote, hback⟩
  brackets := inverts_brackets (by decide) (by decide)
  braces := inverts_brackets (by decide) (by decide)

theorem inverts_text {j : Json} (hknown : j.known R) : Inverts (j.text I) :=
  inverts_rules.text hknown

def Took (from_ to_ : Nat → TextScan) (cs rest : List Char) : Prop :=
  ∃ used, cs = used ++ rest ∧ ∀ d, scanText (from_ d) used = some (to_ d)

theorem Took.trans {f g h : Nat → TextScan} {cs ds es : List Char} (hcs : Took f g cs ds)
    (hds : Took g h ds es) : Took f h cs es := by
  obtain ⟨used, rfl, hused⟩ := hcs
  obtain ⟨used', rfl, hused'⟩ := hds
  refine ⟨used ++ used', by rw [List.append_assoc], fun d => ?_⟩
  rw [scanText_append, hused d]
  exact hused' d

theorem Took.char {f g : Nat → TextScan} {c : Char} (h : ∀ d, scanChar (f d) c = some (g d))
    (cs : List Char) : Took f g (c :: cs) cs := by
  refine ⟨[c], rfl, fun d => ?_⟩
  rw [scanText, h d]
  rfl

theorem took_neutral {used rest : List Char} (h : Neutral used) :
    Took (⟨·, .outside⟩) (⟨·, .outside⟩) (used ++ rest) rest := ⟨used, rfl, h⟩

theorem Took.deeper {m m' : StringMode} {cs rest : List Char}
    (h : Took (⟨·, m⟩) (⟨·, m'⟩) cs rest) : Took (⟨· + 1, m⟩) (⟨· + 1, m'⟩) cs rest := by
  obtain ⟨used, rfl, hused⟩ := h
  exact ⟨used, rfl, fun d => hused (d + 1)⟩

theorem took_blank (cs : List Char) :
    Took (⟨·, .outside⟩) (⟨·, .outside⟩) cs (skipBlank cs) := by
  have hplain : ∀ c ∈ cs.takeWhile isBlank, PlainChar c := by
    intro c hc
    have hblank := List.mem_takeWhile_imp hc
    simp only [isBlank, Bool.or_eq_true, decide_eq_true_eq] at hblank
    rcases hblank with ((rfl | rfl) | rfl) | rfl <;> decide
  exact ⟨cs.takeWhile isBlank, List.takeWhile_append_dropWhile.symm, neutral_plain hplain⟩

theorem took_keyword {word : String} {j j' : Json} {cs rest : List Char}
    (hplain : ∀ c ∈ word.toList, PlainChar c) (h : keyword word j cs = some (j', rest)) :
    Took (⟨·, .outside⟩) (⟨·, .outside⟩) cs rest := by
  unfold keyword at h
  split at h
  · rename_i hstart
    cases h
    obtain ⟨rest, rfl⟩ := List.isPrefixOf_iff_prefix.mp hstart
    rw [← String.length_toList, List.drop_left]
    exact took_neutral (neutral_plain hplain)
  · cases h

theorem hexOf_char {c : Char} {n : Nat} (h : hexOf c = some n) : c ≠ '"' ∧ c ≠ '\\' := by
  constructor
  · rintro rfl
    cases h
  · rintro rfl
    cases h

theorem unitOf_chars {a b c d : Char} {n : Nat} (h : unitOf a b c d = some n) :
    ∀ e ∈ [a, b, c, d], e ≠ '"' ∧ e ≠ '\\' := by
  unfold unitOf at h
  split at h
  · rename_i ha hb hc hd
    simp only [List.forall_mem_cons]
    exact ⟨hexOf_char ha, hexOf_char hb, hexOf_char hc, hexOf_char hd, nofun⟩
  · cases h

theorem took_backslash {cs : List Char} :
    Took (⟨·, .inside⟩) (⟨·, .escape⟩) ('\\' :: cs) cs :=
  Took.char (fun d => by simp [scanChar]) cs

theorem took_pieces {cs rest : List Char} {ps : List Piece}
    (h : readPieces cs = some (ps, rest)) :
    Took (⟨·, .inside⟩) (⟨·, .outside⟩) cs rest := by
  induction cs using readPieces.induct generalizing ps with
  | case1 => cases h
  | case2 cs =>
    cases h
    exact Took.char (fun d => by simp [scanChar]) _
  | case3 a b c d cs n hn ih =>
    rw [readPieces, hn] at h
    obtain ⟨⟨ps', rest'⟩, hread, heq⟩ := Option.map_eq_some_iff.mp h
    cases heq
    have hdigits : InString [a, b, c, d] := inString_chars (unitOf_chars hn)
    exact took_backslash.trans ((Took.char (fun d => by simp [scanChar]) _).trans
      (Took.trans ⟨[a, b, c, d], rfl, hdigits⟩ (ih hread)))
  | case4 a b c d cs hn =>
    rw [readPieces, hn] at h
    cases h
  | case5 e cs _ c hc ih =>
    have hu : e ≠ 'u' := by
      rintro rfl
      cases hc
    rw [readPieces_backslash hu, hc] at h
    obtain ⟨⟨ps', rest'⟩, hread, heq⟩ := Option.map_eq_some_iff.mp h
    cases heq
    have hescape : ∀ d, scanChar ⟨d, .escape⟩ e = some ⟨d, .inside⟩ := fun d => by
      simp [scanChar, hc]
    exact took_backslash.trans ((Took.char hescape cs).trans (ih hread))
  | case6 e cs hshort hc =>
    rw [readPieces] at h
    · rw [hc] at h
      cases h
    · exact hshort
  | case7 c cs hquote hunit hback hbad =>
    rw [readPieces] at h
    · rw [if_pos hbad] at h
      cases h
    all_goals assumption
  | case8 c cs hquote hunit hback hgood ih =>
    rw [readPieces] at h
    · rw [if_neg hgood] at h
      obtain ⟨⟨ps', rest'⟩, hread, heq⟩ := Option.map_eq_some_iff.mp h
      cases heq
      rw [not_or] at hgood
      have hchar : InString [c] := inString_chars (by simpa using ⟨hquote, hgood.2⟩)
      exact Took.trans ⟨[c], rfl, hchar⟩ (ih hread)
    all_goals assumption

theorem took_string {cs rest : List Char} {k : String} (h : readString cs = some (k, rest)) :
    Took (⟨·, .inside⟩) (⟨·, .outside⟩) cs rest := by
  obtain ⟨⟨ps, rest'⟩, hread, hjoin⟩ := Option.bind_eq_some_iff.mp h
  obtain ⟨s, -, heq⟩ := Option.map_eq_some_iff.mp hjoin
  cases heq
  exact took_pieces hread

def NumberPart (cs : List Char) (p : List Char × List Char) : Prop :=
  cs = p.1 ++ p.2 ∧ ∀ c ∈ p.1, NumberChar c

theorem numberPart_digits (cs : List Char) :
    NumberPart cs (cs.takeWhile Char.isDigit, cs.dropWhile Char.isDigit) :=
  ⟨List.takeWhile_append_dropWhile.symm, fun _ hc => .inl (List.mem_takeWhile_imp hc)⟩

theorem NumberPart.cons {c : Char} {cs : List Char} {p : List Char × List Char}
    (hc : NumberChar c) (h : NumberPart cs p) : NumberPart (c :: cs) (c :: p.1, p.2) := by
  refine ⟨by rw [h.1]; rfl, fun d hd => ?_⟩
  rcases List.mem_cons.mp hd with rfl | hd
  · exact hc
  · exact h.2 d hd

theorem NumberPart.nil (cs : List Char) : NumberPart cs ([], cs) := ⟨rfl, nofun⟩

theorem numberPart_frac (cs : List Char) : NumberPart cs (readFrac cs) := by
  unfold readFrac
  split
  · rename_i cs
    split
    · exact .nil _
    · exact (numberPart_digits cs).cons (.inr (.inr (.inr (.inl rfl))))
  · exact .nil _

theorem numberPart_sign (cs : List Char) : NumberPart cs (readSign cs) := by
  unfold readSign
  split
  · exact (NumberPart.nil _).cons (.inr (.inl rfl))
  · exact (NumberPart.nil _).cons (.inr (.inr (.inl rfl)))
  · exact .nil _

theorem numberPart_exp (cs : List Char) : NumberPart cs (readExp cs) := by
  cases cs with
  | nil => exact .nil []
  | cons e cs =>
    rw [readExp]
    split
    · rename_i he
      split
      · exact .nil _
      · have hsign := numberPart_sign cs
        have hdigits := numberPart_digits (readSign cs).2
        have hrest : NumberPart cs ((readSign cs).1 ++ (readSign cs).2.takeWhile Char.isDigit,
            (readSign cs).2.dropWhile Char.isDigit) := by
          refine ⟨?_, fun c hc => ?_⟩
          · rw [List.append_assoc, ← hdigits.1]
            exact hsign.1
          · rcases List.mem_append.mp hc with hc | hc
            · exact hsign.2 c hc
            · exact hdigits.2 c hc
        exact hrest.cons (.inr (.inr (.inr (.inr he))))
    · exact .nil _

theorem numberPart_whole {cs : List Char} {p : List Char × List Char}
    (h : readWhole cs = some p) : NumberPart cs p := by
  unfold readWhole at h
  split at h
  · cases h
    exact (NumberPart.nil _).cons (.inl (by decide))
  · split at h
    · cases h
    · cases h
      exact numberPart_digits cs

theorem numberPart_integer {cs : List Char} {p : List Char × List Char}
    (h : readInteger cs = some p) : NumberPart cs p := by
  unfold readInteger at h
  split at h
  · obtain ⟨q, hq, rfl⟩ := Option.map_eq_some_iff.mp h
    exact (numberPart_whole hq).cons (.inr (.inl rfl))
  · exact numberPart_whole h

theorem NumberPart.took {cs : List Char} {p : List Char × List Char} (h : NumberPart cs p) :
    Took (⟨·, .outside⟩) (⟨·, .outside⟩) cs p.2 :=
  ⟨p.1, h.1, neutral_plain fun c hc => plain_number (h.2 c hc)⟩

theorem took_number {cs rest : List Char} {n : Number} (h : readNumber cs = some (n, rest)) :
    Took (⟨·, .outside⟩) (⟨·, .outside⟩) cs rest := by
  obtain ⟨whole, hwhole, heq⟩ := Option.map_eq_some_iff.mp h
  cases heq
  exact (numberPart_integer hwhole).took.trans
    ((numberPart_frac _).took.trans (numberPart_exp _).took)

theorem took_atom {cs rest : List Char} {j : Json} (h : readAtom R cs = some (j, rest)) :
    Took (⟨·, .outside⟩) (⟨·, .outside⟩) cs rest := by
  simp only [readAtom, Option.orElse_eq_some] at h
  rcases h with h | ⟨-, h | ⟨-, h | ⟨-, h | ⟨-, h | ⟨-, h | ⟨-, h⟩⟩⟩⟩⟩⟩
  · exact took_keyword (forall_chars (by decide)) h
  · exact took_keyword (forall_chars (by decide)) h
  · exact took_keyword (forall_chars (by decide)) h
  · obtain ⟨⟨n, rest'⟩, hn, heq⟩ := Option.map_eq_some_iff.mp h
    cases heq
    exact took_number hn
  · exact took_keyword (forall_chars (by decide)) h
  · exact took_keyword (forall_chars (by decide)) h
  · exact took_keyword (forall_chars (by decide)) h

structure TookAll (R : FloatReader I) (fuel : Nat) : Prop where
  value : ∀ {cs rest : List Char} {j : Json}, readValue R fuel cs = some (j, rest) →
    Took (⟨·, .outside⟩) (⟨·, .outside⟩) cs rest
  items : ∀ {cs rest : List Char} {js : List Json}, readItems R fuel cs = some (js, rest) →
    Took (⟨· + 1, .outside⟩) (⟨·, .outside⟩) cs rest
  members : ∀ {cs rest : List Char} {ms : List (String × Json)},
    readMembers R fuel cs = some (ms, rest) → Took (⟨· + 1, .inside⟩) (⟨·, .outside⟩) cs rest

theorem took_open {o : Char} (h : o = '[' ∨ o = '{') (cs : List Char) :
    Took (⟨·, .outside⟩) (⟨· + 1, .outside⟩) (o :: cs) cs := by
  refine Took.char (fun d => ?_) cs
  rcases h with rfl | rfl <;> simp [scanChar]

theorem took_close {c : Char} (h : c = ']' ∨ c = '}') (cs : List Char) :
    Took (⟨· + 1, .outside⟩) (⟨·, .outside⟩) (c :: cs) cs := by
  refine Took.char (fun d => ?_) cs
  rcases h with rfl | rfl <;> simp [scanChar]

theorem took_quote (cs : List Char) :
    Took (⟨·, .outside⟩) (⟨·, .inside⟩) ('"' :: cs) cs :=
  Took.char (fun d => by simp [scanChar]) cs

theorem took_plain {c : Char} (h : PlainChar c) (cs : List Char) :
    Took (⟨·, .outside⟩) (⟨·, .outside⟩) (c :: cs) cs :=
  @took_neutral [c] cs (neutral_plain (by simpa using h))

theorem tookAll_value {fuel : Nat} (ih : TookAll R fuel) {cs rest : List Char} {j : Json}
    (h : readValue R (fuel + 1) cs = some (j, rest)) :
    Took (⟨·, .outside⟩) (⟨·, .outside⟩) cs rest := by
  rw [readValue.eq_def] at h
  simp only [] at h
  split at h
  · rename_i cs
    obtain ⟨⟨s, rest'⟩, hs, heq⟩ := Option.map_eq_some_iff.mp h
    cases heq
    exact (took_quote cs).trans (took_string hs)
  · rename_i cs
    have hblank := (took_open (.inl rfl) cs).trans (took_blank cs).deeper
    split at h
    · rename_i heq
      cases h
      rw [heq] at hblank
      exact hblank.trans (took_close (.inl rfl) _)
    · obtain ⟨⟨js, rest'⟩, hjs, heq⟩ := Option.map_eq_some_iff.mp h
      cases heq
      exact hblank.trans (ih.items hjs)
  · rename_i cs
    have hblank := (took_open (.inr rfl) cs).trans (took_blank cs).deeper
    split at h
    · rename_i heq
      cases h
      rw [heq] at hblank
      exact hblank.trans (took_close (.inr rfl) _)
    · rename_i heq
      obtain ⟨⟨ms, rest'⟩, hms, heq'⟩ := Option.map_eq_some_iff.mp h
      cases heq'
      rw [heq] at hblank
      exact hblank.trans ((took_quote _).deeper.trans (ih.members hms))
    · cases h
  · exact took_atom h

theorem tookAll_items {fuel : Nat} (ih : TookAll R fuel) {cs rest : List Char} {js : List Json}
    (h : readItems R (fuel + 1) cs = some (js, rest)) :
    Took (⟨· + 1, .outside⟩) (⟨·, .outside⟩) cs rest := by
  rw [readItems.eq_def] at h
  simp only [] at h
  split at h
  · cases h
  · rename_i j cs' hvalue
    have hblank := (ih.value hvalue).deeper.trans (took_blank cs').deeper
    split at h
    · rename_i heq
      cases h
      rw [heq] at hblank
      exact hblank.trans (took_close (.inl rfl) _)
    · rename_i ds heq
      obtain ⟨⟨js', rest'⟩, hjs, heq'⟩ := Option.map_eq_some_iff.mp h
      cases heq'
      rw [heq] at hblank
      exact hblank.trans ((took_plain (by decide) _).deeper.trans
        ((took_blank ds).deeper.trans (ih.items hjs)))
    · cases h

theorem tookAll_members {fuel : Nat} (ih : TookAll R fuel) {cs rest : List Char}
    {ms : List (String × Json)} (h : readMembers R (fuel + 1) cs = some (ms, rest)) :
    Took (⟨· + 1, .inside⟩) (⟨·, .outside⟩) cs rest := by
  rw [readMembers.eq_def] at h
  simp only [] at h
  split at h
  · cases h
  · rename_i k cs₁ hname
    have hname := (took_string hname).deeper.trans (took_blank cs₁).deeper
    split at h
    · rename_i cs₂ hcolon
      rw [hcolon] at hname
      have hcolon := hname.trans ((took_plain (by decide) _).deeper.trans (took_blank cs₂).deeper)
      split at h
      · cases h
      · rename_i j cs₃ hvalue
        have hvalue := hcolon.trans ((ih.value hvalue).deeper.trans (took_blank cs₃).deeper)
        split at h
        · rename_i heq
          cases h
          rw [heq] at hvalue
          exact hvalue.trans (took_close (.inr rfl) _)
        · rename_i cs₄ heq
          rw [heq] at hvalue
          have hcomma := hvalue.trans ((took_plain (by decide) _).deeper.trans
            (took_blank cs₄).deeper)
          split at h
          · rename_i heq'
            obtain ⟨⟨ms', rest'⟩, hms, heq''⟩ := Option.map_eq_some_iff.mp h
            cases heq''
            rw [heq'] at hcomma
            exact hcomma.trans ((took_quote _).deeper.trans (ih.members hms))
          · cases h
        · cases h
    · cases h

theorem tookAll (R : FloatReader I) (fuel : Nat) : TookAll R fuel := by
  induction fuel with
  | zero => exact ⟨nofun, nofun, nofun⟩
  | succ fuel ih => exact ⟨tookAll_value ih, tookAll_items ih, tookAll_members ih⟩

theorem scan_of_readText {cs : List Char} {j : Json} (h : readText R cs = some j) :
    scanText ⟨0, .outside⟩ cs = some ⟨0, .outside⟩ := by
  unfold readText at h
  split at h
  · cases h
  · rename_i j' rest hvalue
    split at h
    · rename_i hrest
      have htook := (took_blank cs).trans (((tookAll R _).value hvalue).trans (took_blank rest))
      rw [hrest] at htook
      obtain ⟨used, rfl, hused⟩ := htook
      rw [List.append_nil]
      exact hused 0
    · cases h

end Python
