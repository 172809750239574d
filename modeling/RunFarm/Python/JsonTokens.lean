import RunFarm.Python.Padded

/-! The tokens of JSON as Python writes and reads them: strings in ASCII, and numbers. -/
set_option autoImplicit false

namespace Python

theorem forall_chars {P : Char → Prop} [DecidablePred P] {cs : List Char}
    (h : cs.all fun c => decide (P c)) : ∀ c ∈ cs, P c :=
  fun c hc => of_decide_eq_true (List.all_eq_true.mp h c hc)

def unitText (n : Nat) : List Char := '\\' :: 'u' :: padded 16 4 n

def shortEscape : Char → Option Char
  | '"' => some '"'
  | '\\' => some '\\'
  | '\n' => some 'n'
  | '\r' => some 'r'
  | '\t' => some 't'
  | '\x0c' => some 'f'
  | '\x08' => some 'b'
  | _ => none

def highUnit (c : Char) : Nat := 0xd800 + (c.toNat - 0x10000) / 1024

def lowUnit (c : Char) : Nat := 0xdc00 + (c.toNat - 0x10000) % 1024

/-- `py_encode_basestring_ascii`, of one character. -/
def escapeChar (c : Char) : List Char :=
  match shortEscape c with
  | some e => ['\\', e]
  | none =>
    if ' ' ≤ c ∧ c ≤ '~' then [c]
    else if c.toNat < 0x10000 then unitText c.toNat
    else unitText (highUnit c) ++ unitText (lowUnit c)

def escaped (s : String) : List Char := s.toList.flatMap escapeChar

def quote (s : String) : List Char := '"' :: (escaped s ++ ['"'])

/-- A character, or the UTF-16 unit of a `\u`. -/
inductive Piece where
  | char (c : Char)
  | unit (n : Nat)
  deriving DecidableEq, Repr

def hexOf (c : Char) : Option Nat :=
  if '0' ≤ c ∧ c ≤ '9' then some (c.toNat - 48)
  else if 'a' ≤ c ∧ c ≤ 'f' then some (c.toNat - 87)
  else if 'A' ≤ c ∧ c ≤ 'F' then some (c.toNat - 55)
  else none

def unitOf (a b c d : Char) : Option Nat :=
  match hexOf a, hexOf b, hexOf c, hexOf d with
  | some w, some x, some y, some z => some (((w * 16 + x) * 16 + y) * 16 + z)
  | _, _, _, _ => none

def backslash : Char → Option Char
  | '"' => some '"'
  | '\\' => some '\\'
  | '/' => some '/'
  | 'b' => some '\x08'
  | 'f' => some '\x0c'
  | 'n' => some '\n'
  | 'r' => some '\r'
  | 't' => some '\t'
  | _ => none

/-- `scanstring` up to the closing quote, and what is left after it. -/
def readPieces : List Char → Option (List Piece × List Char)
  | [] => none
  | '"' :: cs => some ([], cs)
  | '\\' :: 'u' :: a :: b :: c :: d :: cs =>
    match unitOf a b c d with
    | some n => (readPieces cs).map fun p => (.unit n :: p.1, p.2)
    | none => none
  | '\\' :: e :: cs =>
    match backslash e with
    | some c => (readPieces cs).map fun p => (.char c :: p.1, p.2)
    | none => none
  | c :: cs =>
    if c < ' ' ∨ c = '\\' then none else (readPieces cs).map fun p => (.char c :: p.1, p.2)

/-- Two units of a surrogate pair are one character; a lone one is in no `String`. -/
def joinPieces : List Piece → Option (List Char)
  | [] => some []
  | .char c :: ps => (joinPieces ps).map (c :: ·)
  | .unit n :: ps =>
    if 0xd800 ≤ n ∧ n ≤ 0xdbff then
      match ps with
      | .unit m :: ps =>
        if 0xdc00 ≤ m ∧ m ≤ 0xdfff then
          (joinPieces ps).map
            (Char.ofNat (0x10000 + (n - 0xd800) * 1024 + (m - 0xdc00)) :: ·)
        else none
      | _ => none
    else if 0xdc00 ≤ n ∧ n ≤ 0xdfff then none
    else (joinPieces ps).map (Char.ofNat n :: ·)

def readString (cs : List Char) : Option (String × List Char) :=
  (readPieces cs).bind fun p => (joinPieces p.1).map fun s => (String.ofList s, p.2)

def pieces (c : Char) : List Piece :=
  if (shortEscape c).isSome ∨ ' ' ≤ c ∧ c ≤ '~' then [.char c]
  else if c.toNat < 0x10000 then [.unit c.toNat]
  else [.unit (highUnit c), .unit (lowUnit c)]

theorem hexOf_digitChar {n : Nat} (h : n < 16) : hexOf n.digitChar = some n := by
  have hall : ∀ i : Fin 16, hexOf i.val.digitChar = some i.val := by decide
  exact hall ⟨n, h⟩

theorem padded_four (n : Nat) (h : n < 16 ^ 4) : padded 16 4 n =
    [(n / 4096 % 16).digitChar, (n / 256 % 16).digitChar, (n / 16 % 16).digitChar,
      (n % 16).digitChar] := by
  rw [padded_eq (w := 3) (by decide) h]
  simp [lastDigits, Nat.div_div_eq_div_mul]

theorem readPieces_unit {n : Nat} (h : n < 16 ^ 4) (cs : List Char) :
    readPieces (unitText n ++ cs) = (readPieces cs).map fun p => (.unit n :: p.1, p.2) := by
  have hn : ((n / 4096 % 16 * 16 + n / 256 % 16) * 16 + n / 16 % 16) * 16 + n % 16 = n := by
    omega
  rw [unitText, padded_four n h]
  simp only [List.cons_append, List.nil_append, readPieces, unitOf,
    hexOf_digitChar (Nat.mod_lt _ (by decide)), hn]

theorem backslash_short {c e : Char} (h : shortEscape c = some e) :
    e ≠ 'u' ∧ backslash e = some c := by
  unfold shortEscape at h
  split at h <;> first | (cases h; decide) | cases h

theorem readPieces_backslash {e : Char} (he : e ≠ 'u') (cs : List Char) :
    readPieces ('\\' :: e :: cs) = match backslash e with
      | some c => (readPieces cs).map fun p => (.char c :: p.1, p.2)
      | none => none := by
  rw [readPieces]
  intro a b c d cs' heq
  exact absurd heq he

theorem readPieces_char {c : Char} (hquote : c ≠ '"') (hback : c ≠ '\\') (hle : ' ' ≤ c)
    (cs : List Char) :
    readPieces (c :: cs) = (readPieces cs).map fun p => (.char c :: p.1, p.2) := by
  rw [readPieces.eq_def]
  split
  · rename_i heq
    cases heq
  · rename_i heq
    exact absurd (List.cons.inj heq).1 hquote
  · rename_i heq
    exact absurd (List.cons.inj heq).1 hback
  · rename_i heq
    exact absurd (List.cons.inj heq).1 hback
  · rename_i heq
    obtain ⟨rfl, rfl⟩ := List.cons.inj heq
    rw [if_neg (by simp [not_lt.mpr hle, hback])]

theorem toNat_valid (c : Char) :
    c.toNat < 0xd800 ∨ 0xdfff < c.toNat ∧ c.toNat < 0x110000 := c.valid

theorem readPieces_escape (c : Char) (cs : List Char) :
    readPieces (escapeChar c ++ cs) =
      (readPieces cs).map fun p => (pieces c ++ p.1, p.2) := by
  unfold escapeChar pieces
  cases hshort : shortEscape c with
  | some e =>
    obtain ⟨hu, hback⟩ := backslash_short hshort
    simp [readPieces_backslash hu, hback]
  | none =>
    by_cases hplain : ' ' ≤ c ∧ c ≤ '~'
    · have hquote : c ≠ '"' := by
        rintro rfl
        cases hshort
      have hback : c ≠ '\\' := by
        rintro rfl
        cases hshort
      simp [hplain, readPieces_char hquote hback hplain.1]
    · have hchar := toNat_valid c
      by_cases hbmp : c.toNat < 0x10000
      · simp [hplain, hbmp, readPieces_unit (show c.toNat < 16 ^ 4 by omega)]
      · have hhigh : highUnit c < 16 ^ 4 := by
          unfold highUnit
          omega
        have hlow : lowUnit c < 16 ^ 4 := by
          unfold lowUnit
          omega
        simp only [hplain, hbmp, if_false, List.append_assoc, Option.isSome_none,
          Bool.false_eq_true, false_or]
        rw [readPieces_unit hhigh, readPieces_unit hlow, Option.map_map]
        rfl

theorem joinPieces_unit {n : Nat} (h : n < 0xd800 ∨ 0xdfff < n) (ps : List Piece) :
    joinPieces (.unit n :: ps) = (joinPieces ps).map (Char.ofNat n :: ·) := by
  rw [joinPieces.eq_def]
  simp only [show ¬ (0xd800 ≤ n ∧ n ≤ 0xdbff) by omega, show ¬ (0xdc00 ≤ n ∧ n ≤ 0xdfff) by omega,
    if_false]

theorem joinPieces_pair {m n : Nat} (hn : 0xd800 ≤ n ∧ n ≤ 0xdbff) (hm : 0xdc00 ≤ m ∧ m ≤ 0xdfff)
    (ps : List Piece) : joinPieces (.unit n :: .unit m :: ps) = (joinPieces ps).map
      (Char.ofNat (0x10000 + (n - 0xd800) * 1024 + (m - 0xdc00)) :: ·) := by
  rw [joinPieces.eq_def]
  simp only [hn, hm, and_self, if_true]

theorem joinPieces_pieces (c : Char) (ps : List Piece) :
    joinPieces (pieces c ++ ps) = (joinPieces ps).map (c :: ·) := by
  have hvalid := toNat_valid c
  have hofNat : Char.ofNat c.toNat = c := Char.ofNat_toNat c
  unfold pieces
  split
  · rfl
  · split
    · rw [List.singleton_append, joinPieces_unit (by omega), hofNat]
    · have hcode : 0x10000 + (highUnit c - 0xd800) * 1024 + (lowUnit c - 0xdc00) = c.toNat := by
        unfold highUnit lowUnit
        omega
      have hhigh : 0xd800 ≤ highUnit c ∧ highUnit c ≤ 0xdbff := by
        unfold highUnit
        omega
      have hlow : 0xdc00 ≤ lowUnit c ∧ lowUnit c ≤ 0xdfff := by
        unfold lowUnit
        omega
      rw [List.cons_append, List.singleton_append, joinPieces_pair hhigh hlow, hcode, hofNat]

theorem readPieces_escaped (s : List Char) (cs : List Char) :
    readPieces (s.flatMap escapeChar ++ '"' :: cs) = some (s.flatMap pieces, cs) := by
  induction s with
  | nil => rfl
  | cons c s ih =>
    rw [List.flatMap_cons, List.append_assoc, readPieces_escape, ih, List.flatMap_cons]
    rfl

theorem joinPieces_flatMap (s : List Char) : joinPieces (s.flatMap pieces) = some s := by
  induction s with
  | nil => rfl
  | cons c s ih =>
    rw [List.flatMap_cons, joinPieces_pieces, ih]
    rfl

theorem readString_escaped (s : String) (cs : List Char) :
    readString (escaped s ++ '"' :: cs) = some (s, cs) := by
  simp [readString, escaped, readPieces_escaped, joinPieces_flatMap]

def Printable (c : Char) : Prop := ' ' ≤ c ∧ c ≤ '~'

instance (c : Char) : Decidable (Printable c) := by
  unfold Printable
  infer_instance

theorem printable_digitChar {n : Nat} (h : n < 16) : Printable n.digitChar := by
  have hall : ∀ i : Fin 16, Printable i.val.digitChar := by decide
  exact hall ⟨n, h⟩

theorem printable_unitText {n : Nat} (h : n < 16 ^ 4) : ∀ c ∈ unitText n, Printable c := by
  intro c hc
  rw [unitText, List.mem_cons, List.mem_cons] at hc
  rcases hc with rfl | rfl | hc
  · decide
  · decide
  · obtain ⟨d, hd, rfl⟩ := mem_padded (w := 3) (by decide) h hc
    exact printable_digitChar hd

theorem printable_escapeChar (c : Char) : ∀ e ∈ escapeChar c, Printable e := by
  intro e he
  have hvalid := toNat_valid c
  unfold escapeChar at he
  cases hshort : shortEscape c with
  | some e' =>
    have hprint : Printable e' := by
      unfold shortEscape at hshort
      split at hshort <;> first | (cases hshort; decide) | cases hshort
    simp only [hshort, List.mem_cons, List.not_mem_nil, or_false] at he
    rcases he with rfl | rfl
    · decide
    · exact hprint
  | none =>
    simp only [hshort] at he
    split at he
    · rename_i hplain
      rw [List.mem_singleton.mp he]
      exact hplain
    · split at he
      · exact printable_unitText (by omega) e he
      · rcases List.mem_append.mp he with he | he
        · exact printable_unitText (by unfold highUnit; omega) e he
        · exact printable_unitText (by unfold lowUnit; omega) e he

theorem printable_quote (s : String) : ∀ c ∈ quote s, Printable c := by
  intro c hc
  rw [quote, List.mem_cons, List.mem_append, List.mem_singleton, escaped, List.mem_flatMap] at hc
  rcases hc with rfl | ⟨c', -, hc⟩ | rfl
  · decide
  · exact printable_escapeChar c' c hc
  · decide

/-- `(\.\d+)?`. -/
def readFrac : List Char → List Char × List Char
  | '.' :: cs =>
    match cs.takeWhile Char.isDigit with
    | [] => ([], '.' :: cs)
    | ds => ('.' :: ds, cs.dropWhile Char.isDigit)
  | cs => ([], cs)

def readSign : List Char → List Char × List Char
  | '-' :: cs => (['-'], cs)
  | '+' :: cs => (['+'], cs)
  | cs => ([], cs)

/-- `([eE][-+]?\d+)?`. -/
def readExp : List Char → List Char × List Char
  | [] => ([], [])
  | e :: cs =>
    if e = 'e' ∨ e = 'E' then
      match (readSign cs).2.takeWhile Char.isDigit with
      | [] => ([], e :: cs)
      | ds => (e :: ((readSign cs).1 ++ ds), (readSign cs).2.dropWhile Char.isDigit)
    else ([], e :: cs)

/-- `(?:0|[1-9]\d*)`. -/
def readWhole : List Char → Option (List Char × List Char)
  | '0' :: cs => some (['0'], cs)
  | cs =>
    match cs.takeWhile Char.isDigit with
    | [] => none
    | ds => some (ds, cs.dropWhile Char.isDigit)

def readInteger : List Char → Option (List Char × List Char)
  | '-' :: cs => (readWhole cs).map fun p => ('-' :: p.1, p.2)
  | cs => readWhole cs

inductive Number where
  | int (text : List Char)
  | float (text : List Char)
  deriving DecidableEq, Repr

/-- `match_number`. -/
def readNumber (cs : List Char) : Option (Number × List Char) :=
  (readInteger cs).map fun whole =>
    let frac := readFrac whole.2
    let exp := readExp frac.2
    (if frac.1 = [] ∧ exp.1 = [] then .int whole.1 else .float (whole.1 ++ frac.1 ++ exp.1), exp.2)

/-- `int(s)`, of the text of a number. -/
def intOfText : List Char → Int
  | '-' :: ds => -(Nat.ofDigitChars 10 ds 0 : Int)
  | ds => Nat.ofDigitChars 10 ds 0

structure IsWhole (ds : List Char) : Prop where
  digits : ∀ c ∈ ds, c.isDigit
  leading : ds = ['0'] ∨ ds.head? ≠ some '0'
  ne_nil : ds ≠ []

def IsInteger (t : List Char) : Prop := IsWhole t ∨ ∃ ds, t = '-' :: ds ∧ IsWhole ds

def IsFrac (t : List Char) : Prop :=
  t = [] ∨ ∃ ds, t = '.' :: ds ∧ ds ≠ [] ∧ ∀ c ∈ ds, c.isDigit

def IsExp (t : List Char) : Prop :=
  t = [] ∨ ∃ e sign ds, t = e :: (sign ++ ds) ∧ (e = 'e' ∨ e = 'E') ∧
    (sign = [] ∨ sign = ['-'] ∨ sign = ['+']) ∧ ds ≠ [] ∧ ∀ c ∈ ds, c.isDigit

def FloatText (t : List Char) : Prop :=
  ∃ whole frac exp, t = whole ++ frac ++ exp ∧ IsInteger whole ∧ IsFrac frac ∧ IsExp exp ∧
    ¬ (frac = [] ∧ exp = [])

def Ends (rest : List Char) : Prop :=
  ∀ c ∈ rest.head?, c.isDigit = false ∧ c ≠ '.' ∧ c ≠ 'e' ∧ c ≠ 'E'

theorem span_digits {ds rest : List Char} (hds : ∀ c ∈ ds, c.isDigit)
    (hrest : ∀ c ∈ rest.head?, c.isDigit = false) :
    (ds ++ rest).takeWhile Char.isDigit = ds ∧ (ds ++ rest).dropWhile Char.isDigit = rest := by
  rw [List.takeWhile_append_of_pos hds, List.dropWhile_append_of_pos hds]
  cases rest with
  | nil => simp
  | cons c rest =>
    have hc := hrest c rfl
    simp [hc]

theorem readWhole_append {ds rest : List Char} (h : IsWhole ds)
    (hrest : ∀ c ∈ rest.head?, c.isDigit = false) : readWhole (ds ++ rest) = some (ds, rest) := by
  obtain ⟨htake, hdrop⟩ := span_digits h.digits hrest
  rcases h.leading with rfl | hhead
  · rfl
  · rw [readWhole, htake, hdrop]
    · cases ds with
      | nil => exact absurd rfl h.ne_nil
      | cons c ds => rfl
    · rintro cs heq
      cases ds with
      | nil => exact absurd rfl h.ne_nil
      | cons c ds =>
        obtain ⟨rfl, -⟩ := List.cons.inj heq
        exact hhead rfl

theorem readInteger_append {t rest : List Char} (h : IsInteger t)
    (hrest : ∀ c ∈ rest.head?, c.isDigit = false) : readInteger (t ++ rest) = some (t, rest) := by
  rcases h with h | ⟨ds, rfl, h⟩
  · rw [readInteger, readWhole_append h hrest]
    rintro cs heq
    cases t with
    | nil => exact h.ne_nil rfl
    | cons c t =>
      obtain ⟨rfl, -⟩ := List.cons.inj heq
      exact absurd (h.digits '-' List.mem_cons_self) (by decide)
  · rw [List.cons_append, readInteger, readWhole_append h hrest]
    rfl

theorem readFrac_append {t rest : List Char} (h : IsFrac t)
    (hrest : ∀ c ∈ rest.head?, c.isDigit = false ∧ c ≠ '.') : readFrac (t ++ rest) = (t, rest) := by
  rcases h with rfl | ⟨ds, rfl, hne, hds⟩
  · rw [List.nil_append, readFrac]
    rintro cs rfl
    exact (hrest '.' rfl).2 rfl
  · obtain ⟨htake, hdrop⟩ := span_digits hds fun c hc => (hrest c hc).1
    rw [List.cons_append, readFrac, htake, hdrop]
    cases ds with
    | nil => exact absurd rfl hne
    | cons c ds => rfl

theorem readSign_append {sign ds : List Char} (h : sign = [] ∨ sign = ['-'] ∨ sign = ['+'])
    (hds : ∀ c ∈ ds.head?, c.isDigit) : readSign (sign ++ ds) = (sign, ds) := by
  rcases h with rfl | rfl | rfl
  · rw [List.nil_append, readSign]
    · rintro cs rfl
      exact absurd (hds '-' rfl) (by decide)
    · rintro cs rfl
      exact absurd (hds '+' rfl) (by decide)
  · rfl
  · rfl

theorem readExp_append {t rest : List Char} (h : IsExp t)
    (hrest : ∀ c ∈ rest.head?, c.isDigit = false ∧ c ≠ 'e' ∧ c ≠ 'E') :
    readExp (t ++ rest) = (t, rest) := by
  rcases h with rfl | ⟨e, sign, ds, rfl, he, hsign, hne, hds⟩
  · cases rest with
    | nil => rfl
    | cons c rest =>
      have hc := hrest c rfl
      simp [readExp, hc.2.1, hc.2.2]
  · obtain ⟨htake, hdrop⟩ := span_digits hds fun c hc => (hrest c hc).1
    have hhead : ∀ c ∈ (ds ++ rest).head?, c.isDigit := by
      intro c hc
      cases ds with
      | nil => exact absurd rfl hne
      | cons =>
        cases hc
        exact hds c List.mem_cons_self
    rw [List.cons_append, List.append_assoc, readExp, if_pos he, readSign_append hsign hhead]
    simp only [htake, hdrop]

theorem readNumber_append {whole frac exp rest : List Char} (hwhole : IsInteger whole)
    (hfrac : IsFrac frac) (hexp : IsExp exp) (hrest : Ends rest) :
    readNumber (whole ++ frac ++ exp ++ rest) =
      some (if frac = [] ∧ exp = [] then .int whole else .float (whole ++ frac ++ exp), rest) := by
  have hexprest : ∀ c ∈ (exp ++ rest).head?, c.isDigit = false ∧ c ≠ '.' := by
    intro c hc
    rcases hexp with rfl | ⟨e, sign, ds, rfl, he, -⟩
    · exact ⟨(hrest c hc).1, (hrest c hc).2.1⟩
    · cases hc
      rcases he with rfl | rfl <;> decide
  have hfracrest : ∀ c ∈ (frac ++ (exp ++ rest)).head?, c.isDigit = false := by
    intro c hc
    rcases hfrac with rfl | ⟨ds, rfl, -⟩
    · exact (hexprest c hc).1
    · cases hc
      decide
  rw [readNumber, List.append_assoc, List.append_assoc, readInteger_append hwhole hfracrest]
  simp only [Option.map_some, readFrac_append hfrac hexprest,
    readExp_append hexp fun c hc => ⟨(hrest c hc).1, (hrest c hc).2.2⟩]

theorem readNumber_int {t rest : List Char} (h : IsInteger t) (hrest : Ends rest) :
    readNumber (t ++ rest) = some (.int t, rest) := by
  have hread := readNumber_append h (.inl rfl) (.inl rfl) hrest
  simpa using hread

theorem readNumber_float {t rest : List Char} (h : FloatText t) (hrest : Ends rest) :
    readNumber (t ++ rest) = some (.float t, rest) := by
  obtain ⟨whole, frac, exp, rfl, hwhole, hfrac, hexp, hnot⟩ := h
  rw [readNumber_append hwhole hfrac hexp hrest, if_neg hnot]

theorem head_toDigits (n : Nat) : n = 0 ∨ (Nat.toDigits 10 n).head? ≠ some '0' := by
  induction n using Nat.strongRecOn with
  | ind n ih =>
    by_cases hlt : n < 10
    · rw [Nat.toDigits_of_lt_base hlt]
      have hall : ∀ i : Fin 10, i.val = 0 ∨ [i.val.digitChar].head? ≠ some '0' := by decide
      exact hall ⟨n, hlt⟩
    · rw [Nat.toDigits_of_base_le (by decide) (by omega)]
      rcases ih (n / 10) (by omega) with hzero | hhead
      · omega
      · right
        rwa [List.head?_append_of_ne_nil _ Nat.toDigits_ne_nil]

theorem isWhole_toDigits (n : Nat) : IsWhole (Nat.toDigits 10 n) where
  digits c hc := isDigit_of_mem hc
  leading := by
    rcases head_toDigits n with rfl | hhead
    · exact .inl (Nat.toDigits_zero 10)
    · exact .inr hhead
  ne_nil := Nat.toDigits_ne_nil

theorem isInteger_int (n : Int) : IsInteger (toString n).toList := by
  rw [toList_int]
  split
  · exact .inl (isWhole_toDigits _)
  · exact .inr ⟨_, rfl, isWhole_toDigits _⟩

theorem intOfText_int (n : Int) : intOfText (toString n).toList = n := by
  rw [toList_int]
  split
  · rw [intOfText, Nat.ofDigitChars_ten_toDigits]
    · omega
    · exact fun ds heq => minus_ne_digits _ _ heq.symm
  · rw [intOfText, Nat.ofDigitChars_ten_toDigits]
    omega

def NumberChar (c : Char) : Prop :=
  c.isDigit ∨ c = '-' ∨ c = '+' ∨ c = '.' ∨ c = 'e' ∨ c = 'E'

instance (c : Char) : Decidable (NumberChar c) := by
  unfold NumberChar
  infer_instance

theorem integer_chars {t : List Char} (h : IsInteger t) : ∀ c ∈ t, NumberChar c := by
  rcases h with h | ⟨ds, rfl, h⟩
  · exact fun c hc => .inl (h.digits c hc)
  · intro c hc
    rcases List.mem_cons.mp hc with rfl | hc
    · exact .inr (.inl rfl)
    · exact .inl (h.digits c hc)

theorem frac_chars {t : List Char} (h : IsFrac t) : ∀ c ∈ t, NumberChar c := by
  rcases h with rfl | ⟨ds, rfl, -, h⟩
  · exact nofun
  · intro c hc
    rcases List.mem_cons.mp hc with rfl | hc
    · exact .inr (.inr (.inr (.inl rfl)))
    · exact .inl (h c hc)

theorem exp_chars {t : List Char} (h : IsExp t) : ∀ c ∈ t, NumberChar c := by
  rcases h with rfl | ⟨e, sign, ds, rfl, he, hsign, -, h⟩
  · exact nofun
  · intro c hc
    rw [List.mem_cons, List.mem_append] at hc
    rcases hc with rfl | hc | hc
    · exact .inr (.inr (.inr (.inr he)))
    · rcases hsign with rfl | rfl | rfl
      · cases hc
      · exact .inr (.inl (List.mem_singleton.mp hc))
      · exact .inr (.inr (.inl (List.mem_singleton.mp hc)))
    · exact .inl (h c hc)

theorem float_chars {t : List Char} (h : FloatText t) : ∀ c ∈ t, NumberChar c := by
  obtain ⟨whole, frac, exp, rfl, hwhole, hfrac, hexp, -⟩ := h
  intro c hc
  rw [List.mem_append, List.mem_append] at hc
  rcases hc with (hc | hc) | hc
  · exact integer_chars hwhole c hc
  · exact frac_chars hfrac c hc
  · exact exp_chars hexp c hc

theorem printable_digit {c : Char} (h : c.isDigit) : Printable c := by
  simp only [Char.isDigit, Bool.and_eq_true, decide_eq_true_eq] at h
  exact ⟨le_trans (show ' '.val ≤ '0'.val by decide) h.1,
    le_trans h.2 (show '9'.val ≤ '~'.val by decide)⟩

theorem printable_number {c : Char} (h : NumberChar c) : Printable c := by
  rcases h with h | rfl | rfl | rfl | rfl | rfl
  · exact printable_digit h
  all_goals decide

end Python
