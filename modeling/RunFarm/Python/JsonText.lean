import RunFarm.Python.Canonical
import RunFarm.Python.JsonTokens

/-! The text of a document: `json.dumps` writes it, and `json.loads` reads it back. -/
set_option autoImplicit false

namespace Python

/-- Which numbers are floats, and `float(s)`: a float's own text is a number, and reads as it. -/
structure FloatReader (I : Interp) where
  float : ℚ → Bool
  read : List Char → Flt
  text : ∀ q, float q → FloatText (I.floatRepr q).toList
  back : ∀ q, float q → read (I.floatRepr q).toList = .fin q
  negZero : read "-0.0".toList = .negZero

def FloatReader.knows {I : Interp} (R : FloatReader I) : Flt → Bool
  | .fin q => R.float q
  | .nan obj => obj = 0
  | _ => true

def Json.known {I : Interp} (R : FloatReader I) (j : Json) : Bool :=
  j.every R.knows fun _ => true

/-- `", ".join`. -/
def commaJoined : List (List Char) → List Char
  | [] => []
  | [t] => t
  | t :: ts => t ++ ',' :: ' ' :: commaJoined ts

mutual

def Json.text (I : Interp) : Json → List Char
  | .null => "null".toList
  | .bool b => if b then "true".toList else "false".toList
  | .int n => (toString n).toList
  | .float x => (I.floatText x).toList
  | .str s => quote s
  | .arr js => '[' :: (commaJoined (itemTexts I js) ++ [']'])
  | .obj ms => '{' :: (commaJoined (memberTexts I ms) ++ ['}'])

def itemTexts (I : Interp) : List Json → List (List Char)
  | [] => []
  | j :: js => j.text I :: itemTexts I js

def memberTexts (I : Interp) : List (String × Json) → List (List Char)
  | [] => []
  | (s, j) :: ms => (quote s ++ ':' :: ' ' :: j.text I) :: memberTexts I ms

end

def isBlank (c : Char) : Bool := c = ' ' || c = '\t' || c = '\n' || c = '\r'

def skipBlank (cs : List Char) : List Char := cs.dropWhile isBlank

def keyword (word : String) (j : Json) (cs : List Char) : Option (Json × List Char) :=
  if word.toList.isPrefixOf cs then some (j, cs.drop word.length) else none

section
variable {I : Interp} (R : FloatReader I)

def numberOf : Number → Json
  | .int t => .int (intOfText t)
  | .float t => .float (R.read t)

/-- `scan_once` of what is no string, array or object. -/
def readAtom (cs : List Char) : Option (Json × List Char) :=
  keyword "null" .null cs <|> keyword "true" (.bool true) cs <|>
    keyword "false" (.bool false) cs <|>
    ((readNumber cs).map fun p => (numberOf R p.1, p.2)) <|>
    keyword "NaN" (.float (.nan 0)) cs <|> keyword "Infinity" (.float .inf) cs <|>
    keyword "-Infinity" (.float .negInf) cs

mutual

/-- `scan_once`; `fuel` bounds the nesting and the members. -/
def readValue : Nat → List Char → Option (Json × List Char)
  | 0, _ => none
  | fuel + 1, cs =>
    match cs with
    | '"' :: cs => (readString cs).map fun p => (.str p.1, p.2)
    | '[' :: cs =>
      match skipBlank cs with
      | ']' :: cs => some (.arr [], cs)
      | cs => (readItems fuel cs).map fun p => (.arr p.1, p.2)
    | '{' :: cs =>
      match skipBlank cs with
      | '}' :: cs => some (.obj [], cs)
      | '"' :: cs => (readMembers fuel cs).map fun p => (.obj p.1, p.2)
      | _ => none
    | cs => readAtom R cs

/-- The loop of `JSONArray`. -/
def readItems : Nat → List Char → Option (List Json × List Char)
  | 0, _ => none
  | fuel + 1, cs =>
    match readValue fuel cs with
    | none => none
    | some (j, cs) =>
      match skipBlank cs with
      | ']' :: cs => some ([j], cs)
      | ',' :: cs => (readItems fuel (skipBlank cs)).map fun p => (j :: p.1, p.2)
      | _ => none

/-- The loop of `JSONObject`, after the quote of a name. -/
def readMembers : Nat → List Char → Option (List (String × Json) × List Char)
  | 0, _ => none
  | fuel + 1, cs =>
    match readString cs with
    | none => none
    | some (k, cs) =>
      match skipBlank cs with
      | ':' :: cs =>
        match readValue fuel (skipBlank cs) with
        | none => none
        | some (j, cs) =>
          match skipBlank cs with
          | '}' :: cs => some ([(k, j)], cs)
          | ',' :: cs =>
            match skipBlank cs with
            | '"' :: cs => (readMembers fuel cs).map fun p => ((k, j) :: p.1, p.2)
            | _ => none
          | _ => none
      | _ => none

end

/-- The document of a text; `none` is a `JSONDecodeError`. -/
def readText (cs : List Char) : Option Json :=
  match readValue R (cs.length + 1) (skipBlank cs) with
  | none => none
  | some (j, cs) => if skipBlank cs = [] then some j else none

end

attribute [local simp] Json.text itemTexts memberTexts readValue readItems readMembers

variable {I : Interp} {R : FloatReader I}

theorem itemTexts_eq (js : List Json) : itemTexts I js = js.map (Json.text I) := by
  induction js with
  | nil => simp
  | cons j js ih => simp [ih]

theorem memberTexts_eq (ms : List (String × Json)) :
    memberTexts I ms = ms.map fun m => quote m.1 ++ ':' :: ' ' :: m.2.text I := by
  induction ms with
  | nil => simp
  | cons m ms ih => simp [ih]

theorem known_arr {js : List Json} : (Json.arr js).known R ↔ ∀ j ∈ js, j.known R := every_arr

theorem known_obj {ms : List (String × Json)} :
    (Json.obj ms).known R ↔ ∀ m ∈ ms, m.2.known R := by
  rw [Json.known, every_obj]
  exact ⟨fun h => h.2, fun h => ⟨rfl, h⟩⟩

theorem known_fin {q : ℚ} : (Json.float (.fin q)).known R ↔ R.float q := by
  simp [Json.known, Json.every, FloatReader.knows]

theorem known_nan {obj : Nat} : (Json.float (.nan obj)).known R ↔ obj = 0 := by
  simp [Json.known, Json.every, FloatReader.knows]

def Opens (c : Char) : Prop := isBlank c = false ∧ c ≠ ']' ∧ c ≠ '}'

instance (c : Char) : Decidable (Opens c) := by
  unfold Opens
  infer_instance

theorem opens_digit {c : Char} (h : c.isDigit) : Opens c := by
  have hne : ∀ d : Char, d.isDigit = false → c ≠ d := by
    rintro d hd rfl
    rw [hd] at h
    cases h
  refine ⟨?_, hne _ (by decide), hne _ (by decide)⟩
  simp [isBlank, hne ' ' (by decide), hne '\t' (by decide), hne '\n' (by decide),
    hne '\r' (by decide)]

theorem keyword_none {word : String} {w c : Char} {ws cs : List Char} (j : Json)
    (hword : word.toList = w :: ws) (h : w ≠ c) : keyword word j (c :: cs) = none := by
  rw [keyword, hword, if_neg]
  simp [List.isPrefixOf, h]

theorem keyword_self (word : String) (j : Json) (rest : List Char) :
    keyword word j (word.toList ++ rest) = some (j, rest) := by
  rw [keyword, if_pos]
  · rw [← String.length_toList, List.drop_left]
  · rw [List.isPrefixOf_iff_prefix]
    exact List.prefix_append _ _

theorem readAtom_number {c : Char} {cs rest : List Char} {n : Number}
    (hc : c = '-' ∨ c.isDigit) (hread : readNumber (c :: cs) = some (n, rest)) :
    readAtom R (c :: cs) = some (numberOf R n, rest) := by
  have hne : ∀ w : Char, w ≠ '-' → w.isDigit = false → w ≠ c := by
    rintro w hminus hdigit rfl
    rcases hc with rfl | hc
    · exact hminus rfl
    · rw [hdigit] at hc
      cases hc
  rw [readAtom, keyword_none .null rfl (hne 'n' (by decide) (by decide)),
    keyword_none (.bool true) rfl (hne 't' (by decide) (by decide)),
    keyword_none (.bool false) rfl (hne 'f' (by decide) (by decide)), hread]
  rfl

theorem head_integer {t : List Char} (h : IsInteger t) :
    ∃ c cs, t = c :: cs ∧ (c = '-' ∨ c.isDigit) := by
  have hwhole : ∀ {ds : List Char}, IsWhole ds → ∃ c cs, ds = c :: cs ∧ c.isDigit := by
    intro ds hds
    obtain ⟨c, cs, rfl⟩ := List.exists_cons_of_ne_nil hds.ne_nil
    exact ⟨c, cs, rfl, hds.digits c List.mem_cons_self⟩
  rcases h with h | ⟨ds, rfl, -⟩
  · obtain ⟨c, cs, rfl, hc⟩ := hwhole h
    exact ⟨c, cs, rfl, .inr hc⟩
  · exact ⟨'-', ds, rfl, .inl rfl⟩

theorem head_float {t : List Char} (h : FloatText t) :
    ∃ c cs, t = c :: cs ∧ (c = '-' ∨ c.isDigit) := by
  obtain ⟨whole, frac, exp, rfl, hwhole, -⟩ := h
  obtain ⟨c, cs, rfl, hc⟩ := head_integer hwhole
  exact ⟨c, _, rfl, hc⟩

theorem floatText_negZero : FloatText "-0.0".toList := by
  refine ⟨['-', '0'], ['.', '0'], [], rfl, .inr ⟨['0'], rfl, ?_⟩, .inr ⟨['0'], rfl, ?_, ?_⟩,
    .inl rfl, ?_⟩
  · exact ⟨forall_chars (by decide), .inl rfl, by decide⟩
  · decide
  · exact forall_chars (by decide)
  · decide

def Json.isAtom : Json → Bool
  | .str _ | .arr _ | .obj _ => false
  | _ => true

theorem readAtom_text {j : Json} (hatom : j.isAtom) (hknown : j.known R) {rest : List Char}
    (hrest : Ends rest) : readAtom R (j.text I ++ rest) = some (j, rest) := by
  have hnumber : ∀ {t : List Char} {n : Number}, (∃ c cs, t = c :: cs ∧ (c = '-' ∨ c.isDigit)) →
      readNumber (t ++ rest) = some (n, rest) →
      readAtom R (t ++ rest) = some (numberOf R n, rest) := by
    rintro t n ⟨c, cs, rfl, hc⟩ hread
    exact readAtom_number hc hread
  cases j with
  | null =>
    rw [Json.text, readAtom, keyword_self]
    rfl
  | bool b =>
    cases b
    · rw [Json.text, if_neg Bool.false_ne_true, readAtom, keyword_self]
      rfl
    · rw [Json.text, if_pos rfl, readAtom, keyword_self]
      rfl
  | int n =>
    rw [Json.text, hnumber (head_integer (isInteger_int n))
        (readNumber_int (isInteger_int n) hrest),
      numberOf, intOfText_int]
  | float x =>
    cases x with
    | fin q =>
      have hq := known_fin.mp hknown
      rw [Json.text, Interp.floatText, hnumber (head_float (R.text q hq))
        (readNumber_float (R.text q hq) hrest), numberOf, R.back q hq]
    | negZero =>
      rw [Json.text, Interp.floatText, hnumber (head_float floatText_negZero)
        (readNumber_float floatText_negZero hrest), numberOf, R.negZero]
    | inf =>
      rw [Json.text, Interp.floatText, readAtom, keyword_self]
      rfl
    | negInf =>
      rw [Json.text, Interp.floatText, readAtom, keyword_self]
      rfl
    | nan obj =>
      obtain rfl := known_nan.mp hknown
      rw [Json.text, Interp.floatText, readAtom, keyword_self]
      rfl
  | str s => cases hatom
  | arr js => cases hatom
  | obj ms => cases hatom

theorem text_opens {j : Json} (hknown : j.known R) :
    ∃ c cs, j.text I = c :: cs ∧ Opens c := by
  have hnumber : ∀ {t : List Char}, (∃ c cs, t = c :: cs ∧ (c = '-' ∨ c.isDigit)) →
      ∃ c cs, t = c :: cs ∧ Opens c := by
    rintro t ⟨c, cs, rfl, rfl | hc⟩
    · exact ⟨'-', cs, rfl, by decide⟩
    · exact ⟨c, cs, rfl, opens_digit hc⟩
  cases j with
  | null => exact ⟨'n', _, rfl, by decide⟩
  | bool b =>
    cases b
    · exact ⟨'f', _, rfl, by decide⟩
    · exact ⟨'t', _, rfl, by decide⟩
  | int n => exact hnumber (head_integer (isInteger_int n))
  | float x =>
    cases x with
    | fin q =>
      have hq := known_fin.mp hknown
      exact hnumber (head_float (R.text q hq))
    | negZero => exact ⟨'-', "0.0".toList, by rw [Json.text, Interp.floatText]; decide, by decide⟩
    | inf => exact ⟨'I', "nfinity".toList, by rw [Json.text, Interp.floatText]; decide, by decide⟩
    | negInf =>
      exact ⟨'-', "Infinity".toList, by rw [Json.text, Interp.floatText]; decide, by decide⟩
    | nan obj => exact ⟨'N', "aN".toList, by rw [Json.text, Interp.floatText]; decide, by decide⟩
  | str s => exact ⟨'"', _, rfl, by decide⟩
  | arr js => exact ⟨'[', _, rfl, by decide⟩
  | obj ms => exact ⟨'{', _, rfl, by decide⟩

theorem skipBlank_opens {c : Char} (h : Opens c) (cs : List Char) :
    skipBlank (c :: cs) = c :: cs := by
  rw [skipBlank, List.dropWhile_cons_of_neg]
  rw [h.1]
  exact Bool.false_ne_true

theorem commaJoined_cons (t : List Char) {ts : List (List Char)} (h : ts ≠ []) :
    commaJoined (t :: ts) = t ++ ',' :: ' ' :: commaJoined ts := by
  cases ts with
  | nil => exact absurd rfl h
  | cons => rfl

/-- Read with enough fuel and before whatever may follow, a document is that of its text. -/
def Json.ReadsBack (R : FloatReader I) (j : Json) : Prop :=
  ∀ fuel rest, (j.text I).length ≤ fuel → (j.isAtom → Ends rest) →
    readValue R fuel (j.text I ++ rest) = some (j, rest)

theorem ends_cons {c : Char} (h : c = ',' ∨ c = ']' ∨ c = '}') (cs : List Char) :
    Ends (c :: cs) := by
  intro d hd
  cases hd
  rcases h with rfl | rfl | rfl <;> decide

theorem items_open {j : Json} (hknown : j.known R) (js : List Json) (rest : List Char) :
    ∃ c cs, commaJoined (itemTexts I (j :: js)) ++ rest = c :: cs ∧ Opens c := by
  obtain ⟨c, cs, htext, hc⟩ := text_opens hknown
  rw [itemTexts]
  cases js with
  | nil => exact ⟨c, cs ++ rest, by rw [itemTexts, commaJoined, htext, List.cons_append], hc⟩
  | cons k js =>
    rw [commaJoined_cons _ (by simp), htext]
    exact ⟨c, _, rfl, hc⟩

theorem readItems_text {js : List Json} (hread : ∀ j ∈ js, j.ReadsBack R)
    (hknown : ∀ j ∈ js, j.known R) (hne : js ≠ []) (fuel : Nat) (rest : List Char)
    (hfuel : (commaJoined (itemTexts I js)).length < fuel) :
    readItems R fuel (commaJoined (itemTexts I js) ++ ']' :: rest) = some (js, rest) := by
  induction js generalizing fuel with
  | nil => exact absurd rfl hne
  | cons j js ih =>
    rw [List.forall_mem_cons] at hread hknown
    cases fuel with
    | zero => exact absurd hfuel (Nat.not_lt_zero _)
    | succ fuel =>
      cases js with
      | nil =>
        rw [itemTexts, itemTexts, commaJoined] at hfuel ⊢
        rw [readItems, hread.1 fuel _ (by omega) fun _ => ends_cons (by simp) _]
        rfl
      | cons k js =>
        have hcons : itemTexts I (k :: js) ≠ [] := by simp
        obtain ⟨c, cs, hopen, hc⟩ := items_open (hknown.2 k List.mem_cons_self) js
          (']' :: rest)
        rw [itemTexts, commaJoined_cons _ hcons, List.length_append, List.length_cons,
          List.length_cons] at hfuel
        have hrest := ih hread.2 hknown.2 (List.cons_ne_nil _ _) fuel (by omega)
        have hblank : skipBlank (' ' :: (commaJoined (itemTexts I (k :: js)) ++ ']' :: rest)) =
            commaJoined (itemTexts I (k :: js)) ++ ']' :: rest := by
          rw [hopen]
          exact skipBlank_opens hc cs
        rw [itemTexts, commaJoined_cons _ hcons, List.append_assoc, List.cons_append,
          List.cons_append, readItems, hread.1 fuel _ (by omega) fun _ => ends_cons (by simp) _]
        simp only []
        rw [skipBlank_opens (by decide)]
        simp only [hblank, hrest]
        rfl

theorem memberTexts_cons (m : String × Json) (ms : List (String × Json)) :
    memberTexts I (m :: ms) = (quote m.1 ++ ':' :: ' ' :: m.2.text I) :: memberTexts I ms := by
  simp

def membersTail (I : Interp) : List (String × Json) → List Char
  | [] => []
  | [m] => escaped m.1 ++ '"' :: ':' :: ' ' :: m.2.text I
  | m :: ms => escaped m.1 ++
    '"' :: ':' :: ' ' :: (m.2.text I ++ ',' :: ' ' :: '"' :: membersTail I ms)

theorem joined_members {ms : List (String × Json)} (hne : ms ≠ []) :
    commaJoined (memberTexts I ms) = '"' :: membersTail I ms := by
  induction ms with
  | nil => exact absurd rfl hne
  | cons m ms ih =>
    cases ms with
    | nil => simp [commaJoined, membersTail, quote]
    | cons k ms =>
      rw [memberTexts_cons, commaJoined_cons _ (by simp), ih (List.cons_ne_nil _ _)]
      simp [membersTail, quote]

theorem skipBlank_text {j : Json} (hknown : j.known R) (rest : List Char) :
    skipBlank (' ' :: (j.text I ++ rest)) = j.text I ++ rest := by
  obtain ⟨c, cs, htext, hc⟩ := text_opens hknown
  rw [htext]
  exact skipBlank_opens hc _

theorem readMembers_text {ms : List (String × Json)} (hread : ∀ m ∈ ms, m.2.ReadsBack R)
    (hknown : ∀ m ∈ ms, m.2.known R) (hne : ms ≠ []) (fuel : Nat) (rest : List Char)
    (hfuel : (membersTail I ms).length < fuel) :
    readMembers R fuel (membersTail I ms ++ '}' :: rest) = some (ms, rest) := by
  induction ms generalizing fuel with
  | nil => exact absurd rfl hne
  | cons m ms ih =>
    rw [List.forall_mem_cons] at hread hknown
    cases fuel with
    | zero => exact absurd hfuel (Nat.not_lt_zero _)
    | succ fuel =>
      cases ms with
      | nil =>
        simp only [membersTail, List.length_append, List.length_cons] at hfuel
        rw [membersTail, List.append_assoc, List.cons_append, List.cons_append, List.cons_append,
          readMembers, readString_escaped]
        simp only []
        rw [skipBlank_opens (by decide)]
        simp only [skipBlank_text hknown.1]
        rw [hread.1 fuel _ (by omega) fun _ => ends_cons (by simp) _]
        rfl
      | cons k ms =>
        simp only [membersTail, List.length_append, List.length_cons] at hfuel
        have hrest := ih hread.2 hknown.2 (List.cons_ne_nil _ _) fuel (by omega)
        have hblank : skipBlank (' ' :: '"' :: (membersTail I (k :: ms) ++ '}' :: rest)) =
          '"' :: (membersTail I (k :: ms) ++ '}' :: rest) :=
          skipBlank_opens (c := '"') (by decide) _
        rw [membersTail, List.append_assoc, List.cons_append, List.cons_append, List.cons_append,
          List.append_assoc, List.cons_append, List.cons_append, List.cons_append, readMembers,
          readString_escaped]
        simp only []
        rw [skipBlank_opens (by decide)]
        simp only [skipBlank_text hknown.1]
        rw [hread.1 fuel _ (by omega) fun _ => ends_cons (by simp) _]
        simp only []
        rw [skipBlank_opens (by decide)]
        simp only [hblank, hrest]
        · rfl
        · exact List.cons_ne_nil _ _

theorem readAtom_none {c : Char} (hc : c = '"' ∨ c = '[' ∨ c = '{') (cs : List Char) :
    readAtom R (c :: cs) = none := by
  rcases hc with rfl | rfl | rfl <;> rfl

theorem readValue_atom {j : Json} (hatom : j.isAtom) (hknown : j.known R) {rest : List Char}
    (hrest : Ends rest) (fuel : Nat) :
    readValue R (fuel + 1) (j.text I ++ rest) = some (j, rest) := by
  have hread := readAtom_text hatom hknown hrest
  have hother : ∀ c cs, c = '"' ∨ c = '[' ∨ c = '{' → j.text I ++ rest ≠ c :: cs := by
    intro c cs hc heq
    rw [heq, readAtom_none hc] at hread
    cases hread
  rw [readValue]
  · exact hread
  · exact fun cs => hother '"' cs (.inl rfl)
  · exact fun cs => hother '[' cs (.inr (.inl rfl))
  · exact fun cs => hother '{' cs (.inr (.inr rfl))

theorem readsBack {j : Json} (hknown : j.known R) : j.ReadsBack R := by
  induction j using Json.induct with
  | str s =>
    intro fuel rest hfuel _
    cases fuel with
    | zero => simp [quote] at hfuel
    | succ fuel =>
      rw [Json.text, quote, List.cons_append, List.append_assoc, List.singleton_append, readValue,
        readString_escaped]
      rfl
  | arr js ih =>
    intro fuel rest hfuel _
    rw [known_arr] at hknown
    cases fuel with
    | zero => simp at hfuel
    | succ fuel =>
      simp only [Json.text, List.length_cons, List.length_append, List.length_nil] at hfuel
      rw [Json.text, List.cons_append, List.append_assoc, List.singleton_append, readValue]
      cases js with
      | nil => rfl
      | cons j js =>
        have hitems := readItems_text (fun j hj => ih j hj (hknown j hj)) hknown
          (List.cons_ne_nil _ _) fuel rest (by omega)
        obtain ⟨c, cs, hopen, hc⟩ := items_open (hknown j List.mem_cons_self) js
          (']' :: rest)
        rw [hopen] at hitems ⊢
        rw [skipBlank_opens hc]
        split
        · rename_i heq
          exact absurd (List.cons.inj heq).1 hc.2.1
        · rw [hitems]
          rfl
  | obj ms ih =>
    intro fuel rest hfuel _
    rw [known_obj] at hknown
    cases fuel with
    | zero => simp at hfuel
    | succ fuel =>
      simp only [Json.text, List.length_cons, List.length_append, List.length_nil] at hfuel
      rw [Json.text, List.cons_append, List.append_assoc, List.singleton_append, readValue]
      cases ms with
      | nil => rfl
      | cons m ms =>
        rw [joined_members (List.cons_ne_nil _ _), List.length_cons] at hfuel
        have hmembers := readMembers_text (fun m hm => ih m hm (hknown m hm)) hknown
          (List.cons_ne_nil _ _) fuel rest (by omega)
        rw [joined_members (List.cons_ne_nil _ _), List.cons_append, skipBlank_opens (by decide)]
        simp only [hmembers]
        rfl
  | _ =>
    intro fuel rest hfuel hrest
    obtain ⟨c, cs, htext, -⟩ := text_opens hknown
    cases fuel with
    | zero =>
      rw [htext, List.length_cons] at hfuel
      omega
    | succ fuel => exact readValue_atom rfl hknown (hrest rfl) fuel

theorem readText_text {j : Json} (hknown : j.known R) : readText R (j.text I) = some j := by
  have hread := readsBack hknown ((j.text I).length + 1) [] (by omega) fun _ => nofun
  obtain ⟨c, cs, htext, hc⟩ := text_opens hknown
  have hblank : skipBlank (j.text I) = j.text I := by
    rw [htext]
    exact skipBlank_opens hc cs
  rw [List.append_nil] at hread
  rw [readText, hblank, hread]
  rfl

theorem readText_extra {j k : Json} (hj : j.known R) (hk : k.known R) (hatom : j.isAtom = false) :
    readText R (j.text I ++ k.text I) = none := by
  have hread := readsBack hj ((j.text I ++ k.text I).length + 1) (k.text I)
    (by rw [List.length_append]; omega) fun h => by rw [hatom] at h; cases h
  obtain ⟨c, cs, htext, hc⟩ := text_opens hj
  obtain ⟨d, ds, htext', hd⟩ := text_opens hk
  have hblank : skipBlank (j.text I ++ k.text I) = j.text I ++ k.text I := by
    rw [htext]
    exact skipBlank_opens hc _
  rw [readText, hblank, hread]
  simp only []
  rw [htext', skipBlank_opens hd, if_neg (List.cons_ne_nil _ _)]

def wholeInterp : Interp :=
  .insertion (fun q => toString q.num ++ ".0") (fun _ => "object") fun _ => "not serializable"

def wholeReader : FloatReader wholeInterp where
  float q := q.den = 1 ∧ q.num.natAbs < 10 ^ 16
  read t := if t = "-0.0".toList then .negZero else .fin (intOfText (t.take (t.length - 2)))
  text q _ := ⟨(toString q.num).toList, ['.', '0'], [], by simp [wholeInterp, Interp.insertion],
    isInteger_int q.num, .inr ⟨['0'], rfl, by decide, forall_chars (by decide)⟩, .inl rfl,
    by decide⟩
  back q hq := by
    have hden : q.den = 1 := (of_decide_eq_true hq).1
    have htext : (wholeInterp.floatRepr q).toList = (toString q.num).toList ++ ['.', '0'] := by
      simp [wholeInterp, Interp.insertion]
    have hzero : (toString q.num).toList ≠ ['-', '0'] := by
      intro hzero
      have hnum := intOfText_int q.num
      rw [hzero] at hnum
      rw [← hnum] at hzero
      exact absurd hzero (by decide)
    have hneg : (toString q.num).toList ++ ['.', '0'] ≠ "-0.0".toList :=
      fun h => hzero (List.append_inj_left' h rfl)
    rw [htext, if_neg hneg, List.length_append, List.length_cons, List.length_singleton,
      Nat.add_sub_cancel, List.take_left, intOfText_int, Rat.coe_int_num_of_den_eq_one hden]
  negZero := if_pos rfl

structure TextRules (R : FloatReader I) (P : List Char → Prop) : Prop where
  nil : P []
  append : ∀ {cs ds : List Char}, P cs → P ds → P (cs ++ ds)
  comma : P [',', ' ']
  colon : P [':', ' ']
  quoted : ∀ s : String, P (quote s)
  atom : ∀ {j : Json}, j.isAtom → j.known R → P (j.text I)
  brackets : ∀ {cs : List Char}, P cs → P ('[' :: (cs ++ [']']))
  braces : ∀ {cs : List Char}, P cs → P ('{' :: (cs ++ ['}']))

section
variable {P : List Char → Prop}

theorem TextRules.joined (rules : TextRules R P) {ts : List (List Char)} (h : ∀ t ∈ ts, P t) :
    P (commaJoined ts) := by
  induction ts with
  | nil => exact rules.nil
  | cons t ts ih =>
    rw [List.forall_mem_cons] at h
    cases ts with
    | nil => exact h.1
    | cons k ts =>
      rw [commaJoined_cons _ (List.cons_ne_nil _ _)]
      exact rules.append h.1 (rules.append rules.comma (ih h.2))

theorem TextRules.items (rules : TextRules R P) {js : List Json} (h : ∀ j ∈ js, P (j.text I)) :
    P (commaJoined (itemTexts I js)) := by
  refine rules.joined fun t ht => ?_
  rw [itemTexts_eq, List.mem_map] at ht
  obtain ⟨j, hj, rfl⟩ := ht
  exact h j hj

theorem TextRules.members (rules : TextRules R P) {ms : List (String × Json)}
    (h : ∀ m ∈ ms, P (m.2.text I)) : P (commaJoined (memberTexts I ms)) := by
  refine rules.joined fun t ht => ?_
  rw [memberTexts_eq, List.mem_map] at ht
  obtain ⟨m, hm, rfl⟩ := ht
  exact rules.append (rules.quoted m.1) (rules.append rules.colon (h m hm))

theorem TextRules.text (rules : TextRules R P) {j : Json} (hknown : j.known R) :
    P (j.text I) := by
  induction j using Json.induct with
  | str s => exact rules.quoted s
  | arr js ih =>
    rw [known_arr] at hknown
    rw [Json.text]
    exact rules.brackets (rules.items fun j hj => ih j hj (hknown j hj))
  | obj ms ih =>
    rw [known_obj] at hknown
    rw [Json.text]
    exact rules.braces (rules.members fun m hm => ih m hm (hknown m hm))
  | _ => exact rules.atom rfl hknown

end

def AtomChar (c : Char) : Prop := NumberChar c ∨ c ∈ "nultrefasNIiy".toList

instance (c : Char) : Decidable (AtomChar c) := by
  unfold AtomChar
  infer_instance

theorem atom_chars {j : Json} (hatom : j.isAtom) (hknown : j.known R) :
    ∀ c ∈ j.text I, AtomChar c := by
  cases j with
  | null =>
    rw [Json.text]
    exact forall_chars (by decide)
  | bool b =>
    rw [Json.text]
    cases b <;> exact forall_chars (by decide)
  | int n => exact fun c hc => .inl (integer_chars (isInteger_int n) c hc)
  | float x =>
    cases x with
    | fin q => exact fun c hc => .inl (float_chars (R.text q (known_fin.mp hknown)) c hc)
    | _ =>
      rw [Json.text, Interp.floatText]
      exact forall_chars (by decide)
  | str s => cases hatom
  | arr js => cases hatom
  | obj ms => cases hatom

theorem printable_atomChar {c : Char} (h : AtomChar c) : Printable c := by
  rcases h with h | h
  · exact printable_number h
  · exact (forall_chars (by decide) : ∀ c ∈ "nultrefasNIiy".toList, Printable c) c h

theorem printable_rules : TextRules R fun cs => ∀ c ∈ cs, Printable c where
  nil := nofun
  append hcs hds := List.forall_mem_append.mpr ⟨hcs, hds⟩
  comma := forall_chars (by decide)
  colon := forall_chars (by decide)
  quoted := printable_quote
  atom hatom hknown c hc := printable_atomChar (atom_chars hatom hknown c hc)
  brackets h := by simpa [or_imp, forall_and] using ⟨by decide, h, by decide⟩
  braces h := by simpa [or_imp, forall_and] using ⟨by decide, h, by decide⟩

theorem printable_text {j : Json} (hknown : j.known R) : ∀ c ∈ j.text I, Printable c :=
  printable_rules.text hknown

end Python
