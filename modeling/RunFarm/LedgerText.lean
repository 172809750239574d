import RunFarm.Python.JsonScan
import RunFarm.Python.Lines

/-! The text of the ledger: what `RentalLedger.record` appends, cut off at any byte by a crash, and
what `events` and `leaked_ids` read of it. -/
set_option autoImplicit false

namespace RunFarm
open Python

/-- The dict of `record(event, **fields)`; a field of the caller's may take the place of `ts`. -/
def recordValue (ts : ℚ) (event : String) (fields : List (String × Value)) : Value :=
  .dict (dictOf (("ts", .float (.fin ts)) :: ("event", .str event) :: fields))

variable {I : Interp} {R : FloatReader I}

/-- A call of `record` with fields that `json.dumps` takes. -/
structure Receipt (R : FloatReader I) where
  ts : ℚ
  event : String
  fields : List (String × Value)
  json : Json
  dumped : dumps I { sortKeys := true } (recordValue ts event fields) = some json
  known : json.known R

namespace Receipt

def text (r : Receipt R) : List Char := r.json.text I

def line (r : Receipt R) : List Char := r.text ++ ['\n']

/-- What `json.loads` makes of it. -/
def image (r : Receipt R) : Value := loads r.json

def record (r : Receipt R) (file : List Char) : List Char := file ++ r.line

end Receipt

def recorded (rs : List (Receipt R)) (file : List Char) : List Char :=
  rs.foldl (fun file r => r.record file) file

/-- `RentalLedger.events`; `none` is a `JSONDecodeError`. -/
def events (R : FloatReader I) (file : List Char) : Option (List Value) :=
  ((linesFrom [] file).filter fun ln => strip ln.toList ≠ []).mapM fun ln =>
    (readText R ln.toList).map loads

/-- The events that the loop of `leaked_ids` goes on with. -/
def tolerated (R : FloatReader I) (file : List Char) : List Value :=
  (linesFrom [] file).filterMap fun ln =>
    if strip ln.toList = [] then none else (readText R (strip ln.toList)).map loads

/-- The records of which the first `n` bytes have the whole line. -/
def wholeLines : Nat → List (Receipt R) → List (Receipt R)
  | _, [] => []
  | n, r :: rs => if r.line.length ≤ n then r :: wholeLines (n - r.line.length) rs else []

def tornLine : Nat → List (Receipt R) → List Char
  | _, [] => []
  | n, r :: rs => if r.line.length ≤ n then tornLine (n - r.line.length) rs else r.line.take n

namespace Receipt

variable (r s : Receipt R)

theorem unbroken : Unbroken r.text := unbroken_text r.known

theorem read : readText R r.text = some r.json := readText_text r.known

theorem text_braces : ∃ body, r.text = '{' :: (body ++ ['}']) ∧ Neutral body := by
  obtain ⟨-, hjson⟩ := dumps_dict.mp r.dumped
  have hknown := r.known
  rw [hjson, known_obj] at hknown
  refine ⟨_, by rw [text, hjson, Json.text], (neutral_rules (R := R)).members fun m hm => ?_⟩
  exact neutral_text (hknown m hm)

theorem text_ne_nil : r.text ≠ [] := by
  obtain ⟨body, htext, -⟩ := r.text_braces
  rw [htext]
  exact List.cons_ne_nil _ _

theorem strip_text : strip r.text = r.text := by
  obtain ⟨body, htext, -⟩ := r.text_braces
  rw [htext]
  exact strip_between (by decide) (by decide)

theorem read_twice : readText R (r.text ++ s.text) = none := by
  refine readText_extra r.known s.known ?_
  obtain ⟨-, hjson⟩ := dumps_dict.mp r.dumped
  rw [hjson]
  rfl

theorem scan_open (d : Nat) (mode : StringMode) :
    scanText ⟨d + 1, mode⟩ s.text ≠ some ⟨0, .outside⟩ := by
  intro hscan
  cases mode with
  | outside =>
    rw [text, neutral_text s.known] at hscan
    cases hscan
  | inside =>
    rcases inverts_text s.known (d + 1) with h | ⟨d', h⟩
    · rw [text, h] at hscan
      cases hscan
    · rw [text, h] at hscan
      cases hscan
  | escape =>
    obtain ⟨body, htext, -⟩ := s.text_braces
    rw [htext] at hscan
    simp [scanText, scanChar, backslash] at hscan

theorem scan_torn {p : List Char} (h : p <+: r.text) (hne : p ≠ []) (hcut : p ≠ r.text) :
    ∃ d mode, scanText ⟨0, .outside⟩ p = some ⟨d + 1, mode⟩ := by
  obtain ⟨body, htext, hbody⟩ := r.text_braces
  rw [htext] at h hcut
  cases p with
  | nil => exact absurd rfl hne
  | cons c q =>
    obtain ⟨rfl, hq⟩ := List.cons_prefix_cons.mp h
    rcases List.prefix_concat_iff.mp hq with rfl | hq
    · exact absurd rfl hcut
    · obtain ⟨rest, rfl⟩ := hq
      have hscan := hbody 0
      rw [scanText_append] at hscan
      obtain ⟨⟨d, mode⟩, hd, -⟩ := Option.bind_eq_some_iff.mp hscan
      exact ⟨d, mode, scanText_deeper hd⟩

theorem read_torn {p : List Char} (h : p <+: r.text) (hne : p ≠ []) (hcut : p ≠ r.text) :
    readText R p = none := by
  obtain ⟨d, mode, hscan⟩ := r.scan_torn h hne hcut
  cases hread : readText R p with
  | none => rfl
  | some j =>
    rw [scan_of_readText hread] at hscan
    cases hscan

theorem read_merged {p : List Char} (h : p <+: r.text) (hne : p ≠ []) :
    readText R (p ++ s.text) = none := by
  by_cases hcut : p = r.text
  · rw [hcut]
    exact r.read_twice s
  · obtain ⟨d, mode, hscan⟩ := r.scan_torn h hne hcut
    cases hread : readText R (p ++ s.text) with
    | none => rfl
    | some j =>
      have hall := scan_of_readText hread
      rw [scanText_append, hscan] at hall
      exact absurd hall (s.scan_open d mode)

end Receipt

section Readers
variable {line rest : List Char}

theorem events_line (h : Unbroken line) (hne : strip line ≠ []) :
    events R (line ++ '\n' :: rest) = ((readText R line).map loads).bind fun v =>
      (events R rest).map (v :: ·) := by
  rw [events, linesFrom_line h, List.reverse_nil, List.nil_append,
    List.filter_cons_of_pos (by simpa using hne), List.mapM_cons, String.toList_ofList]
  cases (readText R line).map loads with
  | none => rfl
  | some v =>
    rw [Option.bind_some, events, Option.map_eq_bind]
    rfl

theorem events_last (h : Unbroken line) (hne : strip line ≠ []) :
    events R line = ((readText R line).map loads).map ([·]) := by
  have hline : line ≠ [] := by
    rintro rfl
    exact hne rfl
  rw [events, linesFrom_last h, if_neg (by simpa using hline),
    List.filter_cons_of_pos (by simpa using hne), List.filter_nil, List.mapM_cons,
    String.toList_ofList]
  cases (readText R line).map loads <;> rfl

theorem tolerated_line (h : Unbroken line) (hne : strip line ≠ []) :
    tolerated R (line ++ '\n' :: rest) =
      ((readText R (strip line)).map loads).toList ++ tolerated R rest := by
  rw [tolerated, linesFrom_line h, List.reverse_nil, List.nil_append, List.filterMap_cons,
    String.toList_ofList, if_neg hne]
  cases (readText R (strip line)).map loads <;> rfl

theorem tolerated_last (h : Unbroken line) (hne : strip line ≠ []) :
    tolerated R line = ((readText R (strip line)).map loads).toList := by
  have hline : line ≠ [] := by
    rintro rfl
    exact hne rfl
  rw [tolerated, linesFrom_last h, if_neg (by simpa using hline), List.filterMap_cons,
    String.toList_ofList, if_neg hne]
  cases (readText R (strip line)).map loads <;> rfl

end Readers

theorem recorded_eq (rs : List (Receipt R)) (file : List Char) :
    recorded rs file = file ++ rs.flatMap Receipt.line := by
  induction rs generalizing file with
  | nil => rw [List.flatMap_nil, List.append_nil, recorded, List.foldl_nil]
  | cons r rs ih =>
    rw [recorded, List.foldl_cons, ← recorded, ih, Receipt.record, List.append_assoc,
      List.flatMap_cons]

theorem Receipt.strip_ne_nil (r : Receipt R) : strip r.text ≠ [] := by
  rw [r.strip_text]
  exact r.text_ne_nil

theorem events_recorded (rs : List (Receipt R)) (rest : List Char) :
    events R (rs.flatMap Receipt.line ++ rest) =
      (events R rest).map (rs.map Receipt.image ++ ·) := by
  induction rs with
  | nil =>
    rw [List.flatMap_nil, List.nil_append]
    cases events R rest <;> rfl
  | cons r rs ih =>
    rw [List.flatMap_cons, Receipt.line, List.append_assoc, List.append_assoc,
      List.singleton_append, events_line r.unbroken r.strip_ne_nil, ih, r.read]
    cases events R rest <;> rfl

theorem tolerated_recorded (rs : List (Receipt R)) (rest : List Char) :
    tolerated R (rs.flatMap Receipt.line ++ rest) =
      rs.map Receipt.image ++ tolerated R rest := by
  induction rs with
  | nil => rfl
  | cons r rs ih =>
    rw [List.flatMap_cons, Receipt.line, List.append_assoc, List.append_assoc,
      List.singleton_append, tolerated_line r.unbroken r.strip_ne_nil, ih, r.strip_text, r.read]
    rfl

theorem take_lines (rs : List (Receipt R)) (n : Nat) : (rs.flatMap Receipt.line).take n =
    (wholeLines n rs).flatMap Receipt.line ++ tornLine n rs := by
  induction rs generalizing n with
  | nil => rw [List.flatMap_nil, List.take_nil, wholeLines, tornLine]; rfl
  | cons r rs ih =>
    rw [List.flatMap_cons, wholeLines, tornLine, List.take_append]
    split
    · rename_i hle
      rw [List.take_of_length_le hle, ih, List.flatMap_cons, List.append_assoc]
    · rename_i hlt
      rw [Nat.sub_eq_zero_of_le (by omega), List.take_zero, List.append_nil, List.flatMap_nil,
        List.nil_append]

theorem tornLine_start {rs : List (Receipt R)} {n : Nat} (h : tornLine n rs ≠ []) :
    ∃ r ∈ rs, tornLine n rs <+: r.text := by
  induction rs generalizing n with
  | nil => exact absurd rfl h
  | cons r rs ih =>
    rw [tornLine] at h ⊢
    split at h
    · rename_i hle
      rw [if_pos hle]
      obtain ⟨s, hs, hstart⟩ := ih h
      exact ⟨s, List.mem_cons_of_mem _ hs, hstart⟩
    · rename_i hlt
      rw [if_neg hlt]
      refine ⟨r, List.mem_cons_self, ?_⟩
      rw [Receipt.line, List.length_append, List.length_singleton] at hlt
      rw [Receipt.line, List.take_append_of_le_length (by omega)]
      exact List.take_prefix _ _

def unmerged (torn : List Char) (more : List (Receipt R)) : List (Receipt R) :=
  if torn = [] then more else more.drop 1

/-- What a crash after `n` bytes leaves, and the records appended to it. -/
def crashed (n : Nat) (rs more : List (Receipt R)) : List Char :=
  recorded more ((recorded rs []).take n)

/-- A reader has every record that was whole and every one appended later, in order. The record
whose line is torn may be there or not, and the next one, on the same line, need not. -/
def Keeps (n : Nat) (rs more : List (Receipt R)) (read : List Value) : Prop :=
  ∃ torn, (torn = [] ∨ tornLine n rs ≠ [] ∧ ∃ r ∈ rs, torn = [r.image]) ∧
    read = (wholeLines n rs).map Receipt.image ++
      (torn ++ (unmerged (tornLine n rs) more).map Receipt.image)

theorem crashed_eq (n : Nat) (rs more : List (Receipt R)) : crashed n rs more =
    (wholeLines n rs).flatMap Receipt.line ++
      (tornLine n rs ++ more.flatMap Receipt.line) := by
  rw [crashed, recorded_eq, recorded_eq, List.nil_append, take_lines, List.append_assoc]

theorem unbroken_start {p cs : List Char} (h : Unbroken cs) (hp : p <+: cs) : Unbroken p :=
  fun c hc => h c (hp.subset hc)

namespace Receipt

variable {r s : Receipt R} {p : List Char}

theorem torn_opens (h : p <+: r.text) (hne : p ≠ []) : ∃ q, p = '{' :: q := by
  obtain ⟨body, htext, -⟩ := r.text_braces
  rw [htext] at h
  cases p with
  | nil => exact absurd rfl hne
  | cons c q =>
    obtain ⟨rfl, -⟩ := List.cons_prefix_cons.mp h
    exact ⟨q, rfl⟩

theorem strip_torn (h : p <+: r.text) (hne : p ≠ []) : strip p <+: p ∧ strip p ≠ [] := by
  obtain ⟨q, rfl⟩ := torn_opens h hne
  exact ⟨strip_start (by decide), Python.strip_ne_nil (by decide)⟩

theorem strip_merged (h : p <+: r.text) (hne : p ≠ []) (s : Receipt R) :
    strip (p ++ s.text) = p ++ s.text := by
  obtain ⟨q, rfl⟩ := torn_opens h hne
  obtain ⟨body, htext, -⟩ := s.text_braces
  have hend : '{' :: q ++ s.text = '{' :: (q ++ '{' :: body ++ ['}']) := by
    rw [htext]
    simp
  rw [hend]
  exact strip_between (by decide) (by decide)

theorem unbroken_merged (h : p <+: r.text) (s : Receipt R) : Unbroken (p ++ s.text) := by
  intro c hc
  rcases List.mem_append.mp hc with hc | hc
  · exact unbroken_start r.unbroken h c hc
  · exact s.unbroken c hc

theorem merged_line (p : List Char) (s : Receipt R) (rest : List Char) :
    p ++ (s.line ++ rest) = (p ++ s.text) ++ '\n' :: rest := by
  rw [line, List.append_assoc, List.singleton_append, List.append_assoc]

theorem strip_merged_ne_nil (h : p <+: r.text) (hne : p ≠ []) (s : Receipt R) :
    strip (p ++ s.text) ≠ [] := by
  rw [strip_merged h hne s]
  exact List.append_ne_nil_of_left_ne_nil hne _

theorem events_merged (h : p <+: r.text) (hne : p ≠ []) (rest : List Char) :
    events R (p ++ (s.line ++ rest)) = none := by
  rw [merged_line, events_line (unbroken_merged h s) (strip_merged_ne_nil h hne s),
    r.read_merged s h hne]
  rfl

theorem events_torn (h : p <+: r.text) (hne : p ≠ []) (hcut : p ≠ r.text) :
    events R p = none := by
  rw [events_last (unbroken_start r.unbroken h) (strip_torn h hne).2, r.read_torn h hne hcut]
  rfl

theorem events_text (r : Receipt R) : events R r.text = some [r.image] := by
  rw [events_last r.unbroken r.strip_ne_nil, r.read]
  rfl

theorem tolerated_merged (h : p <+: r.text) (hne : p ≠ []) (rest : List Char) :
    tolerated R (p ++ (s.line ++ rest)) = tolerated R rest := by
  rw [merged_line, tolerated_line (unbroken_merged h s) (strip_merged_ne_nil h hne s),
    strip_merged h hne s, r.read_merged s h hne]
  rfl

theorem tolerated_torn (h : p <+: r.text) (hne : p ≠ []) :
    tolerated R p = [] ∨ tolerated R p = [r.image] := by
  obtain ⟨hstart, hstrip⟩ := strip_torn h hne
  rw [tolerated_last (unbroken_start r.unbroken h) hstrip]
  by_cases hcut : strip p = r.text
  · rw [hcut, r.read]
    exact .inr rfl
  · rw [r.read_torn (hstart.trans h) hstrip hcut]
    exact .inl rfl

end Receipt

section Crash
variable {rs more : List (Receipt R)} {n : Nat}

theorem events_crashed (n : Nat) (rs more : List (Receipt R)) :
    events R (crashed n rs more) = (events R (tornLine n rs ++ more.flatMap Receipt.line)).map
      ((wholeLines n rs).map Receipt.image ++ ·) := by
  rw [crashed_eq, events_recorded]

theorem events_lines (rs : List (Receipt R)) :
    events R (rs.flatMap Receipt.line) = some (rs.map Receipt.image) := by
  have hall := events_recorded rs []
  rw [List.append_nil] at hall
  rw [hall, show events R [] = some [] from rfl, Option.map_some, List.append_nil]

theorem tolerated_lines (rs : List (Receipt R)) :
    tolerated R (rs.flatMap Receipt.line) = rs.map Receipt.image := by
  have hall := tolerated_recorded rs []
  rw [List.append_nil] at hall
  rw [hall, show tolerated R [] = [] from rfl, List.append_nil]

/-- `leaked_ids` gets over every crash. -/
theorem tolerated_keeps (n : Nat) (rs more : List (Receipt R)) :
    Keeps n rs more (tolerated R (crashed n rs more)) := by
  rw [crashed_eq, tolerated_recorded]
  by_cases htorn : tornLine n rs = []
  · refine ⟨[], .inl rfl, ?_⟩
    rw [htorn, List.nil_append, tolerated_lines, unmerged, if_pos rfl, List.nil_append]
  · obtain ⟨r, hr, hstart⟩ := tornLine_start htorn
    cases more with
    | nil =>
      rw [List.flatMap_nil, List.append_nil]
      refine ⟨tolerated R (tornLine n rs), ?_, ?_⟩
      · rcases Receipt.tolerated_torn hstart htorn with h | h
        · exact .inl h
        · exact .inr ⟨htorn, r, hr, h⟩
      · rw [unmerged, if_neg htorn, List.drop_nil, List.map_nil, List.append_nil]
    | cons s more =>
      refine ⟨[], .inl rfl, ?_⟩
      rw [List.flatMap_cons, Receipt.tolerated_merged hstart htorn, tolerated_lines, unmerged,
        if_neg htorn, List.drop_one, List.tail_cons, List.nil_append]

/-- `events` gets over a crash exactly when no line is torn, or all that is missing is the last
newline and nothing comes after it. -/
theorem events_survive_iff (R : FloatReader I) (n : Nat) (rs more : List (Receipt R)) :
    (∃ read, events R (crashed n rs more) = some read ∧ Keeps n rs more read) ↔
      tornLine n rs = [] ∨ more = [] ∧ ∃ r ∈ rs, tornLine n rs = r.text := by
  rw [events_crashed]
  by_cases htorn : tornLine n rs = []
  · refine ⟨fun _ => .inl htorn, fun _ => ?_⟩
    rw [htorn, List.nil_append, events_lines]
    refine ⟨_, rfl, [], .inl rfl, ?_⟩
    rw [htorn, unmerged, if_pos rfl, List.nil_append]
  · obtain ⟨r, hr, hstart⟩ := tornLine_start htorn
    cases more with
    | nil =>
      rw [List.flatMap_nil, List.append_nil]
      constructor
      · rintro ⟨read, hread, -⟩
        refine .inr ⟨rfl, r, hr, ?_⟩
        by_contra hcut
        rw [Receipt.events_torn hstart htorn hcut] at hread
        cases hread
      · rintro (h | ⟨-, s, hs, hcut⟩)
        · exact absurd h htorn
        · rw [hcut, s.events_text]
          refine ⟨_, rfl, [s.image], .inr ⟨htorn, s, hs, rfl⟩, ?_⟩
          rw [unmerged, if_neg htorn, List.drop_nil, List.map_nil, List.append_nil]
    | cons s more =>
      rw [List.flatMap_cons, Receipt.events_merged hstart htorn]
      constructor
      · rintro ⟨read, hread, -⟩
        cases hread
      · rintro (h | ⟨h, -⟩)
        · exact absurd h htorn
        · cases h

end Crash

/-- What `rent` writes as soon as a host has an id. -/
def rentedReceipt : Receipt wholeReader where
  ts := 1000
  event := "rented"
  fields := [("instance_id", .int 42)]
  json := .obj [("event", .str "rented"), ("instance_id", .int 42), ("ts", .float (.fin 1000))]
  dumped := by rfl
  known := by decide +kernel

/-- A crash within the first record, and one more after it. -/
theorem torn_rent_raises :
    ¬ ∃ read, events wholeReader (crashed 20 [rentedReceipt] [rentedReceipt]) = some read ∧
      Keeps 20 [rentedReceipt] [rentedReceipt] read := by
  rintro ⟨read, hread, -⟩
  have hnone : events wholeReader (crashed 20 [rentedReceipt] [rentedReceipt]) = none := by
    decide +kernel
  rw [hnone] at hread
  cases hread

end RunFarm
