import RunFarm.Fleet.Leg
import RunFarm.Python.Find

/-! What a watcher reads of a leg that is still running: the last progress marker of a log that is
being written. -/
set_option autoImplicit false

namespace RunFarm
open Python

def progressMark : List Char := "[[progress".toList

def progressClose : List Char := "]]".toList

def assignField (out : Dict String String) (word : List Char) : Dict String String :=
  let k := word.takeWhile (· ≠ '=')
  let v := (word.dropWhile (· ≠ '=')).drop 1
  if k = [] then out else out.set (String.ofList k) (String.ofList v)

def readFields (body : List Char) : Dict String String :=
  (blankSplit body).foldl assignField Dict.empty

def parseProgressLine (line : List Char) : Option (Dict String String) :=
  match find progressMark line with
  | none => none
  | some i =>
    match find progressClose (line.drop i) with
    | none => none
    | some n => some (readFields ((line.take (i + n)).drop (i + progressMark.length)))

/-- `progress`; `text` is the content of the leg's `progress.log`, if it can be read. -/
def progress (text : Option String) : Option (Dict String String) :=
  match text with
  | none => none
  | some text => (splitlines text).reverse.findSome? fun line => parseProgressLine line.toList

/-- The markers of a text, where `line` has been read of its first line, last character first. -/
def marksFrom (line cs : List Char) : List (Dict String String) :=
  (linesFrom line cs).filterMap fun line => parseProgressLine line.toList

theorem progress_eq (cs : List Char) :
    progress (some (String.ofList cs)) = (marksFrom [] cs).getLast? := by
  rw [progress, splitlines, String.toList_ofList, marksFrom, ← List.head?_reverse,
    ← List.filterMap_reverse, List.head?_filterMap]

theorem parse_append {line : List Char} {d : Dict String String}
    (h : parseProgressLine line = some d) (more : List Char) :
    parseProgressLine (line ++ more) = some d := by
  unfold parseProgressLine at h ⊢
  cases hmark : find progressMark line with
  | none => simp [hmark] at h
  | some i =>
    have hi := (find_le hmark).resolve_right (by decide)
    rw [find_append hmark (by decide)]
    rw [hmark] at h
    dsimp only at h ⊢
    cases hclose : find progressClose (line.drop i) with
    | none => simp [hclose] at h
    | some n =>
      have hn := (find_le hclose).resolve_right (by decide)
      rw [List.length_drop] at hn
      rw [List.drop_append_of_le_length (by omega), find_append hclose (by decide)]
      rw [hclose] at h
      dsimp only at h ⊢
      rw [List.take_append_of_le_length (by omega)]
      exact h

theorem linesFrom_ends {c : Char} {cs : List Char} (hbreak : isLineBreak c = true)
    (hpair : ∀ cs', c = '\r' → cs = '\n' :: cs' → False) (line : List Char) :
    linesFrom line (c :: cs) = String.ofList line.reverse :: linesFrom [] cs := by
  rw [linesFrom, if_pos hbreak]
  exact hpair

theorem linesFrom_starts {line : List Char} (h : line ≠ []) (cs : List Char) :
    ∃ more rest, linesFrom line cs = String.ofList (line.reverse ++ more) :: rest := by
  induction line, cs using linesFrom.induct with
  | case1 line hempty => exact absurd (List.isEmpty_iff.mp hempty) h
  | case2 line hempty => exact ⟨[], [], by rw [linesFrom, if_neg hempty, List.append_nil]⟩
  | case3 line cs ih => exact ⟨[], linesFrom [] cs, by rw [linesFrom, List.append_nil]⟩
  | case4 line c cs hpair hbreak ih =>
    exact ⟨[], linesFrom [] cs, by rw [linesFrom_ends hbreak hpair, List.append_nil]⟩
  | case5 line c cs hpair hbreak ih =>
    obtain ⟨more, rest, heq⟩ := ih (List.cons_ne_nil c line)
    refine ⟨c :: more, rest, ?_⟩
    rw [linesFrom_cons (by simpa using hbreak), heq, List.reverse_cons, List.append_assoc]
    rfl

theorem marks_cons (line : String) (lines : List String) :
    (line :: lines).filterMap (fun l => parseProgressLine l.toList) =
      (parseProgressLine line.toList).toList ++
        lines.filterMap fun l => parseProgressLine l.toList := by
  cases hparse : parseProgressLine line.toList <;> simp [hparse]

theorem marksFrom_prefix (line cs ds : List Char) :
    marksFrom line cs <+: marksFrom line (cs ++ ds) := by
  unfold marksFrom
  induction line, cs using linesFrom.induct with
  | case1 line hempty => simp [linesFrom, hempty]
  | case2 line hempty =>
    have hline : line ≠ [] := fun h => hempty (List.isEmpty_iff.mpr h)
    obtain ⟨more, rest, heq⟩ := linesFrom_starts hline ds
    rw [List.nil_append, heq, linesFrom, if_neg hempty, marks_cons, marks_cons,
      String.toList_ofList, String.toList_ofList]
    cases hparse : parseProgressLine line.reverse with
    | none => exact List.nil_prefix
    | some d =>
      rw [parse_append hparse more]
      exact List.prefix_append_right_inj [d] |>.mpr List.nil_prefix
  | case3 line cs ih =>
    rw [List.cons_append, List.cons_append, linesFrom, linesFrom, marks_cons, marks_cons,
      List.prefix_append_right_inj]
    exact ih
  | case4 line c cs hpair hbreak ih =>
    rw [linesFrom_ends hbreak hpair, marks_cons, List.cons_append]
    by_cases hnew : ∃ cs', c = '\r' ∧ cs ++ ds = '\n' :: cs'
    · -- the line feed that belongs to the last character comes later
      obtain ⟨cs', rfl, heq⟩ := hnew
      cases cs with
      | nil =>
        have hpaired : linesFrom line ('\r' :: '\n' :: cs') =
            String.ofList line.reverse :: linesFrom [] cs' := by rw [linesFrom]
        rw [heq, hpaired, marks_cons, List.prefix_append_right_inj]
        exact List.nil_prefix
      | cons d cs =>
        obtain ⟨rfl, -⟩ := List.cons.inj heq
        exact absurd rfl (fun h => hpair cs rfl h)
    · rw [linesFrom_ends hbreak (fun cs' hc heq => hnew ⟨cs', hc, heq⟩), marks_cons,
        List.prefix_append_right_inj]
      exact ih
  | case5 line c cs hpair hbreak ih =>
    have hno : isLineBreak c = false := by simpa using hbreak
    rw [List.cons_append, linesFrom_cons hno, linesFrom_cons hno]
    exact ih

/-- A line of a driver: free text, or a marker with text around it. -/
structure LogLine where
  before : List Char
  fields : Option (List (List Char × List Char))
  after : List Char

namespace LogLine

def fieldText (kv : List Char × List Char) : List Char := kv.1 ++ '=' :: kv.2

def body (l : LogLine) : List Char :=
  match l.fields with
  | none => []
  | some fields => progressMark ++ (fields.map fieldText).flatMap (' ' :: ·) ++ progressClose

def line (l : LogLine) : List Char := l.before ++ (l.body ++ l.after)

def text (l : LogLine) : List Char := l.line ++ ['\n']

/-- What it says, if it is a marker: a later field of the same name counts. -/
def said (l : LogLine) : Option (Dict String String) :=
  l.fields.map fun fields => fields.foldl (fun out kv =>
    out.set (String.ofList kv.1) (String.ofList kv.2)) Dict.empty

def isWordChar (c : Char) : Bool := !isSpace c && c ≠ ']'

/-- It is one line, in which nothing else reads as a marker; a field has a name. -/
structure Clean (l : LogLine) : Prop where
  line : Unbroken l.line
  before : ¬ progressMark <:+: l.before
  free : l.fields = none → ¬ progressMark <:+: l.before ++ l.after
  names : ∀ fields ∈ l.fields, ∀ kv ∈ fields, kv.1 ≠ [] ∧ '=' ∉ kv.1
  words : ∀ fields ∈ l.fields, ∀ kv ∈ fields, (fieldText kv).all isWordChar = true

variable {l : LogLine}

theorem isWordChar_iff {c : Char} : isWordChar c = true ↔ isSpace c = false ∧ c ≠ ']' := by
  simp [isWordChar]

theorem assignField_text {out : Dict String String} {kv : List Char × List Char}
    (h : kv.1 ≠ [] ∧ '=' ∉ kv.1) : assignField out (fieldText kv) =
      out.set (String.ofList kv.1) (String.ofList kv.2) := by
  have hname : ∀ c ∈ kv.1, decide (c ≠ '=') = true := fun c hc =>
    decide_eq_true fun heq => h.2 (heq ▸ hc)
  have htake : (fieldText kv).takeWhile (· ≠ '=') = kv.1 := by
    rw [fieldText, List.takeWhile_append_of_pos hname]
    simp
  have hdrop : (fieldText kv).dropWhile (· ≠ '=') = '=' :: kv.2 := by
    rw [fieldText, List.dropWhile_append_of_pos hname]
    simp
  rw [assignField, htake, hdrop]
  simp [h.1]

theorem readFields_text {fields : List (List Char × List Char)}
    (hnames : ∀ kv ∈ fields, kv.1 ≠ [] ∧ '=' ∉ kv.1)
    (hwords : ∀ kv ∈ fields, ∀ c ∈ fieldText kv, isSpace c = false) :
    readFields ((fields.map fieldText).flatMap (' ' :: ·)) = fields.foldl (fun out kv =>
      out.set (String.ofList kv.1) (String.ofList kv.2)) Dict.empty := by
  rw [readFields, blankSplit_flatMap, List.foldl_map]
  · refine List.foldl_ext _ _ _ fun out kv hkv => ?_
    exact assignField_text (hnames kv hkv)
  · intro w hw
    obtain ⟨kv, hkv, rfl⟩ := List.mem_map.mp hw
    exact ⟨by simp [fieldText], hwords kv hkv⟩

theorem parse_line (h : l.Clean) : parseProgressLine l.line = l.said := by
  cases hfields : l.fields with
  | none =>
    have hline : l.line = l.before ++ l.after := by simp [LogLine.line, body, hfields]
    rw [parseProgressLine, hline, find_eq_none (h.free hfields), said, hfields]
    rfl
  | some fields =>
    have hwords : ∀ kv ∈ fields, ∀ c ∈ fieldText kv, isWordChar c = true := fun kv hkv =>
      List.all_eq_true.mp (h.words fields hfields kv hkv)
    generalize hmiddle : (fields.map fieldText).flatMap (' ' :: ·) = middle
    have hline : l.line = l.before ++ (progressMark ++ (middle ++ (progressClose ++ l.after))) := by
      simp [LogLine.line, body, hfields, hmiddle]
    have hopen : find progressMark l.line = some l.before.length := by
      rw [hline]
      exact find_here (by decide) h.before _
    have hinside : ']' ∉ progressMark ++ middle := by
      rw [List.mem_append, ← hmiddle]
      rintro (hmark | hmem)
      · exact absurd hmark (by decide)
      · obtain ⟨w, hw, hmem⟩ := List.mem_flatMap.mp hmem
        obtain ⟨kv, hkv, rfl⟩ := List.mem_map.mp hw
        rcases List.mem_cons.mp hmem with heq | hmem
        · exact absurd heq (by decide)
        · exact (isWordChar_iff.mp (hwords kv hkv _ hmem)).2 rfl
    have hclose : find progressClose (l.line.drop l.before.length) =
        some (progressMark ++ middle).length := by
      rw [hline, List.drop_left, ← List.append_assoc]
      exact find_fresh hinside [']'] l.after
    have hbody : (l.line.take (l.before.length + (progressMark ++ middle).length)).drop
        (l.before.length + progressMark.length) = middle := by
      have hsplit : l.line =
          l.before ++ (progressMark ++ middle) ++ (progressClose ++ l.after) := by simp [hline]
      have htake : l.line.take (l.before.length + (progressMark ++ middle).length) =
          l.before ++ (progressMark ++ middle) := by
        rw [hsplit, ← List.length_append, List.take_left]
      rw [htake, ← List.append_assoc, ← List.length_append, List.drop_left]
    rw [parseProgressLine, hopen]
    dsimp only
    rw [hclose]
    dsimp only
    rw [hbody, ← hmiddle, readFields_text (h.names fields hfields)
      fun kv hkv c hc => (isWordChar_iff.mp (hwords kv hkv c hc)).1, said, hfields]
    rfl

theorem marks_texts {lines : List LogLine} (h : ∀ l ∈ lines, l.Clean) (cs : List Char) :
    marksFrom [] (lines.flatMap text ++ cs) = lines.filterMap said ++ marksFrom [] cs := by
  induction lines with
  | nil => rfl
  | cons l lines ih =>
    have hl := h l List.mem_cons_self
    have hrest := ih fun l' hl' => h l' (List.mem_cons_of_mem _ hl')
    rw [List.flatMap_cons, text, List.append_assoc, List.append_assoc, List.singleton_append,
      marksFrom, linesFrom_line hl.line, marks_cons, List.reverse_nil, List.nil_append,
      String.toList_ofList, parse_line hl]
    rw [marksFrom] at hrest
    rw [hrest, ← List.append_assoc]
    congr 1
    cases hsaid : l.said <;> simp [hsaid]

end LogLine

/-- A watcher sees the last of the markers, and these only become more while the log is written.
Whenever it looks, with some lines of a driver whole and a part of the next one written, it sees
what the last marker among the whole lines says, or already the next one: never a torn marker. -/
theorem progress_live (lines : List LogLine) (h : ∀ l ∈ lines, l.Clean) :
    (∀ seen more : List Char,
      progress (some (String.ofList seen)) = (marksFrom [] seen).getLast? ∧
        marksFrom [] seen <+: marksFrom [] (seen ++ more)) ∧
    ∀ k part more, (lines.take (k + 1)).flatMap LogLine.text =
        (lines.take k).flatMap LogLine.text ++ (part ++ more) →
      let sees := progress (some (String.ofList ((lines.take k).flatMap LogLine.text ++ part)))
      sees = ((lines.take k).filterMap LogLine.said).getLast? ∨
        sees = ((lines.take (k + 1)).filterMap LogLine.said).getLast? := by
  refine ⟨fun seen more => ⟨progress_eq seen, marksFrom_prefix [] seen more⟩,
    fun k part more heq => ?_⟩
  have hk : ∀ l ∈ lines.take k, l.Clean := fun l hl => h l (List.mem_of_mem_take hl)
  have hk' : ∀ l ∈ lines.take (k + 1), l.Clean := fun l hl => h l (List.mem_of_mem_take hl)
  have hnext : marksFrom [] ((lines.take (k + 1)).flatMap LogLine.text) =
      (lines.take (k + 1)).filterMap LogLine.said := by
    have htexts := LogLine.marks_texts hk' []
    simpa [marksFrom, linesFrom] using htexts
  have hgrows := marksFrom_prefix [] ((lines.take k).flatMap LogLine.text ++ part) more
  rw [List.append_assoc, ← heq, hnext, LogLine.marks_texts hk] at hgrows
  dsimp only
  rw [progress_eq, LogLine.marks_texts hk]
  rw [List.take_add_one, List.filterMap_append, List.prefix_append_right_inj] at hgrows
  rw [List.take_add_one, List.filterMap_append]
  generalize marksFrom [] part = seen at hgrows
  -- there is at most one marker in the line that is being written
  cases hline : (lines[k]?).bind LogLine.said with
  | none =>
    have hnone : (lines[k]?).toList.filterMap LogLine.said = [] := by
      cases hl : lines[k]? with
      | none => rfl
      | some l => simpa [hl] using hline
    rw [hnone] at hgrows
    rw [List.prefix_nil.mp hgrows, List.append_nil]
    exact .inl rfl
  | some d =>
    have hone : (lines[k]?).toList.filterMap LogLine.said = [d] := by
      obtain ⟨l, hl, hd⟩ := Option.bind_eq_some_iff.mp hline
      simp [hl, hd]
    rw [hone] at hgrows ⊢
    cases seen with
    | nil => exact .inl (by rw [List.append_nil])
    | cons d' seen =>
      obtain ⟨rfl, hnil⟩ := List.cons_prefix_cons.mp hgrows
      exact .inr (by rw [List.prefix_nil.mp hnil])

def kickLog : List LogLine :=
  [⟨"booting".toList, none, []⟩, ⟨[], some [("phase".toList, "relax".toList)], []⟩,
    ⟨"10:02 ".toList, some [("phase".toList, "kick".toList), ("frac".toList, "0.5".toList)], []⟩]

theorem kickLog_clean : ∀ l ∈ kickLog, l.Clean := by
  intro l hl
  simp only [kickLog, List.mem_cons, List.not_mem_nil, or_false] at hl
  rcases hl with rfl | rfl | rfl <;> exact ⟨by decide, by decide, by decide, by decide, by decide⟩

theorem kickLog_live :
    let sees := progress (some (String.ofList ((kickLog.take 2).flatMap LogLine.text ++
      "10:02 [[progress phase=ki".toList)))
    sees = ((kickLog.take 2).filterMap LogLine.said).getLast? ∨
      sees = ((kickLog.take 3).filterMap LogLine.said).getLast? :=
  (progress_live kickLog kickLog_clean).2 2 "10:02 [[progress phase=ki".toList
    "ck frac=0.5]]\n".toList (by decide)

end RunFarm
