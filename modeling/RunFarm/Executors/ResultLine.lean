import RunFarm.Executors.ConfigClass
import RunFarm.Executors.Provider
import RunFarm.Python.JsonScan
import RunFarm.Python.Lines

/-! The line with the worker's result, among all that the run prints. -/
set_option autoImplicit false

namespace RunFarm
open Python

/-- The record of a run by this name; only a Modal worker adds to it. -/
def ranRecord (run : String) (result : Option Value) : RunRecord :=
  ⟨run, result, result.isNone, none⟩

theorem runConfig_ranRecord {E S : Type} {K : ConfigClass E} {site : Site K S} {fnRef : RunFnRef}
    {c : AnyConfig K} {m : Machine K S} {r : RunRecord}
    (h : (runConfig site fnRef c m).1 = some r) : r = ranRecord r.run r.result := by
  unfold runConfig at h
  generalize (if c.float64 then { m with x64 := true } else m) = m' at h
  simp only [] at h
  split at h
  · cases h
  · split at h
    · cases h
    · cases h
      rfl

def RunRecord.value (r : RunRecord) : Value :=
  .dict [(.str "run", .str r.run), (.str "result", r.result.getD .none),
    (.str "skipped", .bool r.skipped)]

variable {I : Interp}

/-- `print(RESULT_PREFIX + json.dumps(out))`, of the document of the record. -/
def printed (I : Interp) (j : Json) : List Char :=
  resultPrefix.toList ++ (j.text I ++ ['\n'])

/-- What comes back over ssh: stdout, to which the run has `written` before the worker printed,
and stderr. -/
def combined (I : Interp) (written : String) (j : Json) (err : String) : String :=
  String.ofList (written.toList ++ (printed I j ++ err.toList))

/-- `json.loads`, or the text of its error. -/
def readJson (R : FloatReader I) (message : String → String) (s : String) :
    Except String Value :=
  match readText R s.toList with
  | some j => .ok (loads j)
  | none => .error (message s)

/-- The last line is ended, and no line starts like that of the result. -/
def KeepsClear (written : String) : Prop :=
  EndsLine written.toList ∧ ∀ line ∈ splitlines written, ¬ resultPrefix.toList <+: line.toList

instance (written : String) : Decidable (KeepsClear written) := by
  unfold KeepsClear
  infer_instance

def ProviderExecutor.reading {C : Type} (ex : ProviderExecutor C) (R : FloatReader I)
    (message : String → String) : ProviderExecutor C :=
  { ex with jsonLoads := readJson R message }

variable {C : Type} {ex : ProviderExecutor C} {R : FloatReader I} {message : String → String}

theorem readJson_text {j : Json} (h : j.known R) :
    readJson R message (String.ofList (j.text I)) = .ok (loads j) := by
  rw [readJson, String.toList_ofList, readText_text h]

theorem splitlines_combined {j : Json} (hj : j.known R) {written : String} {whole : List String}
    {part : List Char} (h : Leaves [] written.toList whole part) (err : String) :
    splitlines (combined I written j err) = whole ++
      String.ofList (part.reverse ++ (resultPrefix.toList ++ j.text I)) :: splitlines err := by
  have hline : Unbroken (resultPrefix.toList ++ j.text I) := by
    intro c hc
    rcases List.mem_append.mp hc with hc | hc
    · exact (by decide : Unbroken resultPrefix.toList) c hc
    · exact unbroken_text hj c hc
  have hprinted : printed I j ++ err.toList =
      (resultPrefix.toList ++ j.text I) ++ '\n' :: err.toList := by
    simp [printed]
  rw [splitlines, combined, String.toList_ofList, h.goesOn _ (by simp [printed, resultPrefix]),
    hprinted, linesFrom_line hline]
  rfl

/-- A prefix that a line has across an unfinished line and the printed one is all in the unfinished
line: no end of it is a start of it. -/
theorem starts_across {p cs : List Char}
    (h : resultPrefix.toList <+: p ++ (resultPrefix.toList ++ cs)) :
    p = [] ∨ resultPrefix.toList <+: p := by
  by_cases hlen : p.length < resultPrefix.toList.length
  · left
    have hall : ∀ n < resultPrefix.toList.length, resultPrefix.toList <+:
        resultPrefix.toList.take n ++ resultPrefix.toList → n = 0 := by decide
    have hp : p = resultPrefix.toList.take p.length :=
      List.prefix_iff_eq_take.mp
        (List.prefix_of_prefix_length_le (List.prefix_append _ _) h (by omega))
    have hacross : resultPrefix.toList <+: p ++ resultPrefix.toList := by
      rw [← List.append_assoc] at h
      exact List.prefix_of_prefix_length_le h (List.prefix_append _ _) (by simp)
    rw [hp] at hacross
    exact List.eq_nil_of_length_eq_zero (hall p.length hlen hacross)
  · right
    exact List.prefix_of_prefix_length_le h (List.prefix_append _ _) (by omega)

theorem readText_across {j : Json} (hj : j.known R) (p : List Char) :
    readText R (p ++ (resultPrefix.toList ++ j.text I)) = none := by
  cases hread : readText R (p ++ (resultPrefix.toList ++ j.text I)) with
  | none => rfl
  | some k =>
    have hscan := scan_of_readText hread
    rw [scanText_append] at hscan
    obtain ⟨⟨d, mode⟩, -, hrest⟩ := Option.bind_eq_some_iff.mp hscan
    rw [scanText_append] at hrest
    cases mode with
    | outside => simp [resultPrefix, scanText, scanChar] at hrest
    | escape => simp [resultPrefix, scanText, scanChar, backslash] at hrest
    | inside =>
      have hinside : InString resultPrefix.toList := inString_chars (forall_chars (by decide))
      rw [hinside d, Option.bind_some] at hrest
      rcases inverts_text hj d with h | ⟨d', h⟩
      · rw [h] at hrest
        cases hrest
      · rw [h] at hrest
        cases hrest

theorem loads_ranRecord {run : String} {result : Option Value} {j : Json}
    (h : dumps I {} (ranRecord run result).value = some j) :
    ∃ v, loads j = .dict [(.str "run", .str run), (.str "result", v),
      (.str "skipped", .bool result.isNone)] := by
  obtain ⟨-, rfl⟩ := dumps_dict.mp h
  have harrange : ∀ es : List (Key × Value), ({} : Format).arrange I es = es := fun _ => rfl
  refine ⟨loads (doc I {} (result.getD .none)), ?_⟩
  rw [harrange, loads_obj (by simp [Key.text])]
  simp [Prod.map, Key.text, doc, dumps, loads, ranRecord]

theorem errorRecord_ne {c : C} {error run : String} {result : Option Value} {j : Json}
    (h : dumps I {} (ranRecord run result).value = some j) :
    ex.errorRecord c error ≠ loads j := by
  obtain ⟨v, hv⟩ := loads_ranRecord h
  rw [hv, ProviderExecutor.errorRecord]
  simp

def startsLikeResult (line : String) : Bool := resultPrefix.toList.isPrefixOf line.toList

theorem startsLikeResult_iff {line : String} :
    startsLikeResult line ↔ resultPrefix.toList <+: line.toList := List.isPrefixOf_iff_prefix

theorem find_none {lines : List String} (h : ∀ line ∈ lines, ¬ startsLikeResult line) :
    lines.find? startsLikeResult = none :=
  List.find?_eq_none.mpr h

theorem payloadOf_eq (out : String) : ProviderExecutor.payloadOf out =
    ((splitlines out).find? startsLikeResult).map fun line =>
      String.ofList (line.toList.drop resultPrefix.length) := rfl

theorem splitlines_written {written : String} {whole : List String} {part : List Char}
    (h : Leaves [] written.toList whole part) :
    splitlines written = whole ++ if part.isEmpty then [] else [String.ofList part.reverse] := by
  have hend := h.goesOn [] (by simp)
  rw [List.append_nil] at hend
  rw [splitlines, hend, linesFrom]

theorem payloadOf_stray {written : String} {whole : List String} {part : List Char}
    (h : Leaves [] written.toList whole part) {line : String} (hline : line ∈ whole)
    (hstray : startsLikeResult line) : ∃ payload, ∀ {j : Json} (err : String), j.known R →
      ProviderExecutor.payloadOf (combined I written j err) = some payload := by
  obtain ⟨stray, hfind⟩ := Option.isSome_iff_exists.mp
    (List.find?_isSome.mpr ⟨line, hline, hstray⟩)
  refine ⟨String.ofList (stray.toList.drop resultPrefix.length), fun err hj => ?_⟩
  rw [payloadOf_eq, splitlines_combined hj h, List.find?_append, hfind]
  rfl

theorem find_combined {j : Json} (hj : j.known R) {written : String} {whole : List String}
    {part : List Char} (h : Leaves [] written.toList whole part)
    (hwhole : ∀ line ∈ whole, ¬ startsLikeResult line) (err : String) :
    (splitlines (combined I written j err)).find? startsLikeResult =
      (String.ofList (part.reverse ++ (resultPrefix.toList ++ j.text I)) ::
        splitlines err).find? startsLikeResult := by
  rw [splitlines_combined hj h, List.find?_append, find_none hwhole, Option.none_or]

theorem parseRecord_clear {j : Json} (hj : j.known R) {written : String}
    (h : KeepsClear written) (c : C) (rc : Int) (err : String) :
    (ex.reading R message).parseRecord c rc (combined I written j err) = loads j := by
  obtain ⟨whole, part, hleaves⟩ := leaves [] written.toList
  obtain rfl : part = [] := hleaves.part_nil.mpr ⟨h.1, fun _ => rfl⟩
  have hlines := splitlines_written hleaves
  rw [List.isEmpty_nil, if_pos rfl, List.append_nil] at hlines
  have hwhole : ∀ line ∈ whole, ¬ startsLikeResult line := by
    rw [← hlines]
    exact fun line hline hstray => h.2 line hline (startsLikeResult_iff.mp hstray)
  have hpos : startsLikeResult (String.ofList (resultPrefix.toList ++ j.text I)) := by
    rw [startsLikeResult_iff, String.toList_ofList]
    exact List.prefix_append _ _
  have hpayload : ProviderExecutor.payloadOf (combined I written j err) =
      some (String.ofList (j.text I)) := by
    rw [payloadOf_eq, find_combined hj hleaves hwhole, List.reverse_nil, List.nil_append,
      List.find?_cons_of_pos hpos, Option.map_some, String.toList_ofList,
      ← String.length_toList, List.drop_left]
  rw [ProviderExecutor.parseRecord, hpayload]
  simp only [ProviderExecutor.reading, readJson_text hj]

theorem parseRecord_unfinished {run : String} {result : Option Value} {j : Json}
    (hdumps : dumps I {} (ranRecord run result).value = some j) (hj : j.known R)
    {written : String} {whole : List String} {part : List Char}
    (h : Leaves [] written.toList whole part) (hpart : part ≠ [])
    (hwhole : ∀ line ∈ whole, ¬ startsLikeResult line) {err : String}
    (herr : ∀ line ∈ splitlines err, ¬ startsLikeResult line) (c : C) (rc : Int) :
    (ex.reading R message).parseRecord c rc (combined I written j err) ≠ loads j := by
  have hfind := find_combined hj h hwhole err
  by_cases hstray : startsLikeResult
      (String.ofList (part.reverse ++ (resultPrefix.toList ++ j.text I)))
  · have hstart := startsLikeResult_iff.mp hstray
    rw [String.toList_ofList] at hstart
    obtain ⟨p, hp⟩ := (starts_across hstart).resolve_left (by simpa using hpart)
    have hpayload : ProviderExecutor.payloadOf (combined I written j err) =
        some (String.ofList (p ++ (resultPrefix.toList ++ j.text I))) := by
      rw [payloadOf_eq, hfind, List.find?_cons_of_pos hstray, Option.map_some,
        String.toList_ofList, ← hp, ← String.length_toList, List.append_assoc, List.drop_left]
    have hread : readJson R message (String.ofList (p ++ (resultPrefix.toList ++ j.text I))) =
        .error (message (String.ofList (p ++ (resultPrefix.toList ++ j.text I)))) := by
      rw [readJson, String.toList_ofList, readText_across hj]
    rw [ProviderExecutor.parseRecord, hpayload]
    simp only [ProviderExecutor.reading, hread]
    exact errorRecord_ne hdumps
  · have hpayload : ProviderExecutor.payloadOf (combined I written j err) = none := by
      rw [payloadOf_eq, hfind, List.find?_cons_of_neg hstray, find_none herr]
      rfl
    rw [ProviderExecutor.parseRecord, hpayload]
    exact errorRecord_ne hdumps

theorem no_lines : ∀ line ∈ splitlines "", ¬ startsLikeResult line := by decide

variable (R) in
theorem dumps_skipped (run : String) : ∃ j, dumps I {} (ranRecord run none).value = some j ∧
    j.known R := ⟨_, rfl, rfl⟩

variable (R) in
theorem dumps_empty (run : String) : ∃ j,
    dumps I {} (ranRecord run (some (.dict []))).value = some j ∧ j.known R := ⟨_, rfl, rfl⟩

variable (ex R message) in
theorem stray_lost (run : String) {written : String} {whole : List String} {part : List Char}
    (h : Leaves [] written.toList whole part) {line : String} (hline : line ∈ whole)
    (hstray : startsLikeResult line) (c : C) (rc : Int) :
    ∃ result j, dumps I {} (ranRecord run result).value = some j ∧ j.known R ∧
      (ex.reading R message).parseRecord c rc (combined I written j "") ≠ loads j := by
  obtain ⟨payload, hpayload⟩ := payloadOf_stray (I := I) (R := R) h hline hstray
  obtain ⟨j, hj, hknown⟩ := dumps_skipped R run
  obtain ⟨j', hj', hknown'⟩ := dumps_empty R run
  have hsame : (ex.reading R message).parseRecord c rc (combined I written j "") =
      (ex.reading R message).parseRecord c rc (combined I written j' "") := by
    rw [ProviderExecutor.parseRecord, ProviderExecutor.parseRecord, hpayload "" hknown,
      hpayload "" hknown']
  have hne : loads j ≠ loads j' := by
    obtain ⟨v, hv⟩ := loads_ranRecord hj
    obtain ⟨v', hv'⟩ := loads_ranRecord hj'
    rw [hv, hv']
    simp
  by_cases hback : (ex.reading R message).parseRecord c rc (combined I written j "") = loads j
  · refine ⟨some (.dict []), j', hj', hknown', ?_⟩
    rw [← hsame, hback]
    exact hne
  · exact ⟨none, j, hj, hknown, hback⟩

/-- Every result gets back exactly when the run's own output leaves the result line alone. -/
theorem result_gets_back_iff (ex : ProviderExecutor C) (R : FloatReader I)
    (message : String → String) (c : C) (rc : Int) (run written : String) :
    (∀ result j err, dumps I {} (ranRecord run result).value = some j → j.known R →
      (ex.reading R message).parseRecord c rc (combined I written j err) = loads j) ↔
      KeepsClear written := by
  refine ⟨fun hback => ?_, fun h result j err _ hj => parseRecord_clear hj h c rc err⟩
  obtain ⟨whole, part, h⟩ := leaves [] written.toList
  have hwhole : ∀ line ∈ whole, ¬ startsLikeResult line := by
    intro line hline hstray
    obtain ⟨result, j, hj, hknown, hlost⟩ := stray_lost ex R message run h hline hstray c rc
    exact hlost (hback result j "" hj hknown)
  -- the printed line must start where a line starts
  have hpart : part = [] := by
    by_contra hpart
    obtain ⟨j, hj, hknown⟩ := dumps_skipped R run
    exact parseRecord_unfinished hj hknown h hpart hwhole no_lines c rc
      (hback none j "" hj hknown)
  refine ⟨(h.part_nil.mp hpart).1, fun line hline hstray => ?_⟩
  rw [splitlines_written h, hpart, List.isEmpty_nil, if_pos rfl, List.append_nil] at hline
  exact hwhole line hline (startsLikeResult_iff.mpr hstray)

example : ["", "epoch 5/5\r", "epoch 5/5\nsaved", "__RESULT__ {}\n"].map
    (fun written => decide (KeepsClear written)) = [true, true, false, false] := by decide

def vastExecutor : ProviderExecutor Unit :=
  { runName := fun _ => "run_0", jsonLoads := fun _ => .error "", str := fun _ => "",
    seconds := fun s => toString s, provider := "vast", hostSpec := "" }

/-- A progress bar that is not ended with a newline. -/
theorem progress_bar_loses_result :
    ¬ ∀ (written : String) (result : Option Value) (j : Json) (err : String),
      dumps wholeInterp {} (ranRecord "run_0" result).value = some j → j.known wholeReader →
      (vastExecutor.reading wholeReader id).parseRecord () 0
        (combined wholeInterp written j err) = loads j := by
  intro hback
  obtain ⟨j, hj, hknown⟩ := dumps_empty wholeReader "run_0"
  obtain ⟨whole, part, h⟩ := leaves [] "epoch 5/5 done".toList
  have hpart : part ≠ [] := by
    rw [ne_eq, h.part_nil]
    decide
  have hwhole : ∀ line ∈ whole, ¬ startsLikeResult line := by
    have hall : ∀ line ∈ splitlines "epoch 5/5 done", ¬ startsLikeResult line := by decide
    intro line hline
    refine hall line ?_
    rw [splitlines_written h]
    exact List.mem_append_left _ hline
  exact parseRecord_unfinished hj hknown h hpart hwhole no_lines () 0
    (hback "epoch 5/5 done" _ j "" hj hknown)

end RunFarm
