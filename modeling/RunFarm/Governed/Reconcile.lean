import RunFarm.Governed.Corpus

/-! `execute_fleet` over any records: one outcome for each planned leg, one entry for each
record that no planned leg has sent. -/
set_option autoImplicit false

namespace RunFarm
open Python

/-- The key after `n` rounds of the disambiguation. -/
def suffixed (key : String) : Nat → String
  | 0 => key
  | n + 1 => suffixed (key ++ ".unplanned") n

theorem freeKey_spec (taken : List String) (key : String) :
    freeKey taken key ∉ taken ∧
      ∃ n ≤ (atLeast taken key.length).length, freeKey taken key = suffixed key n := by
  induction key using freeKey.induct taken with
  | case1 key hmem ih =>
    have hlen : key.length < (key ++ ".unplanned").length := by
      rw [String.length_append]
      have : ".unplanned".length = 10 := by decide
      omega
    have hfewer := atLeast_lt hmem hlen
    obtain ⟨hfree, n, hn, heq⟩ := ih
    rw [freeKey, if_pos hmem]
    exact ⟨hfree, n + 1, by omega, heq⟩
  | case2 key hfree =>
    rw [freeKey, if_neg hfree]
    exact ⟨hfree, 0, by omega, rfl⟩

variable {S : Setting} {c c' : FarmCampaign} {ans : Answer} {rid : String} {rec : Record}

theorem ingest_congr {products : List (Key × Value)}
    (h : c'.ingested.get rid = c.ingested.get rid) :
    (c'.ingest S ans rid products).2 = (c.ingest S ans rid products).2 := by
  unfold FarmCampaign.ingest
  rw [h]
  cases sha256Json S.I S.sha256 (.dict products) with
  | error e => rfl
  | ok content =>
    cases c.ingested.get rid with
    | some d =>
      dsimp only
      split <;> rfl
    | none =>
      dsimp only
      split <;> rfl

theorem govern_congr {v : Value} (h : c'.ingested.get rid = c.ingested.get rid) :
    (c'.govern S ans rid v).2 = (c.govern S ans rid v).2 := by
  unfold FarmCampaign.govern
  cases FarmCampaign.shape v with
  | error bad => dsimp only
  | ok es =>
    dsimp only
    split
    · exact ingest_congr h
    · rfl

theorem onSkip_congr (h : c'.ingested.get rid = c.ingested.get rid) :
    (c'.onSkip S ans rid).2 = (c.onSkip S ans rid).2 := by
  unfold FarmCampaign.onSkip
  rw [h]
  split
  · rfl
  · cases ans.done with
    | missing => rfl
    | read v => exact govern_congr h
    | raises e => rfl

theorem settle_congr (h : c'.ingested.get rid = c.ingested.get rid) :
    (c'.settle S rec ans rid).2 = (c.settle S rec ans rid).2 := by
  have hentered : (c'.entered rid).ingested.get rid = (c.entered rid).ingested.get rid := by
    rw [(FarmCampaign.entered_same c' rid).ingested, (FarmCampaign.entered_same c rid).ingested, h]
  unfold FarmCampaign.settle
  dsimp only
  split
  · split
    · exact onSkip_congr hentered
    · rfl
  · exact govern_congr hentered

structure Answer.Quiet (ans : Answer) : Prop where
  ingest : ans.ingestRaises = none
  done : ∀ e, ans.done ≠ .raises e

theorem ingest_returns {products : List (Key × Value)} (h : ans.Quiet) :
    ∃ r, (c.ingest S ans rid products).2 = .ok r := by
  unfold FarmCampaign.ingest
  cases sha256Json S.I S.sha256 (.dict products) with
  | error e => exact ⟨_, rfl⟩
  | ok content =>
    cases c.ingested.get rid with
    | some d =>
      dsimp only
      split <;> exact ⟨_, rfl⟩
    | none =>
      simp only [h.ingest, ite_self]
      exact ⟨_, rfl⟩

theorem govern_returns {v : Value} (h : ans.Quiet) : ∃ r, (c.govern S ans rid v).2 = .ok r := by
  unfold FarmCampaign.govern
  cases FarmCampaign.shape v with
  | error bad => exact ⟨_, rfl⟩
  | ok es =>
    dsimp only
    split
    · exact ingest_returns h
    · exact ⟨_, rfl⟩

theorem onSkip_returns (h : ans.Quiet) : ∃ r, (c.onSkip S ans rid).2 = .ok r := by
  unfold FarmCampaign.onSkip
  split
  · exact ⟨_, rfl⟩
  · cases hdone : ans.done with
    | missing => exact ⟨_, rfl⟩
    | read v => exact govern_returns h
    | raises e => exact absurd hdone (h.done e)

theorem settle_returns (h : ans.Quiet) : ∃ r, (c.settle S rec ans rid).2 = .ok r := by
  unfold FarmCampaign.settle
  dsimp only
  split
  · split
    · exact onSkip_returns h
    · exact ⟨_, rfl⟩
  · exact govern_returns h

def carries (config : RunConfig) (r : Record × Answer) : Bool :=
  match r.1.run, config.runName with
  | some (.str s), .ok name => s = name
  | _, _ => false

/-- The configs of a plan that `execute_fleet` can tell apart. -/
structure Distinct (configs : List RunConfig) (names : List String) : Prop where
  rids : (configs.map RunConfig.rid).Nodup
  runNames : configs.map RunConfig.runName = names.map .ok
  names : names.Nodup

variable {configs : List RunConfig} {names : List String} {config config' : RunConfig}

theorem dictBy_ok {d : Dict String RunConfig}
    (h : configs.map RunConfig.runName = names.map .ok) (hnames : names.Nodup)
    (hd : ∀ n ∈ names, d.get n = none) :
    ∃ d', dictBy RunConfig.runName id configs d = .ok d' ∧ ∀ s config,
      d'.get s = some config ↔ (config ∈ configs ∧ config.runName = .ok s) ∨
        d.get s = some config := by
  induction configs generalizing names d with
  | nil => exact ⟨d, rfl, fun s config => by simp⟩
  | cons config₀ configs ih =>
    cases names with
    | nil => cases h
    | cons n names =>
      rw [List.map_cons, List.map_cons, List.cons.injEq] at h
      rw [List.nodup_cons] at hnames
      rw [List.forall_mem_cons] at hd
      have hset : ∀ n' ∈ names, (d.set n config₀).get n' = none := fun n' hn' => by
        have hne : n' ≠ n := fun heq => hnames.1 (heq ▸ hn')
        rw [Dict.get_set, if_neg hne, hd.2 n' hn']
      obtain ⟨d', hd', hget⟩ := ih h.2 hnames.2 hset
      refine ⟨d', by rw [dictBy, h.1]; exact hd', fun s config => ?_⟩
      rw [hget, Dict.get_set, List.mem_cons]
      by_cases hs : s = n
      · subst hs
        rw [if_pos rfl, hd.1]
        constructor
        · rintro (⟨hmem, hrun⟩ | heq)
          · exact .inl ⟨.inr hmem, hrun⟩
          · cases heq
            exact .inl ⟨.inl rfl, h.1⟩
        · rintro (⟨rfl | hmem, hrun⟩ | heq)
          · exact .inr rfl
          · exact .inl ⟨hmem, hrun⟩
          · cases heq
      · rw [if_neg hs]
        constructor
        · exact Or.imp_left fun hfound => ⟨.inr hfound.1, hfound.2⟩
        · rintro (⟨rfl | hmem, hrun⟩ | heq)
          · rw [h.1, Except.ok.injEq] at hrun
            exact absurd hrun.symm hs
          · exact .inl ⟨hmem, hrun⟩
          · exact .inr heq

structure Finds (configs : List RunConfig) (byName : Dict String RunConfig) : Prop where
  found : ∀ r : Record × Answer, ∀ config, configFor byName r.1.run = some config ↔
    config ∈ configs ∧ carries config r

theorem carries_iff {r : Record × Answer} :
    carries config r ↔ ∃ s, r.1.run = some (.str s) ∧ config.runName = .ok s := by
  unfold carries
  split
  · rename_i s name hrun hname
    simp only [decide_eq_true_eq, hrun, hname, Option.some.injEq, Key.str.injEq, Except.ok.injEq,
      exists_eq_left']
    exact eq_comm
  · rename_i hnone
    simp only [Bool.false_eq_true, false_iff, not_exists, not_and]
    exact fun s hrun hname => hnone s s hrun hname

theorem Distinct.byName (h : Distinct configs names) :
    ∃ byName, dictBy RunConfig.runName id configs Dict.empty = .ok byName ∧
      Finds configs byName := by
  obtain ⟨byName, hok, hget⟩ := dictBy_ok h.runNames h.names (d := Dict.empty) (fun _ _ => rfl)
  refine ⟨byName, hok, ⟨fun r config => ?_⟩⟩
  rw [carries_iff]
  simp only [Dict.get_empty, reduceCtorEq, or_false] at hget
  constructor
  · intro hfor
    unfold configFor at hfor
    split at hfor
    · rename_i s hrun
      obtain ⟨hmem, hname⟩ := (hget s config).mp hfor
      exact ⟨hmem, s, hrun, hname⟩
    · cases hfor
  · rintro ⟨hmem, s, hrun, hname⟩
    rw [hrun]
    exact (hget s config).mpr ⟨hmem, hname⟩

theorem eq_of_rid (h : (configs.map RunConfig.rid).Nodup) (hc : config ∈ configs)
    (hc' : config' ∈ configs) (heq : config.rid = config'.rid) : config = config' :=
  List.inj_on_of_nodup_map h hc hc' heq

theorem Finds.unique {byName : Dict String RunConfig} (h : Finds configs byName)
    {r : Record × Answer} (hc : config ∈ configs) (hc' : config' ∈ configs)
    (hr : carries config r) (hr' : carries config' r) : config = config' := by
  have := (h.found r config).mpr ⟨hc, hr⟩
  rw [(h.found r config').mpr ⟨hc', hr'⟩] at this
  exact (Option.some.inj this).symm

/-- What governing the leg `rid` leaves as it was. -/
structure Elsewhere (rid : String) (c c' : FarmCampaign) : Prop where
  configs : c'.configs = c.configs
  ingested : ∀ rid', rid' ≠ rid → c'.ingested.get rid' = c.ingested.get rid'

theorem Elsewhere.of_same (h : FarmCampaign.SameButCf c c') : Elsewhere rid c c' :=
  ⟨h.configs, fun _ _ => by rw [h.ingested]⟩

theorem Elsewhere.after_marks {c₀ : FarmCampaign} (h : Elsewhere rid c c')
    (hsame : FarmCampaign.SameButCf c₀ c) : Elsewhere rid c₀ c' :=
  ⟨h.configs.trans hsame.configs, fun rid' hne => by
    rw [h.ingested rid' hne, hsame.ingested]⟩

theorem hand_elsewhere {record : Value} : Elsewhere rid c (c.hand S rid record) := by
  unfold FarmCampaign.hand
  split <;> exact ⟨rfl, fun _ _ => rfl⟩

theorem ingest_elsewhere {products : List (Key × Value)} :
    Elsewhere rid c (c.ingest S ans rid products).1 := by
  unfold FarmCampaign.ingest
  cases sha256Json S.I S.sha256 (.dict products) with
  | error e => exact .of_same (FarmCampaign.mark_same c rid _ _ _)
  | ok content =>
    cases c.ingested.get rid with
    | some d =>
      dsimp only
      split
      · exact .of_same (FarmCampaign.mark_same c rid _ _ _)
      · exact .of_same ((FarmCampaign.mark_same c rid _ _ _).trans
          (FarmCampaign.enterConflict_same _ _))
    | none =>
      have hhand : Elsewhere rid c (c.hand S rid (FarmCampaign.ingestRecord products)) :=
        hand_elsewhere
      dsimp only
      split
      · exact hhand
      · refine ⟨hhand.configs, fun rid' hne => ?_⟩
        rw [← hhand.ingested rid' hne]
        simp [FarmCampaign.register, FarmCampaign.mark, hne]

theorem govern_elsewhere {v : Value} : Elsewhere rid c (c.govern S ans rid v).1 := by
  unfold FarmCampaign.govern
  cases FarmCampaign.shape v with
  | error bad => exact .of_same ((FarmCampaign.mark_same c rid .completed true "").trans
      (FarmCampaign.mark_same _ rid _ _ _))
  | ok es =>
    have hverified := FarmCampaign.verified_same c rid
      (verifyShipment S.I S.sha256 S.requiredShas (.dict es)).isEmpty
      (joined (verifyShipment S.I S.sha256 S.requiredShas (.dict es)))
    dsimp only
    split
    · exact ingest_elsewhere.after_marks hverified
    · exact .of_same hverified

theorem onSkip_elsewhere : Elsewhere rid c (c.onSkip S ans rid).1 := by
  unfold FarmCampaign.onSkip
  split
  · exact .of_same (FarmCampaign.pass_same c rid _)
  · cases ans.done with
    | missing => exact .of_same (FarmCampaign.mark_same c rid _ _ _)
    | read v => exact govern_elsewhere
    | raises e => exact .of_same (.refl c)

theorem settle_elsewhere : Elsewhere rid c (c.settle S rec ans rid).1 := by
  have hentered := FarmCampaign.entered_same c rid
  unfold FarmCampaign.settle
  dsimp only
  split
  · split
    · exact onSkip_elsewhere.after_marks hentered
    · exact .of_same (hentered.trans (FarmCampaign.mark_same _ _ _ _ _))
  · exact govern_elsewhere.after_marks hentered

inductive Round (S : Setting) (r : Record × Answer) (c : FarmCampaign)
    (out : Dict String FarmResult) :
    FarmCampaign → Except Exc (Dict String FarmResult) → Prop where
  | stray (unplanned : ∀ config ∈ c.configs, ¬ carries config r) :
      Round S r c out (c.book (c.violationKey S out r.1.run) FarmCampaign.unplannedReason)
        (.ok (out.set (c.violationKey S out r.1.run)
          ⟨c.violationKey S out r.1.run, .rejected [FarmCampaign.unplannedReason]⟩))
  | again (config : RunConfig) (mem : config ∈ c.configs) (carried : carries config r)
      (known : (out.get config.rid).isSome) :
      Round S r c out (c.book (config.rid ++ ".dup") FarmCampaign.duplicateReason) (.ok out)
  | raised (config : RunConfig) (mem : config ∈ c.configs) (carried : carries config r)
      (new : out.get config.rid = none) (e : Exc)
      (settled : (c.settle S r.1 r.2 config.rid).2 = .error e) :
      Round S r c out (c.settle S r.1 r.2 config.rid).1 (.error e)
  | first (config : RunConfig) (mem : config ∈ c.configs) (carried : carries config r)
      (new : out.get config.rid = none) (res : FarmResult)
      (settled : (c.settle S r.1 r.2 config.rid).2 = .ok res) :
      Round S r c out (c.settle S r.1 r.2 config.rid).1 (.ok (out.set config.rid res))

variable {byName : Dict String RunConfig} {r : Record × Answer} {out : Dict String FarmResult}
  {result : Except Exc (Dict String FarmResult)}

theorem recordStep_round (h : Finds c.configs byName) :
    Round S r c out (c.recordStep S byName r.1 r.2 out).1
      (c.recordStep S byName r.1 r.2 out).2 := by
  unfold FarmCampaign.recordStep
  cases hfor : configFor byName r.1.run with
  | none =>
    refine .stray fun config hmem hcarries => ?_
    have hsome := (h.found r config).mpr ⟨hmem, hcarries⟩
    rw [hfor] at hsome
    cases hsome
  | some config =>
    obtain ⟨hmem, hcarries⟩ := (h.found r config).mp hfor
    dsimp only
    split
    · rename_i hknown
      exact .again config hmem hcarries hknown
    · rename_i hnew
      have hnone : out.get config.rid = none := by simpa using hnew
      have hraised := Round.raised (S := S) config hmem hcarries hnone
      have hfirst := Round.first (S := S) config hmem hcarries hnone
      cases hsettle : c.settle S r.1 r.2 config.rid with
      | mk c' res =>
        rw [hsettle] at hraised hfirst
        cases res with
        | error e => exact hraised e rfl
        | ok res => exact hfirst res rfl

def strays (configs : List RunConfig) (records : List (Record × Answer)) :
    List (Record × Answer) :=
  records.filter (fun r => configs.all (fun config => !carries config r))

theorem strays_append (records records' : List (Record × Answer)) :
    strays configs (records ++ records') = strays configs records ++ strays configs records' :=
  List.filter_append ..

theorem strays_single (h : ∀ config ∈ configs, ¬ carries config r) :
    strays configs [r] = [r] := by
  simpa [strays] using h

theorem strays_planned (hmem : config ∈ configs) (h : carries config r) :
    strays configs [r] = [] := by
  simp only [strays, List.filter_cons, List.filter_nil]
  rw [if_neg]
  simp only [List.all_eq_true, not_forall]
  exact ⟨config, hmem, by simp [h]⟩

def firstOutcome (S : Setting) (c₀ : FarmCampaign) (done : List (Record × Answer))
    (config : RunConfig) : Option (Except Exc FarmResult) :=
  (done.find? (carries config)).map (fun r => (c₀.settle S r.1 r.2 config.rid).2)

theorem firstOutcome_append {done : List (Record × Answer)} {c₀ : FarmCampaign} :
    firstOutcome S c₀ (done ++ [r]) config =
      (firstOutcome S c₀ done config).or
        (if carries config r then some (c₀.settle S r.1 r.2 config.rid).2 else none) := by
  unfold firstOutcome
  rw [List.find?_append]
  cases done.find? (carries config) with
  | some r' => rfl
  | none =>
    rw [Option.none_or, List.find?_cons, List.find?_nil]
    split
    · rename_i h
      rw [if_pos h]
      rfl
    · rename_i h
      rw [if_neg (by simp [h])]
      rfl

def BookedAt (S : Setting) (bound : Nat) (out : Dict String FarmResult)
    (r : Record × Answer) (key : String) : Prop :=
  out.get key = some ⟨key, .rejected [FarmCampaign.unplannedReason]⟩ ∧
    ∃ n ≤ bound, key = suffixed (runText S.I r.1.run) n

/-- The campaign and the map after the records `done`; `keys` are the keys of the strays. -/
structure Reconciled (S : Setting) (c₀ : FarmCampaign) (done : List (Record × Answer))
    (keys : List String) (c : FarmCampaign) (out : Dict String FarmResult) : Prop where
  configs : c.configs = c₀.configs
  waiting : ∀ config ∈ c₀.configs, out.get config.rid = none →
    c.ingested.get config.rid = c₀.ingested.get config.rid
  planned : ∀ config ∈ c₀.configs,
    firstOutcome S c₀ done config = (out.get config.rid).map .ok
  booked : List.Forall₂ (BookedAt S (c₀.configs.length + done.length) out)
    (strays c₀.configs done) keys
  nodup : keys.Nodup
  free : ∀ key ∈ keys, key ∉ c₀.configs.map RunConfig.rid
  domain : ∀ key, (out.get key).isSome → key ∈ c₀.configs.map RunConfig.rid ∨ key ∈ keys
  size : out.items.length ≤ done.length

variable {c₀ : FarmCampaign} {done : List (Record × Answer)} {keys : List String}

theorem Reconciled.start : Reconciled S c₀ [] [] c₀ Dict.empty where
  configs := rfl
  waiting _ _ _ := rfl
  planned _ _ := rfl
  booked := .nil
  nodup := List.nodup_nil
  free := by simp
  domain := by simp
  size := by simp [Dict.empty]

theorem booked_set {bound bound' : Nat} {records : List (Record × Answer)} {key : String}
    {res : FarmResult} (hbound : bound ≤ bound') (hfree : out.get key = none)
    (h : List.Forall₂ (BookedAt S bound out) records keys) :
    List.Forall₂ (BookedAt S bound' (out.set key res)) records keys := by
  refine h.imp fun r key' hr => ?_
  obtain ⟨hget, n, hn, hkey⟩ := hr
  have hne : key' ≠ key := fun heq => by
    rw [heq, hfree] at hget
    cases hget
  exact ⟨by rw [Dict.get_set, if_neg hne, hget], n, by omega, hkey⟩

theorem violationKey_spec :
    c.violationKey S out r.1.run ∉ c.configs.map RunConfig.rid ∧
      out.get (c.violationKey S out r.1.run) = none ∧
      ∃ n ≤ c.configs.length + out.items.length,
        c.violationKey S out r.1.run = suffixed (runText S.I r.1.run) n := by
  obtain ⟨hfree, n, hn, heq⟩ :=
    freeKey_spec (c.configs.map RunConfig.rid ++ out.items.map Prod.fst) (runText S.I r.1.run)
  rw [List.mem_append, not_or, ← Dict.isSome_get] at hfree
  refine ⟨hfree.1, Option.not_isSome_iff_eq_none.mp hfree.2, n, hn.trans ?_, heq⟩
  refine (List.length_filter_le _ _).trans ?_
  simp

theorem Reconciled.stray (h : Reconciled S c₀ done keys c out)
    (hstray : ∀ config ∈ c₀.configs, ¬ carries config r) :
    Reconciled S c₀ (done ++ [r]) (keys ++ [c.violationKey S out r.1.run])
      (c.book (c.violationKey S out r.1.run) FarmCampaign.unplannedReason)
      (out.set (c.violationKey S out r.1.run)
        ⟨c.violationKey S out r.1.run, .rejected [FarmCampaign.unplannedReason]⟩) := by
  obtain ⟨hfree, hnew, n, hn, hkey⟩ : c.violationKey S out r.1.run ∉ c.configs.map RunConfig.rid ∧
      out.get (c.violationKey S out r.1.run) = none ∧
      ∃ n ≤ c.configs.length + out.items.length,
        c.violationKey S out r.1.run = suffixed (runText S.I r.1.run) n := violationKey_spec
  generalize c.violationKey S out r.1.run = key at hfree hnew hkey ⊢
  have hsame := FarmCampaign.book_same c key FarmCampaign.unplannedReason
  have hsize := h.size
  rw [h.configs] at hfree hn
  have hne : ∀ config ∈ c₀.configs, config.rid ≠ key := fun config hmem heq =>
    hfree (List.mem_map.mpr ⟨config, hmem, heq⟩)
  have hnot : key ∉ keys := fun hmem => by
    obtain ⟨r', -, hbooked, -⟩ : ∃ r' ∈ strays c₀.configs done,
        BookedAt S (c₀.configs.length + done.length) out r' key := by
      obtain ⟨i, hi, rfl⟩ := List.mem_iff_getElem.mp hmem
      have hlen := h.booked.length_eq
      exact ⟨_, List.getElem_mem (hlen ▸ hi), h.booked.get (hlen ▸ hi) hi⟩
    rw [hnew] at hbooked
    cases hbooked
  refine ⟨hsame.configs.trans h.configs, ?_, ?_, ?_, ?_, ?_, ?_, ?_⟩
  · intro config hmem hget
    rw [Dict.get_set, if_neg (hne config hmem)] at hget
    rw [hsame.ingested, h.waiting config hmem hget]
  · intro config hmem
    rw [firstOutcome_append, if_neg (hstray config hmem), Option.or_none,
      h.planned config hmem, Dict.get_set, if_neg (hne config hmem)]
  · rw [strays_append, strays_single hstray]
    refine List.rel_append (booked_set (by simp) hnew h.booked) (.cons ⟨?_, ?_⟩ .nil)
    · rw [Dict.get_set, if_pos rfl]
    · refine ⟨n, ?_, hkey⟩
      rw [List.length_append, List.length_singleton]
      omega
  · rw [List.nodup_append]
    exact ⟨h.nodup, by simp, fun a ha b hb hab => hnot (by simp_all)⟩
  · rw [List.forall_mem_append]
    exact ⟨h.free, by simpa using hfree⟩
  · intro key' hkey'
    rw [Dict.get_set] at hkey'
    rw [List.mem_append, List.mem_singleton]
    split at hkey'
    · rename_i heq
      exact .inr (.inr heq)
    · exact (h.domain key' hkey').imp_right .inl
  · rw [List.length_append, List.length_singleton]
    have := Dict.length_set_le out key ⟨key, .rejected [FarmCampaign.unplannedReason]⟩
    omega

theorem Reconciled.again (h : Reconciled S c₀ done keys c out) (hfinds : Finds c₀.configs byName)
    (hmem : config ∈ c₀.configs) (hcarries : carries config r)
    (hknown : (out.get config.rid).isSome) {key reason : String} :
    Reconciled S c₀ (done ++ [r]) keys (c.book key reason) out := by
  have hsame := FarmCampaign.book_same c key reason
  have hsize := h.size
  refine ⟨hsame.configs.trans h.configs, ?_, ?_, ?_, h.nodup, h.free, h.domain, ?_⟩
  · intro config' hmem' hget
    rw [hsame.ingested, h.waiting config' hmem' hget]
  · intro config' hmem'
    rw [firstOutcome_append, h.planned config' hmem']
    by_cases hcarries' : carries config' r
    · obtain rfl := hfinds.unique hmem hmem' hcarries hcarries'
      obtain ⟨res, hres⟩ := Option.isSome_iff_exists.mp hknown
      rw [hres, Option.map_some, Option.some_or]
    · rw [if_neg hcarries', Option.or_none]
  · rw [strays_append, strays_planned hmem hcarries, List.append_nil]
    refine h.booked.imp fun r' key' hr => ⟨hr.1, ?_⟩
    obtain ⟨n, hn, hkey⟩ := hr.2
    refine ⟨n, ?_, hkey⟩
    rw [List.length_append]
    omega
  · rw [List.length_append]
    omega

theorem Reconciled.first (h : Reconciled S c₀ done keys c out) (hfinds : Finds c₀.configs byName)
    (hrids : (c₀.configs.map RunConfig.rid).Nodup) (hmem : config ∈ c₀.configs)
    (hcarries : carries config r) (hnew : out.get config.rid = none) {res : FarmResult}
    (hsettle : (c.settle S r.1 r.2 config.rid).2 = .ok res) :
    Reconciled S c₀ (done ++ [r]) keys (c.settle S r.1 r.2 config.rid).1
      (out.set config.rid res) := by
  have helse : Elsewhere config.rid c (c.settle S r.1 r.2 config.rid).1 := settle_elsewhere
  have hsize := h.size
  have hsame : (c₀.settle S r.1 r.2 config.rid).2 = .ok res :=
    (settle_congr (h.waiting config hmem hnew)).symm.trans hsettle
  refine ⟨helse.configs.trans h.configs, ?_, ?_, ?_, h.nodup, h.free, ?_, ?_⟩
  · intro config' hmem' hget
    rw [Dict.get_set] at hget
    split at hget
    · cases hget
    · rename_i hne
      rw [helse.ingested config'.rid hne, h.waiting config' hmem' hget]
  · intro config' hmem'
    rw [firstOutcome_append, h.planned config' hmem', Dict.get_set]
    by_cases hcarries' : carries config' r
    · obtain rfl := hfinds.unique hmem hmem' hcarries hcarries'
      rw [if_pos hcarries, if_pos rfl, hnew, Option.map_none, Option.none_or, hsame,
        Option.map_some]
    · have hne : config'.rid ≠ config.rid := fun heq =>
        hcarries' (eq_of_rid hrids hmem' hmem heq ▸ hcarries)
      rw [if_neg hcarries', if_neg hne, Option.or_none]
  · rw [strays_append, strays_planned hmem hcarries, List.append_nil]
    exact booked_set (by simp) hnew h.booked
  · intro key hkey
    rw [Dict.get_set] at hkey
    split at hkey
    · rename_i heq
      exact .inl (heq ▸ List.mem_map_of_mem hmem)
    · exact h.domain key hkey
  · rw [List.length_append, List.length_singleton]
    have := Dict.length_set_le out config.rid res
    omega

theorem Reconciled.round {out' : Dict String FarmResult} (h : Reconciled S c₀ done keys c out)
    (hfinds : Finds c₀.configs byName) (hrids : (c₀.configs.map RunConfig.rid).Nodup)
    (hround : Round S r c out c' (.ok out')) :
    ∃ keys', Reconciled S c₀ (done ++ [r]) keys' c' out' := by
  cases hround with
  | stray hstray => exact ⟨_, h.stray (h.configs ▸ hstray)⟩
  | again config hmem hcarries hknown =>
    exact ⟨keys, h.again hfinds (h.configs ▸ hmem) hcarries hknown⟩
  | first config hmem hcarries hnew res hsettle =>
    exact ⟨keys, h.first hfinds hrids (h.configs ▸ hmem) hcarries hnew hsettle⟩

theorem recordSteps_keep {I : List (Record × Answer) → FarmCampaign → Dict String FarmResult → Prop}
    (hstep : ∀ done r c out c' out', I done c out →
      c.recordStep S byName r.1 r.2 out = (c', .ok out') → I (done ++ [r]) c' out')
    {records : List (Record × Answer)} {out' : Dict String FarmResult}
    (done : List (Record × Answer)) (h : I done c out)
    (hrun : c.recordSteps S byName records out = (c', .ok out')) : I (done ++ records) c' out' := by
  induction records generalizing c out done with
  | nil =>
    cases hrun
    rwa [List.append_nil]
  | cons r records ih =>
    unfold FarmCampaign.recordSteps at hrun
    cases hround : c.recordStep S byName r.1 r.2 out with
    | mk c₁ out₁ =>
      rw [hround] at hrun
      cases out₁ with
      | error e => cases hrun
      | ok out₁ =>
        rw [List.append_cons]
        exact ih _ (hstep done r c out c₁ out₁ h hround) hrun

theorem recordSteps_reconciled {records : List (Record × Answer)} {out' : Dict String FarmResult}
    (hfinds : Finds c₀.configs byName) (hrids : (c₀.configs.map RunConfig.rid).Nodup)
    (hrun : c₀.recordSteps S byName records Dict.empty = (c', .ok out')) :
    ∃ keys, Reconciled S c₀ records keys c' out' := by
  rw [← List.nil_append records]
  refine recordSteps_keep (I := fun done c out => ∃ keys, Reconciled S c₀ done keys c out) ?_
    [] ⟨[], .start⟩ hrun
  rintro done r c out c' out' ⟨keys, h⟩ hstep
  have hround : Round S r c out (c.recordStep S byName r.1 r.2 out).1
      (c.recordStep S byName r.1 r.2 out).2 := recordStep_round (h.configs.symm ▸ hfinds)
  rw [hstep] at hround
  exact h.round hfinds hrids hround

theorem recordStep_returns (hquiet : r.2.Quiet) :
    ∃ c' out', c.recordStep S byName r.1 r.2 out = (c', .ok out') := by
  unfold FarmCampaign.recordStep
  cases configFor byName r.1.run with
  | none => exact ⟨_, _, rfl⟩
  | some config =>
    dsimp only
    split
    · exact ⟨_, _, rfl⟩
    · obtain ⟨res, hres⟩ : ∃ res, (c.settle S r.1 r.2 config.rid).2 = .ok res :=
        settle_returns hquiet
      cases hsettle : c.settle S r.1 r.2 config.rid with
      | mk c' res' =>
        rw [hsettle] at hres
        cases hres
        exact ⟨_, _, rfl⟩

theorem recordSteps_returns {records : List (Record × Answer)}
    (hquiet : ∀ r ∈ records, r.2.Quiet) :
    ∃ c' out', c.recordSteps S byName records out = (c', .ok out') := by
  induction records generalizing c out with
  | nil => exact ⟨c, out, rfl⟩
  | cons r records ih =>
    rw [List.forall_mem_cons] at hquiet
    obtain ⟨c₁, out₁, hround⟩ : ∃ c₁ out₁, c.recordStep S byName r.1 r.2 out = (c₁, .ok out₁) :=
      recordStep_returns hquiet.1
    unfold FarmCampaign.recordSteps
    rw [hround]
    exact ih hquiet.2

theorem reconcile_get (configs : List RunConfig) (c : FarmCampaign)
    (out : Dict String FarmResult) (key : String) :
    (configs.foldl FarmCampaign.reconcileOne (c, out)).2.get key =
      (out.get key).or (if key ∈ configs.map RunConfig.rid then
        some ⟨key, .lost FarmCampaign.droppedReason⟩ else none) := by
  induction configs generalizing c out with
  | nil => simp
  | cons config configs ih =>
    rw [List.foldl_cons, FarmCampaign.reconcileOne]
    split
    · rename_i hknown
      rw [ih]
      by_cases hkey : key = config.rid
      · subst hkey
        obtain ⟨res, hres⟩ := Option.isSome_iff_exists.mp hknown
        simp only [hres, Option.some_or]
      · simp [hkey]
    · rename_i hnew
      have hnone : out.get config.rid = none := Option.not_isSome_iff_eq_none.mp hnew
      rw [ih, Dict.get_set]
      by_cases hkey : key = config.rid
      · subst hkey
        simp [hnone]
      · simp [hkey]

theorem recordSteps_append (records records' : List (Record × Answer)) (c : FarmCampaign)
    (out : Dict String FarmResult) :
    c.recordSteps S byName (records ++ records') out =
      match c.recordSteps S byName records out with
      | (c, .error e) => (c, .error e)
      | (c, .ok out) => c.recordSteps S byName records' out := by
  induction records generalizing c out with
  | nil => rfl
  | cons r records ih =>
    simp only [List.cons_append, FarmCampaign.recordSteps]
    cases c.recordStep S byName r.1 r.2 out with
    | mk c₁ out₁ =>
      cases out₁ with
      | error e => rfl
      | ok out₁ => exact ih c₁ out₁

/-- A repeat, or a record of no planned leg: each leg it is from has sent one before it. -/
def Unwanted (configs : List RunConfig) (before : List (Record × Answer))
    (r : Record × Answer) : Prop :=
  ∀ config ∈ configs, carries config r → ∃ r' ∈ before, carries config r'

theorem recordSteps_unwanted {before : List (Record × Answer)} (hfinds : Finds c.configs byName)
    (hrids : (c.configs.map RunConfig.rid).Nodup) (hr : Unwanted c.configs before r) :
    (c.recordSteps S byName (before ++ [r]) Dict.empty).1.handed =
      (c.recordSteps S byName before Dict.empty).1.handed := by
  rw [recordSteps_append]
  cases hrun : c.recordSteps S byName before Dict.empty with
  | mk c₁ out₁ =>
    cases out₁ with
    | error e => rfl
    | ok out₁ =>
      obtain ⟨keys, h⟩ := recordSteps_reconciled hfinds hrids hrun
      have hround : Round S r c₁ out₁ (c₁.recordStep S byName r.1 r.2 out₁).1
          (c₁.recordStep S byName r.1 r.2 out₁).2 := recordStep_round (h.configs.symm ▸ hfinds)
      have hseen : ∀ config ∈ c₁.configs, carries config r → out₁.get config.rid ≠ none := by
        intro config hmem hcarries hnone
        rw [h.configs] at hmem
        have hplanned := h.planned config hmem
        rw [hnone, Option.map_none, firstOutcome, Option.map_eq_none_iff,
          List.find?_eq_none] at hplanned
        obtain ⟨r', hr', hcarries'⟩ := hr config hmem hcarries
        exact hplanned r' hr' hcarries'
      dsimp only
      unfold FarmCampaign.recordSteps
      cases hstep : c₁.recordStep S byName r.1 r.2 out₁ with
      | mk c₂ out₂ =>
        rw [hstep] at hround
        have hsame : c₂.handed = c₁.handed := by
          cases hround with
          | stray => exact (FarmCampaign.book_same c₁ _ _).handed
          | again => exact (FarmCampaign.book_same c₁ _ _).handed
          | raised config hmem hcarries hnew => exact absurd hnew (hseen config hmem hcarries)
          | first config hmem hcarries hnew => exact absurd hnew (hseen config hmem hcarries)
        cases out₂ <;> exact hsame

theorem executeFleet_eq (hgate : c.gated = true)
    (hbyName : dictBy RunConfig.runName id c.configs Dict.empty = .ok byName)
    (dispatch : Dispatch) : c.executeFleet S dispatch =
      match c.recordSteps S byName dispatch.records Dict.empty, dispatch.raises with
      | (c, .error e), _ => (c, .error e)
      | (c, .ok _), some e => (c, .error e)
      | (c, .ok out), none =>
        let s := c.configs.foldl FarmCampaign.reconcileOne (c, out)
        (s.1, .ok s.2) := by
  unfold FarmCampaign.executeFleet
  rw [if_pos hgate]
  generalize dictBy RunConfig.runName id c.configs Dict.empty = r at hbyName
  subst hbyName
  rfl

/-- The map that `execute_fleet` returns. -/
structure FleetMap (S : Setting) (c : FarmCampaign) (records : List (Record × Answer))
    (out : Dict String FarmResult) : Prop where
  planned : ∀ config ∈ c.configs, (out.get config.rid).map Except.ok =
    some ((firstOutcome S c records config).getD
      (.ok ⟨config.rid, .lost FarmCampaign.droppedReason⟩))
  others : ∃ keys : List String, keys.Nodup ∧
    (∀ key ∈ keys, key ∉ c.configs.map RunConfig.rid) ∧
    List.Forall₂ (BookedAt S (c.configs.length + records.length) out)
      (strays c.configs records) keys ∧
    ∀ key, (out.get key).isSome ↔ key ∈ c.configs.map RunConfig.rid ∨ key ∈ keys

theorem Reconciled.fleetMap (h : Reconciled S c₀ done keys c out) :
    FleetMap S c₀ done (c₀.configs.foldl FarmCampaign.reconcileOne (c, out)).2 := by
  have hget := reconcile_get c₀.configs c out
  generalize (c₀.configs.foldl FarmCampaign.reconcileOne (c, out)).2 = out' at hget
  refine ⟨fun config hmem => ?_, keys, h.nodup, h.free, ?_, fun key => ?_⟩
  · rw [hget, if_pos (List.mem_map_of_mem hmem), h.planned config hmem]
    cases out.get config.rid <;> rfl
  · refine h.booked.imp fun r key hr => ⟨?_, hr.2⟩
    rw [hget, hr.1, Option.some_or]
  · rw [hget, Option.isSome_or]
    constructor
    · intro hsome
      rcases Bool.or_eq_true_iff.mp hsome with hsome | hsome
      · exact h.domain key hsome
      · by_cases hkey : key ∈ c₀.configs.map RunConfig.rid
        · exact .inl hkey
        · rw [if_neg hkey] at hsome
          cases hsome
    · rintro (hkey | hkey)
      · rw [if_pos hkey, Option.isSome_some, Bool.or_true]
      · obtain ⟨i, hi, rfl⟩ := List.mem_iff_getElem.mp hkey
        have hlen := h.booked.length_eq
        have hbooked := (h.booked.get (hlen ▸ hi) hi).1
        rw [List.get_eq_getElem] at hbooked
        rw [hbooked, Option.isSome_some, Bool.true_or]

/-- For every gated plan whose rids and run names are distinct and every dispatch: quiet answers
let `execute_fleet` return a map; a map it returns has for each planned leg the outcome of its
first record, or `LOST`, and for each record of no planned leg one rejection at a key of its own,
found after boundedly many rounds; and no other record than the first of a leg reaches the
callback. -/
theorem fleet_reconciled (S : Setting) (c : FarmCampaign) (names : List String)
    (dispatch : Dispatch) (hgate : c.gated = true) (h : Distinct c.configs names) :
    (dispatch.raises = none → (∀ r ∈ dispatch.records, r.2.Quiet) →
      ∃ out, (c.executeFleet S dispatch).2 = .ok out) ∧
    (∀ out, (c.executeFleet S dispatch).2 = .ok out → FleetMap S c dispatch.records out) ∧
    ∀ before r rest, dispatch.records = before ++ r :: rest → Unwanted c.configs before r →
      (c.executeFleet S ⟨before ++ [r], dispatch.raises⟩).1.handed =
        (c.executeFleet S ⟨before, dispatch.raises⟩).1.handed := by
  obtain ⟨byName, hbyName, hfinds⟩ := h.byName
  have hfleet := executeFleet_eq (S := S) hgate hbyName
  refine ⟨fun hraises hquiet => ?_, fun out hout => ?_, fun before r rest _ hr => ?_⟩
  · obtain ⟨c', out, hrun⟩ := recordSteps_returns hquiet
    rw [hfleet, hrun, hraises]
    exact ⟨_, rfl⟩
  · rw [hfleet] at hout
    cases hrun : c.recordSteps S byName dispatch.records Dict.empty with
    | mk c' out' =>
      rw [hrun] at hout
      cases out' with
      | error e => cases hout
      | ok out' =>
        cases hraises : dispatch.raises with
        | some e =>
          rw [hraises] at hout
          cases hout
        | none =>
          rw [hraises] at hout
          obtain ⟨keys, hrec⟩ := recordSteps_reconciled hfinds h.rids hrun
          obtain rfl := Except.ok.inj hout
          rw [hrec.configs]
          exact hrec.fleetMap
  · have hhanded : ∀ records : List (Record × Answer),
        (c.executeFleet S ⟨records, dispatch.raises⟩).1.handed =
          (c.recordSteps S byName records Dict.empty).1.handed := fun records => by
      rw [hfleet]
      cases c.recordSteps S byName records Dict.empty with
      | mk c' out' =>
        cases out' with
        | error e => rfl
        | ok out' =>
          cases dispatch.raises with
          | some e => rfl
          | none => exact (reconcile_same c'.configs c' out').handed
    rw [hhanded, hhanded]
    exact recordSteps_unwanted hfinds h.rids hr

def sampleFleet : FarmCampaign :=
  { configs := [⟨"a", .ok "h1", .ok "run_a"⟩, ⟨"b", .ok "h2", .ok "run_b"⟩], gated := true }

def sampleDispatch : Dispatch :=
  { records := [({ run := some (.str "a") }, {}), ({ run := some (.str "run_b") }, {}),
      ({ run := some (.str "run_b"), skipped := true }, {})] }

theorem sampleFleet_reconciled :
    ∃ out, (sampleFleet.executeFleet sampleSetting sampleDispatch).2 = .ok out ∧
      FleetMap sampleSetting sampleFleet sampleDispatch.records out := by
  have h := fleet_reconciled sampleSetting sampleFleet ["run_a", "run_b"] sampleDispatch rfl
    ⟨by decide, rfl, by decide⟩
  obtain ⟨out, hout⟩ := h.1 rfl (by
    intro r hr
    simp only [sampleDispatch, List.mem_cons, List.not_mem_nil, or_false] at hr
    rcases hr with rfl | rfl | rfl <;> exact ⟨rfl, fun e he => by cases he⟩)
  exact ⟨out, hout, h.2.1 out hout⟩

end RunFarm
