import RunFarm.Governed.Corpus

/-! What governing a leg leaves in the cut-flow: marks of the leg itself, and the conflict leg
where its shipment differs from the one in the corpus. -/
set_option autoImplicit false

namespace RunFarm
open Python

structure Mark where
  stage : Stage
  ok : Bool := true
  reason : String := ""

def markAll (cf : CutFlow 6) (leg : String) (ms : List Mark) : CutFlow 6 :=
  ms.foldl (fun cf m => cf.mark leg m.stage.idx m.ok m.reason) cf

namespace LegView

def markAll (v : LegView 6) (ms : List Mark) : LegView 6 :=
  ms.foldl (fun v m => v.mark m.stage.idx m.ok m.reason) v

def Accounted (v : LegView 6) : Prop :=
  v.stage Stage.registered.idx = some true ∨ ∃ i, (v.reason i).isSome

end LegView

structure Mark.Plain (m : Mark) : Prop where
  later : m.stage ≠ .planned
  own : m.stage = .registered → m.reason ≠ FarmCampaign.conflictReason

theorem Mark.Plain.blank {s : Stage} {ok : Bool} (h : s ≠ .planned) :
    (⟨s, ok, ""⟩ : Mark).Plain :=
  have hreason : "" ≠ FarmCampaign.conflictReason := by decide
  ⟨h, fun _ => hreason⟩

theorem Mark.Plain.early {s : Stage} {ok : Bool} {reason : String} (h : s ≠ .planned)
    (hreg : s ≠ .registered) : (⟨s, ok, reason⟩ : Mark).Plain :=
  ⟨h, fun heq => absurd heq hreg⟩

def Mark.Closing (m : Mark) : Prop := m.ok = true → m.stage = .registered

def Closed (ms : List Mark) : Prop := ∃ ms' m, ms = ms' ++ [m] ∧ m.Closing

def Conflicts (S : Setting) (c : FarmCampaign) (rid : String) (shipment : Value) : Prop :=
  ∃ known new, c.ingested.get rid = some known ∧ Accepted S shipment new ∧ known.text ≠ new.text

/-- How a leg was governed; `returned` says that nothing was raised. -/
inductive Effect (rid : String) (conflict returned : Prop) (c c' : FarmCampaign) : Prop where
  | own (ms : List Mark) (plain : ∀ m ∈ ms, m.Plain) (closed : returned → Closed ms)
      (no : ¬ conflict) (cf : c'.cf = markAll c.cf rid ms)
  | beside (ms : List Mark) (plain : ∀ m ∈ ms, m.Plain) (closed : Closed ms) (yes : conflict)
      (c₁ : FarmCampaign) (marked : c₁.cf = markAll c.cf rid ms)
      (cf : c'.cf = (c₁.enterConflict (rid ++ ".conflict")).cf)

variable {S : Setting} {c c' : FarmCampaign} {rid leg : String} {conflict returned : Prop}
  {ans : Answer} {rec : Record} {cf : CutFlow 6} {v : LegView 6} {m : Mark} {ms : List Mark}

theorem Closed.cons (h : Closed ms) (m : Mark) : Closed (m :: ms) := by
  obtain ⟨ms', m', rfl, hm⟩ := h
  exact ⟨m :: ms', m', rfl, hm⟩

theorem Closed.single (h : m.Closing) : Closed [m] := ⟨[], m, rfl, h⟩

theorem Effect.after (hm : m.Plain)
    (h : Effect rid conflict returned (c.mark rid m.stage m.ok m.reason) c') :
    Effect rid conflict returned c c' := by
  cases h with
  | own ms plain closed no cf =>
    exact .own (m :: ms) (List.forall_mem_cons.mpr ⟨hm, plain⟩) (fun hr => (closed hr).cons m)
      no cf
  | beside ms plain closed yes c₁ marked cf =>
    exact .beside (m :: ms) (List.forall_mem_cons.mpr ⟨hm, plain⟩) (closed.cons m) yes c₁ marked cf

theorem unhashable_ne (e : String) :
    "unhashable products: " ++ e ≠ FarmCampaign.conflictReason := fun h => by
  have hhead := congrArg (fun s => s.toList.head?) h
  simp [FarmCampaign.conflictReason, String.toList_append] at hhead

theorem not_accepted_none {h : Digest} : ¬ Accepted S .none h := fun ha => by
  cases ha.verified

theorem Effect.single (hm : m.Plain) (hclosing : returned → m.Closing) (hno : ¬ conflict) :
    Effect rid conflict returned c (c.mark rid m.stage m.ok m.reason) :=
  .own [m] (by simpa using hm) (fun hr => .single (hclosing hr)) hno rfl

theorem ingest_effect {es : List (Key × Value)} (hes : WellShaped es)
    (hverified : verifyShipment S.I S.sha256 S.requiredShas (.dict es) = []) :
    Effect rid (Conflicts S c rid (.dict es))
      (∃ res, (c.ingest S ans rid (part es "products")).2 = .ok res) c
      (c.ingest S ans rid (part es "products")).1 := by
  have hcontent : content S.I S.sha256 (.dict es) =
      some (sha256Json S.I S.sha256 (.dict (part es "products"))) := by
    rw [RunFarm.content, hes.products, Option.map_some]
  have hregistered : (⟨.registered, true, ""⟩ : Mark).Plain := .blank (by decide)
  unfold FarmCampaign.ingest
  cases hsha : sha256Json S.I S.sha256 (.dict (part es "products")) with
  | error e =>
    have hplain : (⟨.registered, false, "unhashable products: " ++ e⟩ : Mark).Plain :=
      ⟨(by decide : Stage.registered ≠ .planned), fun _ => unhashable_ne e⟩
    refine .single hplain (fun _ => fun h => by cases h) fun hconf => ?_
    obtain ⟨known, new, -, hacc, -⟩ := hconf
    have hnew := hacc.content
    rw [hcontent, hsha] at hnew
    cases hnew
  | ok content =>
    cases hknown : c.ingested.get rid with
    | some known =>
      dsimp only
      split
      · rename_i htext
        refine .single hregistered (fun _ => fun _ => rfl) fun hconf => ?_
        obtain ⟨known', new, hget, hacc, hne⟩ := hconf
        have hnew := hacc.content
        rw [hcontent, hsha] at hnew
        rw [hknown] at hget
        cases hget
        cases hnew
        exact hne htext
      · rename_i htext
        refine .beside [⟨.registered, true, ""⟩] (by simpa using hregistered)
          (.single fun _ => rfl) ⟨known, content, hknown, ⟨hverified, ?_⟩, htext⟩ _ rfl rfl
        rw [hcontent, hsha]
    | none =>
      have hno : ¬ Conflicts S c rid (.dict es) := by
        rintro ⟨known, new, hget, -⟩
        rw [hknown] at hget
        cases hget
      have hhand : (c.hand S rid (FarmCampaign.ingestRecord (part es "products"))).cf = c.cf := by
        unfold FarmCampaign.hand
        split <;> rfl
      dsimp only
      split
      · refine .own [] (by simp) (fun hreturned => ?_) hno hhand
        obtain ⟨res, hres⟩ := hreturned
        cases hres
      · refine .own [⟨.registered, true, ""⟩] (by simpa using hregistered)
          (fun _ => .single fun _ => rfl) hno ?_
        simp only [FarmCampaign.register, FarmCampaign.mark, hhand]
        rfl

theorem not_accepted_of_shape {v : Value} {bad : String} {h : Digest}
    (hshape : FarmCampaign.shape v = .error bad) : ¬ Accepted S v h := fun ha => by
  cases v with
  | dict es =>
    obtain ⟨hes, -⟩ := verify_eq_nil.mp ha.verified
    simp [FarmCampaign.shape, FarmCampaign.notDict, hes.products, hes.sidecar, hes.attested]
      at hshape
  | _ => cases ha.verified

theorem govern_effect {v : Value} :
    Effect rid (Conflicts S c rid v) (∃ res, (c.govern S ans rid v).2 = .ok res) c
      (c.govern S ans rid v).1 := by
  have hcompleted : (⟨.completed, true, ""⟩ : Mark).Plain := .blank (by decide)
  have hshipped : (⟨.shipped, true, ""⟩ : Mark).Plain := .blank (by decide)
  unfold FarmCampaign.govern
  refine .after hcompleted ?_
  cases hshape : FarmCampaign.shape v with
  | error bad =>
    have hbad : (⟨.shipped, false, bad⟩ : Mark).Plain := .early (by decide) (by decide)
    exact .single hbad (fun _ => nofun) fun ⟨_, _, _, hacc, _⟩ => not_accepted_of_shape hshape hacc
  | ok es =>
    obtain rfl := shape_ok hshape
    refine .after hshipped ?_
    have hverified : ∀ ok reason, (⟨.verified, ok, reason⟩ : Mark).Plain :=
      fun _ _ => .early (by decide) (by decide)
    dsimp only
    split
    · rename_i hempty
      have hnil := List.isEmpty_iff.mp hempty
      refine .after (hverified (verifyShipment S.I S.sha256 S.requiredShas (.dict es)).isEmpty
        (joined (verifyShipment S.I S.sha256 S.requiredShas (.dict es)))) ?_
      exact ingest_effect (c := ((c.mark rid .completed true).mark rid .shipped true).mark rid
        .verified _ _) (verify_eq_nil.mp hnil).1 hnil
    · rename_i hsome
      refine .single (hverified _ _) (fun _ => fun h => absurd h hsome)
        fun ⟨_, _, _, hacc, _⟩ => hsome ?_
      rw [hacc.verified]
      rfl

theorem pass_cf (c : FarmCampaign) (leg : String) (stages : List Stage) :
    (c.pass leg stages).cf = markAll c.cf leg (stages.map fun s => ⟨s, true, ""⟩) := by
  induction stages generalizing c with
  | nil => rfl
  | cons s stages ih => exact ih (c.mark leg s true)

theorem onSkip_effect :
    Effect rid False (∃ res, (c.onSkip S ans rid).2 = .ok res) c (c.onSkip S ans rid).1 := by
  have hplain : ∀ s ∈ [Stage.completed, .shipped, .verified, .registered],
      (⟨s, true, ""⟩ : Mark).Plain := by
    intro s hs
    simp only [List.mem_cons, List.not_mem_nil, or_false] at hs
    rcases hs with rfl | rfl | rfl | rfl <;> exact .blank (by decide)
  unfold FarmCampaign.onSkip
  split
  · have hcf := pass_cf c rid [.completed, .shipped, .verified, .registered]
    refine .own _ ?_ (fun _ => ?_) not_false hcf
    · simpa only [List.forall_mem_map] using hplain
    · exact ⟨[⟨.completed, true, ""⟩, ⟨.shipped, true, ""⟩, ⟨.verified, true, ""⟩],
        ⟨.registered, true, ""⟩, rfl, fun _ => rfl⟩
  · rename_i hnew
    cases ans.done with
    | missing =>
      have hlost : (⟨.completed, false,
          "skip signaled but no DONE.json result (possible data loss)"⟩ : Mark).Plain :=
        .early (by decide) (by decide)
      exact .single hlost (fun _ hok => by cases hok) not_false
    | read v =>
      have hgovern : Effect rid (Conflicts S c rid v) (∃ res, (c.govern S ans rid v).2 = .ok res) c
        (c.govern S ans rid v).1 := govern_effect
      cases hgovern with
      | own ms plain closed no cf => exact .own ms plain closed not_false cf
      | beside ms plain closed yes c₁ marked cf =>
        obtain ⟨known, _, hknown, _⟩ := yes
        rw [hknown] at hnew
        exact absurd rfl hnew
    | raises e =>
      refine .own [] (by simp) (fun hreturned => ?_) not_false rfl
      obtain ⟨res, hres⟩ := hreturned
      cases hres

theorem settle_effect :
    Effect rid (Conflicts S c rid rec.result) (∃ res, (c.settle S rec ans rid).2 = .ok res)
      (c.entered rid) (c.settle S rec ans rid).1 := by
  have hsame : Conflicts S (c.entered rid) rid rec.result = Conflicts S c rid rec.result := by
    rw [Conflicts, Conflicts, (FarmCampaign.entered_same c rid).ingested]
  rw [← hsame]
  unfold FarmCampaign.settle
  generalize c.entered rid = c
  dsimp only
  split
  · rename_i hnone
    have hno : ¬ Conflicts S c rid rec.result := fun ⟨_, _, _, hacc, _⟩ => by
      cases hresult : rec.result with
      | none =>
        rw [hresult] at hacc
        exact not_accepted_none hacc
      | _ =>
        rw [hresult] at hnone
        cases hnone
    split
    · have hskip : Effect rid False (∃ res, (c.onSkip S ans rid).2 = .ok res) c
        (c.onSkip S ans rid).1 := onSkip_effect
      cases hskip with
      | own ms plain closed no cf => exact .own ms plain closed hno cf
      | beside ms plain closed yes => exact yes.elim
    · have hlost : (⟨.completed, false, "no result (host lost)"⟩ : Mark).Plain :=
        .early (by decide) (by decide)
      exact .single hlost (fun _ => nofun) hno
  · exact govern_effect

theorem view_markAll_self (cf : CutFlow 6) (leg : String) (ms : List Mark) :
    (markAll cf leg ms).view leg = (cf.view leg).markAll ms := by
  induction ms generalizing cf with
  | nil => rfl
  | cons m ms ih =>
    have hcons : markAll cf leg (m :: ms) =
        markAll (cf.mark leg m.stage.idx m.ok m.reason) leg ms := rfl
    rw [hcons, ih, view_mark_self]
    rfl

theorem view_markAll_of_ne {leg' : String} (h : leg' ≠ leg) :
    (markAll cf leg ms).view leg' = cf.view leg' := by
  induction ms generalizing cf with
  | nil => rfl
  | cons m ms ih => exact ih.trans (view_mark_of_ne h)

theorem mark_false_accounted (v : LegView 6) (s : Stage) (reason : String) :
    (v.mark s.idx false reason).Accounted :=
  .inr ⟨s.idx, by rw [mark_false_reason, Option.isSome_some]⟩

theorem closing_accounted (h : m.Closing) (v : LegView 6) :
    (v.mark m.stage.idx m.ok m.reason).Accounted := by
  obtain ⟨stage, ok, reason⟩ := m
  cases ok with
  | true =>
    cases h rfl
    exact .inl (mark_stage_self v _ true reason)
  | false => exact mark_false_accounted v stage reason

theorem Closed.accounted (h : Closed ms) (v : LegView 6) : (v.markAll ms).Accounted := by
  obtain ⟨ms', m, rfl, hm⟩ := h
  rw [LegView.markAll, List.foldl_append]
  exact closing_accounted hm _

/-- The row of a leg that is planned, and that no conflict is recorded of. -/
structure LegView.Planned (v : LegView 6) : Prop where
  row : v.row.isSome
  planned : (v.stage Stage.planned.idx).isSome
  reason : v.reason Stage.registered.idx ≠ some FarmCampaign.conflictReason

theorem Mark.Plain.planned (hm : m.Plain) (h : v.Planned) :
    (v.mark m.stage.idx m.ok m.reason).Planned := by
  have hlater : Stage.planned.idx < m.stage.idx := by
    have := hm.later
    cases hstage : m.stage <;> simp_all [Stage.idx]
  refine ⟨mark_row_isSome v _ _ _, ?_, ?_⟩
  · rw [mark_stage_before v _ _ hlater]
    exact h.planned
  · by_cases hstage : m.stage = .registered
    · have hown := hm.own hstage
      rw [hstage]
      cases m.ok with
      | true =>
        rw [mark_true_reason]
        nofun
      | false =>
        rw [mark_false_reason, ne_eq, Option.some.injEq]
        split
        · decide
        · exact hown
    · have hne : Stage.registered.idx ≠ m.stage.idx := by
        cases hm : m.stage <;> simp_all [Stage.idx]
      rw [mark_reason_of_ne v _ _ hne, entered_reason, if_pos h.row]
      exact h.reason

theorem markAll_planned (hms : ∀ m ∈ ms, m.Plain) (h : v.Planned) : (v.markAll ms).Planned := by
  induction ms generalizing v with
  | nil => exact h
  | cons m ms ih =>
    rw [List.forall_mem_cons] at hms
    exact ih hms.2 (hms.1.planned h)

theorem view_enterConflict_self (c : FarmCampaign) (leg : String) :
    ((c.enterConflict leg).cf.view leg).reason Stage.registered.idx =
      some FarmCampaign.conflictReason := by
  rw [FarmCampaign.enterConflict, FarmCampaign.mark, view_mark_self, mark_false_reason,
    if_neg (by decide)]

theorem view_enterConflict_of_ne {leg' : String} (h : leg' ≠ leg) :
    (c.enterConflict leg).cf.view leg' = c.cf.view leg' := by
  rw [FarmCampaign.enterConflict, FarmCampaign.mark, view_mark_of_ne h, pass_cf,
    view_markAll_of_ne h, FarmCampaign.enter, view_enter_of_ne h]

theorem view_book_self (c : FarmCampaign) (key reason : String) :
    (c.book key reason).cf.view key =
      LegView.fresh.mark Stage.completed.idx false reason := by
  rw [FarmCampaign.book, FarmCampaign.mark, view_mark_self, FarmCampaign.enter, view_enter_self]

theorem view_book_of_ne {key reason : String} (h : leg ≠ key) :
    (c.book key reason).cf.view leg = c.cf.view leg := by
  rw [FarmCampaign.book, FarmCampaign.mark, view_mark_of_ne h, FarmCampaign.enter,
    view_enter_of_ne h]

theorem suffix_ne (rid : String) {suffix : String} (h : suffix.length ≠ 0) :
    rid ++ suffix ≠ rid := fun heq => by
  have hlen := congrArg String.length heq
  rw [String.length_append] at hlen
  omega

theorem conflictKey_ne (rid : String) : rid ++ ".conflict" ≠ rid := suffix_ne rid (by decide)

namespace Effect

theorem others (h : Effect rid conflict returned c c') (hne : leg ≠ rid)
    (hconflict : conflict → leg ≠ rid ++ ".conflict") : c'.cf.view leg = c.cf.view leg := by
  cases h with
  | own ms plain closed no cf => rw [cf, view_markAll_of_ne hne]
  | beside ms plain closed yes c₁ marked cf =>
    rw [cf, view_enterConflict_of_ne (hconflict yes), marked, view_markAll_of_ne hne]

theorem conflictLeg (h : Effect rid conflict returned c c') (hconflict : conflict) :
    (c'.cf.view (rid ++ ".conflict")).reason Stage.registered.idx =
      some FarmCampaign.conflictReason := by
  cases h with
  | own ms plain closed no cf => exact absurd hconflict no
  | beside ms plain closed yes c₁ marked cf => rw [cf, view_enterConflict_self]

theorem self (h : Effect rid conflict returned c c') :
    ∃ ms, (∀ m ∈ ms, m.Plain) ∧ (returned → Closed ms) ∧
      c'.cf.view rid = (c.cf.view rid).markAll ms := by
  cases h with
  | own ms plain closed no cf => exact ⟨ms, plain, closed, by rw [cf, view_markAll_self]⟩
  | beside ms plain closed yes c₁ marked cf =>
    refine ⟨ms, plain, fun _ => closed, ?_⟩
    rw [cf, view_enterConflict_of_ne (conflictKey_ne rid).symm, marked, view_markAll_self]

theorem accounted (h : Effect rid conflict returned c c') (hreturned : returned) :
    (c'.cf.view rid).Accounted := by
  obtain ⟨ms, _, hclosed, hview⟩ := h.self
  rw [hview]
  exact (hclosed hreturned).accounted _

theorem planned (h : Effect rid conflict returned c c') (hrid : (c.cf.view rid).Planned) :
    (c'.cf.view rid).Planned := by
  obtain ⟨ms, hplain, _, hview⟩ := h.self
  rw [hview]
  exact markAll_planned hplain hrid

end Effect

theorem view_entered_cf (c : FarmCampaign) (leg leg' : String) :
    (c.entered leg).cf.view leg' =
      if leg' = leg then (c.cf.view leg).entered else c.cf.view leg' := by
  rw [← view_entered]
  unfold FarmCampaign.entered CutFlow.entered
  split <;> rfl

end RunFarm
