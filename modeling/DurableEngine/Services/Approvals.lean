/-
  DurableEngine.Services.Approvals

  The approvals behind the applied effects.

  `ApplyEffect` writes an applied record under a granted intent, and marks the
  intent in a transaction of its own; an operator who confirms an unknown
  outcome marks nothing.  So an applied record has a dispatched intent once
  the call that marks it has come to its end, unless that call was lost, or
  the record was confirmed without such an intent.
-/

import DurableEngine.Services.AtMostOnce
import DurableEngine.State.Intents

namespace DurableEngine.Services

open Lib State

-- ============================================================================
-- The property
-- ============================================================================

/-- The intent is approved for the effect of the record: for its resource, its arguments and its key. -/
structure Covers (i : ApprovalIntent) (r : EffectRecord) : Prop where
  settled : i.IsSettled
  intentID : r.intentID = some i.intentID
  workflow : i.node.workflowID = r.key.workflowID
  resource : r.resourceID = some i.target
  arguments : canonicalPayloadHash (.json i.canonicalArguments.doc) = .ok r.argumentHash
  scope : r.grantScopeHash = some i.grantScopeHash
  recomputed : i.grantScopeHash = grantScopeHash i.proposalHash i.expectedResourceRevision
    r.key.logicalEffectKey i.target

/-- Every applied effect has a dispatched intent. -/
def EffectsDispatched (db : DB) : Prop :=
  ∀ k r, db.effects.records.get k = some r → r.outcome = .applied →
    ∃ i, db.intents.get i.intentID = some i ∧ Covers i r ∧ i.dispatchStatus = .dispatched

/-- The intent is dispatched, or a call is about to mark it. -/
def Marked (calls : List EffectCall) (i : ApprovalIntent) : Prop :=
  i.dispatchStatus = .dispatched ∨
    ∃ input, .settled input ∈ calls ∧ uuidText input.intentID = some i.intentID

/-- Every applied effect has an intent that is dispatched or about to be. -/
def Covered (s : EffectCalls) : Prop :=
  ∀ k r, s.db.effects.records.get k = some r → r.outcome = .applied →
    ∃ i, s.db.intents.get i.intentID = some i ∧ Covers i r ∧ Marked s.calls i

/-- The newest intent with the scope of the record is approved for it, and marked. -/
def Confirmable (s : EffectCalls) (record : EffectRecord) : Prop :=
  ∃ scope i, record.grantScopeHash = some scope ∧ scope ≠ "" ∧
    s.db.scopeIntent record.key.workflowID scope = some i ∧ i.decision = .approved ∧
    canonicalPayloadHash (.json i.canonicalArguments.doc) = .ok record.argumentHash ∧
    scope = grantScopeHash i.proposalHash i.expectedResourceRevision record.key.logicalEffectKey
      i.target ∧ Marked s.calls i

/-- The steps that leave an applied effect without a marked intent: the last call that would mark
    the intent is lost, or an operator confirms an outcome that no such intent covers. -/
inductive Careless : EffectCalls → EffectCalls → Prop where
  | lost (s : EffectCalls) (before after : List EffectCall) (input : EffectApplyInput)
      (record : EffectRecord) (i : ApprovalIntent) (calls : s.calls = before ++ .settled input :: after)
      (row : s.db.effects.records.get record.key = some record) (applied : record.outcome = .applied)
      (intent : s.db.intents.get i.intentID = some i) (covered : record.intentID = some i.intentID)
      (unmarked : ¬ Marked (before ++ after) i) : Careless s { s with calls := before ++ after }
  | confirmed (s : EffectCalls) (resolutionID : String) (input : ResolveEffectInput)
      (record : EffectRecord) (db' : DB)
      (h : resolveUnknownEffect resolutionID input s.db = .ok ((), db'))
      (row : s.db.effects.records.get input.key = some record) (confirms : input.abandon = false)
      (uncovered : ¬ Confirmable s record) : Careless s { s with db := db' }

-- ============================================================================
-- Grants
-- ============================================================================

/-- The record that a call writes. -/
def appliedRecord (input : EffectApplyInput) (intentID : String) (receipt : Option Jsonb) : EffectRecord :=
  ⟨input.key, some intentID, input.argumentHash, input.attemptNumber, some input.grantScopeHash,
    some input.resourceID, .applied, receipt⟩

/-- The intent is granted to the call. -/
structure Grants (i : ApprovalIntent) (input : EffectApplyInput) : Prop where
  intentID : uuidText input.intentID = some i.intentID
  token : uuidText input.grantToken = some i.grantToken
  covers : ∀ receipt, Covers i (appliedRecord input i.intentID receipt)

theorem Covers.dispatch {i : ApprovalIntent} {r : EffectRecord} (h : Covers i r) :
    Covers i.dispatch r :=
  ⟨⟨h.settled.1, rfl⟩, h.intentID, h.workflow, h.resource, h.arguments, h.scope, h.recomputed⟩

theorem Grants.dispatch {i : ApprovalIntent} {input : EffectApplyInput} (h : Grants i input) :
    Grants i.dispatch input :=
  ⟨h.intentID, h.token, fun receipt => (h.covers receipt).dispatch⟩

/-- The check of `ApplyEffect` finds an intent that is granted to the call. -/
theorem grants_of_checkGrant {now : Int} {input : EffectApplyInput} {db : DB}
    (h : checkGrant now input db = .ok ()) :
    ∃ i, db.intents.get i.intentID = some i ∧ Grants i input := by
  simp only [checkGrant, bind_eq_ok, rejectIf_eq_ok, exists_const, not_or, not_not, ne_eq] at h
  obtain ⟨-, -, -, intent, hintent, ⟨happroved, hgranted, hscope, -⟩, -, htarget, submitted, -,
    approved, hhash, ⟨hsame, hargument⟩, hkey⟩ := h
  simp only [grantIntent, bind_eq_ok, getOr_eq_ok, Option.filter_eq_some_iff, Bool.and_eq_true,
    decide_eq_true_eq] at hintent
  obtain ⟨id, hid, token, htoken, hget, heq, hnode⟩ := hintent
  have hrow := Table.key_of_get hget
  rw [← hrow] at hget hid
  refine ⟨intent, hget, hid, by rw [heq]; exact htoken, fun receipt => ⟨⟨happroved, by simpa using hgranted⟩,
    rfl, ?_, ?_, ?_, ?_, ?_⟩⟩
  · rw [hnode]
    rfl
  · simp only [appliedRecord, htarget]
  · simp only [appliedRecord, hargument, hsame, hhash]
  · simp only [appliedRecord, hscope]
  · rw [hscope, ← hkey]
    rfl

-- ============================================================================
-- What holds in every run
-- ============================================================================

/-- Calls carry granted intents, the records of unknown outcomes name none, and intents name their
    targets. -/
structure Linked (s : EffectCalls) : Prop where
  calls : ∀ call ∈ s.calls, ∃ i, s.db.intents.get i.intentID = some i ∧ Grants i call.input
  unlinked : ∀ k r, s.db.effects.records.get k = some r → r.outcome ≠ .applied →
    r.intentID = none ∧ r.resourceID = none
  named : s.db.IntentsNamed

/-- Settled intents stay, but for being dispatched. -/
def SettledKept (db db' : DB) : Prop :=
  ∀ id i, db.intents.get id = some i → i.IsSettled →
    db'.intents.get id = some i ∨ db'.intents.get id = some i.dispatch

theorem SettledKept.of_eq {db db' : DB} (h : db'.intents = db.intents) : SettledKept db db' :=
  fun _ _ hi _ => .inl (by rw [h]; exact hi)

theorem SettledKept.of_write {db db' : DB} (h : IntentWrite db db') : SettledKept db db' :=
  fun _ _ hi hsettled => .inl (h.settled hi hsettled)

theorem SettledKept.of_dispatched {db db' : DB} {id : String} {i : ApprovalIntent}
    (h : Dispatched db db' id i) : SettledKept db db' := by
  intro id' i' hi' _
  rw [h.intents]
  split
  · rename_i heq
    subst heq
    rw [h.row] at hi'
    exact .inr (congrArg (fun i => some i.dispatch) (Option.some.inj hi'))
  · exact .inl hi'

/-- A granted intent stays granted to the call. -/
theorem SettledKept.grants {db db' : DB} (h : SettledKept db db') {input : EffectApplyInput}
    (hgrants : ∃ i, db.intents.get i.intentID = some i ∧ Grants i input) :
    ∃ i, db'.intents.get i.intentID = some i ∧ Grants i input := by
  obtain ⟨i, hi, hgrant⟩ := hgrants
  obtain hsame | hdispatched := h _ i hi (hgrant.covers none).settled
  · exact ⟨i, hsame, hgrant⟩
  · exact ⟨i.dispatch, hdispatched, hgrant.dispatch⟩

/-- A record that is covered stays covered while the calls that mark stay. -/
theorem SettledKept.covered {db db' : DB} (h : SettledKept db db') {calls calls' : List EffectCall}
    (hcalls : ∀ input, .settled input ∈ calls → .settled input ∈ calls') {r : EffectRecord}
    (hr : ∃ i, db.intents.get i.intentID = some i ∧ Covers i r ∧ Marked calls i) :
    ∃ i, db'.intents.get i.intentID = some i ∧ Covers i r ∧ Marked calls' i := by
  obtain ⟨i, hi, hcovers, hmarked⟩ := hr
  obtain hsame | hdispatched := h _ i hi hcovers.settled
  · refine ⟨i, hsame, hcovers, hmarked.imp id ?_⟩
    rintro ⟨input, hin, hid⟩
    exact ⟨input, hcalls input hin, hid⟩
  · exact ⟨i.dispatch, hdispatched, hcovers.dispatch, .inl rfl⟩

-- ============================================================================
-- The transactions
-- ============================================================================

/-- The record that the effect transaction writes. -/
theorem applyMissing_record {input : EffectApplyInput} {db db' : DB} {reply : EffectReply}
    (h : applyMissing input db = .ok (reply, db')) :
    db'.effects.records = db.effects.records ∨
      (∃ revision, reply = .applied revision) ∧ ∃ id receipt, uuidText input.intentID = some id ∧
        Inserted db.effects.records (appliedRecord input id receipt) db'.effects.records := by
  obtain ⟨fences, hensure, -, -⟩ := db.ensureFence_eq input.resourceID input.fenceToken
  simp only [applyMissing, hensure, bind_eq_ok, getOr_eq_ok] at h
  obtain ⟨f, -, h⟩ := h
  have hcall : ∀ (db₁ : DB), db₁.effects.records = db.effects.records →
      (db₁.recordEffectCall input .rejected none).effects.records = db.effects.records := by
    intro db₁ hsame
    obtain ⟨calls, hcalls⟩ := db₁.recordEffectCall_eq input .rejected none
    rw [hcalls]
    exact hsame
  split at h
  · rw [pure_eq_ok] at h
    cases h
    exact .inl (hcall _ rfl)
  · split at h
    · cases h
      exact .inl (hcall _ rfl)
    · rename_i revision _
      simp only [commitEffect, bind_eq_ok, getOr_eq_ok, pure_eq_ok] at h
      obtain ⟨state, -, receipt, -, id, hid, records, hins, heq⟩ := h
      obtain ⟨sandbox, hmutate, -, -⟩ := DB.mutateSandbox_eq
        (DB.raiseFence { db with effects := { db.effects with fences := fences } } input.resourceID
          input.fenceToken) input.resourceID state (revision + 1)
      rw [hmutate] at hins heq
      obtain ⟨calls, hcalls⟩ := DB.recordEffectCall_eq _ input .applied (some receipt)
      rw [hcalls] at heq
      cases heq
      exact .inr ⟨⟨_, rfl⟩, id, some receipt, hid, hins⟩

theorem newerIntent_foldl {l : List ApprovalIntent} {best : Option ApprovalIntent} {i : ApprovalIntent}
    (h : l.foldl newerIntent best = some i) : best = some i ∨ i ∈ l := by
  induction l generalizing best with
  | nil => exact .inl h
  | cons x l ih =>
      obtain hbest | hmem := ih h
      · cases best with
        | none => exact .inr (by rw [Option.some.inj hbest]; exact List.mem_cons_self)
        | some b =>
            simp only [newerIntent] at hbest
            split at hbest
            · exact .inr (by rw [Option.some.inj hbest]; exact List.mem_cons_self)
            · exact .inl hbest
      · exact .inr (List.mem_cons_of_mem _ hmem)

/-- The intent that an operator's confirmation links is one of the workflow, with the scope. -/
theorem scopeIntent_eq_some {db : DB} {workflowID scope : String} {i : ApprovalIntent}
    (h : db.scopeIntent workflowID scope = some i) :
    db.intents.get i.intentID = some i ∧ i.node.workflowID = workflowID ∧ i.grantScopeHash = scope := by
  obtain hnone | hmem := newerIntent_foldl h
  · cases hnone
  · obtain ⟨hrow, hp⟩ := Table.mem_select.mp hmem
    simp only [Bool.and_eq_true, decide_eq_true_eq] at hp
    exact ⟨Table.get_of_mem hrow, hp⟩

/-- What an operator's resolution does to the records. -/
theorem resolveUnknownEffect_records {resolutionID : String} {input : ResolveEffectInput}
    {db db' : DB} {u : Unit} (h : resolveUnknownEffect resolutionID input db = .ok (u, db')) :
    input.abandon = true ∧ db'.effects.records = db.effects.records ∨
      input.abandon = false ∧ ∃ record receipt, db.effects.records.get input.key = some record ∧
        record.outcome = .outcomeUnknown ∧
        ∀ k, db'.effects.records.get k =
          if k = input.key then some (record.confirm receipt
            (if record.grantScopeHash.getD "" = "" then none
              else db.scopeIntent input.workflowID (record.grantScopeHash.getD "")))
          else db.effects.records.get k := by
  simp only [resolveUnknownEffect, bind_eq_ok, rejectIf_eq_ok, getOr_eq_ok, exists_const,
    not_not] at h
  obtain ⟨-, -, record, hrecord, hunknown, h⟩ := h
  have hget := (Option.filter_eq_some_iff.mp hrecord).1
  split at h
  · rename_i habandon
    simp only [bind_eq_ok, getOr_eq_ok, pure_eq_ok] at h
    obtain ⟨resolutions, -, heq⟩ := h
    cases heq
    exact .inl ⟨habandon, rfl⟩
  · rename_i hconfirm
    simp only [bind_eq_ok, getOr_eq_ok, pure_eq_ok] at h
    obtain ⟨receipt, -, resolutions, -, heq⟩ := h
    cases heq
    exact .inr ⟨by simpa using hconfirm, record, some receipt, hget, hunknown, fun k =>
      Table.get_modify_of_get hget _ (fun r => r.confirm_key _ _) k⟩

/-- Marking the grant of a call dispatches its intent. -/
theorem markGrantDispatched_intent {input : EffectApplyInput} {db db' : DB} {u : Unit}
    (h : markGrantDispatched input db = .ok (u, db')) :
    ∃ id i, uuidText input.intentID = some id ∧ Dispatched db db' id i := by
  simp only [markGrantDispatched, bind_eq_ok, getOr_eq_ok, pure_eq_ok] at h
  obtain ⟨id, hid, token, -, i, hi, heq⟩ := h
  cases heq
  obtain ⟨hget, hp⟩ := Option.filter_eq_some_iff.mp hi
  simp only [Bool.and_eq_true] at hp
  exact ⟨id, i, hid, rfl, hp.2, hget, Table.get_modify_of_get hget (·.dispatch) (fun _ => rfl)⟩

-- ============================================================================
-- Steps of the service
-- ============================================================================

namespace EffectCalls

variable {s s' : EffectCalls} {events : List EffectEvent}

/-- The call of a step's check has the grant it was checked for. -/
theorem Step.grants_of_authorised (h : Step s events s') {input : EffectApplyInput}
    (hshown : .authorised input ∈ events) :
    ∃ i, s.db.intents.get i.intentID = some i ∧ Grants i input := by
  cases h with
  | check now input' hcheck =>
      obtain rfl := EffectEvent.authorised.inj (List.mem_singleton.mp hshown)
      exact grants_of_checkGrant hcheck
  | found | apply => cases List.mem_singleton.mp hshown
  | miss | mark | lost | unknown | resolve => cases hshown

theorem Step.settledKept (h : Step s events s') : SettledKept s.db s'.db := by
  cases h with
  | mark _ _ input db' _ hmark =>
      obtain ⟨id, i, -, hdispatched⟩ := markGrantDispatched_intent hmark
      exact .of_dispatched hdispatched
  | check | miss | lost => exact .of_eq rfl
  | found _ _ _ _ _ _ _ _ h => exact .of_eq (by rw [(settleExisting_eq h).1]; rfl)
  | apply _ _ _ _ _ _ h => exact .of_eq (by rw [(applyMissing_eq_ok h).1]; rfl)
  | unknown _ _ _ h => exact .of_eq (by rw [(recordUnknownEffect_eq_ok h).1]; rfl)
  | resolve _ _ _ h => exact .of_eq (by rw [(resolveUnknownEffect_eq_ok h).1]; rfl)

theorem Step.named (h : Step s events s') (hnamed : s.db.IntentsNamed) : s'.db.IntentsNamed := by
  cases h.intents with
  | same hsame =>
      intro id i hi
      rw [hsame] at hi
      exact hnamed id i hi
  | dispatched id i hdispatched =>
      intro id' i' hi'
      rw [hdispatched.intents] at hi'
      split at hi'
      · cases hi'
        exact hnamed id i hdispatched.row
      · exact hnamed id' i' hi'

/-- The record of an unknown outcome that a step leaves was there before, or is new and names no
    intent. -/
theorem Step.unlinked (h : Step s events s') {k : EffectKey} {r : EffectRecord}
    (hr : s'.db.effects.records.get k = some r) (hunknown : r.outcome ≠ .applied) :
    s.db.effects.records.get k = some r ∨ r.intentID = none ∧ r.resourceID = none := by
  cases h with
  | check | miss | lost => exact .inl hr
  | found _ _ _ _ _ _ _ _ h =>
      rw [(settleExisting_eq h).2.1.records] at hr
      exact .inl hr
  | apply _ _ _ _ _ _ h =>
      obtain hsame | ⟨-, id, receipt, -, hins⟩ := applyMissing_record h
      · rw [hsame] at hr
        exact .inl hr
      · rw [Table.get_insert hins] at hr
        split at hr
        · cases hr
          exact absurd rfl hunknown
        · exact .inl hr
  | mark _ _ _ _ _ hmark =>
      obtain ⟨id, i, -, hdispatched⟩ := markGrantDispatched_intent hmark
      rw [hdispatched.frame] at hr
      exact .inl hr
  | unknown input record db' h =>
      simp only [recordUnknownEffect, bind_eq_ok, rejectIf_eq_ok, exists_const] at h
      obtain ⟨-, h⟩ := h
      split at h
      · rename_i records hins
        cases h
        rw [Table.get_insert hins] at hr
        split at hr
        · cases hr
          exact .inr ⟨rfl, rfl⟩
        · exact .inl hr
      · simp only [bind_eq_ok, getOr_eq_ok, pure_eq_ok] at h
        obtain ⟨existing, -, heq⟩ := h
        cases heq
        exact .inl hr
  | resolve _ _ _ h =>
      obtain ⟨-, hsame⟩ | ⟨-, record, receipt, -, -, hget⟩ := resolveUnknownEffect_records h
      · rw [hsame] at hr
        exact .inl hr
      · rw [hget] at hr
        split at hr
        · cases hr
          exact absurd rfl hunknown
        · exact .inl hr

theorem Step.linked (h : Step s events s') (hs : Linked s) : Linked s' where
  calls := by
    have hcalls : ∀ call ∈ s.calls,
        EffectEvent.authorised call.input ∈ s.calls.map (fun call => .authorised call.input) :=
      fun call hcall => List.mem_map_of_mem hcall
    intro call hcall
    refine h.settledKept.grants ?_
    obtain hold | hnew := List.mem_append.mp ((h.authorised hcalls).1 call hcall)
    · obtain ⟨old, hmem, heq⟩ := List.mem_map.mp hold
      rw [← EffectEvent.authorised.inj heq]
      exact hs.calls old hmem
    · exact h.grants_of_authorised hnew
  unlinked := by
    intro k r hr hunknown
    obtain hold | hnew := h.unlinked hr hunknown
    · exact hs.unlinked k r hold hunknown
    · exact hnew
  named := h.named hs.named

/-- A confirmed record is covered by a marked intent exactly when it was confirmable. -/
theorem confirmed_covered_iff (hs : Linked s) {record : EffectRecord} {receipt : Option Jsonb}
    (hrecord : s.db.effects.records.get record.key = some record)
    (hunknown : record.outcome = .outcomeUnknown) :
    (∃ i, s.db.intents.get i.intentID = some i ∧ Covers i (record.confirm receipt
        (if record.grantScopeHash.getD "" = "" then none
          else s.db.scopeIntent record.key.workflowID (record.grantScopeHash.getD ""))) ∧
      Marked s.calls i) ↔ Confirmable s record := by
  obtain ⟨hunnamed, -⟩ := hs.unlinked _ record hrecord (by rw [hunknown]; decide)
  -- a marked intent of the table is granted
  have hgranted : ∀ i, s.db.intents.get i.intentID = some i → Marked s.calls i → i.isGranted = true := by
    rintro i hi (hdispatched | ⟨input, hin, hid⟩)
    · rw [ApprovalIntent.isGranted, hdispatched]
      rfl
    · obtain ⟨i', hi', hgrants⟩ := hs.calls _ hin
      have heq : i' = i := by
        have hsame : i'.intentID = i.intentID := Option.some.inj (hgrants.intentID.symm.trans hid)
        rw [hsame, hi] at hi'
        exact (Option.some.inj hi').symm
      rw [← heq]
      exact (hgrants.covers none).settled.2
  constructor
  · rintro ⟨i, hi, hcovers, hmarked⟩
    have hlinked := hcovers.intentID
    split at hlinked
    · exact absurd (hunnamed.symm.trans hlinked) (by simp)
    · rename_i hscope
      rw [if_neg hscope] at hcovers
      cases hnewest : s.db.scopeIntent record.key.workflowID (record.grantScopeHash.getD "") with
      | none =>
          rw [hnewest] at hlinked
          exact absurd (hunnamed.symm.trans hlinked) (by simp)
      | some i' =>
          rw [hnewest] at hlinked
          obtain ⟨hi', -, hsame⟩ := scopeIntent_eq_some hnewest
          have heq : i' = i := by
            rw [Option.some.inj hlinked, hi] at hi'
            exact (Option.some.inj hi').symm
          subst heq
          have hstored : record.grantScopeHash = some i'.grantScopeHash := hcovers.scope
          rw [hstored] at hnewest hscope
          exact ⟨i'.grantScopeHash, i', hstored, hscope, hnewest, hcovers.settled.1, hcovers.arguments,
            hcovers.recomputed, hmarked⟩
  · rintro ⟨scope, i, hstored, hscope, hnewest, happroved, harguments, hrecomputed, hmarked⟩
    obtain ⟨hi, hworkflow, hsame⟩ := scopeIntent_eq_some hnewest
    rw [hstored, Option.getD_some, if_neg hscope, hnewest]
    refine ⟨i, hi, ⟨⟨happroved, hgranted i hi hmarked⟩, rfl, hworkflow, ?_, harguments, ?_, ?_⟩, hmarked⟩
    · simp only [EffectRecord.confirm, if_neg (hs.named _ i hi)]
    · rw [hsame]
      exact hstored
    · rw [hsame]
      exact hrecomputed

/-- A careless step leaves an applied effect without a marked intent. -/
theorem not_covered_of_careless (h : Careless s s') (hs : Linked s) : ¬ Covered s' := by
  cases h with
  | lost before after input record i calls row applied intent covered unmarked =>
      intro hcovered
      obtain ⟨i', hi', hcovers, hmarked⟩ := hcovered _ record row applied
      have heq : i' = i := by
        have hsame : i.intentID = i'.intentID := Option.some.inj (covered.symm.trans hcovers.intentID)
        have hi' : s.db.intents.get i'.intentID = some i' := hi'
        rw [← hsame, intent] at hi'
        exact (Option.some.inj hi').symm
      exact unmarked (heq ▸ hmarked)
  | confirmed resolutionID input record db' h row confirms uncovered =>
      intro hcovered
      have hkey := Table.key_of_get row
      obtain ⟨habandons, -⟩ | ⟨-, record', receipt, hrow', hunknown, hget⟩ :=
        resolveUnknownEffect_records h
      · rw [confirms] at habandons
        cases habandons
      · cases row.symm.trans hrow'
        obtain ⟨i, hi, hcovers, hmarked⟩ := hcovered input.key _ (by rw [hget, if_pos rfl]) rfl
        have hintents : db'.intents = s.db.intents := by
          rw [(resolveUnknownEffect_eq_ok h).1]
          rfl
        refine uncovered ((@confirmed_covered_iff s hs record receipt (by rw [hkey]; exact row)
          hunknown).mp ⟨i, by rw [← hintents]; exact hi, ?_, hmarked⟩)
        rw [hkey]
        exact hcovers

/-- The calls that mark stay when another call moves on. -/
theorem settled_mem_of_moved {before mid after : List EffectCall} {call : EffectCall}
    {input : EffectApplyInput} (h : .settled input ∈ before ++ call :: after)
    (hcall : call ≠ .settled input) : .settled input ∈ before ++ mid ++ after := by
  rcases List.mem_append.mp h with hbefore | hrest
  · exact List.mem_append_left _ (List.mem_append_left _ hbefore)
  · rcases List.mem_cons.mp hrest with heq | hafter
    · exact absurd heq.symm hcall
    · exact List.mem_append_right _ hafter

/-- A step that is not careless keeps the applied effects covered. -/
theorem Step.covered (h : Step s events s') (hs : Linked s) (hcovered : Covered s)
    (hcareful : ¬ Careless s s') : Covered s' := by
  have hkept := h.settledKept
  -- an applied record that was there before stays covered, if the calls that mark do
  have hold : (∀ input, .settled input ∈ s.calls → .settled input ∈ s'.calls) →
      ∀ k r, s.db.effects.records.get k = some r → r.outcome = .applied →
        ∃ i, s'.db.intents.get i.intentID = some i ∧ Covers i r ∧ Marked s'.calls i :=
    fun hcalls k r hr happlied => hkept.covered hcalls (hcovered k r hr happlied)
  intro k r hr happlied
  cases h with
  | check now input hcheck =>
      exact hold (fun _ hin => List.mem_cons_of_mem _ hin) k r hr happlied
  | found before after input record reply db' calls lookup h =>
      rw [(settleExisting_eq h).2.1.records] at hr
      refine hold (fun input' hin => ?_) k r hr happlied
      rw [calls] at hin
      exact settled_mem_of_moved hin (fun heq => nomatch heq)
  | miss before after input calls lookup =>
      refine hold (fun input' hin => ?_) k r hr happlied
      rw [calls] at hin
      simpa using hin
  | apply before after input reply db' calls h =>
      have hcalls : ∀ input', .settled input' ∈ s.calls →
          .settled input' ∈ before ++ EffectCall.afterReply input reply ++ after := by
        intro input' hin
        rw [calls] at hin
        exact settled_mem_of_moved hin (fun heq => nomatch heq)
      obtain hsame | ⟨⟨revision, rfl⟩, id, receipt, hid, hins⟩ := applyMissing_record h
      · rw [hsame] at hr
        exact hold hcalls k r hr happlied
      · rw [Table.get_insert hins] at hr
        split at hr
        · -- the new record, which the call is about to mark
          cases hr
          obtain ⟨i, hi, hgrants⟩ := hs.calls (.missed input) (by rw [calls]; simp)
          have hintents : db'.intents = s.db.intents := by
            rw [(applyMissing_eq_ok h).1]
            rfl
          cases hid.symm.trans hgrants.intentID
          refine ⟨i, by rw [hintents]; exact hi, hgrants.covers receipt,
            .inr ⟨input, ?_, hgrants.intentID⟩⟩
          simp [EffectCall.afterReply]
        · exact hold hcalls k r hr happlied
  | mark before after input db' calls hmark =>
      obtain ⟨id, i₀, hid, hdispatched⟩ := markGrantDispatched_intent hmark
      have heffects : db'.effects = s.db.effects := by rw [hdispatched.frame]
      rw [heffects] at hr
      obtain ⟨i, hi, hcovers, hmarked⟩ := hcovered k r hr happlied
      by_cases hmarks : i.intentID = id
      · refine ⟨i.dispatch, ?_, hcovers.dispatch, .inl rfl⟩
        have hrow := hdispatched.row
        rw [← hmarks, hi] at hrow
        rw [show i.dispatch.intentID = i.intentID from rfl, hdispatched.intents, if_pos hmarks,
          Option.some.inj hrow]
      · refine ⟨i, ?_, hcovers, hmarked.imp_right ?_⟩
        · rw [hdispatched.intents, if_neg hmarks]
          exact hi
        · rintro ⟨input', hin, hid'⟩
          refine ⟨input', ?_, hid'⟩
          rw [calls] at hin
          rcases List.mem_append.mp hin with hbefore | hrest
          · exact List.mem_append_left _ hbefore
          · rcases List.mem_cons.mp hrest with heq | hafter
            · cases heq
              exact absurd (Option.some.inj (hid'.symm.trans hid)) hmarks
            · exact List.mem_append_right _ hafter
  | lost before after call calls =>
      obtain ⟨i, hi, hcovers, hmarked⟩ := hcovered k r hr happlied
      refine ⟨i, hi, hcovers, ?_⟩
      by_contra hunmarked
      have hrow : s.db.effects.records.get r.key = some r := by
        rw [Table.key_of_get hr]
        exact hr
      obtain hdispatched | ⟨input, hin, hid⟩ := hmarked
      · exact hunmarked (.inl hdispatched)
      · have hlast : call = .settled input := by
          rw [calls] at hin
          rcases List.mem_append.mp hin with hbefore | hrest
          · exact absurd (.inr ⟨input, List.mem_append_left _ hbefore, hid⟩) hunmarked
          · rcases List.mem_cons.mp hrest with heq | hafter
            · exact heq.symm
            · exact absurd (.inr ⟨input, List.mem_append_right _ hafter, hid⟩) hunmarked
        subst hlast
        exact hcareful (.lost s before after input r i calls hrow happlied hi hcovers.intentID hunmarked)
  | unknown input record db' h =>
      refine hold (fun _ hin => hin) k r ?_ happlied
      simp only [recordUnknownEffect, bind_eq_ok, rejectIf_eq_ok, exists_const] at h
      obtain ⟨-, h⟩ := h
      split at h
      · rename_i records hins
        cases h
        rw [Table.get_insert hins] at hr
        split at hr
        · cases hr
          cases happlied
        · exact hr
      · simp only [bind_eq_ok, getOr_eq_ok, pure_eq_ok] at h
        obtain ⟨existing, -, heq⟩ := h
        cases heq
        exact hr
  | resolve resolutionID input db' h =>
      obtain ⟨-, hsame⟩ | ⟨hconfirms, record, receipt, hrow, hunknown, hget⟩ :=
        resolveUnknownEffect_records h
      · rw [hsame] at hr
        exact hold (fun _ hin => hin) k r hr happlied
      · rw [hget] at hr
        split at hr
        · cases hr
          have hkey := Table.key_of_get hrow
          have hintents : db'.intents = s.db.intents := by
            rw [(resolveUnknownEffect_eq_ok h).1]
            rfl
          have hconfirmable : Confirmable s record := by
            by_contra hno
            exact hcareful (.confirmed s resolutionID input record db' h hrow hconfirms hno)
          obtain ⟨i, hi, hcovers, hmarked⟩ := (@confirmed_covered_iff s hs record receipt
            (by rw [hkey]; exact hrow) hunknown).mpr hconfirmable
          rw [hkey] at hcovers
          exact ⟨i, by rw [hintents]; exact hi, hcovers, hmarked⟩
        · exact hold (fun _ hin => hin) k r hr happlied

end EffectCalls

-- ============================================================================
-- Runs
-- ============================================================================

/-- The database and the calls in progress. -/
def World.effectCalls (w : World) : EffectCalls := ⟨w.db, w.calls⟩

/-- A step of the effect service, or one that touches neither its calls nor its ledger. -/
theorem World.Step.effectCalls_cases {env : Env} {w w' : World} {events : List Event}
    (h : World.Step env w events w') :
    EffectCalls.Step w.effectCalls (effectTrace events) w'.effectCalls ∨
      w'.effectCalls.calls = w.effectCalls.calls ∧ w'.db.effects = w.db.effects ∧
        IntentWrite w.db w'.db := by
  cases h with
  | tick _ d => exact .inr ⟨rfl, rfl, .same rfl⟩
  | commit _ amb op a db' h _ => exact .inr ⟨rfl, effects_of_commit h, intentWrite_of_commit h⟩
  | relay _ events s' h =>
      refine .inr ⟨rfl, ?_, .same ?_⟩
      · rw [h.frame]
        rfl
      · rw [h.frame]
        rfl
  | consumer _ events db' h =>
      refine .inr ⟨rfl, ?_, .same ?_⟩
      · rw [h.frame]
        rfl
      · rw [h.frame]
        rfl
  | effect _ events s' h =>
      rw [effectTrace_effect]
      exact .inl h

theorem World.Step.linked {env : Env} {w w' : World} {events : List Event}
    (h : World.Step env w events w') (hw : Linked w.effectCalls) : Linked w'.effectCalls := by
  obtain heffect | ⟨hcalls, heffects, hwrite⟩ := h.effectCalls_cases
  · exact heffect.linked hw
  · refine ⟨fun call hcall => ?_, fun k r hr => ?_, hwrite.named hw.named⟩
    · exact (SettledKept.of_write hwrite).grants (hw.calls call (hcalls ▸ hcall))
    · exact hw.unlinked k r (heffects ▸ hr)

theorem World.Step.covered_iff {env : Env} {w w' : World} {events : List Event}
    (h : World.Step env w events w') (hw : Linked w.effectCalls) (hcovered : Covered w.effectCalls) :
    Covered w'.effectCalls ↔ ¬ Careless w.effectCalls w'.effectCalls := by
  refine ⟨fun hcovered' hcareless => EffectCalls.not_covered_of_careless hcareless hw hcovered',
    fun hcareful => ?_⟩
  obtain heffect | ⟨hcalls, heffects, hwrite⟩ := h.effectCalls_cases
  · exact heffect.covered hw hcovered hcareful
  · intro k r hr happlied
    exact (SettledKept.of_write hwrite).covered (fun input hin => hcalls ▸ hin)
      (hcovered k r (heffects ▸ hr) happlied)

/-- The runs without a careless step. -/
def World.CarefulRun (env : Env) : World → List Event → World → Prop :=
  Trace (fun w events w' => World.Step env w events w' ∧ ¬ Careless w.effectCalls w'.effectCalls)

theorem World.CarefulRun.sound {env : Env} {now : Int} {trace : List Event} {w : World}
    (h : World.CarefulRun env (World.start now) trace w) :
    Linked w.effectCalls ∧ Covered w.effectCalls := by
  induction h with
  | refl =>
      exact ⟨⟨fun _ hcall => (nomatch hcall), fun _ _ hr => (nomatch hr), fun _ _ hi => (nomatch hi)⟩,
        fun _ _ hr => (nomatch hr)⟩
  | tail hrun hs ih => exact ⟨hs.1.linked ih.1, (hs.1.covered_iff ih.1 ih.2).mpr hs.2⟩

/-- In every state that a careful run reaches, each applied effect has a dispatched intent once no
    call is in progress, and the next step keeps each one dispatched or about to be exactly when it
    is careful too. -/
theorem effects_dispatched {env : Env} {now : Int} {trace : List Event} {w : World}
    (h : World.CarefulRun env (World.start now) trace w) :
    (w.calls = [] → EffectsDispatched w.db) ∧ Covered w.effectCalls ∧
      ∀ events w', World.Step env w events w' →
        (Covered w'.effectCalls ↔ ¬ Careless w.effectCalls w'.effectCalls) := by
  obtain ⟨hlinked, hcovered⟩ := h.sound
  refine ⟨fun hidle k r hr happlied => ?_, hcovered, fun events w' hs => hs.covered_iff hlinked hcovered⟩
  obtain ⟨i, hi, hcovers, hdispatched | ⟨input, hin, -⟩⟩ := hcovered k r hr happlied
  · exact ⟨i, hi, hcovers, hdispatched⟩
  · have hin : .settled input ∈ w.calls := hin
    rw [hidle] at hin
    cases hin

theorem Careless.record {s s' : EffectCalls} (h : Careless s s') :
    ∃ k record, s.db.effects.records.get k = some record ∧
      (s'.db = s.db ∨ record.outcome = .outcomeUnknown) := by
  cases h with
  | lost _ _ _ record _ _ row => exact ⟨_, record, row, .inl rfl⟩
  | confirmed _ input record db' h row confirms =>
      refine ⟨_, record, row, .inr ?_⟩
      obtain ⟨habandons, -⟩ | ⟨-, record', -, hrow', hunknown, -⟩ := resolveUnknownEffect_records h
      · rw [confirms] at habandons
        cases habandons
      · cases row.symm.trans hrow'
        exact hunknown

/-- A run without records is careful. -/
theorem World.Run.careful {env : Env} {w w' : World} {trace : List Event}
    (h : World.Run env w trace w') (hnone : w'.db.effects.records.rows = []) :
    World.CarefulRun env w trace w' := by
  induction h with
  | refl => exact .refl
  | @tail trace events w₁ w₂ hrun hs ih =>
      have hbefore : w₁.db.effects.records.rows = [] := by
        by_contra hrows
        obtain ⟨record, hmem⟩ := List.exists_mem_of_ne_nil _ hrows
        obtain ⟨record', hrecord', -⟩ := hs.ledger.recordsKept _ record (Table.get_of_mem hmem)
        have hmem' := Table.mem_of_get hrecord'
        rw [hnone] at hmem'
        cases hmem'
      refine (ih hbefore).tail ⟨hs, fun hcareless => ?_⟩
      obtain ⟨k, record, hrow, -⟩ := hcareless.record
      have hmem := Table.mem_of_get hrow
      rw [show w₁.effectCalls.db = w₁.db from rfl, hbefore] at hmem
      cases hmem

/-- The call has passed its check and missed its record. -/
def missedScript : List Move := approvedScript ++ ([.check 0 (soloEffect "first" 1), .next 0] : List Move)

/-- The effect is applied, and its intent marked. -/
theorem effects_dispatched_applied :
    ∃ trace w, World.CarefulRun .plain (World.start 0) trace w ∧ w.calls = [] ∧
      (w.db.effects.records.get ⟨"w", "key"⟩).map (·.outcome) = some .applied ∧
      EffectsDispatched w.db ∧ Covered w.effectCalls := by
  have hrun : (World.moves? .plain 0 missedScript (World.start 0)).any (fun r =>
      r.2.db.effects.records.rows.isEmpty &&
      (r.2.move? .plain (.drawn 8) (.next 0)).any (fun r₁ =>
        r₁.2.db.effects.records.rows.all (fun record => decide (record.outcome = .applied)) &&
        decide ((r₁.2.db.intents.get (uuidOf 4 3)).map (·.dispatchStatus) = some .granted) &&
        (r₁.2.move? .plain (.drawn 9) (.next 0)).any (fun r₂ =>
          r₂.2.calls.isEmpty &&
          decide ((r₂.2.db.effects.records.get ⟨"w", "key"⟩).map (·.outcome) = some .applied) &&
          decide ((r₂.2.db.intents.get (uuidOf 4 3)).map (·.dispatchStatus) = some .dispatched)))) =
      true := by
    rw [missedScript, moves?_approved, soloEffect_eq]
    decide +kernel
  obtain ⟨⟨trace, w⟩, hmoves, hshown⟩ := (Option.any_eq_true _ _).mp hrun
  simp only [Bool.and_eq_true, List.isEmpty_iff] at hshown
  obtain ⟨hnone, happly⟩ := hshown
  obtain ⟨⟨events₁, w₁⟩, happly, hshown₁⟩ := (Option.any_eq_true _ _).mp happly
  simp only [Bool.and_eq_true, List.all_eq_true, decide_eq_true_eq] at hshown₁
  obtain ⟨⟨happlied, hgranted⟩, hmark⟩ := hshown₁
  obtain ⟨⟨events₂, w₂⟩, hmark, hshown₂⟩ := (Option.any_eq_true _ _).mp hmark
  simp only [Bool.and_eq_true, List.isEmpty_iff, decide_eq_true_eq] at hshown₂
  obtain ⟨⟨hidle, hrecord⟩, hdispatched⟩ := hshown₂
  have hrun₀ := (World.run_of_moves? hmoves).careful hnone
  have hrun₁ : World.CarefulRun .plain (World.start 0) (trace ++ events₁) w₁ := by
    refine hrun₀.tail ⟨World.step_of_move? happly, fun hcareless => ?_⟩
    obtain ⟨k, record, hrow, -⟩ := hcareless.record
    have hmem := Table.mem_of_get hrow
    rw [show w.effectCalls.db = w.db from rfl, hnone] at hmem
    cases hmem
  have hrun₂ : World.CarefulRun .plain (World.start 0) (trace ++ events₁ ++ events₂) w₂ := by
    refine hrun₁.tail ⟨World.step_of_move? hmark, fun hcareless => ?_⟩
    obtain ⟨k, record, hrow, hsame | hunknown⟩ := hcareless.record
    · have hsame : w₂.db = w₁.db := hsame
      rw [hsame, hgranted] at hdispatched
      cases hdispatched
    · rw [happlied record (Table.mem_of_get hrow)] at hunknown
      cases hunknown
  exact ⟨_, w₂, hrun₂, hidle, hrecord, (effects_dispatched hrun₂).1 hidle, (effects_dispatched hrun₂).2.1⟩

/-- The outcome of the effect is unknown, and an operator confirms it. -/
def confirmedScript : List Move := approvedScript ++ ([
  .unknown ⟨"w", "key", Sha256.hexSum "{}", grantScopeHash soloProposal "0" "key" "r", 1⟩,
  .resolve (uuidOf 7 0) ⟨"operator", "w", "key", Sha256.hexSum "{}", .json (.obj []), false⟩] : List Move)

/-- An applied record names an intent that is only granted. -/
def showsGranted (db : DB) : Bool :=
  db.effects.records.rows.any (fun r => decide (r.outcome = .applied ∧ r.intentID = some (uuidOf 4 3))) &&
    (db.intents.get (uuidOf 4 3)).any (fun i => decide (i.dispatchStatus = .granted))

theorem not_dispatched_of_granted {db : DB} (h : showsGranted db = true) : ¬ EffectsDispatched db := by
  simp only [showsGranted, Bool.and_eq_true, List.any_eq_true, Option.any_eq_true,
    decide_eq_true_eq] at h
  obtain ⟨⟨r, hr, happlied, hlinked⟩, i, hi, hgranted⟩ := h
  intro hall
  obtain ⟨i', hi', hcovers, hdispatched⟩ := hall _ r (Table.get_of_mem hr) happlied
  rw [← Option.some.inj (hlinked.symm.trans hcovers.intentID), hi] at hi'
  rw [← Option.some.inj hi', hgranted] at hdispatched
  cases hdispatched

/-- The record an operator confirms names the intent, which is not marked; nor is that of a call
    that is lost after its transaction. -/
theorem effects_not_dispatched :
    (¬ ∀ (env : Env) (now : Int) (trace : List Event) (w : World),
      World.Run env (World.start now) trace w → w.calls = [] → EffectsDispatched w.db) ∧
    ∃ trace w, World.Run .plain (World.start 0) trace w ∧ w.calls = [] ∧
      (mutations trace).map EffectApplyInput.requestID = ["first"] ∧ ¬ EffectsDispatched w.db := by
  have hruns : (World.moves? .plain 0 confirmedScript (World.start 0)).any (fun r =>
        r.2.calls.isEmpty && showsGranted r.2.db) = true ∧
      (World.moves? .plain 0 (missedScript ++ [Move.next 0]) (World.start 0)).any (fun r =>
        decide (r.2.calls.length = 1) && decide ((mutations r.1).map EffectApplyInput.requestID = ["first"]) &&
        showsGranted r.2.db) = true := by
    rw [confirmedScript, missedScript, List.append_assoc, moves?_approved, moves?_approved, soloEffect_eq,
      soloScope_eq, hexSum_empty]
    decide +kernel
  obtain ⟨hconfirmed, hcrashed⟩ := hruns
  constructor
  · intro h
    obtain ⟨⟨trace, w⟩, hmoves, hshown⟩ := (Option.any_eq_true _ _).mp hconfirmed
    simp only [Bool.and_eq_true, List.isEmpty_iff] at hshown
    exact not_dispatched_of_granted hshown.2 (h .plain 0 trace w (World.run_of_moves? hmoves) hshown.1)
  · obtain ⟨⟨trace, w⟩, hmoves, hshown⟩ := (Option.any_eq_true _ _).mp hcrashed
    simp only [Bool.and_eq_true, decide_eq_true_eq] at hshown
    obtain ⟨⟨hcalls, hmutated⟩, hgranted⟩ := hshown
    obtain ⟨call, hcall⟩ := List.length_eq_one_iff.mp hcalls
    have hlost : World.Step .plain w ([].map .effect) ⟨w.db, w.passes, []⟩ :=
      .effect w [] ⟨w.db, []⟩ (.lost ⟨w.db, w.calls⟩ [] [] call hcall)
    refine ⟨_, _, (World.run_of_moves? hmoves).tail hlost, rfl, ?_, not_dispatched_of_granted hgranted⟩
    rw [mutations_append, List.map_append, hmutated]
    rfl

end DurableEngine.Services
