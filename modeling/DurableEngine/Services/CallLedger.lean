/-
  DurableEngine.Services.CallLedger

  The calls on the ledger of the effect service.

  `recordEffectCallTx` writes the row of a call with its transaction, and a
  request id that was used keeps the row it has.  So the ledger tells what
  happened as long as no call mutates its resource under a used request id.
-/

import DurableEngine.Services.AtMostOnce

namespace DurableEngine.Services

open Lib State

/-- The identity of the call's row. -/
def callKey (input : EffectApplyInput) : CallKey := ⟨input.workflowID, input.requestID⟩

/-- The outcome `ApplyEffect` records for a reply. -/
def recordedOutcome : EffectReply → CallOutcome
  | .applied _ => .applied
  | .duplicate => .duplicate
  | .refused .effectConflict => .conflict
  | .refused .ambiguousEffect => .unknown
  | .refused _ => .rejected

/-- The row that `recordEffectCallTx` writes for a call. -/
def callRow (input : EffectApplyInput) (outcome : CallOutcome) (receipt : Option Jsonb) :
    State.EffectCall :=
  ⟨callKey input, input.logicalEffectKey, input.argumentHash, input.attemptNumber, outcome, receipt⟩

/-- The row is that of an applied call, with the key, the arguments, the attempt and the receipt of
    the mutation to `revision`. -/
structure TellsMutation (row : State.EffectCall) (input : EffectApplyInput) (revision : Int) : Prop where
  outcome : row.outcome = .applied
  effect : (⟨row.key.workflowID, row.logicalEffectKey⟩ : EffectKey) = input.key
  argumentHash : row.argumentHash = input.argumentHash
  attemptNumber : row.attemptNumber = input.attemptNumber
  receipt : row.receipt = effectReceipt input revision

/-- The row carries the request id and the arguments of a call, and the outcome of its reply. -/
structure TellsCall (row : State.EffectCall) (input : EffectApplyInput) (reply : EffectReply) : Prop where
  key : row.key = callKey input
  logicalEffectKey : row.logicalEffectKey = input.logicalEffectKey
  argumentHash : row.argumentHash = input.argumentHash
  attemptNumber : row.attemptNumber = input.attemptNumber
  outcome : row.outcome = recordedOutcome reply

/-- The rows tell of the calls that the trace shows: each mutation has one row, and each row is the
    row of some call. -/
structure LedgerTells (trace : List Event) (db : DB) : Prop where
  mutations : ∀ input revision, .answered input (.applied revision) ∈ effectTrace trace →
    ∃! row, row ∈ db.effects.calls.rows ∧ TellsMutation row input revision
  calls : ∀ row ∈ db.effects.calls.rows, ∃ input reply,
    .answered input reply ∈ effectTrace trace ∧ TellsCall row input reply

-- ============================================================================
-- The row of a call
-- ============================================================================

/-- The transaction of the call misses its record, its token was not overtaken, and the resource is
    at the approved revision. -/
structure Mutates (input : EffectApplyInput) (db : DB) : Prop where
  missing : effectRecord input db = none
  token : ∀ f, db.effects.fences.get input.resourceID = some f → f.observedToken ≤ input.fenceToken
  revision : approvedRevision input db ≠ none

/-- The calls on the ledger after one more was recorded. -/
def withCall (calls : Table State.EffectCall.key) (row : State.EffectCall) :
    Table State.EffectCall.key :=
  (calls.insert? row).getD calls

theorem get_withCall (calls : Table State.EffectCall.key) (row : State.EffectCall) :
    (withCall calls row).get row.key = some ((calls.get row.key).getD row) := by
  unfold withCall
  cases hins : calls.insert? row with
  | some calls' =>
      rw [(Table.insert?_eq_some_iff.mp hins).1]
      exact Table.get_insert_self hins
  | none =>
      obtain ⟨row', hrow'⟩ := Table.get_of_insert?_none hins
      rw [Option.getD_none, hrow']
      rfl

theorem get_withCall_of_get {calls : Table State.EffectCall.key} {k : CallKey}
    {old : State.EffectCall} (h : calls.get k = some old) (row : State.EffectCall) :
    (withCall calls row).get k = some old := by
  unfold withCall
  cases hins : calls.insert? row with
  | some calls' => exact Table.get_insert_of_get hins h
  | none => exact h

theorem mem_withCall {calls : Table State.EffectCall.key} {row row' : State.EffectCall}
    (h : row' ∈ (withCall calls row).rows) : row' ∈ calls.rows ∨ row' = row := by
  unfold withCall at h
  cases hins : calls.insert? row with
  | some calls' =>
      rw [hins, Option.getD_some, (Table.insert?_eq_some_iff.mp hins).2] at h
      exact (List.mem_append.mp h).imp_right List.mem_singleton.mp
  | none =>
      rw [hins] at h
      exact .inl h

theorem recordEffectCall_calls (db : DB) (input : EffectApplyInput) (outcome : CallOutcome)
    (receipt : Option Jsonb) : (db.recordEffectCall input outcome receipt).effects.calls =
      withCall db.effects.calls (callRow input outcome receipt) := by
  unfold DB.recordEffectCall withCall callRow callKey
  split <;> rename_i hins <;> rw [hins] <;> rfl

/-- The row of a call whose record was found. -/
theorem settleExisting_calls {existing : EffectRecord} {input : EffectApplyInput} {db db' : DB}
    {reply : EffectReply} (h : settleExisting existing input db = (reply, db')) :
    ∃ receipt, db'.effects.calls =
      withCall db.effects.calls (callRow input (recordedOutcome reply) receipt) := by
  unfold settleExisting at h
  split at h
  · obtain ⟨rfl, rfl⟩ := Prod.mk.inj h
    exact ⟨_, recordEffectCall_calls _ _ _ _⟩
  · split at h
    · obtain ⟨rfl, rfl⟩ := Prod.mk.inj h
      exact ⟨_, recordEffectCall_calls _ _ _ _⟩
    · obtain ⟨rfl, rfl⟩ := Prod.mk.inj h
      exact ⟨_, recordEffectCall_calls _ _ _ _⟩

theorem commitEffect_calls {input : EffectApplyInput} {revision : Int} {db db' : DB}
    {reply : EffectReply} (h : commitEffect input revision db = .ok (reply, db')) :
    reply = .applied (revision + 1) ∧ db'.effects.calls =
      withCall db.effects.calls (callRow input .applied (effectReceipt input (revision + 1))) := by
  simp only [commitEffect, bind_eq_ok, getOr_eq_ok, pure_eq_ok] at h
  obtain ⟨state, -, receipt, hreceipt, intentID, -, records, -, heq⟩ := h
  obtain ⟨sandbox, hmutate, -⟩ := db.mutateSandbox_eq input.resourceID state (revision + 1)
  obtain ⟨rfl, rfl⟩ := Prod.mk.inj heq
  refine ⟨rfl, ?_⟩
  rw [recordEffectCall_calls, hmutate, hreceipt]

/-- The row of a call whose record was missed, and when its resource was mutated. -/
theorem applyMissing_calls {input : EffectApplyInput} {db db' : DB} {reply : EffectReply}
    (h : applyMissing input db = .ok (reply, db')) :
    ∃ receipt, db'.effects.calls =
        withCall db.effects.calls (callRow input (recordedOutcome reply) receipt) ∧
      (∀ revision, reply = .applied revision → receipt = effectReceipt input revision) ∧
      ((∃ revision, reply = .applied revision) ↔ Mutates input db) := by
  have hledger := (applyMissing_eq_ok h).2
  obtain ⟨fences, hensure, ⟨f, hf, hfrom⟩, -⟩ := db.ensureFence_eq input.resourceID input.fenceToken
  simp only [applyMissing, hensure, bind_eq_ok, getOr_eq_ok] at h
  obtain ⟨f', hf', h⟩ := h
  rw [hf, Option.some.injEq] at hf'
  subst hf'
  split at h
  · -- the token was overtaken
    rename_i hovertaken
    cases h
    refine ⟨none, recordEffectCall_calls _ _ _ _, fun _ hr => (by cases hr),
      fun happlied => (by obtain ⟨_, hr⟩ := happlied; cases hr), fun hmutates => ?_⟩
    obtain hthere | ⟨-, hown⟩ := hfrom
    · exact absurd hovertaken (Int.not_lt.mpr (hmutates.token f hthere))
    · exact absurd (hown ▸ hovertaken) (Int.lt_irrefl _)
  · split at h
    · rename_i hrevision
      cases h
      exact ⟨none, recordEffectCall_calls _ _ _ _, fun _ hr => (by cases hr),
        fun happlied => (by obtain ⟨_, hr⟩ := happlied; cases hr),
        fun hmutates => absurd hrevision hmutates.revision⟩
    · rename_i revision hrevision
      obtain ⟨rfl, hcalls⟩ := commitEffect_calls h
      obtain ⟨⟨_, hr⟩, -⟩ | ⟨_, -, hmutated⟩ := hledger
      · cases hr
      · refine ⟨_, hcalls, fun revision' hr => by rw [EffectReply.applied.inj hr], fun _ => ?_,
          fun _ => ⟨_, rfl⟩⟩
        exact ⟨hmutated.fresh, hmutated.observed, fun hnone => Option.some_ne_none _ (hrevision.symm.trans hnone)⟩

-- ============================================================================
-- Steps
-- ============================================================================

/-- What a step does to the calls on the ledger: nothing, or it records the one call it answers. -/
inductive CallMove (db db' : DB) : List EffectEvent → Prop where
  | same (events : List EffectEvent) (quiet : ∀ input reply, .answered input reply ∉ events)
      (h : db'.effects.calls = db.effects.calls) : CallMove db db' events
  | answered (input : EffectApplyInput) (reply : EffectReply) (receipt : Option Jsonb)
      (h : db'.effects.calls = withCall db.effects.calls (callRow input (recordedOutcome reply) receipt))
      (receipt_eq : ∀ revision, reply = .applied revision → receipt = effectReceipt input revision)
      (applied_iff : (∃ revision, reply = .applied revision) ↔ Mutates input db) :
      CallMove db db' [.answered input reply]

theorem recordUnknownEffect_calls {input : UnknownEffectInput} {db db' : DB} {r : EffectRecord}
    (h : recordUnknownEffect input db = .ok (r, db')) : db'.effects.calls = db.effects.calls := by
  simp only [recordUnknownEffect, bind_eq_ok, rejectIf_eq_ok, exists_const] at h
  obtain ⟨-, h⟩ := h
  split at h
  · cases h
    rfl
  · simp only [bind_eq_ok, getOr_eq_ok, pure_eq_ok] at h
    obtain ⟨existing, -, heq⟩ := h
    cases heq
    rfl

theorem resolveUnknownEffect_calls {resolutionID : String} {input : ResolveEffectInput} {db db' : DB}
    {u : Unit} (h : resolveUnknownEffect resolutionID input db = .ok (u, db')) :
    db'.effects.calls = db.effects.calls := by
  simp only [resolveUnknownEffect, bind_eq_ok, rejectIf_eq_ok, getOr_eq_ok, exists_const] at h
  obtain ⟨-, -, existing, -, -, h⟩ := h
  split at h
  · simp only [bind_eq_ok, getOr_eq_ok, pure_eq_ok] at h
    obtain ⟨resolutions, -, heq⟩ := h
    cases heq
    rfl
  · simp only [bind_eq_ok, getOr_eq_ok, pure_eq_ok] at h
    obtain ⟨receipt, -, resolutions, -, heq⟩ := h
    cases heq
    rfl

theorem EffectCalls.Step.callMove {s s' : EffectCalls} {events : List EffectEvent}
    (h : EffectCalls.Step s events s') : CallMove s.db s'.db events := by
  cases h with
  | check => exact .same _ (fun _ _ hmem => by simp at hmem) rfl
  | miss | lost => exact .same _ (fun _ _ hmem => nomatch hmem) rfl
  | found before after input record reply db' _ hlookup h =>
      obtain ⟨receipt, hcalls⟩ := settleExisting_calls h
      have hquiet := (settleExisting_eq h).2.2
      refine .answered input reply receipt hcalls (fun revision hr => absurd hr (hquiet revision)) ⟨?_, ?_⟩
      · rintro ⟨revision, hr⟩
        exact absurd hr (hquiet revision)
      · intro hmutates
        rw [hmutates.missing] at hlookup
        cases hlookup
  | apply before after input reply db' _ h =>
      obtain ⟨receipt, hcalls, hreceipt, happlied⟩ := applyMissing_calls h
      exact .answered input reply receipt hcalls hreceipt happlied
  | mark _ _ _ _ _ h =>
      obtain ⟨id, intent, hdispatched⟩ := markGrantDispatched_eq_ok h
      exact .same _ (fun _ _ hmem => nomatch hmem) (by rw [hdispatched.frame])
  | unknown _ _ _ h => exact .same _ (fun _ _ hmem => nomatch hmem) (recordUnknownEffect_calls h)
  | resolve _ _ _ h => exact .same _ (fun _ _ hmem => nomatch hmem) (resolveUnknownEffect_calls h)

theorem World.Step.callMove {env : Env} {w w' : World} {events : List Event}
    (h : World.Step env w events w') : CallMove w.db w'.db (effectTrace events) := by
  have hother : ∀ {db' : DB}, db'.effects = w.db.effects → CallMove w.db db' [] :=
    fun heq => .same [] (fun _ _ hmem => nomatch hmem) (by rw [heq])
  cases h with
  | tick _ d => exact hother rfl
  | commit _ amb op a db' h _ => exact hother (effects_of_commit h)
  | relay _ events s' h =>
      rw [effectTrace_relay]
      exact hother (by rw [h.frame]; rfl)
  | consumer _ events db' h =>
      rw [effectTrace_consumer]
      exact hother (by rw [h.frame]; rfl)
  | effect _ events s' h =>
      rw [effectTrace_effect]
      exact h.callMove

-- ============================================================================
-- Runs
-- ============================================================================

/-- The step answers a call that mutates its resource under a request id that is on the ledger. -/
def Reuses (w : World) (events : List Event) : Prop :=
  ∃ input reply, .answered input reply ∈ effectTrace events ∧ Mutates input w.db ∧
    w.db.effects.calls.get (callKey input) ≠ none

/-- What holds of the ledger along a run in which no step does. -/
structure LedgerHolds (trace : List Event) (w : World) : Prop where
  accounts : Accounts (mutations trace) w.db.effects
  mutated : ∀ input revision, .answered input (.applied revision) ∈ effectTrace trace →
    w.db.effects.calls.get (callKey input) =
      some (callRow input .applied (effectReceipt input revision))
  rows : ∀ row ∈ w.db.effects.calls.rows, ∃ input reply,
    .answered input reply ∈ effectTrace trace ∧ TellsCall row input reply

theorem applied_of_recorded {reply : EffectReply} (h : recordedOutcome reply = .applied) :
    ∃ revision, reply = .applied revision := by
  cases reply with
  | applied revision => exact ⟨revision, rfl⟩
  | duplicate => cases h
  | refused e => cases e <;> cases h

/-- A row that tells of a call and of a mutation is about one effect. -/
theorem TellsCall.effect_eq {row : State.EffectCall} {input input' : EffectApplyInput}
    {reply : EffectReply} {revision : Int} (h : TellsCall row input reply)
    (h' : TellsMutation row input' revision) : input.key = input'.key := by
  rw [← h'.effect, h.key, h.logicalEffectKey]
  rfl

/-- The row of an applied call comes from the one mutation of its key. -/
theorem LedgerHolds.tells {trace : List Event} {w : World} (h : LedgerHolds trace w) :
    LedgerTells trace w.db where
  mutations input revision hanswered := by
    have hget := h.mutated input revision hanswered
    refine ⟨_, ⟨Table.mem_of_get hget, rfl, rfl, rfl, rfl, rfl⟩, ?_⟩
    rintro row ⟨hrow, htells⟩
    obtain ⟨input', reply, hanswered', hcall⟩ := h.rows row hrow
    obtain ⟨revision', rfl⟩ := applied_of_recorded (hcall.outcome.symm.trans htells.outcome)
    have hsame := List.inj_on_of_nodup_map h.accounts.once
      (mem_mutations.mpr ⟨revision', hanswered'⟩) (mem_mutations.mpr ⟨revision, hanswered⟩)
      (hcall.effect_eq htells)
    have hget' := Table.get_of_mem hrow
    rw [hcall.key, hsame, hget] at hget'
    exact (Option.some.inj hget').symm
  calls := h.rows

theorem LedgerHolds.step {env : Env} {trace events : List Event} {w w' : World}
    (h : LedgerHolds trace w) (hs : World.Step env w events w') (hfresh : ¬ Reuses w events) :
    LedgerHolds (trace ++ events) w' := by
  have hmove := hs.callMove
  unfold Reuses at hfresh
  refine ⟨h.accounts.step hs, ?_, ?_⟩
  all_goals
    rw [effectTrace_append]
    generalize effectTrace events = shown at hmove hfresh
  · intro input revision hanswered
    cases hmove with
    | same _ hquiet hcalls =>
        rw [hcalls]
        obtain hold | hnew := List.mem_append.mp hanswered
        · exact h.mutated input revision hold
        · exact absurd hnew (hquiet _ _)
    | answered input' reply receipt hcalls hreceipt happlied =>
        rw [hcalls]
        obtain hold | hnew := List.mem_append.mp hanswered
        · exact get_withCall_of_get (h.mutated input revision hold) _
        · obtain ⟨rfl, rfl⟩ := EffectEvent.answered.inj (List.mem_singleton.mp hnew)
          have hfree : w.db.effects.calls.get (callKey input) = none := by
            by_contra hused
            exact hfresh ⟨input, _, List.mem_singleton_self _, happlied.mp ⟨_, rfl⟩, hused⟩
          have hget := get_withCall w.db.effects.calls
            (callRow input (recordedOutcome (.applied revision)) receipt)
          rw [hreceipt revision rfl] at hget ⊢
          refine hget.trans ?_
          rw [show (callRow input (recordedOutcome (.applied revision)) (effectReceipt input revision)).key =
            callKey input from rfl, hfree]
          rfl
  · intro row hrow
    have hold : ∀ row ∈ w.db.effects.calls.rows, ∃ input reply,
        .answered input reply ∈ effectTrace trace ++ shown ∧ TellsCall row input reply := by
      intro row hrow
      obtain ⟨input, reply, hanswered, htells⟩ := h.rows row hrow
      exact ⟨input, reply, List.mem_append_left _ hanswered, htells⟩
    cases hmove with
    | same _ _ hcalls => exact hold row (hcalls ▸ hrow)
    | answered input reply receipt hcalls _ _ =>
        rw [hcalls] at hrow
        obtain hthere | rfl := mem_withCall hrow
        · exact hold row hthere
        · exact ⟨input, reply, List.mem_append_right _ (List.mem_singleton_self _), rfl, rfl, rfl, rfl,
            rfl⟩

/-- A mutation under a used request id has no row: the row that would tell of it is one of an
    earlier mutation of its key. -/
theorem LedgerHolds.not_tells {env : Env} {trace events : List Event} {w w' : World}
    (h : LedgerHolds trace w) (hs : World.Step env w events w') (hreuses : Reuses w events) :
    ¬ LedgerTells (trace ++ events) w'.db := by
  obtain ⟨input, reply, hanswered, hmutates, hused⟩ := hreuses
  intro htells
  have hmove := hs.callMove
  generalize hshown : effectTrace events = shown at hmove hanswered
  cases hmove with
  | same _ hquiet _ => exact absurd hanswered (hquiet _ _)
  | answered input' reply' receipt hcalls _ happlied =>
      obtain ⟨rfl, rfl⟩ := EffectEvent.answered.inj (List.mem_singleton.mp hanswered)
      obtain ⟨revision, rfl⟩ := happlied.mpr hmutates
      obtain ⟨row, ⟨hrow, hmutation⟩, -⟩ := htells.mutations input revision
        (by rw [effectTrace_append, hshown]; exact List.mem_append_right _ hanswered)
      -- the ledger kept the rows it had
      have hkept : w'.db.effects.calls = w.db.effects.calls := by
        rw [hcalls]
        unfold withCall
        cases hins : w.db.effects.calls.insert? (callRow input (recordedOutcome (.applied revision)) receipt) with
        | some calls' => exact absurd (Table.insert?_eq_some_iff.mp hins).1 hused
        | none => rfl
      rw [hkept] at hrow
      obtain ⟨input', reply, hanswered', hcall⟩ := h.rows row hrow
      obtain ⟨revision', rfl⟩ := applied_of_recorded (hcall.outcome.symm.trans hmutation.outcome)
      obtain ⟨record, hrecord, -⟩ := h.accounts.recorded input'
        (mem_mutations.mpr ⟨revision', hanswered'⟩)
      have hmissing : w.db.effects.records.get input.key = none := hmutates.missing
      rw [hcall.effect_eq hmutation, hmissing] at hrecord
      cases hrecord

/-- The runs in which no call mutates its resource under a used request id. -/
def World.FreshRun (env : Env) : World → List Event → World → Prop :=
  Trace (fun w events w' => World.Step env w events w' ∧ ¬ Reuses w events)

theorem World.FreshRun.holds {env : Env} {now : Int} {trace : List Event} {w : World}
    (h : World.FreshRun env (World.start now) trace w) : LedgerHolds trace w := by
  refine Trace.invariant (I := LedgerHolds) h ?_ (fun _ _ _ _ hw hs => hw.step hs.1 hs.2)
  exact ⟨⟨List.nodup_nil, fun _ hin => (nomatch hin), fun _ => rfl, fun _ hin => (nomatch hin), .nil⟩,
    fun _ _ hanswered => (nomatch hanswered), fun _ hrow => (nomatch hrow)⟩

/-- In every state that such a run reaches the ledger tells what happened, and after the next step
    it does exactly when that step reuses no request id either. -/
theorem call_ledger_tells {env : Env} {now : Int} {trace : List Event} {w : World}
    (h : World.FreshRun env (World.start now) trace w) :
    LedgerTells trace w.db ∧ ∀ events w', World.Step env w events w' →
      (LedgerTells (trace ++ events) w'.db ↔ ¬ Reuses w events) :=
  ⟨h.holds.tells, fun _ _ hs => ⟨fun htells hreuses => h.holds.not_tells hs hreuses htells,
    fun hfresh => (h.holds.step hs hfresh).tells⟩⟩

theorem World.Step.calls_subset {env : Env} {w w' : World} {events : List Event}
    (h : World.Step env w events w') : w.db.effects.calls.rows ⊆ w'.db.effects.calls.rows := by
  have hmove := h.callMove
  generalize effectTrace events = shown at hmove
  cases hmove with
  | same _ _ hcalls => rw [hcalls]; exact List.Subset.refl _
  | answered input reply receipt hcalls =>
      intro row hrow
      rw [hcalls]
      exact Table.mem_of_get (get_withCall_of_get (Table.get_of_mem hrow) _)

theorem not_reuses_of_empty {w : World} {events : List Event} (h : w.db.effects.calls.rows = []) :
    ¬ Reuses w events := by
  rintro ⟨input, -, -, -, hused⟩
  refine hused (Option.eq_none_iff_forall_ne_some.mpr (fun row hrow => ?_))
  have hmem := Table.mem_of_get hrow
  rw [h] at hmem
  cases hmem

/-- No request id is used before a call is on the ledger. -/
theorem World.Run.fresh {env : Env} {w w' : World} {trace : List Event} (h : World.Run env w trace w')
    (hempty : w'.db.effects.calls.rows = []) : World.FreshRun env w trace w' := by
  induction h with
  | refl => exact .refl
  | tail _ hs ih =>
      have hbefore := List.subset_nil.mp (hempty ▸ hs.calls_subset)
      exact (ih hbefore).tail ⟨hs, not_reuses_of_empty hbefore⟩

theorem call_ledger_tells_first :
    ∃ trace w, World.FreshRun .plain (World.start 0) trace w ∧
      (mutations trace).map EffectApplyInput.requestID = ["first"] ∧ LedgerTells trace w.db ∧
      ∀ events w', World.Step .plain w events w' →
        (LedgerTells (trace ++ events) w'.db ↔ ¬ Reuses w events) := by
  have hrun : (World.moves? .plain 0 (approvedScript ++ ([.check 0 (soloEffect "first" 1), .next 0] : List Move))
      (World.start 0)).any (fun r => r.2.db.effects.calls.rows.isEmpty &&
        (r.2.move? .plain (.drawn 8) (.next 0)).any (fun r' =>
          (mutations (r.1 ++ r'.1)).map EffectApplyInput.requestID = ["first"])) = true := by
    rw [moves?_approved, soloEffect_eq]
    decide +kernel
  obtain ⟨⟨trace, w⟩, hmoves, hshown⟩ := (Option.any_eq_true _ _).mp hrun
  simp only [Bool.and_eq_true, List.isEmpty_iff] at hshown
  obtain ⟨⟨events, w'⟩, hmove, hmutated⟩ := (Option.any_eq_true _ _).mp hshown.2
  have hfresh : World.FreshRun .plain (World.start 0) (trace ++ events) w' :=
    ((World.run_of_moves? hmoves).fresh hshown.1).tail
      ⟨World.step_of_move? hmove, not_reuses_of_empty hshown.1⟩
  exact ⟨_, w', hfresh, of_decide_eq_true hmutated, call_ledger_tells hfresh⟩

/-- The proposal to write the resource once more. -/
def nextProposal : String :=
  Sha256.hexSum ("r" ++ "\x00" ++ Sha256.hexSum "{}" ++ "\x00" ++ "1")

/-- It is approved for the effect `next`. -/
def nextApproval : List Move := [
  .call (.createApprovalIntent ⟨soloLease, "w", "a", 0, 3, "r", .json (.obj []), "1", 10,
    "scheduler"⟩),
  .call (.recordApprovalDecision ⟨uuidOf 4 6, "approver", nextProposal, .approved, ""⟩),
  .call (.applyApproval ⟨soloLease, "w", "a", 0, uuidOf 4 6, "next", 4, "scheduler"⟩)]

def nextEffect (requestID : String) : EffectApplyInput :=
  { soloEffect requestID 1 with
    logicalEffectKey := "next"
    grantScopeHash := grantScopeHash nextProposal "1" "next" "r"
    expectedResourceRevision := "1"
    intentID := uuidOf 4 6
    grantToken := uuidOf 5 8 }

theorem nextProposal_eq :
    nextProposal = "a98518c1218b497ea768fe188ca4d88baae44ac21b1d20452d37fd6b28a2ddf7" := by
  rw [nextProposal, hexSum_empty]
  decide +kernel

theorem nextScope_eq : grantScopeHash nextProposal "1" "next" "r" =
    "400ad4afe6b8c484a06ccbbdca45d281e31b92b09b983038df0f769649835fba" := by
  rw [nextProposal_eq]
  decide +kernel

theorem nextEffect_eq (requestID : String) : nextEffect requestID =
    { grantedEffect requestID 1 with
      logicalEffectKey := "next"
      grantScopeHash := "400ad4afe6b8c484a06ccbbdca45d281e31b92b09b983038df0f769649835fba"
      expectedResourceRevision := "1"
      intentID := uuidOf 4 6
      grantToken := uuidOf 5 8 } := by
  rw [nextEffect, soloEffect_eq, nextScope_eq]

/-- The call for `next` comes too early, and is retried with its request id. -/
def retriedScript : List Move := approvedScript ++ nextApproval ++ ([
  .check 0 (nextEffect "request"), .next 0, .next 0,
  .check 0 (soloEffect "first" 1), .next 0, .next 0, .next 0,
  .check 0 (nextEffect "request"), .next 0, .next 0] : List Move)

/-- The mutation has committed, and its call is on the ledger as rejected. -/
theorem call_ledger_rejected :
    ∃ trace w, World.Run .plain (World.start 0) trace w ∧
      (mutations trace).map EffectApplyInput.requestID = ["first", "request"] ∧
      (w.db.effects.calls.get ⟨"w", "request"⟩).map (·.outcome) = some .rejected ∧
      ¬ LedgerTells trace w.db := by
  have hrun : (World.moves? .plain 0 retriedScript (World.start 0)).any (fun r =>
      decide ((mutations r.1).map EffectApplyInput.requestID = ["first", "request"]) &&
      decide ((mutations r.1).map EffectApplyInput.logicalEffectKey = ["key", "next"]) &&
      decide (r.2.db.effects.calls.rows.map (fun c => (c.logicalEffectKey, c.outcome)) =
        [("next", .rejected), ("key", .applied)]) &&
      decide ((r.2.db.effects.calls.get ⟨"w", "request"⟩).map (·.outcome) = some .rejected)) = true := by
    rw [retriedScript, List.append_assoc, moves?_approved, nextEffect_eq, nextApproval, nextProposal_eq,
      soloEffect_eq]
    decide +kernel
  obtain ⟨⟨trace, w⟩, hmoves, hshown⟩ := (Option.any_eq_true _ _).mp hrun
  simp only [Bool.and_eq_true, decide_eq_true_eq] at hshown
  obtain ⟨⟨⟨hrequests, hkeys⟩, hrows⟩, hrejected⟩ := hshown
  refine ⟨trace, w, World.run_of_moves? hmoves, hrequests, hrejected, fun htells => ?_⟩
  -- the second mutation
  obtain ⟨input, hmutated, hkey⟩ : ∃ input ∈ mutations trace, input.logicalEffectKey = "next" :=
    List.mem_map.mp (by rw [hkeys]; decide)
  obtain ⟨revision, hanswered⟩ := mem_mutations.mp hmutated
  obtain ⟨row, ⟨hrow, hmutation⟩, -⟩ := htells.mutations input revision hanswered
  have hshown : (row.logicalEffectKey, row.outcome) ∈ [("next", CallOutcome.rejected), ("key", .applied)] :=
    hrows ▸ List.mem_map_of_mem hrow
  rw [show row.logicalEffectKey = "next" from (congrArg EffectKey.logicalEffectKey hmutation.effect).trans hkey,
    hmutation.outcome] at hshown
  exact absurd hshown (by decide)

end DurableEngine.Services
