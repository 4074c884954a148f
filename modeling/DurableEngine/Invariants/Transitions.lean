/-
  DurableEngine.Invariants.Transitions

  The store's moves against the checker's table.

  Owner transitions and graph advancements are checked by the store's own
  table, which is contained in the checker's.  The other operations compute
  the pair themselves, and two of them leave the table: a timeout that asks
  for reconciliation, when a sibling branch has moved the workflow on, and a
  consumed result that ends a workflow which is not runnable.
-/

import DurableEngine.Invariants.Checker
import DurableEngine.State.History

namespace DurableEngine.Invariants

open Lib State

/-- The node has no retry left, by its policy or the default one. -/
def retriesExhausted (db : DB) (k : NodeKey) : Bool :=
  ((ensureRetryPolicyTx db k).retryPolicies.get k).any (·.exhausted db.now)

/-- The timeout asks for the reconciliation of an effect while the workflow does not wait for an
    activity. -/
def timeoutOffTable (input : TimeoutInput) (db : DB) : Prop :=
  ∃ w a, db.workflows.get input.workflowID = some w ∧ db.attempts.get input.key = some a ∧
    a.state = .claimed ∧ a.effectClass = .nonCooperating ∧
    w.state ≠ .waitingActivity ∧ w.state ≠ .reconciliationRequired

/-- The result succeeds a workflow that is not runnable, or fails one that waits for a timer. -/
def consumeOffTable (input : ConsumeResultInput) (db : DB) : Prop :=
  ∃ w a, db.workflows.get input.workflowID = some w ∧
    db.attempts.get ⟨input.key, input.attemptNumber⟩ = some a ∧
    (w.state ≠ .runnable ∧ a.state = .succeeded ∧ input.newWorkflowState = .succeeded ∨
      w.state = .waitingTimer ∧ (input.newWorkflowState = .failed ∨
        a.state = .failedRetryable ∧ retriesExhausted db input.key = true))

/-- The operation would move its workflow in a way the checker's table does not list. -/
def offTable (α : Type) (op : Op α) (db : DB) : Prop :=
  match op with
  | .timeoutAttempt input => timeoutOffTable input db
  | .consumeResult input => consumeOffTable input db
  | _ => False

-- ============================================================================
-- The two tables
-- ============================================================================

theorem allowed_of_legal {s t : WorkflowState} (h : s.legalTransition t = true) :
    allowedTransition s.text t.text = true := by
  cases s <;> cases t <;> first | rfl | cases h

/-- A workflow that has not ended may stay where it is, or be canceled. -/
theorem allowed_of_live {s : WorkflowState} (h : s.isTerminal = false) :
    allowedTransition s.text s.text = true ∧
      allowedTransition s.text WorkflowState.canceled.text = true := by
  cases s <;> first | exact ⟨rfl, rfl⟩ | cases h

theorem allowed_reconciliation_iff {s : WorkflowState} :
    allowedTransition s.text WorkflowState.reconciliationRequired.text = true ↔
      s = .waitingActivity ∨ s = .reconciliationRequired := by
  cases s <;> decide

-- ============================================================================
-- Consumed results
-- ============================================================================

/-- Where a consumed result leads: the state the caller names, or `FAILED` once a retryable
    failure has used up its retries. -/
theorem spendRetry_state {db db₁ : DB} {input : ConsumeResultInput} {state : AttemptState}
    {newState : WorkflowState} {retryAfter : Option Int}
    (h : spendRetry db input state = .ok ((newState, retryAfter), db₁)) :
    newState = if state = .failedRetryable ∧ retriesExhausted db input.key = true then .failed
      else input.newWorkflowState := by
  unfold spendRetry at h
  split at h
  · rename_i hstate
    simp only [bind_eq_ok, retryPolicyTx, getOr_eq_ok, pure_eq_ok] at h
    obtain ⟨_, ⟨policy, hpolicy, rfl⟩, h⟩ := h
    have hnow : (ensureRetryPolicyTx db input.key).now = db.now := by
      obtain ⟨policies, heq, -⟩ := ensureRetryPolicyTx_eq db input.key
      rw [heq]
    have hexhausted : retriesExhausted db input.key = policy.exhausted db.now := by
      rw [retriesExhausted, hpolicy, Option.any_some]
    simp only [hnow] at h
    rw [hexhausted, hstate]
    split at h <;> rename_i hc <;> cases h
    · rw [if_pos ⟨rfl, hc⟩]
    · rw [if_neg (fun hboth => hc hboth.2)]
  · rename_i hstate
    cases h
    rw [if_neg (fun hboth => hstate hboth.1)]

/-- The outcomes a result can have, with the states each may lead the workflow to. -/
theorem consumedNodeState_cases {state : AttemptState} {newState nodeState : WorkflowState}
    {retryAfter : Option Int} (h : consumedNodeState state newState retryAfter = .ok nodeState) :
    (state = .succeeded ∧ (newState = .runnable ∨ newState = .succeeded)) ∨
      (state = .failedRetryable ∧ (newState = .failed ∨ newState = .waitingTimer)) ∨
      (state = .failedFinal ∧ newState = .failed) := by
  cases state with
  | succeeded =>
      simp only [consumedNodeState] at h
      split at h
      · cases h
      · rename_i hc
        exact .inl ⟨rfl, by by_contra hne; exact hc (not_or.mp hne)⟩
  | failedRetryable =>
      simp only [consumedNodeState] at h
      split at h
      · rename_i hc
        exact .inr (.inl ⟨rfl, .inl hc⟩)
      · split at h
        · cases h
        · rename_i hc
          exact .inr (.inl ⟨rfl, .inr (not_not.mp (not_or.mp hc).1)⟩)
  | failedFinal =>
      simp only [consumedNodeState] at h
      split at h
      · cases h
      · rename_i hc
        exact .inr (.inr ⟨rfl, not_not.mp hc⟩)
  | created | dispatchable | claimed | timedOut | replaced | outcomeUnknown | canceled => cases h

theorem consumed_allowed_iff {db db' : DB} {input : ConsumeResultInput} {w : Workflow}
    {n : NodeInstance} {a : Attempt} {result : Jsonb} {newState nodeState : WorkflowState}
    {retryAfter : Option Int}
    (c : Change.Consumed db input w n a result newState nodeState retryAfter db')
    (hget : db.workflows.get w.workflowID = some w) :
    allowedTransition w.state.text newState.text = true ↔ ¬ consumeOffTable input db := by
  rw [c.workflow] at hget
  have hoff : consumeOffTable input db ↔
      (w.state ≠ .runnable ∧ a.state = .succeeded ∧ input.newWorkflowState = .succeeded ∨
        w.state = .waitingTimer ∧ (input.newWorkflowState = .failed ∨
          a.state = .failedRetryable ∧ retriesExhausted db input.key = true)) := by
    constructor
    · rintro ⟨w', a', hw', ha', hcond⟩
      rw [hget, Option.some.injEq] at hw'
      rw [c.attempt, Option.some.injEq] at ha'
      rw [hw', ha']
      exact hcond
    · intro hcond
      exact ⟨w, a, hget, c.attempt, hcond⟩
  obtain ⟨db₁, hspent, -⟩ := c.spent
  have hnew := spendRetry_state hspent
  rw [hoff]
  generalize retriesExhausted db input.key = exhausted at hnew ⊢
  rcases consumedNodeState_cases c.outcome with ⟨hs, ht⟩ | ⟨hs, ht⟩ | ⟨hs, ht⟩
  · -- a success leads where the caller says
    rw [hs, if_neg (fun hboth => nomatch hboth.1)] at hnew
    rw [hs, ← hnew]
    rcases ht with ht | ht <;> rcases c.accepts with hw | hw | hw <;> rw [ht, hw] <;>
      cases exhausted <;> decide
  · rw [hs] at hnew ⊢
    cases exhausted with
    | true =>
        rw [if_pos ⟨rfl, rfl⟩] at hnew
        rcases c.accepts with hw | hw | hw <;> rw [hnew, hw] <;>
          cases input.newWorkflowState <;> decide
    | false =>
        rw [if_neg (fun hboth => nomatch hboth.2)] at hnew
        rw [← hnew]
        rcases ht with ht | ht <;> rcases c.accepts with hw | hw | hw <;> rw [ht, hw] <;> decide
  · rw [hs, if_neg (fun hboth => nomatch hboth.1)] at hnew
    rw [hs, ← hnew]
    rcases c.accepts with hw | hw | hw <;> rw [ht, hw] <;> cases exhausted <;> decide

-- ============================================================================
-- Committed rows
-- ============================================================================

/-- The history row a move writes is the only new one. -/
theorem row_eq_of_moves {db db' : DB} {w : Workflow} {newState : WorkflowState}
    {row row' : TransitionRecord} (h : Moves db db' w newState row)
    (hnone : db.history.get row'.key = none) (hsome : db'.history.get row'.key = some row') :
    row' = row := by
  rw [Table.get_insert h.history] at hsome
  split at hsome
  · exact (Option.some.inj hsome).symm
  · rw [hnone] at hsome
    cases hsome

theorem not_offTable_of_cancels {db : DB} {α : Type} {op : Op α} {w : Workflow}
    (h : op.cancels db w) : ¬ offTable α op db := by
  cases op <;> first | exact fun hoff => hoff | exact h.elim

/-- A committed history row follows the checker's table unless the operation is one of the two
    that leave it. -/
theorem allowed_iff_of_change {db db' : DB} {α : Type} {op : Op α} (h : Change db op db')
    {row : TransitionRecord} {s : WorkflowState} (hnone : db.history.get row.key = none)
    (hsome : db'.history.get row.key = some row) (hold : row.oldState = some s) :
    allowedTransition s.text row.newState.text = true ↔ ¬ offTable α op db := by
  have hmoved : ∀ {w : Workflow} {newState : WorkflowState} {row' : TransitionRecord},
      Moves db db' w newState row' → s = w.state ∧ row.newState = newState := by
    intro w newState row' hm
    rw [row_eq_of_moves hm hnone hsome] at hold ⊢
    exact ⟨Option.some.inj (hold.symm.trans hm.old), hm.new⟩
  have hsame : db'.history = db.history → False := by
    intro heq
    rw [heq, hnone] at hsome
    cases hsome
  cases h with
  | idle rows => exact (hsame rows.history).elim
  | claimed c | extended c => exact (hsame c.history).elim
  | created c =>
      rw [Table.get_insert c.history] at hsome
      split at hsome
      · rw [← Option.some.inj hsome, c.states.1] at hold
        cases hold
      · rw [hnone] at hsome
        cases hsome
  | owner c =>
      obtain ⟨rfl, hnew⟩ := hmoved c.moves
      rw [hnew]
      exact ⟨fun _ hoff => hoff, fun _ => allowed_of_legal c.legal⟩
  | recorded c =>
      obtain ⟨rfl, hnew⟩ := hmoved c.moves
      rw [hnew]
      exact ⟨fun _ hoff => hoff, fun _ => (allowed_of_live c.moves.live).1⟩
  | consumed c =>
      obtain ⟨row', hm, -⟩ := c.advances.moves
      obtain ⟨rfl, hnew⟩ := hmoved hm
      rw [hnew]
      exact consumed_allowed_iff c hm.get
  | attemptCreated c =>
      obtain ⟨row', hm, -⟩ := c.advances.moves
      obtain ⟨rfl, hnew⟩ := hmoved hm
      rw [hnew]
      exact ⟨fun _ hoff => hoff, fun _ => (allowed_of_live hm.live).1⟩
  | redispatched c =>
      obtain ⟨row', hm, -⟩ := c.advances.moves
      obtain ⟨rfl, hnew⟩ := hmoved hm
      rw [hnew]
      refine ⟨fun _ => ?_, fun _ => (allowed_of_live hm.live).1⟩
      rintro ⟨_, a, -, ha, hstate, -⟩
      rw [c.attempt, Option.some.injEq] at ha
      rw [← ha, c.dispatchable.2] at hstate
      cases hstate
  | replaced c =>
      obtain ⟨row', hm, -⟩ := c.advances.moves
      obtain ⟨rfl, hnew⟩ := hmoved hm
      rw [hnew]
      refine ⟨fun _ => ?_, fun _ => (allowed_of_live hm.live).1⟩
      rintro ⟨_, a, -, ha, -, hclass, -⟩
      rw [c.attempt, Option.some.injEq] at ha
      exact c.effectClass (ha ▸ hclass)
  | @expired _ input w a c =>
      obtain ⟨row', hm, -⟩ := c.advances.moves
      obtain ⟨rfl, hnew⟩ := hmoved hm
      rw [hnew, allowed_reconciliation_iff]
      constructor
      · rintro hstate ⟨w', a', hw', -, -, -, hwaiting, hrequired⟩
        rw [← c.workflow, hm.get, Option.some.injEq] at hw'
        rw [← hw'] at hwaiting hrequired
        exact hstate.elim hwaiting hrequired
      · intro hoff
        by_contra hstate
        obtain ⟨hwaiting, hrequired⟩ := not_or.mp hstate
        exact hoff ⟨w, a, c.workflow ▸ hm.get, c.attempt, c.isClaimed.2, c.effectClass, hwaiting,
          hrequired⟩
  | timerScheduled c =>
      obtain ⟨row', hm, -⟩ := c.advances.moves
      obtain ⟨rfl, hnew⟩ := hmoved hm
      rw [hnew, c.runnable]
      exact ⟨fun _ hoff => hoff, fun _ => by decide⟩
  | canceled c hcancels =>
      obtain ⟨row', hm, -⟩ := c.advances.moves
      obtain ⟨rfl, hnew⟩ := hmoved hm
      rw [hnew]
      exact ⟨fun _ => not_offTable_of_cancels hcancels, fun _ => (allowed_of_live hm.live).2⟩
  | advanced c =>
      obtain ⟨row', hm, -⟩ := c.advances.moves
      obtain ⟨rfl, hnew⟩ := hmoved hm
      rw [hnew]
      exact ⟨fun _ hoff => hoff, fun _ => allowed_of_legal c.legal⟩
  | approvalRequested c =>
      obtain ⟨row', hm, -⟩ := c.advances.moves
      obtain ⟨rfl, hnew⟩ := hmoved hm
      rw [hnew, c.runnable]
      exact ⟨fun _ hoff => hoff, fun _ => by decide⟩
  | approvalGranted c | approvalRejected c =>
      obtain ⟨row', hm, -⟩ := c.advances.moves
      obtain ⟨rfl, hnew⟩ := hmoved hm
      rw [hnew, c.waiting]
      exact ⟨fun _ hoff => hoff, fun _ => by decide⟩

/-- A committed row follows the checker's table exactly when its operation is not one of the two
    that leave it; a run without them writes only rows the checker allows. -/
theorem transitions_allowed {env : Env} :
    (∀ {α : Type} {amb : Ambient} {op : Op α} {db db' : DB} {r : α} {row : TransitionRecord}
      {s : WorkflowState}, Reachable env db → op.run env amb db = .ok (r, db') →
      db.history.get row.key = none → db'.history.get row.key = some row →
      row.oldState = some s →
      (allowedTransition s.text row.newState.text = true ↔ ¬ offTable α op db)) ∧
    ∀ {db : DB}, ReachableIf env (fun α op db => ¬ offTable α op db) db →
      ∀ row s, db.history.get row.key = some row → row.oldState = some s →
        allowedTransition s.text row.newState.text = true := by
  refine ⟨fun _ hrun hnone hsome hold =>
    allowed_iff_of_change (Op.run_commit hrun).change hnone hsome hold, fun h => ?_⟩
  refine h.induction (I := fun db => ∀ row s, db.history.get row.key = some row →
    row.oldState = some s → allowedTransition s.text row.newState.text = true)
    (fun _ _ _ hrow => nomatch hrow) ?_
  intro db db' _ hi hs row s hrow hold
  cases hs with
  | tick d => exact hi row s hrow hold
  | commit amb op r hrun hon =>
      have hchange := (Op.run_commit hrun).change
      cases hbefore : db.history.get row.key with
      | none => exact (allowed_iff_of_change hchange hbefore hrow hold).mpr hon
      | some row' =>
          -- committed rows stay
          rw [hchange.history_persists hbefore, Option.some.injEq] at hrow
          rw [hrow] at hbefore
          exact hi row s hbefore hold

/-- A run without timeouts and consumed results. -/
def consumesNothing (α : Type) (op : Op α) (_ : DB) : Bool :=
  match op with
  | .timeoutAttempt _ | .consumeResult _ => false
  | _ => true

theorem not_offTable_of_consumesNothing (α : Type) (op : Op α) (db : DB)
    (h : consumesNothing α op db = true) : ¬ offTable α op db := by
  cases op <;> first | exact fun hoff => hoff | cases h

/-- The single activity has answered, and its result is consumed. -/
def soloConsume : ConsumeResultInput := ⟨soloLease, "w", "a", 0, 1, 4, .runnable, none, "scheduler"⟩

/-- The result of the single activity is consumed; every row is allowed. -/
theorem transitions_allowed_solo :
    ∃ db db' row, (∃ r, consumeResult .plain (.drawn 7) soloConsume db = .ok (r, db')) ∧
      db'.history.get ⟨"w", 5⟩ = some row ∧ row.oldState = some .waitingActivity ∧
      (allowedTransition WorkflowState.waitingActivity.text row.newState.text = true ↔
        ¬ offTable _ (.consumeResult soloConsume) db) ∧
      ∀ row s, db.history.get row.key = some row → row.oldState = some s →
        allowedTransition s.text row.newState.text = true := by
  have hrun : (runScriptIf? .plain consumesNothing 0 (soloScript.take 7) (DB.init 0)).any
      (fun db => (db.history.get ⟨"w", 5⟩).isNone &&
        ((consumeResult .plain (.drawn 7) soloConsume db).toOption.any (fun r =>
          (r.2.history.get ⟨"w", 5⟩).any (fun row => row.oldState = some .waitingActivity)))) =
      true := by decide +kernel
  obtain ⟨db, hdb, hcheck⟩ := (Option.any_eq_true _ _).mp hrun
  rw [Bool.and_eq_true, Option.isNone_iff_eq_none] at hcheck
  obtain ⟨⟨r, db'⟩, hconsume, hrow⟩ := (Option.any_eq_true _ _).mp hcheck.2
  obtain ⟨row, hget, hold⟩ := (Option.any_eq_true _ _).mp hrow
  have hreach : ReachableIf .plain (fun α op db => ¬ offTable α op db) db :=
    ⟨0, run_of_runScriptIf? not_offTable_of_consumesNothing hdb⟩
  have hcommit := toOption_eq_some hconsume
  have hkey : row.key = ⟨"w", 5⟩ := Table.key_of_get hget
  have hop : (Op.consumeResult soloConsume).run .plain (.drawn 7) db = .ok (r, db') := hcommit
  refine ⟨db, db', row, ⟨r, hcommit⟩, hget, by simpa using hold, ?_, transitions_allowed.2 hreach⟩
  exact transitions_allowed.1 hreach.reachable hop (by rw [hkey]; exact hcheck.1)
    (by rw [hkey]; exact hget) (by simpa using hold)

-- ============================================================================
-- A timeout beside a finished sibling
-- ============================================================================

/-- The fork definition with a branch whose effect cannot be repeated. -/
def effectForkDefinition : DefinitionInput := { forkDefinition with
  effectClasses := .json
    (.obj [("pure.add", .str "PURE_ACTIVITY"), ("pure.echo", .str "NON_COOPERATING_EFFECT")]) }

/-- Both branches are claimed; the result of the first one moves the workflow on. -/
def effectForkScript : List Action :=
  .call (.createDefinition effectForkDefinition) :: forkScript.tail ++ ([
  .call (.applyOwnerTransition ⟨soloLease, "w", 2, .waitingActivity, "scheduler",
    "ACTIVITY_SCHEDULED", "pure.add", 0, some .waitingActivity, none⟩),
  .call (.applyOwnerTransition ⟨soloLease, "w", 3, .waitingActivity, "scheduler",
    "ACTIVITY_SCHEDULED", "pure.echo", 0, some .waitingActivity, none⟩),
  .call (.createAttempt ⟨soloLease, "w", "pure.add", 0, 4, .pure, "", "", 0, "scheduler"⟩),
  .call (.createAttempt ⟨soloLease, "w", "pure.echo", 0, 5, .nonCooperating, "", "", 0,
    "scheduler"⟩),
  .call (.claimAttempt ⟨1, "w", "pure.add", 0, "worker", "r1", 0⟩),
  .call (.claimAttempt ⟨1, "w", "pure.echo", 0, "worker", "r2", 10⟩),
  .call (.recordResultReceipt ⟨"w", "pure.add", 0, 1, uuidOf 3 8, .succeeded, .json (.obj []), "",
    ""⟩),
  .call (.consumeResult ⟨soloLease, "w", "pure.add", 0, 1, 7, .runnable, none, "scheduler"⟩),
  .tick 20] : List Action)

/-- The claimed effect of the second branch times out while the workflow is runnable: the store
    commits a transition the checker does not allow. -/
theorem timeout_leaves_table :
    ∃ db db' row, Reachable .plain db ∧
      (∃ amb r, timeoutAttempt .plain amb ⟨soloLease, "w", "pure.echo", 0, 1, 8, "scheduler", 0⟩ db =
        .ok (r, db')) ∧
      db.history.get row.key = none ∧ db'.history.get row.key = some row ∧
      row.oldState = some .runnable ∧ row.newState = .reconciliationRequired ∧
      allowedTransition WorkflowState.runnable.text row.newState.text = false := by
  have hrun : (runScript? .plain 0 effectForkScript (DB.init 0)).any (fun db =>
      (db.history.get ⟨"w", 9⟩).isNone &&
        ((timeoutAttempt .plain (.drawn 13) ⟨soloLease, "w", "pure.echo", 0, 1, 8, "scheduler", 0⟩
          db).toOption.any (fun r => (r.2.history.get ⟨"w", 9⟩).any (fun row =>
            row.oldState = some .runnable && row.newState = .reconciliationRequired)))) =
      true := by decide +kernel
  obtain ⟨db, hdb, hcheck⟩ := (Option.any_eq_true _ _).mp hrun
  rw [Bool.and_eq_true, Option.isNone_iff_eq_none] at hcheck
  obtain ⟨⟨r, db'⟩, htimeout, hrow⟩ := (Option.any_eq_true _ _).mp hcheck.2
  obtain ⟨row, hget, hstates⟩ := (Option.any_eq_true _ _).mp hrow
  simp only [Bool.and_eq_true, decide_eq_true_eq] at hstates
  have hkey : row.key = ⟨"w", 9⟩ := Table.key_of_get hget
  refine ⟨db, db', row, reachable_of_runScript? hdb, ⟨.drawn 13, r, toOption_eq_some htimeout⟩,
    by rw [hkey]; exact hcheck.1, by rw [hkey]; exact hget, hstates.1, hstates.2,
    by rw [hstates.2]; decide⟩

end DurableEngine.Invariants
