/-
  DurableEngine.Engine.Consumption

  When a recorded result can be consumed.

  A result that is no failure for good moves its own node only, and nothing
  that happens in the other branches keeps it from being consumed.  A failure
  for good has to fail the workflow, and `ConsumeResult` does not fail a
  workflow with a live node besides the failed one.  The join of a fan-out is
  such a node from the start, so in a branch a failure for good is stuck: the
  next pass offers it again and is refused again.
-/

import DurableEngine.Engine.Branches
import DurableEngine.State.Admission

namespace DurableEngine

open Lib State Engine

namespace State

-- ============================================================================
-- Retries
-- ============================================================================

theorem retryPolicyTx_reads (db : DB) (k : NodeKey) :
    ∃ policies, retryPolicyTx db k = .ok (db.retryPolicyOf k, { db with retryPolicies := policies }) := by
  simp only [retryPolicyTx, DB.retryPolicyOf, ensureRetryPolicyTx]
  cases hins : db.retryPolicies.insert? ⟨k, defaultRetryBudget, 0, none, 1⟩ with
  | none =>
      obtain ⟨policy, hget⟩ := Table.get_of_insert?_none hins
      simp only [hget, getOr_some, ok_bind]
      exact ⟨db.retryPolicies, rfl⟩
  | some policies =>
      have hnone : db.retryPolicies.get k = none := (Table.insert?_eq_some_iff.mp hins).1
      have hself := Table.get_insert_self hins
      simp only at hself
      simp only [hnone, hself, getOr_some, ok_bind]
      exact ⟨policies, rfl⟩

/-- The attempt has failed for good: finally, or with no retry left. -/
def Attempt.failedForGood (a : Attempt) (db : DB) : Bool :=
  a.state = .failedFinal ||
    (a.state = .failedRetryable && (db.retryPolicyOf a.key.node).exhausted db.now)

/-- The workflow state and delay the attempt's result leads to. -/
def ConsumeResultInput.verdict (input : ConsumeResultInput) (a : Attempt) (db : DB) :
    WorkflowState × Option Int :=
  if a.state = .failedRetryable ∧ (db.retryPolicyOf a.key.node).exhausted db.now = true then
    (.failed, none)
  else (input.newWorkflowState, input.retryAfter)

theorem spendRetry_verdict {db : DB} {input : ConsumeResultInput} {a : Attempt}
    (hkey : a.key.node = input.key) :
    ∃ policies, spendRetry db input a.state =
      .ok (input.verdict a db, { db with retryPolicies := policies }) := by
  unfold spendRetry ConsumeResultInput.verdict
  rw [hkey]
  by_cases hretry : a.state = .failedRetryable
  · obtain ⟨policies, hread⟩ := retryPolicyTx_reads db input.key
    simp only [hretry, hread, if_true, ok_bind, true_and]
    split
    · exact ⟨policies, rfl⟩
    · exact ⟨_, rfl⟩
  · simp only [hretry, if_false, false_and]
    exact ⟨db.retryPolicies, rfl⟩

-- ============================================================================
-- ConsumeResult
-- ============================================================================

/-- The owner of the workflow `w` offers the recorded result of the attempt `a` at the workflow's
    revision. -/
structure ConsumeResultInput.Offers (input : ConsumeResultInput) (db : DB) (w : Workflow)
    (n : NodeInstance) (a : Attempt) (result : Jsonb) : Prop where
  owned : Owned db input.lease input.workflowID w
  revision : w.revision = input.expectedRevision
  accepts : w.state = .runnable ∨ w.state = .waitingActivity ∨ w.state = .waitingTimer
  node : db.nodes.get input.key = some n
  current : n.currentAttempt = some input.attemptNumber
  attempt : db.attempts.get ⟨input.key, input.attemptNumber⟩ = some a
  settled : a.isCurrent = false
  recorded : a.state.isTerminal = true
  result : a.result = some result

/-- Nothing besides its checks keeps a transaction on the workflow from committing. -/
structure Provides (env : Env) (amb : Ambient) (db : DB) (w : Workflow) (k : NodeKey) : Prop where
  workflow : w.workflowID ≠ "" ∧ quotable env w.workflowID = true
  node : k.nodeID ≠ "" ∧ quotable env k.nodeID = true
  history : db.history.get ⟨w.workflowID, w.revision + 1⟩ = none
  slot : env.admission.enabled = true → isDur050Namespace w.namespace_ = true →
    w.state.isTerminal = false →
    db.admissionSlots.get w.workflowID = some ⟨w.workflowID, w.namespace_⟩
  fresh : amb.Fresh db

theorem Reachable.provides {env : Env} {db : DB} (h : Reachable env db) {amb : Ambient}
    (hfresh : amb.Fresh db) {id : String} {w : Workflow} (hw : db.workflows.get id = some w)
    {k : NodeKey} {n : NodeInstance} (hn : db.nodes.get k = some n)
    (hname : quotable env k.nodeID = true) : Provides env amb db w k := by
  have hid : w.workflowID = id := Table.key_of_get hw
  subst hid
  refine ⟨h.provided.workflow _ w hw, ⟨(h.provided.node k n hn).1, hname⟩, h.history_free hw, ?_, hfresh⟩
  intro henabled hgated hlive
  have hgates : env.gates w.namespace_ = true := by rw [Env.gates, henabled, hgated]; rfl
  exact (h.admissionBound hgates).slot hw rfl hlive

theorem insertRetryTimer_succeeds {amb : Ambient} {db : DB} {key : NodeKey} {state : AttemptState}
    {newState : WorkflowState} {dueAt : Option Int} {revision : Int}
    (hfree : db.timers.get amb.timerID = none) :
    Succeeds (fun db' => ∃ timers, db' = { db with timers := timers })
      (insertRetryTimer amb db key state newState dueAt revision) := by
  unfold insertRetryTimer
  split
  · rename_i due
    obtain ⟨timers, hins⟩ := Table.insert?_of_get_none
      (r := (⟨amb.timerID, key, due, .retryBackoff, none, revision⟩ : Timer)) hfree
    exact .found hins (.ok ⟨timers, rfl⟩)
  · exact .ok ⟨db.timers, rfl⟩

theorem quotable_attemptState (env : Env) (state : AttemptState) : quotable env state.text = true := by
  cases state <;> rfl

theorem consumeResult_succeeds {env : Env} {amb : Ambient} {input : ConsumeResultInput} {db : DB}
    {w : Workflow} {n : NodeInstance} {a : Attempt} {result : Jsonb}
    (h : input.Offers db w n a result) (hp : Provides env amb db w input.key)
    (hactor : input.actorID ≠ "") (hnumber : 0 < input.attemptNumber) {nodeState : WorkflowState}
    (hnode : consumedNodeState a.state (input.verdict a db).1 (input.verdict a db).2 = .ok nodeState)
    (hsiblings : (input.verdict a db).1.isTerminal = true → db.liveSiblings input.key = []) :
    Succeeds (fun _ => True) (consumeResult env amb input db) := by
  have hid := h.owned.workflowID
  obtain ⟨policies, hspend⟩ := @spendRetry_verdict db input a
    (congrArg AttemptKey.node (Table.key_of_get h.attempt))
  unfold consumeResult
  refine .unless ?_ ?_
  · rw [← hid]
    simp only [not_or]
    exact ⟨hp.workflow.1, hp.node.1, hactor, by omega⟩
  rw [← h.revision, lockOwnedWorkflow_of_owned h.owned]
  refine .unless ?_ (.found h.node (.unless (by simp [h.current]) (.found h.attempt
    (.unless (by simp [h.settled, h.recorded]) (.found h.result ?_)))))
  · rcases h.accepts with hs | hs | hs <;> simp [hs]
  rw [hspend]
  simp only [ok_bind, hnode]
  refine .unless ?_ ?_
  · rintro ⟨hend, hlive⟩
    exact hlive (congrArg List.length (hsiblings hend))
  refine .bind (releaseAdmissionSlotTx_succeeds ?_) ?_
  · rw [← hid]
    exact hp.slot
  rintro db₂ ⟨slots, rfl⟩
  refine .bind (insertHistory_succeeds hactor (by rw [← hid]; exact hp.history)) ?_
  rintro db₃ ⟨history, rfl⟩
  refine .bind (insertRetryTimer_succeeds hp.fresh.timer) ?_
  rintro db₄ ⟨timers, rfl⟩
  obtain ⟨document, hdoc⟩ := @sprintfJson_of_quotable env
    [("workflow_id", .quoted input.workflowID), ("node_id", .quoted input.nodeID),
      ("iteration", .int input.iteration), ("attempt_number", .int input.attemptNumber),
      ("attempt_state", .quoted a.state.text)] (by simp; decide) (by
        simp only [List.forall_mem_cons, Field.quotable, quotable_attemptState, List.not_mem_nil]
        rw [← hid]
        exact ⟨hp.workflow.2, hp.node.2, by simp⟩)
  refine .bind (insertOutbox_succeeds rfl hdoc hp.fresh.event) ?_
  rintro db₅ ⟨outbox, rfl⟩
  exact .ok trivial

/-- A committed consumption of a failure for good leaves no live sibling behind. -/
theorem consumeResult_siblings {env : Env} {amb : Ambient} {input : ConsumeResultInput}
    {db db' : DB} {r : ConsumeResult} {a : Attempt}
    (h : consumeResult env amb input db = .ok (r, db'))
    (ha : db.attempts.get ⟨input.key, input.attemptNumber⟩ = some a)
    (hend : (input.verdict a db).1.isTerminal = true) : db.liveSiblings input.key = [] := by
  simp only [consumeResult, bind_eq_ok, getOr_eq_ok, rejectIf_eq_ok, exists_const] at h
  obtain ⟨-, w, -, -, n, -, -, a', ha', -, result, -, ⟨⟨newState, retryAfter⟩, db₁⟩, hspend, nodeState,
    -, hsettled, -⟩ := h
  rw [ha, Option.some.injEq] at ha'
  subst ha'
  obtain ⟨policies, hverdict⟩ := @spendRetry_verdict db input a
    (congrArg AttemptKey.node (Table.key_of_get ha))
  rw [hspend, Except.ok.injEq] at hverdict
  have hstate := congrArg (fun v => v.1.1) hverdict
  have hdb := congrArg Prod.snd hverdict
  simp only at hstate hdb hsettled
  rw [hstate, hdb] at hsettled
  by_contra hlive
  exact hsettled ⟨hend, fun hzero => hlive (List.eq_nil_of_length_eq_zero hzero)⟩

end State

-- ============================================================================
-- The engine's call
-- ============================================================================

namespace Engine

/-- One store call. -/
def Call.exec (env : Env) (amb : Ambient) {β : Type} : Call β → DB → β × DB
  | .store op, db => op.exec env amb db

/-- The outcome of a program that nobody interferes with; `amb n` surrounds its `n`-th call. -/
def alone {α : Type} (env : Env) (amb : Nat → Ambient) (p : EngineM α) (db : DB) : Except Err α :=
  (p.run.eval (fun n _ => Call.exec env (amb n)) 0 db).1

variable (e : Engine)

theorem actor_ne : e.actor ≠ "" := by
  unfold actor
  split
  · decide
  · assumption

theorem alone_consumeRecordedResult {env : Env} {amb : Nat → Ambient} {db : DB} {key : NodeKey}
    {number : Int} {state : AttemptState} {retryAfter : Int} {lease : LeaseRef} {w : Workflow}
    (hw : db.workflows.get key.workflowID = some w) :
    alone env amb (e.consumeRecordedResult key number state retryAfter lease) db =
      (consumeResult env (amb 1) (e.consumeInput w key number state retryAfter lease) db).map
        (fun _ => ()) := by
  have hget : (Op.getWorkflow key.workflowID).exec env (amb 0) db = (.ok w, db) := by
    simp [Op.exec, Op.run, query, getWorkflow, hw]
  unfold alone consumeRecordedResult
  simp only [store, bind, ExceptT.bind, ExceptT.mk, ExceptT.run, Prog.bind, Prog.ofCall, Prog.eval,
    Call.exec, ExceptT.bindCont, hget]
  simp only [Op.exec, Op.run]
  cases consumeResult env (amb 1) (e.consumeInput w key number state retryAfter lease) db with
  | ok r => rfl
  | error err => rfl

variable (db : DB) (w : Workflow) (retryAfter : Int) (lease : LeaseRef) {a : Attempt}

theorem consumeInput_nodeState (hrec : a.state.isTerminal = true) :
    let input := e.consumeInput w a.key.node a.key.number a.state retryAfter lease
    ∃ nodeState, consumedNodeState a.state (input.verdict a db).1 (input.verdict a db).2 =
      .ok nodeState := by
  simp only [ConsumeResultInput.verdict, consumeInput]
  cases hstate : a.state with
  | succeeded | failedFinal => exact ⟨_, rfl⟩
  | failedRetryable =>
      simp only [if_true, true_and]
      split
      · exact ⟨_, rfl⟩
      · exact ⟨_, rfl⟩
  | _ =>
      rw [hstate] at hrec
      cases hrec

/-- Only a failure for good ends the workflow. -/
theorem consumeInput_ends (hrec : a.state.isTerminal = true) :
    let input := e.consumeInput w a.key.node a.key.number a.state retryAfter lease
    (input.verdict a db).1.isTerminal = a.failedForGood db := by
  simp only [ConsumeResultInput.verdict, consumeInput, Attempt.failedForGood]
  cases hstate : a.state with
  | succeeded | failedFinal => rfl
  | failedRetryable =>
      simp only [if_true, true_and]
      split
      · rename_i hover
        simp [hover, WorkflowState.isTerminal]
      · rename_i hleft
        simp [hleft, WorkflowState.isTerminal]
  | _ =>
      rw [hstate] at hrec
      cases hrec

end Engine

/-- The owner of a live workflow finds the recorded result of a node's current attempt. -/
structure Attempt.Recorded (a : Attempt) (db : DB) (lease : LeaseRef) (w : Workflow)
    (n : NodeInstance) : Prop where
  owned : Owned db lease a.key.node.workflowID w
  live : w.state = .runnable ∨ w.state = .waitingActivity ∨ w.state = .waitingTimer
  node : db.nodes.get a.key.node = some n
  pointed : n.currentAttempt = some a.key.number
  stored : db.attempts.get a.key = some a
  recorded : a.state = .succeeded ∨ a.state = .failedRetryable ∨ a.state = .failedFinal

/-- In every state of the system, the engine's consumption of a recorded result commits exactly
    when the result is no failure for good or the node has no live sibling. -/
theorem consumeRecordedResult_commits_iff {env : Env} {s : Sys} (h : Sys.Reachable env s)
    {lease : LeaseRef} {w : Workflow} {n : NodeInstance} {a : Attempt}
    (ha : Attempt.Recorded a s.db lease w n) (e : Engine) (retryAfter : Int) {amb : Nat → Ambient}
    (hfresh : ∀ i, (amb i).Fresh s.db) :
    alone env amb (e.consumeRecordedResult a.key.node a.key.number a.state retryAfter lease) s.db =
        .ok () ↔
      (a.failedForGood s.db = true → s.db.liveSiblings a.key.node = []) := by
  have hreach := (Sys.ReachableIf.store h).reachable
  have hrec : a.state.isTerminal = true := by
    rcases ha.recorded with hs | hs | hs <;> rw [hs] <;> rfl
  rw [alone_consumeRecordedResult e ha.owned.get,
    ← e.consumeInput_ends s.db w retryAfter lease hrec]
  constructor
  · intro hok hend
    cases hrun : consumeResult env (amb 1)
        (e.consumeInput w a.key.node a.key.number a.state retryAfter lease) s.db with
    | error err =>
        rw [hrun] at hok
        cases hok
    | ok r => exact consumeResult_siblings hrun ha.stored hend
  · intro hsiblings
    have hshape := hreach.attemptShape ha.stored
    have hcurrent : a.isCurrent = false := by
      by_contra hcur
      rcases hshape.current.mp (by simpa using hcur) with hs | hs <;>
        (rw [hs] at hrec; cases hrec)
    obtain ⟨result, hresult⟩ := Option.isSome_iff_exists.mp (hshape.result.trans hrec)
    obtain ⟨N, hN⟩ := hreach.generation a.key.node
    have hnumber := ((hN.numbers a.key.number).mp ⟨a, ha.stored⟩).1
    obtain ⟨nodeState, hnode⟩ := e.consumeInput_nodeState s.db w retryAfter lease hrec
    have hprovides : Provides env (amb 1) s.db w a.key.node :=
      hreach.provides (hfresh 1) ha.owned.get ha.node (hreach.provided.attempt _ a ha.stored)
    have hoffers : (e.consumeInput w a.key.node a.key.number a.state retryAfter lease).Offers
        s.db w n a result :=
      ⟨ha.owned, rfl, ha.live, ha.node, ha.pointed, ha.stored, hcurrent, hrec, hresult⟩
    obtain ⟨r, hrun, -⟩ :=
      consumeResult_succeeds hoffers hprovides e.actor_ne hnumber hnode hsiblings
    rw [hrun]
    rfl

/-- The worker of the first branch records a result, and an owner takes the lease. -/
def recordedBranchScript (state : AttemptState) : List Sys.Action := branchScript ++ ([
  .client (.recordResultReceipt ⟨"w", "pure.add", 0, 1, uuidOf 3 43, state, .json (.obj []), "", ""⟩),
  .client (.acquireLease 0 (uuidOf 8 0) 1000)] : List Sys.Action)

/-- The lease of that owner. -/
def branchLease : LeaseRef := ⟨0, uuidOf 8 0, 2⟩

/-- The first branch has a recorded result in the state, its workflow waits, and the owner holds
    the lease. -/
def firstRecorded (db : DB) (state : AttemptState) : Bool :=
  (db.attempts.get ⟨⟨"w", "pure.add", 0⟩, 1⟩).any (fun a => a.state = state && state.isTerminal) &&
    (db.nodes.get ⟨"w", "pure.add", 0⟩).any (fun n => n.currentAttempt = some 1) &&
    (db.workflows.get "w").any (fun w => w.state = .waitingActivity && w.partitionID = 0) &&
    (lockLease db branchLease).toOption.isSome

theorem firstRecorded_spec {db : DB} {state : AttemptState} (h : firstRecorded db state = true) :
    ∃ (a : Attempt) (w : Workflow) (n : NodeInstance), Attempt.Recorded a db branchLease w n ∧
      a.key = ⟨⟨"w", "pure.add", 0⟩, 1⟩ ∧ a.state = state := by
  simp only [firstRecorded, Bool.and_eq_true, Option.any_eq_true, decide_eq_true_eq] at h
  obtain ⟨⟨⟨⟨a, ha, hstate, hterm⟩, n, hn, hcur⟩, w, hw, hwait, hpart⟩, hlock⟩ := h
  obtain ⟨lease, hlease⟩ := Option.isSome_iff_exists.mp hlock
  have hvalid := (lockLease_eq_ok (toOption_eq_some hlease)).1
  have hkey : a.key = ⟨⟨"w", "pure.add", 0⟩, 1⟩ := Table.key_of_get ha
  refine ⟨a, w, n, ⟨?_, .inr (.inl hwait), ?_, ?_, ?_, ?_⟩, hkey, hstate⟩
  · rw [hkey]
    exact ⟨hvalid, hw, hpart⟩
  · rw [hkey]
    exact hn
  · rw [hkey]
    exact hcur
  · rw [hkey]
    exact ha
  · rw [hstate]
    revert hterm
    cases state <;> decide

theorem reachable_recorded (state : AttemptState) :
    Sys.Reachable .plain (scriptSys (recordedBranchScript state)) := by
  refine Sys.reachable_of_runScript 0 ?_
  simp [recordedBranchScript, branchScript, Sys.Action.valid, Op.isClient, externalEngine, soloEngine]

/-- A successful result is consumed although the other branch and the join are live. -/
theorem consumeRecordedResult_commits_success :
    ∃ (s : Sys) (a : Attempt) (w : Workflow) (n : NodeInstance), Sys.Reachable .plain s ∧
      Attempt.Recorded a s.db branchLease w n ∧ (s.db.liveSiblings a.key.node).length = 2 ∧
      (Ambient.drawn 900).Fresh s.db ∧
      alone .plain (fun _ => .drawn 900)
        (externalEngine.consumeRecordedResult a.key.node a.key.number a.state 5 branchLease) s.db =
          .ok () := by
  have hchecked : (fun db : DB => firstRecorded db .succeeded &&
      (db.liveSiblings ⟨"w", "pure.add", 0⟩).length = 2 &&
      (db.outbox.get (uuidOf 1 900)).isNone && (db.timers.get (uuidOf 2 900)).isNone)
      (scriptSys (recordedBranchScript .succeeded)).db = true := by decide +kernel
  simp only [Bool.and_eq_true, decide_eq_true_eq, Option.isNone_iff_eq_none] at hchecked
  obtain ⟨⟨⟨hrecorded, hlive⟩, hevent⟩, htimer⟩ := hchecked
  obtain ⟨a, w, n, ha, hkey, hstate⟩ := firstRecorded_spec hrecorded
  have hfresh : (Ambient.drawn 900).Fresh (scriptSys (recordedBranchScript .succeeded)).db :=
    ⟨hevent, htimer⟩
  refine ⟨scriptSys (recordedBranchScript .succeeded), a, w, n, reachable_recorded _, ha, ?_, hfresh,
    (consumeRecordedResult_commits_iff (reachable_recorded _) ha externalEngine 5
      (fun _ => hfresh)).mpr ?_⟩
  · rw [hkey]
    exact hlive
  · simp [Attempt.failedForGood, hstate]

/-- A final failure of one branch is refused, on this pass and on every later one. -/
theorem consumeRecordedResult_refused_failure :
    ∃ (s : Sys) (a : Attempt) (w : Workflow) (n : NodeInstance), Sys.Reachable .plain s ∧
      Attempt.Recorded a s.db branchLease w n ∧
      alone .plain (fun _ => .drawn 900)
        (externalEngine.consumeRecordedResult a.key.node a.key.number a.state 5 branchLease) s.db =
          .error (.wrapped .graphViolation "terminal result has live sibling nodes") := by
  have hchecked : (fun db : DB => firstRecorded db .failedFinal &&
      alone .plain (fun _ => .drawn 900) (externalEngine.consumeRecordedResult ⟨"w", "pure.add", 0⟩ 1
        .failedFinal 5 branchLease) db =
          .error (.wrapped .graphViolation "terminal result has live sibling nodes"))
      (scriptSys (recordedBranchScript .failedFinal)).db = true := by decide +kernel
  simp only [Bool.and_eq_true, decide_eq_true_eq] at hchecked
  obtain ⟨a, w, n, ha, hkey, hstate⟩ := firstRecorded_spec hchecked.1
  refine ⟨scriptSys (recordedBranchScript .failedFinal), a, w, n, reachable_recorded _, ha, ?_⟩
  rw [hkey, hstate]
  exact hchecked.2

end DurableEngine
