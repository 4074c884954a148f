/-
  DurableEngine.State.Owner

  The scheduler-owned transitions of `internal/state/store.go`:
  `ApplyOwnerTransition` and `ConsumeResult`.

  Each locks the partition lease, the workflow at the expected revision, and
  the node and attempt it moves, and writes all rows in one transaction.
-/

import DurableEngine.State.Submission

namespace DurableEngine.State

open Lib

-- ============================================================================
-- Locks
-- ============================================================================

def partitionText (partitionID lease : Int) : String :=
  "workflow partition " ++ toString partitionID ++ " does not match lease " ++ toString lease

def revisionText (expected got : Int) : String :=
  "expected " ++ toString expected ++ ", got " ++ toString got

/-- Lock the lease and then the workflow it owns, at the expected revision. -/
def lockOwnedWorkflow (db : DB) (lease : LeaseRef) (workflowID : String) (expectedRevision : Int)
    (context : String) : Except Err Workflow := do
  let _ ← lockLease db lease
  let workflow ← getOr (db.workflows.get workflowID) (.noRows context)
  rejectIf (workflow.partitionID ≠ lease.partitionID)
    (.text (partitionText workflow.partitionID lease.partitionID))
  rejectIf (workflow.revision ≠ expectedRevision)
    (.wrapped .revisionConflict (revisionText expectedRevision workflow.revision))
  return workflow

/-- The earlier due of two timers. -/
def earlier (best : Option Timer) (t : Timer) : Option Timer :=
  match best with
  | none => some t
  | some b => if t.dueAt < b.dueAt then some t else some b

def Timer.pendingFor (k : NodeKey) (t : Timer) : Bool := t.node = k && t.consumedAt.isNone

/-- The unconsumed timer of a node that is due first. -/
def DB.pendingTimer (db : DB) (k : NodeKey) : Option Timer :=
  (db.timers.select (Timer.pendingFor k)).foldl earlier none

-- ============================================================================
-- ApplyOwnerTransition
-- ============================================================================

structure OwnerTransitionInput where
  lease : LeaseRef
  workflowID : String
  expectedRevision : Int
  newState : WorkflowState
  actorID : String
  reason : String
  nodeID : String
  iteration : Int
  nodeState : Option WorkflowState
  attemptNumber : Option Int

def OwnerTransitionInput.key (input : OwnerTransitionInput) : NodeKey :=
  ⟨input.workflowID, input.nodeID, input.iteration⟩

/-- The current attempt of the named node; no node is named by an empty ID. -/
def ownerCurrentAttempt (db : DB) (input : OwnerTransitionInput) : Except Err (Option Int) :=
  if input.nodeID = "" then .ok none
  else do
    let node ← getOr (db.nodes.get input.key) (.noRows "lock node")
    return node.currentAttempt

/-- The transition cancels active work. -/
def OwnerTransitionInput.cancels (input : OwnerTransitionInput) (state : WorkflowState) : Bool :=
  input.newState = .canceled && state = .waitingActivity

/-- The attempt number the transition refers to. -/
def ownerAttemptNumber (input : OwnerTransitionInput) (state : WorkflowState)
    (current : Option Int) : Except Err (Option Int) :=
  if input.cancels state then do
    rejectIf (input.nodeID = "") (.text "cancellation of active work requires a node")
    match current with
    | none => .ok input.attemptNumber
    | some n => do
        rejectIf (∃ m ∈ input.attemptNumber, m ≠ n) (.sentinel .attemptNotCurrent)
        .ok (some n)
  else .ok input.attemptNumber

/-- The due timer that a transition out of `WAITING_TIMER` consumes. -/
def ownerTimer (db : DB) (input : OwnerTransitionInput) (state : WorkflowState) :
    Except Err (Option Timer) :=
  if state = .waitingTimer ∧ input.newState = .runnable then do
    rejectIf (input.nodeID = "") (.wrapped .invalidTransition "retry timer requires a node")
    let timer ← getOr (db.pendingTimer input.key)
      (.wrapped .invalidTransition "no pending retry timer")
    rejectIf (db.now < timer.dueAt) (.wrapped .invalidTransition "retry timer is not due")
    return some timer
  else .ok none

/-- Lock the attempt the transition refers to. -/
def ownerAttempt (db : DB) (key : NodeKey) (attemptNumber : Option Int) : Except Err Unit :=
  match attemptNumber with
  | none => .ok ()
  | some n => do
      let _ ← getOr (db.attempts.get ⟨key, n⟩) (.noRows "lock attempt")
      return ()

/-- Settle a current attempt whose work is canceled; a claimed effect has an
    unknown outcome. -/
def Attempt.cancel (a : Attempt) : Attempt :=
  if a.isCurrent then
    { a with
      state := .canceled
      isCurrent := false
      outcomeDisposition :=
        if a.state = .claimed ∧ a.effectClass ≠ .pure then .outcomeUnknown else .none }
  else a

@[simp] theorem Attempt.cancel_key (a : Attempt) : a.cancel.key = a.key := by
  unfold Attempt.cancel
  split <;> rfl

/-- The node row of an owner transition. -/
def NodeInstance.transition (n : NodeInstance) (state : WorkflowState)
    (purpose : Option TimerPurpose) : NodeInstance :=
  { n with
    state := state
    deadlineAt := if state = .runnable then none else n.deadlineAt
    timerFired :=
      if state = .runnable ∧ purpose = some .workflowTimer then true else n.timerFired
    revision := n.revision + 1 }

@[simp] theorem NodeInstance.transition_key (n : NodeInstance) (state : WorkflowState)
    (purpose : Option TimerPurpose) : (n.transition state purpose).key = n.key := rfl

/-- The state the named node moves to, by default that of the workflow. -/
def OwnerTransitionInput.target (input : OwnerTransitionInput) : Option WorkflowState :=
  match input.nodeState with
  | some s => some s
  | none => if input.nodeID = "" then none else some input.newState

/-- The node and attempt writes of an owner transition. -/
def moveOwnedNode (db : DB) (input : OwnerTransitionInput) (state : WorkflowState)
    (current : Option Int) (purpose : Option TimerPurpose) : DB :=
  match input.cancels state, current with
  | true, some n =>
      (db.modifyAttempt ⟨input.key, n⟩ Attempt.cancel Attempt.cancel_key).modifyNode input.key
        (fun node => { node with
          state := .canceled, currentAttempt := none, revision := node.revision + 1 })
  | _, _ =>
      match input.target with
      | some s => db.modifyNode input.key (·.transition s purpose) (·.transition_key s purpose)
      | none => db

/-- Mark the timer consumed and resolve its open obligation. -/
def consumeTimer (db : DB) (timer : Option Timer) : DB :=
  match timer with
  | none => db
  | some t =>
      { db.modifyTimer t.timerID (fun t => { t with
          consumedAt := if t.consumedAt.isNone then some db.now else t.consumedAt }) with
        reconciliation := db.reconciliation.modify ⟨.dueTimer, "timer/" ++ t.timerID⟩
          (fun r => { r with status := if r.status = .open then .resolved else r.status })
          (fun _ => rfl) }

/-- `ApplyOwnerTransition`. -/
def applyOwnerTransition (env : Env) (input : OwnerTransitionInput) (db : DB) :
    Except Err (Unit × DB) := do
  rejectIf (input.workflowID = "" ∨ input.actorID = "" ∨ input.reason = "")
    (.text "workflow, actor, and reason are required")
  let workflow ← lockOwnedWorkflow db input.lease input.workflowID input.expectedRevision
    "lock workflow"
  rejectIf (!workflow.state.legalTransition input.newState)
    (.wrapped .invalidTransition (workflow.state.text ++ " -> " ++ input.newState.text))
  let current ← ownerCurrentAttempt db input
  let attemptNumber ← ownerAttemptNumber input workflow.state current
  let timer ← ownerTimer db input workflow.state
  ownerAttempt db input.key attemptNumber
  let newRevision := workflow.revision + 1
  let db := db.setWorkflow input.workflowID input.newState newRevision
  let db ← releaseAdmissionSlotTx env db workflow.namespace_ input.workflowID workflow.state
    input.newState
  let db := moveOwnedNode db input workflow.state current (timer.map (·.purpose))
  let db := consumeTimer db timer
  let db ← insertHistory db input.workflowID newRevision "scheduler" input.actorID
    (some input.lease.epoch) input.nodeID
    (if input.nodeID = "" then none else some input.iteration) attemptNumber
    (some workflow.state) input.newState input.reason
  return ((), db)

-- ============================================================================
-- ConsumeResult
-- ============================================================================

structure ConsumeResultInput where
  lease : LeaseRef
  workflowID : String
  nodeID : String
  iteration : Int
  attemptNumber : Int
  expectedRevision : Int
  newWorkflowState : WorkflowState
  retryAfter : Option Int
  actorID : String

def ConsumeResultInput.key (input : ConsumeResultInput) : NodeKey :=
  ⟨input.workflowID, input.nodeID, input.iteration⟩

structure ConsumeResult where
  workflow : Workflow
  nodeState : WorkflowState
  attemptState : AttemptState

/-- The retry budget is used up or its total deadline has passed. -/
def RetryPolicy.exhausted (policy : RetryPolicy) (now : Int) : Bool :=
  policy.maxRetries ≤ policy.retriesUsed || policy.totalDeadlineAt.any (fun d => d ≤ now)

/-- The workflow state and delay a result leads to: a retryable failure spends
    one retry, or fails the workflow when none is left. -/
def spendRetry (db : DB) (input : ConsumeResultInput) (attemptState : AttemptState) :
    Except Err ((WorkflowState × Option Int) × DB) :=
  if attemptState = .failedRetryable then do
    let (policy, db) ← retryPolicyTx db input.key
    if policy.exhausted db.now then
      .ok ((.failed, none), db)
    else
      .ok ((input.newWorkflowState, input.retryAfter), { db with
        retryPolicies := db.retryPolicies.modify input.key
          (fun p => { p with retriesUsed := policy.retriesUsed + 1 }) (fun _ => rfl) })
  else .ok ((input.newWorkflowState, input.retryAfter), db)

/-- The state a consumed result leaves the node in. -/
def consumedNodeState (attemptState : AttemptState) (newState : WorkflowState)
    (retryAfter : Option Int) : Except Err WorkflowState :=
  match attemptState with
  | .succeeded =>
      if newState ≠ .runnable ∧ newState ≠ .succeeded then
        .error (.wrapped .invalidTransition ("successful result cannot advance to " ++ newState.text))
      else .ok .succeeded
  | .failedRetryable =>
      if newState = .failed then .ok .failed
      else if newState ≠ .waitingTimer ∨ retryAfter = none then
        .error (.wrapped .invalidTransition
          "retryable result requires WAITING_TIMER and a due time")
      else .ok .waitingTimer
  | .failedFinal =>
      if newState ≠ .failed then
        .error (.wrapped .invalidTransition "final failure must advance to FAILED")
      else .ok .failed
  | _ => .error (.sentinel .resultNotConsumable)

/-- A node that is not settled: unfinished, or with an attempt to its name. -/
def NodeInstance.live (n : NodeInstance) : Bool := !n.state.isTerminal || n.currentAttempt.isSome

/-- The live nodes of the workflow other than `k`. -/
def DB.liveSiblings (db : DB) (k : NodeKey) : List NodeInstance :=
  db.nodes.select (fun n => n.key.workflowID = k.workflowID && n.key ≠ k && n.live)

/-- The node row after its result was consumed. -/
def NodeInstance.consume (n : NodeInstance) (state : WorkflowState) (result : Jsonb)
    (retryDueAt : Option Int) : NodeInstance :=
  { n with
    state := state
    currentAttempt := none
    acceptedResult := if state = .succeeded then some result else n.acceptedResult
    retryCount := if state = .waitingTimer then n.retryCount + 1 else n.retryCount
    deadlineAt := if state = .waitingTimer then retryDueAt else none
    revision := n.revision + 1 }

@[simp] theorem NodeInstance.consume_key (n : NodeInstance) (state : WorkflowState)
    (result : Jsonb) (retryDueAt : Option Int) :
    (n.consume state result retryDueAt).key = n.key := rfl

/-- Insert the timer of a retry. -/
def insertRetryTimer (amb : Ambient) (db : DB) (key : NodeKey) (attemptState : AttemptState)
    (newState : WorkflowState) (retryDueAt : Option Int) (revision : Int) : Except Err DB :=
  match attemptState, newState, retryDueAt with
  | .failedRetryable, .waitingTimer, some dueAt => do
      let timers ← getOr
        (db.timers.insert? ⟨amb.timerID, key, dueAt, .retryBackoff, none, revision⟩)
        (.constraint "create retry timer" "timers_pkey")
      return { db with timers := timers }
  | _, _, _ => .ok db

/-- `ConsumeResult`. -/
def consumeResult (env : Env) (amb : Ambient) (input : ConsumeResultInput) (db : DB) :
    Except Err (ConsumeResult × DB) := do
  rejectIf (input.workflowID = "" ∨ input.nodeID = "" ∨ input.actorID = "" ∨
    input.attemptNumber ≤ 0) (.text "result-consumption identity is required")
  let workflow ← lockOwnedWorkflow db input.lease input.workflowID input.expectedRevision
    "lock workflow for result consumption"
  rejectIf (workflow.state ≠ .waitingActivity ∧ workflow.state ≠ .runnable ∧
      workflow.state ≠ .waitingTimer)
    (.text ("workflow state " ++ workflow.state.text ++ " cannot consume a result"))
  let node ← getOr (db.nodes.get input.key) (.noRows "lock node for result consumption")
  rejectIf (node.currentAttempt ≠ some input.attemptNumber) (.sentinel .resultNotConsumable)
  let attempt ← getOr (db.attempts.get ⟨input.key, input.attemptNumber⟩)
    (.noRows "lock attempt for result consumption")
  rejectIf (attempt.isCurrent ∨ !attempt.state.isTerminal) (.sentinel .resultNotConsumable)
  let result ← getOr attempt.result (.sentinel .resultNotConsumable)
  let ((newState, retryAfter), db) ← spendRetry db input attempt.state
  let retryDueAt := retryAfter.map (fun delay => db.now + delay)
  let nodeState ← consumedNodeState attempt.state newState retryAfter
  rejectIf (newState.isTerminal ∧ (db.liveSiblings input.key).length ≠ 0)
    (.wrapped .graphViolation "terminal result has live sibling nodes")
  let newRevision := workflow.revision + 1
  let db := db.modifyNode input.key (·.consume nodeState result retryDueAt)
    (·.consume_key nodeState result retryDueAt)
  let db := db.setWorkflow input.workflowID newState newRevision
  let db ← releaseAdmissionSlotTx env db workflow.namespace_ input.workflowID workflow.state newState
  let db ← insertHistory db input.workflowID newRevision "scheduler" input.actorID
    (some input.lease.epoch) input.nodeID (some input.iteration) (some input.attemptNumber)
    (some workflow.state) newState "RESULT_CONSUMED"
  let db ← insertRetryTimer amb db input.key attempt.state newState retryDueAt newRevision
  let db ← insertOutbox amb db input.workflowID newRevision "workflow.result_consumed"
    (sprintfJson env [("workflow_id", .quoted input.workflowID), ("node_id", .quoted input.nodeID),
      ("iteration", .int input.iteration), ("attempt_number", .int input.attemptNumber),
      ("attempt_state", .quoted attempt.state.text)])
  return (⟨{ workflow with state := newState, revision := newRevision }, nodeState, attempt.state⟩,
    db)

end DurableEngine.State
