/-
  DurableEngine.State.Recovery

  Retry policies, checkpoints, approvals, cancellation requests and wake-up
  acknowledgement (`internal/state/m4.go`, `internal/state/runtime.go`).
-/

import DurableEngine.Lib.Marshal
import DurableEngine.State.GraphOps

namespace DurableEngine.State

open Lib

-- ============================================================================
-- Retry policies and checkpoints
-- ============================================================================

structure RetryPolicyInput where
  lease : LeaseRef
  workflowID : String
  nodeID : String
  iteration : Int
  expectedRevision : Int
  maxRetries : Int
  totalDeadlineAt : Option Int
  checkpointSchemaVersion : Int
  actorID : String

def RetryPolicyInput.key (input : RetryPolicyInput) : NodeKey :=
  ⟨input.workflowID, input.nodeID, input.iteration⟩

/-- `SetRetryPolicy`; the schema keeps `retries_used <= max_retries`. -/
def setRetryPolicy (input : RetryPolicyInput) (db : DB) : Except Err (Unit × DB) := do
  rejectIf (input.workflowID = "" ∨ input.nodeID = "" ∨ input.actorID = "" ∨ input.maxRetries < 0)
    (.text "retry policy identity and non-negative budget are required")
  let version := if input.checkpointSchemaVersion ≤ 0 then 1 else input.checkpointSchemaVersion
  let _ ← lockOwnedWorkflow db input.lease input.workflowID input.expectedRevision
    "lock workflow for retry policy"
  let node ← getOr (db.nodes.get input.key) (.noRows "lock node for retry policy")
  rejectIf (node.state.isTerminal) (.sentinel .attemptNotCurrent)
  match db.retryPolicies.insert? ⟨input.key, input.maxRetries, 0, input.totalDeadlineAt, version⟩ with
  | some retryPolicies => .ok ((), { db with retryPolicies := retryPolicies })
  | none => do
      rejectIf ((db.retryPolicies.get input.key).any (fun p => input.maxRetries < p.retriesUsed))
        (.constraint "save retry policy" "retry_policies_check")
      return ((), { db with
        retryPolicies := db.retryPolicies.modify input.key (fun p => { p with
          maxRetries := input.maxRetries
          totalDeadlineAt := input.totalDeadlineAt
          checkpointSchemaVersion := version }) (fun _ => rfl) })

/-- `canonicalPayloadHash`. -/
def canonicalPayloadHash (payload : RawMessage) : Except Err String :=
  match payload with
  | .json v =>
      if v.shallow then .ok (Sha256.hexSum (marshal v)) else .error (.text "payload must be valid JSON")
  | _ => .error (.text "payload must be valid JSON")

theorem canonicalPayloadHash_eq_ok {payload : RawMessage} {hash : String} :
    canonicalPayloadHash payload = .ok hash ↔
      ∃ v, payload = .json v ∧ v.shallow = true ∧ hash = Sha256.hexSum (marshal v) := by
  unfold canonicalPayloadHash
  split
  case h_1 v =>
    simp only [RawMessage.json.injEq, exists_eq_left']
    split
    case isTrue hshallow => exact ⟨fun h => ⟨hshallow, (Except.ok.inj h).symm⟩, fun h => congrArg _ h.2.symm⟩
    case isFalse hdeep => exact ⟨fun h => (by cases h), fun h => absurd h.1 hdeep⟩
  case h_2 hnot => exact ⟨fun h => (by cases h), fun ⟨v, hv, _⟩ => absurd hv (hnot v)⟩

structure CheckpointInput where
  workflowID : String
  nodeID : String
  iteration : Int
  attemptNumber : Int
  claimToken : String
  sequence : Int
  schemaVersion : Int
  payload : RawMessage

def CheckpointInput.key (input : CheckpointInput) : AttemptKey :=
  ⟨⟨input.workflowID, input.nodeID, input.iteration⟩, input.attemptNumber⟩

def later (best : Option Checkpoint) (c : Checkpoint) : Option Checkpoint :=
  match best with
  | none => some c
  | some b => if b.key.sequence < c.key.sequence then some c else some b

/-- The checkpoint of a node with the highest sequence. -/
def DB.latestCheckpoint (db : DB) (k : NodeKey) : Option Checkpoint :=
  (db.checkpoints.select (fun c => c.key.node = k)).foldl later none

/-- Append a checkpoint, or return the latest one for the same progress. -/
def appendCheckpoint (input : CheckpointInput) (payloadHash : String) (db : DB) :
    Except Err (Checkpoint × DB) :=
  let insert : Except Err (Checkpoint × DB) := do
    let document ← getOr input.payload.toJsonb (.invalidText "record checkpoint")
    let row : Checkpoint := ⟨⟨input.key.node, input.sequence⟩, input.schemaVersion,
      input.attemptNumber, document, payloadHash⟩
    let checkpoints ← getOr (db.checkpoints.insert? row)
      (.constraint "record checkpoint" "checkpoints_pkey")
    return (row, { db with checkpoints := checkpoints })
  match db.latestCheckpoint input.key.node with
  | none => do
      rejectIf (input.sequence ≠ 0) (.sentinel .checkpointStale)
      insert
  | some latest => do
      rejectIf (input.sequence < latest.key.sequence ∨ latest.key.sequence + 1 < input.sequence)
        (.sentinel .checkpointStale)
      if input.sequence = latest.key.sequence then do
        rejectIf (latest.payloadHash ≠ payloadHash ∨ latest.schemaVersion ≠ input.schemaVersion)
          (.sentinel .checkpointConflict)
        return (latest, db)
      else insert

/-- `RecordCheckpoint`. -/
def recordCheckpoint (input : CheckpointInput) (db : DB) : Except Err (Checkpoint × DB) := do
  rejectIf (input.workflowID = "" ∨ input.nodeID = "" ∨ input.claimToken = "" ∨
      input.attemptNumber ≤ 0 ∨ input.sequence < 0 ∨ input.schemaVersion ≤ 0)
    (.text "checkpoint identity, sequence, and schema version are required")
  rejectIf (!input.payload.valid) (.text "checkpoint payload must be valid JSON")
  let payloadHash ← canonicalPayloadHash input.payload
  let workflow ← getOr (db.workflows.get input.workflowID) (.sentinel .workflowNotFound)
  rejectIf (workflow.state.isTerminal) (.sentinel .staleClaim)
  let node ← getOr (db.nodes.get input.key.node) (.sentinel .nodeNotFound)
  rejectIf (node.currentAttempt ≠ some input.attemptNumber) (.sentinel .staleClaim)
  let token ← getOr (uuidText input.claimToken) (.invalidText "lock attempt for checkpoint")
  let attempt ← getOr (db.attempts.get input.key) (.sentinel .staleClaim)
  rejectIf (attempt.isCurrent = false ∨ attempt.claimToken ≠ some token ∨ attempt.state ≠ .claimed)
    (.sentinel .staleClaim)
  let (policy, db) ← retryPolicyTx db input.key.node
  rejectIf (input.schemaVersion ≠ policy.checkpointSchemaVersion) (.sentinel .checkpointConflict)
  appendCheckpoint input payloadHash db

-- ============================================================================
-- Approvals
-- ============================================================================

/-- `proposalHash`. -/
def proposalHash (target : String) (arguments : RawMessage) (expectedResourceRevision : String) :
    Except Err String := do
  rejectIf (target = "" ∨ !arguments.valid)
    (.text "approval target and valid canonical arguments are required")
  let hash ← canonicalPayloadHash arguments
  return Sha256.hexSum (target ++ "\x00" ++ hash ++ "\x00" ++ expectedResourceRevision)

/-- `grantScopeHash`. -/
def grantScopeHash (proposalHash expectedResourceRevision logicalEffectKey target : String) :
    String :=
  Sha256.hexSum (proposalHash ++ "\x00" ++ expectedResourceRevision ++ "\x00" ++
    logicalEffectKey ++ "\x00" ++ target)

structure ApprovalIntentInput where
  lease : LeaseRef
  workflowID : String
  nodeID : String
  iteration : Int
  expectedRevision : Int
  target : String
  canonicalArguments : RawMessage
  expectedResourceRevision : String
  validUntil : Int
  actorID : String

def ApprovalIntentInput.key (input : ApprovalIntentInput) : NodeKey :=
  ⟨input.workflowID, input.nodeID, input.iteration⟩

/-- Lock the lease and the workflow of an approval. -/
def lockApprovalWorkflow (db : DB) (lease : LeaseRef) (workflowID : String)
    (expectedRevision : Int) : Except Err Workflow := do
  let _ ← lockLease db lease
  let workflow ← getOr (db.workflows.get workflowID) (.sentinel .workflowNotFound)
  rejectIf (workflow.partitionID ≠ lease.partitionID) (.sentinel .leaseNotOwned)
  rejectIf (workflow.revision ≠ expectedRevision)
    (.wrapped .revisionConflict (revisionText expectedRevision workflow.revision))
  return workflow

/-- The undecided intent of a node. -/
def DB.pendingIntent (db : DB) (k : NodeKey) : Option ApprovalIntent :=
  db.intents.rows.find? (fun i =>
    i.node = k && i.decision = .pending && i.dispatchStatus = .notGranted)

/-- The writes of a new intent: a runnable workflow starts to wait for it. -/
def insertIntent (env : Env) (amb : Ambient) (input : ApprovalIntentInput) (workflow : Workflow)
    (intent : ApprovalIntent) (db : DB) : Except Err (ApprovalIntent × DB) := do
  let intents ← getOr (db.intents.insert? intent)
    (.constraint "insert approval intent" "approval_action_intents_pkey")
  let db := { db with intents := intents }
  if workflow.state = .runnable then do
    let newRevision := workflow.revision + 1
    let db := db.modifyNode input.key (fun n => { n with
      state := .waitingApproval, revision := n.revision + 1 })
    let db := db.setWorkflow input.workflowID .waitingApproval newRevision
    let db ← insertHistory db input.workflowID newRevision "scheduler" input.actorID
      (some input.lease.epoch) input.nodeID (some input.iteration) none (some workflow.state)
      .waitingApproval "APPROVAL_REQUESTED"
    let db ← insertOutbox amb db input.workflowID newRevision "approval.requested"
      (sprintfJson env [("intent_id", .quoted amb.intentID),
        ("workflow_id", .quoted input.workflowID)])
    return (intent, db)
  else
    return (intent, db)

/-- `CreateApprovalIntent`. -/
def createApprovalIntent (env : Env) (amb : Ambient) (input : ApprovalIntentInput) (db : DB) :
    Except Err (ApprovalIntent × DB) := do
  rejectIf (input.workflowID = "" ∨ input.nodeID = "" ∨ input.actorID = "" ∨
    ¬ amb.wallClock < input.validUntil) (.text "approval identity and future validity are required")
  let hash ← proposalHash input.target input.canonicalArguments input.expectedResourceRevision
  let signature := Sha256.hexSum (hash ++ "\x00" ++ input.actorID)
  let workflow ← lockApprovalWorkflow db input.lease input.workflowID input.expectedRevision
  rejectIf (workflow.state ≠ .runnable ∧ workflow.state ≠ .waitingApproval)
    (.wrapped .invalidTransition "workflow is not approval-ready")
  let node ← getOr (db.nodes.get input.key) (.sentinel .nodeNotFound)
  rejectIf (node.state ≠ .runnable ∧ node.state ≠ .waitingApproval)
    (.wrapped .invalidTransition "node is not approval-ready")
  match db.pendingIntent input.key with
  | some existing => do
      rejectIf (existing.proposalHash ≠ hash) (.sentinel .approvalMismatch)
      return (existing, db)
  | none => do
      let arguments ← getOr input.canonicalArguments.toJsonb (.invalidText "insert approval intent")
      insertIntent env amb input workflow
        ⟨amb.intentID, input.key, hash, signature, input.target, arguments,
          input.expectedResourceRevision, .pending, "", input.validUntil, .notGranted, "", "", none,
          "", db.now⟩ db

structure ApprovalDecisionInput where
  intentID : String
  approverID : String
  proposalHash : String
  decision : Decision
  decisionReason : String

/-- `RecordApprovalDecision`. -/
def recordApprovalDecision (amb : Ambient) (input : ApprovalDecisionInput) (db : DB) :
    Except Err (ApprovalIntent × DB) := do
  rejectIf (input.intentID = "" ∨ input.approverID = "" ∨ input.decision = .pending ∨
    input.proposalHash = "") (.sentinel .approvalUnauthorized)
  let id ← getOr (uuidText input.intentID) (.invalidText "")
  let intent ← getOr (db.intents.get id) (.sentinel .approvalNotFound)
  rejectIf (intent.proposalHash ≠ input.proposalHash) (.sentinel .approvalMismatch)
  if intent.decision ≠ .pending then do
    rejectIf (intent.decision ≠ input.decision ∨ intent.approverID ≠ input.approverID)
      (.sentinel .approvalConflict)
    return (intent, db)
  else do
    rejectIf (¬ amb.wallClock < intent.validUntil) (.sentinel .approvalExpired)
    let decide (i : ApprovalIntent) : ApprovalIntent := { i with
      decision := input.decision
      approverID := input.approverID
      decisionReason := input.decisionReason }
    return (decide intent, { db with intents := db.intents.modify id decide (fun _ => rfl) })

structure ApplyApprovalInput where
  lease : LeaseRef
  workflowID : String
  nodeID : String
  iteration : Int
  intentID : String
  logicalEffectKey : String
  expectedRevision : Int
  actorID : String

def ApplyApprovalInput.key (input : ApplyApprovalInput) : NodeKey :=
  ⟨input.workflowID, input.nodeID, input.iteration⟩

structure ApprovalGrant where
  intentID : String
  grantToken : String
  grantScopeHash : String
  expiresAt : Int
deriving DecidableEq, Repr

/-- The node row after an approval was applied. -/
def NodeInstance.approve (n : NodeInstance) (state : WorkflowState) : NodeInstance :=
  { n with state := state, revision := n.revision + 1 }

@[simp] theorem NodeInstance.approve_key (n : NodeInstance) (state : WorkflowState) :
    (n.approve state).key = n.key := rfl

/-- A rejected intent ends the workflow. -/
def rejectApproval (env : Env) (amb : Ambient) (input : ApplyApprovalInput) (workflow : Workflow)
    (id : String) (db : DB) : Except Err (ApprovalGrant × DB) := do
  let newRevision := workflow.revision + 1
  let cancel (i : ApprovalIntent) : ApprovalIntent := { i with dispatchStatus := .canceled }
  let db := { db with intents := db.intents.modify id cancel (fun _ => rfl) }
  let db := db.modifyNode input.key (·.approve .rejected) (·.approve_key .rejected)
  let db := db.setWorkflow input.workflowID .rejected newRevision
  let db ← releaseAdmissionSlotTx env db workflow.namespace_ input.workflowID workflow.state .rejected
  let db ← insertHistory db input.workflowID newRevision "scheduler" input.actorID
    (some input.lease.epoch) input.nodeID (some input.iteration) none (some workflow.state)
    .rejected "APPROVAL_REJECTED"
  let db ← insertOutbox amb db input.workflowID newRevision "approval.rejected"
    (sprintfJson env [("intent_id", .quoted input.intentID)])
  return (⟨input.intentID, "", "", 0⟩, db)

/-- An approved intent grants the effect and lets the workflow run on. -/
def grantApproval (env : Env) (amb : Ambient) (input : ApplyApprovalInput) (workflow : Workflow)
    (intent : ApprovalIntent) (db : DB) : Except Err (ApprovalGrant × DB) := do
  rejectIf (intent.decision ≠ .approved ∨ input.logicalEffectKey = "") (.sentinel .approvalMismatch)
  rejectIf (¬ amb.wallClock < intent.validUntil) (.sentinel .approvalExpired)
  let scope := grantScopeHash intent.proposalHash intent.expectedResourceRevision
    input.logicalEffectKey intent.target
  let grant (i : ApprovalIntent) : ApprovalIntent := { i with
    dispatchStatus := .granted
    grantToken := amb.grantToken
    grantScopeHash := scope
    grantExpiresAt := some i.validUntil }
  let db := { db with intents := db.intents.modify intent.intentID grant (fun _ => rfl) }
  let newRevision := workflow.revision + 1
  let db := db.modifyNode input.key (·.approve .runnable) (·.approve_key .runnable)
  let db := db.setWorkflow input.workflowID .runnable newRevision
  let db ← insertHistory db input.workflowID newRevision "scheduler" input.actorID
    (some input.lease.epoch) input.nodeID (some input.iteration) none (some workflow.state)
    .runnable "APPROVAL_GRANTED"
  let db ← insertOutbox amb db input.workflowID newRevision "approval.granted"
    (sprintfJson env [("intent_id", .quoted input.intentID), ("grant_scope_hash", .quoted scope)])
  return (⟨input.intentID, amb.grantToken, scope, intent.validUntil⟩, db)

/-- `ApplyApproval`. -/
def applyApproval (env : Env) (amb : Ambient) (input : ApplyApprovalInput) (db : DB) :
    Except Err (ApprovalGrant × DB) := do
  rejectIf (input.workflowID = "" ∨ input.nodeID = "" ∨ input.intentID = "" ∨ input.actorID = "")
    (.text "approval application identity is required")
  let workflow ← lockApprovalWorkflow db input.lease input.workflowID input.expectedRevision
  rejectIf (workflow.state ≠ .waitingApproval)
    (.wrapped .invalidTransition "workflow is not waiting for approval")
  let id ← getOr (uuidText input.intentID) (.invalidText "")
  let intent ← getOr ((db.intents.get id).filter (fun i => i.node = input.key))
    (.sentinel .approvalNotFound)
  rejectIf (intent.dispatchStatus ≠ .notGranted) (.sentinel .approvalMismatch)
  rejectIf (∃ c ∈ db.cancellations.rows, c.workflowID = input.workflowID ∧ c.status = .pending)
    (.sentinel .cancellationConflict)
  if intent.decision = .rejected then rejectApproval env amb input workflow id db
  else grantApproval env amb input workflow intent db

-- ============================================================================
-- Cancellation requests
-- ============================================================================

structure CancellationRequestInput where
  workflowID : String
  clientKey : String
  observedRevision : Int

/-- `RequestCancellation`: one request for each client key. -/
def requestCancellation (amb : Ambient) (input : CancellationRequestInput) (db : DB) :
    Except Err (CancellationRequest × DB) := do
  rejectIf (input.workflowID = "" ∨ input.clientKey = "" ∨ input.observedRevision < 0)
    (.text "cancellation workflow, key, and revision are required")
  rejectIf ((db.workflows.get input.workflowID).isNone) (.sentinel .workflowNotFound)
  match db.cancellations.rows.find? (fun c =>
      c.workflowID = input.workflowID && c.clientKey = input.clientKey) with
  | some existing => .ok (existing, db)
  | none => do
      let row : CancellationRequest := ⟨amb.requestID, input.workflowID, input.clientKey,
        input.observedRevision, .pending, db.now, none⟩
      let cancellations ← getOr (db.cancellations.insert? row)
        (.constraint "record cancellation request" "cancellation_requests_pkey")
      return (row, { db with cancellations := cancellations })

/-- Set the status of a cancellation request. -/
def DB.applyRequest (db : DB) (id : String) (status : CancellationStatus) : DB :=
  { db with
    cancellations := db.cancellations.modify id
      (fun c => { c with status := status, appliedAt := some db.now }) (fun _ => rfl) }

/-- A pending request under the lease: refused once an effect was granted,
    else the workflow is canceled. -/
def applyPendingRequest (env : Env) (amb : Ambient) (lease : LeaseRef) (actorID : String)
    (request : CancellationRequest) (db : DB) : Except Err (Workflow × DB) := do
  let workflow ← getOr (db.workflows.get request.workflowID) (.noRows "")
  rejectIf (workflow.partitionID ≠ lease.partitionID) (.sentinel .leaseNotOwned)
  if db.intents.rows.any (fun i => i.node.workflowID = request.workflowID &&
      (i.dispatchStatus = .granted || i.dispatchStatus = .dispatched)) then
    .ok (workflow, db.applyRequest request.requestID .bestEffort)
  else if workflow.state.isTerminal then
    .ok (workflow, db.applyRequest request.requestID .applied)
  else do
    let (workflow, db) ← cancelWorkflowTx env amb db lease workflow actorID ""
    return (workflow, db.applyRequest request.requestID .applied)

/-- `ApplyCancellationRequest`. -/
def applyCancellationRequest (env : Env) (amb : Ambient) (lease : LeaseRef)
    (requestID actorID : String) (db : DB) : Except Err (Workflow × DB) := do
  rejectIf (requestID = "" ∨ actorID = "") (.text "cancellation request and actor are required")
  let _ ← lockLease db lease
  let id ← getOr (uuidText requestID) (.invalidText "")
  let request ← getOr (db.cancellations.get id) (.sentinel .cancellationConflict)
  if request.status ≠ .pending then do
    let workflow ← getOr (db.workflows.get request.workflowID) (.noRows "")
    return (workflow, db)
  else applyPendingRequest env amb lease actorID request db

def requestBefore (a b : CancellationRequest) : Prop := a.createdAt ≤ b.createdAt

instance : DecidableRel requestBefore := fun a b =>
  inferInstanceAs (Decidable (a.createdAt ≤ b.createdAt))

/-- The requests `ApplyRuntimeCancellations` applies: the first hundred pending ones. -/
def pendingCancellations (workflowID : String) (db : DB) : List String :=
  (((db.cancellations.select (fun c => c.workflowID = workflowID && c.status = .pending)).insertionSort
    requestBefore).take 100).map (·.requestID)

-- ============================================================================
-- Wake-ups
-- ============================================================================

/-- `AcknowledgeWorkflowWakeups`: wake-ups of events up to `revision` are consumed. -/
def acknowledgeWorkflowWakeups (lease : LeaseRef) (workflowID : String) (revision : Int) (db : DB) :
    Except Err (Unit × DB) := do
  let _ ← lockLease db lease
  let covered (w : Wakeup) : Bool := w.workflowID = workflowID && w.partitionID = lease.partitionID &&
    (db.outbox.get w.eventID).any (fun o => o.aggregateRevision ≤ revision)
  let wakeups := db.wakeups.update covered (fun w => { w with state := .consumed }) (fun _ => rfl)
  let consumed (reference : String) : Bool := wakeups.rows.any (fun w =>
    w.workflowID = workflowID && w.state = .consumed && reference = "wakeup/" ++ w.wakeupID)
  return ((), { db with
    wakeups := wakeups
    reconciliation := db.reconciliation.update
      (fun r => r.key.kind = .lostWakeup && r.status = .open && consumed r.key.reference)
      (fun r => { r with status := .resolved }) (fun _ => rfl) })

end DurableEngine.State
