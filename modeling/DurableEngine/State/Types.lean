/-
  DurableEngine.State.Types

  The durable rows of the `engine` and `effects` schemas and the database they make up, as
  `internal/state/types.go` and the migrations declare them.

  A table is a `Lib.Table`, so its primary key is unique by construction.
  Identifiers are texts, `int64` and `time.Time` columns are integers (one
  time unit, no overflow), `jsonb` columns hold the normal form the column
  gives back.  `DB.now` is the database clock.
-/

import DurableEngine.Lib.Json
import DurableEngine.Lib.Table

namespace DurableEngine.State

open Lib

-- ============================================================================
-- Enumerations
-- ============================================================================

inductive WorkflowState where
  | runnable | waitingActivity | waitingTimer | waitingApproval
  | pausedUnsupportedVersion | reconciliationRequired
  | succeeded | failed | rejected | canceled | abandoned
deriving DecidableEq, Repr

namespace WorkflowState

def text : WorkflowState → String
  | runnable => "RUNNABLE"
  | waitingActivity => "WAITING_ACTIVITY"
  | waitingTimer => "WAITING_TIMER"
  | waitingApproval => "WAITING_APPROVAL"
  | pausedUnsupportedVersion => "PAUSED_UNSUPPORTED_VERSION"
  | reconciliationRequired => "RECONCILIATION_REQUIRED"
  | succeeded => "SUCCEEDED"
  | failed => "FAILED"
  | rejected => "REJECTED"
  | canceled => "CANCELED"
  | abandoned => "ABANDONED"

/-- `isTerminalWorkflowState`. -/
def isTerminal : WorkflowState → Bool
  | succeeded | failed | rejected | canceled | abandoned => true
  | _ => false

/-- `legalTransition`: the owner transitions of the workflow state machine. -/
def legalTransition : WorkflowState → WorkflowState → Bool
  | runnable, runnable | runnable, waitingActivity | runnable, waitingApproval
  | runnable, waitingTimer | runnable, pausedUnsupportedVersion | runnable, succeeded
  | runnable, failed | runnable, canceled => true
  | waitingActivity, waitingActivity | waitingActivity, reconciliationRequired
  | waitingActivity, canceled => true
  | waitingTimer, runnable | waitingTimer, canceled => true
  | waitingApproval, runnable | waitingApproval, rejected | waitingApproval, canceled => true
  | pausedUnsupportedVersion, runnable | pausedUnsupportedVersion, canceled
  | pausedUnsupportedVersion, abandoned => true
  | reconciliationRequired, runnable | reconciliationRequired, canceled
  | reconciliationRequired, abandoned => true
  | _, _ => false

/-- No transition leaves a terminal state. -/
theorem isTerminal_of_legalTransition {s t : WorkflowState} (h : legalTransition s t = true) :
    s.isTerminal = false := by
  cases s <;> cases t <;> first | rfl | cases h

end WorkflowState

inductive EffectClass where
  | pure | cooperating | nonCooperating
deriving DecidableEq, Repr

namespace EffectClass

def text : EffectClass → String
  | pure => "PURE_ACTIVITY"
  | cooperating => "COOPERATING_EFFECT"
  | nonCooperating => "NON_COOPERATING_EFFECT"

/-- The class a stored text names. -/
def ofText (s : String) : Option EffectClass :=
  if s = "PURE_ACTIVITY" then some pure
  else if s = "COOPERATING_EFFECT" then some cooperating
  else if s = "NON_COOPERATING_EFFECT" then some nonCooperating
  else none

end EffectClass

inductive AttemptState where
  | created | dispatchable | claimed | succeeded | failedRetryable | failedFinal
  | timedOut | replaced | outcomeUnknown | canceled
deriving DecidableEq, Repr

namespace AttemptState

def text : AttemptState → String
  | created => "CREATED"
  | dispatchable => "DISPATCHABLE"
  | claimed => "CLAIMED"
  | succeeded => "SUCCEEDED"
  | failedRetryable => "FAILED_RETRYABLE"
  | failedFinal => "FAILED_FINAL"
  | timedOut => "TIMED_OUT"
  | replaced => "REPLACED"
  | outcomeUnknown => "OUTCOME_UNKNOWN"
  | canceled => "CANCELED"

/-- `isTerminalAttempt`: the states a recorded worker result leaves behind. -/
def isTerminal : AttemptState → Bool
  | succeeded | failedRetryable | failedFinal => true
  | _ => false

end AttemptState

inductive OutcomeDisposition where
  | none | knownSuccess | outcomeUnknown
deriving DecidableEq, Repr

inductive TimerPurpose where
  | retryBackoff | workflowTimer
deriving DecidableEq, Repr

namespace TimerPurpose

def text : TimerPurpose → String
  | retryBackoff => "RETRY_BACKOFF"
  | workflowTimer => "WORKFLOW_TIMER"

def ofText (s : String) : Option TimerPurpose :=
  if s = "RETRY_BACKOFF" then some retryBackoff
  else if s = "WORKFLOW_TIMER" then some workflowTimer
  else none

end TimerPurpose

inductive PublishState where
  | pending | claimed | published | quarantined
deriving DecidableEq, Repr

def PublishState.text : PublishState → String
  | .pending => "PENDING"
  | .claimed => "CLAIMED"
  | .published => "PUBLISHED"
  | .quarantined => "QUARANTINED"

inductive Decision where
  | pending | approved | rejected
deriving DecidableEq, Repr

inductive DispatchStatus where
  | notGranted | granted | dispatched | canceled
deriving DecidableEq, Repr

inductive CancellationStatus where
  | pending | applied | bestEffort | rejected
deriving DecidableEq, Repr

inductive ReconciliationKind where
  | expiredAttempt | pendingOutbox | lostWakeup | dueTimer | poisonRecord
deriving DecidableEq, Repr

inductive ReconciliationStatus where
  | open | resolved | abandoned
deriving DecidableEq, Repr

inductive WakeupState where
  | pending | claimed | consumed
deriving DecidableEq, Repr

inductive InboxDisposition where
  | accepted | alreadyHandled | stale | quarantined
deriving DecidableEq, Repr

inductive EffectOutcome where
  | applied | outcomeUnknown
deriving DecidableEq, Repr

inductive CallOutcome where
  | applied | duplicate | conflict | rejected | unknown
deriving DecidableEq, Repr

inductive ResolutionDisposition where
  | confirmedApplied | abandonedUnknown
deriving DecidableEq, Repr

-- ============================================================================
-- Rows
-- ============================================================================

/-- `json.RawMessage` as the repository receives it: no bytes, bytes that are
    not JSON, or a document, which may be nested too deep for `encoding/json`. -/
inductive RawMessage where
  | empty
  | malformed
  | json (v : Json)
deriving DecidableEq

/-- A `workflow_definitions` row. -/
structure Definition where
  definitionID : String
  version : Int
  definitionHash : String
  graph : Jsonb
  activityVersions : Jsonb
  effectClasses : Jsonb
deriving DecidableEq

/-- A `workflow_executions` row. -/
structure Workflow where
  workflowID : String
  namespace_ : String
  submissionKey : String
  payloadHash : String
  definitionID : String
  definitionVersion : Int
  partitionID : Int
  state : WorkflowState
  revision : Int
deriving DecidableEq

/-- The key of a node instance. -/
structure NodeKey where
  workflowID : String
  nodeID : String
  iteration : Int
deriving DecidableEq, Repr

/-- A `node_instances` row. -/
structure NodeInstance where
  key : NodeKey
  state : WorkflowState
  dependencies : List String
  input : Jsonb
  acceptedResult : Option Jsonb
  currentAttempt : Option Int
  retryCount : Int
  deadlineAt : Option Int
  timerFired : Bool
  revision : Int
deriving DecidableEq

/-- The key of an attempt: its node instance and its number. -/
structure AttemptKey where
  node : NodeKey
  number : Int
deriving DecidableEq, Repr

/-- An `activity_attempts` row. -/
structure Attempt where
  key : AttemptKey
  state : AttemptState
  effectClass : EffectClass
  claimToken : Option String
  workerID : Option String
  workerRequestID : Option String
  heartbeatDeadline : Option Int
  logicalEffectKey : Option String
  grantScopeHash : Option String
  outcomeDisposition : OutcomeDisposition
  result : Option Jsonb
  isCurrent : Bool
deriving DecidableEq

/-- A `partition_leases` row. -/
structure LeaseRow where
  partitionID : Int
  ownerID : Option String
  epoch : Int
  leaseExpiresAt : Option Int
deriving DecidableEq, Repr

/-- A `timers` row. -/
structure Timer where
  timerID : String
  node : NodeKey
  dueAt : Int
  purpose : TimerPurpose
  consumedAt : Option Int
  owningRevision : Int
deriving DecidableEq, Repr

/-- The key of a history row. -/
structure RevisionKey where
  workflowID : String
  revision : Int
deriving DecidableEq, Repr

/-- A `transition_history` row. -/
structure TransitionRecord where
  key : RevisionKey
  actorKind : String
  actorID : String
  schedulerEpoch : Option Int
  nodeID : Option String
  iteration : Option Int
  attemptNumber : Option Int
  oldState : Option WorkflowState
  newState : WorkflowState
  reason : String
deriving DecidableEq, Repr

/-- An `outbox` row; the columns after `publishState` are the relays'. -/
structure OutboxEvent where
  eventID : String
  workflowID : String
  aggregateRevision : Int
  eventType : String
  topic : String
  payload : Jsonb
  publishState : PublishState
  schemaVersion : Int
  relayAttempts : Int
  claimOwner : Option String
  claimExpiresAt : Option Int
  nextAttemptAt : Int
  lastError : Option String
  createdAt : Int
  publishedAt : Option Int
deriving DecidableEq

/-- A `retry_policies` row. -/
structure RetryPolicy where
  key : NodeKey
  maxRetries : Int
  retriesUsed : Int
  totalDeadlineAt : Option Int
  checkpointSchemaVersion : Int
deriving DecidableEq, Repr

/-- The key of a checkpoint: its node instance and its sequence number. -/
structure CheckpointKey where
  node : NodeKey
  sequence : Int
deriving DecidableEq, Repr

/-- A `checkpoints` row. -/
structure Checkpoint where
  key : CheckpointKey
  schemaVersion : Int
  sourceAttempt : Int
  payload : Jsonb
  payloadHash : String
deriving DecidableEq

/-- An `approval_action_intents` row. -/
structure ApprovalIntent where
  intentID : String
  node : NodeKey
  proposalHash : String
  proposalSignature : String
  target : String
  canonicalArguments : Jsonb
  expectedResourceRevision : String
  decision : Decision
  approverID : String
  validUntil : Int
  dispatchStatus : DispatchStatus
  grantScopeHash : String
  grantToken : String
  grantExpiresAt : Option Int
  decisionReason : String
  createdAt : Int
deriving DecidableEq

/-- A `cancellation_requests` row. -/
structure CancellationRequest where
  requestID : String
  workflowID : String
  clientKey : String
  observedRevision : Int
  status : CancellationStatus
  createdAt : Int
  appliedAt : Option Int
deriving DecidableEq, Repr

/-- An `attempt_result_evidence` row. -/
structure Evidence where
  evidenceID : String
  attempt : AttemptKey
  claimToken : Option String
  reconciliationRef : String
  payload : Jsonb
deriving DecidableEq

/-- The unique key of a reconciliation item. -/
structure ReconciliationKey where
  kind : ReconciliationKind
  reference : String
deriving DecidableEq, Repr

/-- A `reconciliation_items` row. -/
structure ReconciliationItem where
  key : ReconciliationKey
  workflowID : Option String
  partitionID : Option Int
  nodeID : Option String
  iteration : Option Int
  attemptNumber : Option Int
  status : ReconciliationStatus
  detail : Jsonb
deriving DecidableEq

/-- A `dur050_admission_slots` row. -/
structure AdmissionSlot where
  workflowID : String
  namespace_ : String
deriving DecidableEq, Repr

/-- A `scheduler_wakeups` row. -/
structure Wakeup where
  wakeupID : String
  workflowID : String
  partitionID : Int
  eventID : String
  reason : String
  state : WakeupState
deriving DecidableEq, Repr

/-- The unique key of a publication: the event and the claim that published it. -/
structure PublicationKey where
  eventID : String
  relayAttempt : Int
deriving DecidableEq, Repr

/-- An `outbox_publications` row. -/
structure OutboxPublication where
  key : PublicationKey
  relayOwner : String
  brokerAcknowledged : Bool
  error : Option String
deriving DecidableEq, Repr

/-- The key of an inbox row. -/
structure InboxKey where
  consumerID : String
  eventID : String
deriving DecidableEq, Repr

/-- An `event_inbox` row. -/
structure InboxRow where
  key : InboxKey
  disposition : InboxDisposition
  topic : Option String
  partition : Option Int
  offset : Option Int
deriving DecidableEq, Repr

/-- The key of a consumer's watermark. -/
structure StreamKey where
  consumerID : String
  topic : String
  partition : Int
deriving DecidableEq, Repr

/-- A `consumer_offsets` row. -/
structure ConsumerOffset where
  key : StreamKey
  nextOffset : Int
deriving DecidableEq, Repr

/-- The unique key of a quarantined delivery. -/
structure DeliveryKey where
  stream : StreamKey
  offset : Int
deriving DecidableEq, Repr

/-- A `transport_quarantine` row. -/
structure QuarantineRow where
  key : DeliveryKey
  eventID : Option String
  eventType : Option String
  payload : RawMessage
  reason : String
  workflowID : Option String
  partitionID : Option Int
deriving DecidableEq

/-- The key of an effect record. -/
structure EffectKey where
  workflowID : String
  logicalEffectKey : String
deriving DecidableEq, Repr

/-- An `effects.effect_records` row. -/
structure EffectRecord where
  key : EffectKey
  intentID : Option String
  argumentHash : String
  attemptNumber : Int
  grantScopeHash : Option String
  resourceID : Option String
  outcome : EffectOutcome
  receipt : Option Jsonb
deriving DecidableEq

/-- The unique key of an effect call. -/
structure CallKey where
  workflowID : String
  requestID : String
deriving DecidableEq, Repr

/-- An `effects.effect_call_attempts` row. -/
structure EffectCall where
  key : CallKey
  logicalEffectKey : String
  argumentHash : String
  attemptNumber : Int
  outcome : CallOutcome
  receipt : Option Jsonb
deriving DecidableEq

/-- An `effects.effect_resource_fences` row. -/
structure ResourceFence where
  resourceID : String
  nextToken : Int
  observedToken : Int
deriving DecidableEq, Repr

/-- An `effects.sandbox_effect_state` row. -/
structure SandboxState where
  resourceID : String
  state : Jsonb
  resourceRevision : Int
deriving DecidableEq

/-- An `effects.effect_resolution_audit` row. -/
structure EffectResolution where
  resolutionID : String
  effect : EffectKey
  argumentHash : String
  actorID : String
  disposition : ResolutionDisposition
  receipt : Option Jsonb
deriving DecidableEq

/-- The key of a definition. -/
structure DefinitionKey where
  definitionID : String
  version : Int
deriving DecidableEq, Repr

def Definition.key (d : Definition) : DefinitionKey := ⟨d.definitionID, d.version⟩

-- ============================================================================
-- The database
-- ============================================================================

/-- The tables of relays and consumers (`000006` to `000009`). -/
structure TransportTables where
  publications : Table OutboxPublication.key
  inbox : Table InboxRow.key
  consumerOffsets : Table ConsumerOffset.key
  quarantine : Table QuarantineRow.key
deriving DecidableEq

/-- The `effects` schema, which the cooperating effect service owns (`000012`, `000013`). -/
structure EffectTables where
  records : Table EffectRecord.key
  calls : Table EffectCall.key
  fences : Table ResourceFence.resourceID
  sandbox : Table SandboxState.resourceID
  resolutions : Table EffectResolution.resolutionID
deriving DecidableEq

/-- The `engine` and `effects` schemas with their clock. -/
structure DB where
  now : Int
  definitions : Table Definition.key
  workflows : Table Workflow.workflowID
  nodes : Table NodeInstance.key
  attempts : Table Attempt.key
  leases : Table LeaseRow.partitionID
  timers : Table Timer.timerID
  history : Table TransitionRecord.key
  outbox : Table OutboxEvent.eventID
  retryPolicies : Table RetryPolicy.key
  checkpoints : Table Checkpoint.key
  intents : Table ApprovalIntent.intentID
  cancellations : Table CancellationRequest.requestID
  evidence : Table Evidence.evidenceID
  reconciliation : Table ReconciliationItem.key
  admissionSlots : Table AdmissionSlot.workflowID
  wakeups : Table Wakeup.wakeupID
  transport : TransportTables
  effects : EffectTables
deriving DecidableEq

/-- Partitions are numbered `0` to `15`. -/
def partitionIDs : List Int := [0, 1, 2, 3, 4, 5, 6, 7, 8, 9, 10, 11, 12, 13, 14, 15]

/-- The freshly migrated database: sixteen free leases at epoch 0 and no other row. -/
def DB.init (now : Int) : DB where
  now := now
  definitions := .empty
  workflows := .empty
  nodes := .empty
  attempts := .empty
  leases := .ofRows (partitionIDs.map (fun p => ⟨p, none, 0, none⟩)) (by decide)
  timers := .empty
  history := .empty
  outbox := .empty
  retryPolicies := .empty
  checkpoints := .empty
  intents := .empty
  cancellations := .empty
  evidence := .empty
  reconciliation := .empty
  admissionSlots := .empty
  wakeups := .empty
  transport := ⟨.empty, .empty, .empty, .empty⟩
  effects := ⟨.empty, .empty, .empty, .empty, .empty⟩

end DurableEngine.State
