/-
  DurableEngine.State.Attempts

  The life of an activity attempt (`internal/state/store.go`): the scheduler
  creates and times it out, a worker claims it, keeps it alive and submits
  its result, late results are kept as evidence.
-/

import DurableEngine.State.Owner

namespace DurableEngine.State

open Lib

/-- `time.Minute`, the default dispatch and attempt lease. -/
def minute : Int := 60000000000

def nullableString (s : String) : Option String := if s = "" then none else some s

/-- The attempts of a node instance. -/
def DB.attemptsOf (db : DB) (k : NodeKey) : List Attempt :=
  db.attempts.select (fun a => a.key.node = k)

/-- `COALESCE(MAX(attempt_number), 0)`. -/
def DB.maxAttempt (db : DB) (k : NodeKey) : Int :=
  (db.attemptsOf k).foldl (fun m a => max m a.key.number) 0

def lower (best : Option Attempt) (a : Attempt) : Option Attempt :=
  match best with
  | none => some a
  | some b => if a.key.number < b.key.number then some a else some b

/-- The attempt of a node with the lowest number. -/
def DB.firstAttempt (db : DB) (k : NodeKey) : Option Attempt :=
  (db.attemptsOf k).foldl lower none

/-- `INSERT INTO activity_attempts`, under its primary key and the unique index
    on the current attempt of a node. -/
def insertAttempt (db : DB) (context : String) (a : Attempt) : Except Err DB := do
  rejectIf (a.isCurrent = true ∧ ∃ b ∈ db.attempts.rows, b.key.node = a.key.node ∧ b.isCurrent = true)
    (.constraint context "activity_attempts_one_current")
  let attempts ← getOr (db.attempts.insert? a) (.constraint context "activity_attempts_pkey")
  return { db with attempts := attempts }

/-- A dispatchable attempt that nobody has claimed. -/
def freshAttempt (key : AttemptKey) (effectClass : EffectClass) (deadline : Int)
    (logicalEffectKey grantScopeHash : Option String) : Attempt :=
  ⟨key, .dispatchable, effectClass, none, none, none, some deadline, logicalEffectKey,
    grantScopeHash, .none, none, true⟩

-- ============================================================================
-- CreateAttempt
-- ============================================================================

structure AttemptInput where
  lease : LeaseRef
  workflowID : String
  nodeID : String
  iteration : Int
  expectedRevision : Int
  effectClass : EffectClass
  logicalEffectKey : String
  grantScopeHash : String
  dispatchLease : Int
  actorID : String

def AttemptInput.key (input : AttemptInput) : NodeKey :=
  ⟨input.workflowID, input.nodeID, input.iteration⟩

/-- The effect class the definition declares for a node. -/
def definitionClass (db : DB) (workflow : Workflow) (nodeID : String) : Except Err EffectClass := do
  let definition ← getOr (db.definitions.get ⟨workflow.definitionID, workflow.definitionVersion⟩)
    (.noRows "read activity effect class")
  let text ← getOr (effectClassText definition.effectClasses nodeID) (.sentinel .missingEffectClass)
  rejectIf (text = "") (.sentinel .missingEffectClass)
  getOr (EffectClass.ofText text) (.text ("invalid stored effect class " ++ quote text))

/-- The effect key and grant scope of a new attempt: those of the node's first
    attempt, unless the activity is pure. -/
def effectIdentity (db : DB) (input : AttemptInput) (effectClass : EffectClass) :
    Except Err (String × String) :=
  match effectClass, db.firstAttempt input.key with
  | .pure, _ | _, none => .ok (input.logicalEffectKey, input.grantScopeHash)
  | _, some first => do
      rejectIf (input.logicalEffectKey ≠ "" ∧ first.logicalEffectKey ≠ some input.logicalEffectKey)
        (.sentinel .effectIdentityMismatch)
      rejectIf (input.grantScopeHash ≠ "" ∧ first.grantScopeHash ≠ some input.grantScopeHash)
        (.sentinel .effectIdentityMismatch)
      return (first.logicalEffectKey.getD input.logicalEffectKey,
        first.grantScopeHash.getD input.grantScopeHash)

/-- The payload that announces an attempt to the workers. -/
def dispatchPayload (env : Env) (key : NodeKey) (attemptNumber : Int) : Option Jsonb :=
  sprintfJson env [("workflow_id", .quoted key.workflowID), ("node_id", .quoted key.nodeID),
    ("iteration", .int key.iteration), ("attempt_number", .int attemptNumber)]

/-- `CreateAttempt`. -/
def createAttempt (env : Env) (amb : Ambient) (input : AttemptInput) (db : DB) :
    Except Err (Attempt × DB) := do
  rejectIf (input.workflowID = "" ∨ input.nodeID = "" ∨ input.actorID = "")
    (.text "attempt identity and actor are required")
  let dispatchLease := if input.dispatchLease = 0 then minute else input.dispatchLease
  let workflow ← lockOwnedWorkflow db input.lease input.workflowID input.expectedRevision
    "lock workflow for attempt"
  rejectIf (workflow.state ≠ .waitingActivity)
    (.text ("workflow state " ++ workflow.state.text ++ " cannot create an attempt"))
  let effectClass ← definitionClass db workflow input.nodeID
  rejectIf (input.effectClass ≠ effectClass)
    (.wrapped .effectClassMismatch
      ("got " ++ input.effectClass.text ++ ", want " ++ effectClass.text))
  let (logicalEffectKey, grantScopeHash) ← effectIdentity db input effectClass
  rejectIf (effectClass = .cooperating ∧ logicalEffectKey = "")
    (.text "cooperating effects require a logical effect key")
  let node ← getOr (db.nodes.get input.key) (.noRows "lock node for attempt")
  rejectIf (node.state ≠ .waitingActivity)
    (.text ("node state " ++ node.state.text ++ " cannot create an attempt"))
  rejectIf (node.currentAttempt.getD 0 ≠ 0)
    (.text ("node already has current attempt " ++ toString (node.currentAttempt.getD 0)))
  let attemptNumber := db.maxAttempt input.key + 1
  let attempt := freshAttempt ⟨input.key, attemptNumber⟩ effectClass (db.now + dispatchLease)
    (nullableString logicalEffectKey) (nullableString grantScopeHash)
  let db ← insertAttempt db "insert attempt" attempt
  let db := db.modifyNode input.key (fun n => { n with currentAttempt := some attemptNumber })
  let newRevision := workflow.revision + 1
  let db := db.setWorkflow input.workflowID workflow.state newRevision
  let db ← insertHistory db input.workflowID newRevision "scheduler" input.actorID
    (some input.lease.epoch) input.nodeID (some input.iteration) (some attemptNumber)
    (some workflow.state) workflow.state "ATTEMPT_CREATED"
  let db ← insertOutbox amb db input.workflowID newRevision "attempt.dispatch"
    (dispatchPayload env input.key attemptNumber)
  return (attempt, db)

/-- `GetAttempt`. -/
def getAttempt (key : AttemptKey) (db : DB) : Except Err Attempt :=
  getOr (db.attempts.get key) (.noRows "")

-- ============================================================================
-- ClaimAttempt and HeartbeatAttempt
-- ============================================================================

structure ClaimInput where
  expectedAttempt : Int
  workflowID : String
  nodeID : String
  iteration : Int
  workerID : String
  requestID : String
  attemptLease : Int

def ClaimInput.key (input : ClaimInput) : NodeKey :=
  ⟨input.workflowID, input.nodeID, input.iteration⟩

structure ClaimResult where
  attemptNumber : Int
  claimToken : String
  effectClass : EffectClass
  heartbeatDeadline : Option Int
deriving DecidableEq, Repr

/-- The attempt a worker request was bound to. -/
def DB.workerRequest (db : DB) (requestID : String) : Option Attempt :=
  db.attempts.rows.find? (fun a => a.workerRequestID = some requestID)

/-- A repeated claim request returns the claim it was given. -/
def replayClaim (input : ClaimInput) (existing : Attempt) : Except Err ClaimResult := do
  rejectIf (existing.key.node ≠ input.key) (.sentinel .claimRequestConflict)
  rejectIf (existing.isCurrent = false ∨ existing.state ≠ .claimed) (.sentinel .staleClaim)
  let token ← getOr existing.claimToken (.sentinel .staleClaim)
  rejectIf (input.expectedAttempt ≠ 0 ∧ existing.key.number ≠ input.expectedAttempt)
    (.sentinel .attemptNotCurrent)
  return ⟨existing.key.number, token, existing.effectClass, existing.heartbeatDeadline⟩

/-- Bind the node's dispatchable attempt to the worker. -/
def bindClaim (amb : Ambient) (input : ClaimInput) (db : DB) : Except Err (ClaimResult × DB) := do
  let node ← getOr (db.nodes.get input.key) (.sentinel .nodeNotFound)
  let attemptNumber := node.currentAttempt.getD 0
  rejectIf (input.expectedAttempt ≠ 0 ∧ attemptNumber ≠ input.expectedAttempt)
    (.sentinel .attemptNotCurrent)
  let attempt ← getOr (db.attempts.get ⟨input.key, attemptNumber⟩) (.sentinel .attemptNotCurrent)
  rejectIf (attempt.isCurrent = false ∨ attempt.state ≠ .dispatchable)
    (.sentinel .attemptNotCurrent)
  let deadline := db.now + (if input.attemptLease ≤ 0 then minute else input.attemptLease)
  let db := db.modifyAttempt ⟨input.key, attemptNumber⟩ (fun a => { a with
    state := .claimed
    claimToken := some amb.claimToken
    workerID := some input.workerID
    workerRequestID := some input.requestID
    heartbeatDeadline := some deadline })
  return (⟨attemptNumber, amb.claimToken, attempt.effectClass, some deadline⟩, db)

/-- `ClaimAttempt`. -/
def claimAttempt (amb : Ambient) (input : ClaimInput) (db : DB) :
    Except Err (ClaimResult × DB) := do
  rejectIf (input.workflowID = "" ∨ input.nodeID = "" ∨ input.workerID = "" ∨ input.requestID = "")
    (.text "claim identity is required")
  let workflow ← getOr (db.workflows.get input.workflowID) (.sentinel .workflowNotFound)
  rejectIf (workflow.state ≠ .waitingActivity)
    (.wrapped .attemptNotCurrent ("workflow state " ++ workflow.state.text ++ " cannot claim work"))
  match db.workerRequest input.requestID with
  | some existing => do
      let result ← replayClaim input existing
      return (result, db)
  | none => bindClaim amb input db

structure HeartbeatInput where
  workflowID : String
  nodeID : String
  iteration : Int
  attemptNumber : Int
  claimToken : String
  extension : Int

def HeartbeatInput.key (input : HeartbeatInput) : NodeKey :=
  ⟨input.workflowID, input.nodeID, input.iteration⟩

/-- `HeartbeatAttempt`. -/
def heartbeatAttempt (input : HeartbeatInput) (db : DB) : Except Err (Int × DB) := do
  rejectIf (input.workflowID = "" ∨ input.nodeID = "" ∨ input.claimToken = "")
    (.text "heartbeat identity is required")
  let workflow ← getOr (db.workflows.get input.workflowID) (.sentinel .workflowNotFound)
  rejectIf (workflow.state.isTerminal) (.sentinel .staleClaim)
  let node ← getOr (db.nodes.get input.key) (.sentinel .nodeNotFound)
  rejectIf (node.currentAttempt.getD 0 ≠ input.attemptNumber) (.sentinel .staleClaim)
  let token ← getOr (uuidText input.claimToken) (.invalidText "extend attempt heartbeat")
  let attempt ← getOr (db.attempts.get ⟨input.key, input.attemptNumber⟩) (.sentinel .staleClaim)
  rejectIf (attempt.isCurrent = false ∨ attempt.state ≠ .claimed ∨
    attempt.claimToken ≠ some token) (.sentinel .staleClaim)
  let deadline := db.now + (if input.extension ≤ 0 then minute else input.extension)
  return (deadline, db.modifyAttempt ⟨input.key, input.attemptNumber⟩
    (fun a => { a with heartbeatDeadline := some deadline }))

-- ============================================================================
-- RecordResultReceipt
-- ============================================================================

structure ResultInput where
  workflowID : String
  nodeID : String
  iteration : Int
  attemptNumber : Int
  claimToken : String
  attemptState : AttemptState
  payload : RawMessage
  eventType : String
  reconciliationRef : String

def ResultInput.key (input : ResultInput) : AttemptKey :=
  ⟨⟨input.workflowID, input.nodeID, input.iteration⟩, input.attemptNumber⟩

inductive ResultDisposition where
  | accepted | recordedAsEvidence
deriving DecidableEq, Repr

structure ResultReceipt where
  disposition : ResultDisposition
  key : AttemptKey
  attemptState : AttemptState
  payload : RawMessage

/-- The reference of an attempt in the reconciliation tables. -/
def attemptReference (key : AttemptKey) : String :=
  "attempt/" ++ key.node.workflowID ++ "/" ++ key.node.nodeID ++ "/" ++
    toString key.node.iteration ++ "/" ++ toString key.number

/-- `isLateEvidenceAttempt`. -/
def Attempt.isLateEvidence (a : Attempt) : Bool :=
  a.outcomeDisposition = .outcomeUnknown &&
    ((a.effectClass = .nonCooperating && a.state = .timedOut) ||
      (a.effectClass ≠ .pure && a.state = .canceled))

/-- `jsonEqual` of a stored document and a submitted message. -/
def payloadEqual (stored : Option Jsonb) (payload : RawMessage) : Bool :=
  match stored, payload with
  | some s, .json v => Json.jsonEqual s.doc v
  | _, _ => false

/-- `insertAttemptEvidence`: the evidence row of the attempt, token and
    reference, written once. -/
def insertAttemptEvidence (amb : Ambient) (db : DB) (key : AttemptKey) (claimToken : String)
    (reconciliationRef : String) (payload : RawMessage) : Except Err (String × DB) := do
  rejectIf (reconciliationRef = "" ∨ payload.isEmpty)
    (.text "reconciliation reference and evidence payload are required")
  match db.evidence.rows.find? (fun e => e.attempt = key && e.claimToken = some claimToken &&
      e.reconciliationRef = reconciliationRef) with
  | some existing => do
      rejectIf (!payloadEqual (some existing.payload) payload) (.sentinel .evidenceConflict)
      return (existing.evidenceID, db)
  | none => do
      let document ← getOr payload.toJsonb (.invalidText "insert attempt-result evidence")
      let evidence ← getOr
        (db.evidence.insert? ⟨amb.evidenceID, key, some claimToken, reconciliationRef, document⟩)
        (.constraint "insert attempt-result evidence" "attempt_result_evidence_pkey")
      return (amb.evidenceID, { db with evidence := evidence })

/-- The first result of a claimed attempt. -/
def acceptResult (amb : Ambient) (input : ResultInput) (payload : RawMessage) (eventType : String)
    (workflow : Workflow) (attempt : Attempt) (db : DB) : Except Err (ResultReceipt × DB) := do
  let document ← getOr payload.toJsonb (.invalidText "record attempt result")
  let db := db.modifyAttempt input.key (fun a => { a with
    state := input.attemptState
    outcomeDisposition := if input.attemptState = .succeeded then .knownSuccess else .none
    result := some document
    isCurrent := false })
  let newRevision := workflow.revision + 1
  let db := db.setWorkflow input.workflowID workflow.state newRevision
  let db ← insertHistory db input.workflowID newRevision "worker" (attempt.workerID.getD "worker")
    none input.nodeID (some input.iteration) (some input.attemptNumber) (some workflow.state)
    workflow.state "ATTEMPT_RESULT_RECORDED"
  let db ← insertOutbox amb db input.workflowID newRevision eventType (some document)
  return (⟨.accepted, input.key, input.attemptState, payload⟩, db)

/-- The branches of a submission, once the attempt is found under its token. -/
def settleResult (amb : Ambient) (input : ResultInput) (payload : RawMessage) (eventType : String)
    (token : String) (workflow : Workflow) (node : NodeInstance) (attempt : Attempt) (db : DB) :
    Except Err (ResultReceipt × DB) :=
  if !attempt.isCurrent && attempt.state.isTerminal then do
    rejectIf (attempt.state ≠ input.attemptState ∨ !payloadEqual attempt.result payload)
      (.sentinel .resultConflict)
    return (⟨.accepted, input.key, attempt.state,
      (attempt.result.map (fun r => .json r.doc)).getD .empty⟩, db)
  else if attempt.isLateEvidence then do
    let reference := if input.reconciliationRef = "" then attemptReference input.key
      else input.reconciliationRef
    let (_, db) ← insertAttemptEvidence amb db input.key token reference payload
    return (⟨.recordedAsEvidence, input.key, attempt.state, payload⟩, db)
  else do
    rejectIf (workflow.state.isTerminal) (.sentinel .attemptNotCurrent)
    rejectIf (node.currentAttempt ≠ some input.attemptNumber ∨ attempt.isCurrent = false ∨
      attempt.state ≠ .claimed) (.sentinel .attemptNotCurrent)
    acceptResult amb input payload eventType workflow attempt db

/-- `RecordResultReceipt`. -/
def recordResultReceipt (amb : Ambient) (input : ResultInput) (db : DB) :
    Except Err (ResultReceipt × DB) := do
  rejectIf (input.workflowID = "" ∨ input.nodeID = "" ∨ input.claimToken = "")
    (.text "result identity is required")
  rejectIf (!input.attemptState.isTerminal)
    (.wrapped .invalidAttemptState "result must be a terminal attempt outcome")
  let eventType := normalizeResultEventType input.eventType
  rejectIf (eventTopicFor eventType = none) (.wrapped .invalidEventType eventType)
  let payload := input.payload.orEmptyObject
  rejectIf (!payload.valid) (.text "result payload must be valid JSON")
  let workflow ← getOr (db.workflows.get input.workflowID) (.sentinel .workflowNotFound)
  let node ← getOr (db.nodes.get input.key.node) (.sentinel .nodeNotFound)
  let token ← getOr (uuidText input.claimToken) (.invalidText "lock claimed attempt")
  let attempt ← getOr (db.attempts.get input.key) (.sentinel .attemptNotCurrent)
  rejectIf (attempt.claimToken ≠ some token) (.sentinel .attemptNotCurrent)
  settleResult amb input payload eventType token workflow node attempt db

structure LateEvidenceInput where
  workflowID : String
  nodeID : String
  iteration : Int
  attemptNumber : Int
  claimToken : String
  reconciliationRef : String
  payload : RawMessage

def LateEvidenceInput.key (input : LateEvidenceInput) : AttemptKey :=
  ⟨⟨input.workflowID, input.nodeID, input.iteration⟩, input.attemptNumber⟩

/-- `RecordLateEvidence`; the reply is the evidence ID. -/
def recordLateEvidence (amb : Ambient) (input : LateEvidenceInput) (db : DB) :
    Except Err (String × DB) := do
  rejectIf (input.reconciliationRef = "" ∨ input.payload.isEmpty)
    (.text "reconciliation reference and evidence payload are required")
  let workflow ← getOr (db.workflows.get input.workflowID)
    (.noRows "lock workflow for late evidence")
  let node ← getOr (db.nodes.get input.key.node) (.noRows "lock node for late evidence")
  let attempt ← getOr (db.attempts.get input.key) (.noRows "lock timed-out attempt")
  rejectIf (!attempt.isLateEvidence) (.sentinel .notTimedOut)
  rejectIf (input.claimToken = "" ∨ attempt.claimToken ≠ some input.claimToken)
    (.sentinel .attemptNotCurrent)
  rejectIf (attempt.state = .timedOut ∧ node.currentAttempt ≠ some input.attemptNumber)
    (.sentinel .attemptNotCurrent)
  rejectIf (workflow.state.isTerminal = false ∧ node.currentAttempt = none)
    (.sentinel .attemptNotCurrent)
  insertAttemptEvidence amb db input.key input.claimToken input.reconciliationRef input.payload

-- ============================================================================
-- TimeoutAttempt
-- ============================================================================

structure TimeoutInput where
  lease : LeaseRef
  workflowID : String
  nodeID : String
  iteration : Int
  attemptNumber : Int
  expectedRevision : Int
  actorID : String
  dispatchLease : Int

def TimeoutInput.key (input : TimeoutInput) : AttemptKey :=
  ⟨⟨input.workflowID, input.nodeID, input.iteration⟩, input.attemptNumber⟩

structure TimeoutResult where
  attemptNumber : Int
  replacementNumber : Option Int
  redispatched : Bool
  reconciliation : Bool
deriving DecidableEq, Repr

/-- `updateRevisionAndHistory`. -/
def updateRevisionAndHistory (db : DB) (input : TimeoutInput) (oldState : WorkflowState)
    (newRevision : Int) (reason : String) : Except Err DB :=
  let newState := if reason = "TIMEOUT_RECONCILIATION_REQUIRED" then
    WorkflowState.reconciliationRequired else oldState
  insertHistory (db.setWorkflow input.workflowID newState newRevision) input.workflowID newRevision
    "scheduler" input.actorID (some input.lease.epoch) input.nodeID (some input.iteration)
    (some input.attemptNumber) (some oldState) newState reason

/-- The reconciliation item of an effect whose outcome is unknown. -/
def openExpiredAttempt (db : DB) (workflow : Workflow) (input : TimeoutInput) (detail : Jsonb) : DB :=
  let key : ReconciliationKey := ⟨.expiredAttempt, attemptReference input.key⟩
  let item : ReconciliationItem := ⟨key, some input.workflowID, some workflow.partitionID,
    some input.nodeID, some input.iteration, some input.attemptNumber, .open, detail⟩
  match db.reconciliation.insert? item with
  | some reconciliation => { db with reconciliation := reconciliation }
  | none => { db with
      reconciliation := db.reconciliation.modify key (fun r => { r with detail := detail })
        (fun _ => rfl) }

/-- An unclaimed attempt is announced again. -/
def redispatch (env : Env) (amb : Ambient) (input : TimeoutInput) (workflow : Workflow)
    (deadline : Int) (db : DB) : Except Err (TimeoutResult × DB) := do
  let newRevision := workflow.revision + 1
  let db := db.modifyAttempt input.key (fun a => { a with heartbeatDeadline := some deadline })
  let db ← updateRevisionAndHistory db input workflow.state newRevision "REDISPATCH_UNCLAIMED"
  let db ← insertOutbox amb db input.workflowID newRevision "attempt.redispatch"
    (dispatchPayload env input.key.node input.attemptNumber)
  return (⟨input.attemptNumber, none, true, false⟩, db)

/-- A claimed non-cooperating effect needs reconciliation. -/
def requireReconciliation (env : Env) (amb : Ambient) (input : TimeoutInput) (workflow : Workflow)
    (db : DB) : Except Err (TimeoutResult × DB) := do
  let newRevision := workflow.revision + 1
  let detail ← getOr (Jsonb.ofJson? (.obj [("reason", .str "non-cooperating effect timeout"),
    ("outcome", .str "OUTCOME_UNKNOWN")])) (.invalidText "record timeout reconciliation item")
  let db := db.modifyAttempt input.key (fun a => { a with
    state := .timedOut, isCurrent := false, outcomeDisposition := .outcomeUnknown })
  let db := openExpiredAttempt db workflow input detail
  let db ← updateRevisionAndHistory db input workflow.state newRevision
    "TIMEOUT_RECONCILIATION_REQUIRED"
  let db := db.setWorkflow input.workflowID .reconciliationRequired newRevision
  let db ← insertOutbox amb db input.workflowID newRevision "reconciliation.required"
    (sprintfJson env [("workflow_id", .quoted input.workflowID), ("node_id", .quoted input.nodeID),
      ("iteration", .int input.iteration), ("attempt_number", .int input.attemptNumber),
      ("reference", .quoted (attemptReference input.key))])
  return (⟨input.attemptNumber, none, false, true⟩, db)

/-- A claimed attempt that may be repeated is replaced by the next one. -/
def replaceAttempt (env : Env) (amb : Ambient) (input : TimeoutInput) (workflow : Workflow)
    (attempt : Attempt) (deadline : Int) (db : DB) : Except Err (TimeoutResult × DB) := do
  let newRevision := workflow.revision + 1
  let newAttempt := input.attemptNumber + 1
  let db := db.modifyAttempt input.key (fun a => { a with state := .timedOut, isCurrent := false })
  let db ← insertAttempt db "create replacement attempt"
    (freshAttempt ⟨input.key.node, newAttempt⟩ attempt.effectClass deadline
      attempt.logicalEffectKey attempt.grantScopeHash)
  let db := db.modifyNode input.key.node (fun n => { n with currentAttempt := some newAttempt })
  let db ← updateRevisionAndHistory db input workflow.state newRevision "TIMEOUT_REPLACEMENT"
  let db ← insertOutbox amb db input.workflowID newRevision "attempt.dispatch"
    (dispatchPayload env input.key.node newAttempt)
  return (⟨input.attemptNumber, some newAttempt, false, false⟩, db)

/-- `TimeoutAttempt`. -/
def timeoutAttempt (env : Env) (amb : Ambient) (input : TimeoutInput) (db : DB) :
    Except Err (TimeoutResult × DB) := do
  let _ ← lockLease db input.lease
  let workflow ← getOr (db.workflows.get input.workflowID) (.noRows "lock workflow for timeout")
  rejectIf (workflow.partitionID ≠ input.lease.partitionID)
    (.text (partitionText workflow.partitionID input.lease.partitionID))
  rejectIf (workflow.state.isTerminal) (.sentinel .attemptNotCurrent)
  rejectIf (workflow.revision ≠ input.expectedRevision)
    (.wrapped .revisionConflict (revisionText input.expectedRevision workflow.revision))
  let node ← getOr (db.nodes.get input.key.node) (.noRows "lock node for timeout")
  rejectIf (node.currentAttempt.getD 0 ≠ input.attemptNumber) (.sentinel .attemptNotCurrent)
  let attempt ← getOr ((db.attempts.get input.key).filter (·.isCurrent))
    (.noRows "lock current attempt for timeout")
  rejectIf (¬ attempt.heartbeatDeadline.any (fun d => d ≤ db.now))
    (.text "attempt heartbeat deadline has not passed")
  let deadline := db.now + (if input.dispatchLease ≤ 0 then minute else input.dispatchLease)
  if attempt.state = .dispatchable then
    redispatch env amb input workflow deadline db
  else if attempt.state ≠ .claimed then
    .error (.sentinel .attemptNotCurrent)
  else if attempt.effectClass = .nonCooperating then
    requireReconciliation env amb input workflow db
  else
    replaceAttempt env amb input workflow attempt deadline db

end DurableEngine.State
