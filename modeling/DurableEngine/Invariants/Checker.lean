/-
  DurableEngine.Invariants.Checker

  The independent checker (`internal/invariants`) as far as it judges the
  moves of a workflow and its attempts: the records of a trace, the queries of
  `Load` that fill them, `allowedTransition` and `checkOwnershipAndAttempts`.

  The checker reads texts, not the store's enumerations, and reports what it
  finds as a list of violations.  Go visits the groups of a map in any order;
  here they stand in the order of their keys in the trace.
-/

import DurableEngine.State.Provision

namespace DurableEngine.Invariants

open Lib State

-- ============================================================================
-- Records
-- ============================================================================

structure HistoryRecord where
  workflowID : String
  revision : Int
  actorKind : String
  schedulerEpoch : Option Int
  oldState : String
  newState : String
  reason : String
deriving DecidableEq, Repr

structure AttemptRecord where
  workflowID : String
  nodeID : String
  iteration : Int
  attemptNumber : Int
  state : String
  claimToken : String
  workerID : String
  workerRequestID : String
  isCurrent : Bool
  resultRecorded : Bool
deriving DecidableEq, Repr

/-- `ORDER BY workflow_id, node_id, iteration, attempt_number`. -/
def attemptBefore (env : Env) (a b : Attempt) : Prop :=
  if a.key.node.workflowID ≠ b.key.node.workflowID then
    env.collation a.key.node.workflowID b.key.node.workflowID = true
  else if a.key.node.nodeID ≠ b.key.node.nodeID then
    env.collation a.key.node.nodeID b.key.node.nodeID = true
  else a.key.node.iteration < b.key.node.iteration ∨
    (a.key.node.iteration = b.key.node.iteration ∧ a.key.number ≤ b.key.number)

instance (env : Env) : DecidableRel (attemptBefore env) := fun _ _ =>
  inferInstanceAs (Decidable (ite _ _ _))

/-- The record of an attempt; absent texts are read as empty ones. -/
def attemptRecord (a : Attempt) : AttemptRecord where
  workflowID := a.key.node.workflowID
  nodeID := a.key.node.nodeID
  iteration := a.key.node.iteration
  attemptNumber := a.key.number
  state := a.state.text
  claimToken := a.claimToken.getD ""
  workerID := a.workerID.getD ""
  workerRequestID := a.workerRequestID.getD ""
  isCurrent := a.isCurrent
  resultRecorded := a.result.isSome

/-- The attempts `Load` selects for the workflows `ids`. -/
def loadAttempts (env : Env) (ids : List String) (db : DB) : List AttemptRecord :=
  ((db.attempts.select (fun a => decide (a.key.node.workflowID ∈ ids))).insertionSort
    (attemptBefore env)).map attemptRecord

-- ============================================================================
-- Transitions
-- ============================================================================

/-- `isTerminal`. -/
def isTerminal (state : String) : Bool :=
  ["SUCCEEDED", "FAILED", "REJECTED", "CANCELED", "ABANDONED"].contains state

/-- The states `allowedTransition` lists after a state. -/
def allowed (state : String) : List String :=
  if state = "RUNNABLE" then
    ["RUNNABLE", "WAITING_ACTIVITY", "WAITING_APPROVAL", "WAITING_TIMER",
      "PAUSED_UNSUPPORTED_VERSION", "SUCCEEDED", "FAILED", "CANCELED"]
  else if state = "WAITING_ACTIVITY" then
    ["WAITING_ACTIVITY", "RUNNABLE", "WAITING_TIMER", "RECONCILIATION_REQUIRED", "FAILED",
      "CANCELED"]
  else if state = "WAITING_TIMER" then ["WAITING_TIMER", "RUNNABLE", "CANCELED"]
  else if state = "WAITING_APPROVAL" then ["WAITING_APPROVAL", "RUNNABLE", "REJECTED", "CANCELED"]
  else if state = "PAUSED_UNSUPPORTED_VERSION" then
    ["PAUSED_UNSUPPORTED_VERSION", "RUNNABLE", "CANCELED", "ABANDONED"]
  else if state = "RECONCILIATION_REQUIRED" then
    ["RECONCILIATION_REQUIRED", "RUNNABLE", "CANCELED", "ABANDONED"]
  else []

/-- `allowedTransition`: the checker's own table. -/
def allowedTransition (source target : String) : Bool :=
  if isTerminal source then false else (allowed source).contains target

-- ============================================================================
-- Outbox
-- ============================================================================

/-- `requiresOutbox`: a history row of this reason goes with an event. -/
def requiresOutbox (reason : String) : Bool :=
  ["WORKFLOW_CREATED", "ATTEMPT_RESULT_RECORDED", "RESULT_CONSUMED", "GRAPH_ADVANCED",
    "TIMER_SCHEDULED", "CANCELED_ALL_ACTIVE_NODES", "REDISPATCH_UNCLAIMED", "TIMEOUT_REPLACEMENT",
    "TIMEOUT_RECONCILIATION_REQUIRED"].contains reason

-- ============================================================================
-- Ownership
-- ============================================================================

/-- The groups of a Go map filled by `append`. -/
def grouped {ρ : Type} (key : ρ → String) (records : List ρ) : List (String × List ρ) :=
  (records.map key).dedup.map (fun k => (k, records.filter (fun r => decide (key r = k))))

/-- The epochs of one workflow's history, with the last one accepted. -/
def scanEpochs (workflowID : String) : Int → List HistoryRecord → List String
  | _, [] => []
  | previousEpoch, record :: records =>
      if record.actorKind = "scheduler" then
        match record.schedulerEpoch with
        | none => ("scheduler history is missing an ownership epoch: " ++ workflowID) ::
            scanEpochs workflowID previousEpoch records
        | some epoch =>
            if epoch ≤ 0 then ("scheduler history is missing an ownership epoch: " ++ workflowID) ::
              scanEpochs workflowID previousEpoch records
            else if previousEpoch ≠ 0 ∧ epoch < previousEpoch then
              ("scheduler epoch moved backwards: " ++ workflowID) ::
                scanEpochs workflowID previousEpoch records
            else scanEpochs workflowID epoch records
      else if record.schedulerEpoch.isSome then
        ("non-scheduler history carries a scheduler epoch: " ++ workflowID) ::
          scanEpochs workflowID previousEpoch records
      else scanEpochs workflowID previousEpoch records

def checkOwnership (history : List HistoryRecord) : List String :=
  (grouped HistoryRecord.workflowID history).flatMap (fun group =>
    scanEpochs group.1 0 (group.2.insertionSort (fun r s => r.revision ≤ s.revision)))

-- ============================================================================
-- Attempts
-- ============================================================================

/-- `isTerminalAttempt`: an attempt in this state is over. -/
def isTerminalAttempt (state : String) : Bool :=
  ["SUCCEEDED", "FAILED_RETRYABLE", "FAILED_FINAL", "TIMED_OUT", "REPLACED", "OUTCOME_UNKNOWN",
    "CANCELED"].contains state

namespace AttemptRecord

/-- The record names its attempt. -/
def complete (a : AttemptRecord) : Bool :=
  !(a.workflowID = "" || a.nodeID = "" || a.iteration < 0 || a.attemptNumber ≤ 0)

/-- `"%s\x00%s\x00%d"` of the node. -/
def nodeKey (a : AttemptRecord) : String :=
  a.workflowID ++ "\x00" ++ a.nodeID ++ "\x00" ++ toString a.iteration

/-- The rules for a single attempt. -/
def violations (a : AttemptRecord) : List String :=
  if a.complete then
    (if a.isCurrent && isTerminalAttempt a.state then
      ["terminal attempt remains current: " ++ a.nodeKey] else []) ++
    (if a.state = "CLAIMED" ∧ (a.claimToken = "" ∨ a.workerID = "" ∨ a.workerRequestID = "") then
      ["claimed attempt is missing worker ownership: " ++ a.nodeKey] else []) ++
    (if a.resultRecorded = true ∧ a.state ∈ ["TIMED_OUT", "REPLACED", "CANCELED", "OUTCOME_UNKNOWN"]
      then ["stale worker result recorded on settled attempt: " ++ a.nodeKey] else [])
  else ["attempt identity is incomplete"]

end AttemptRecord

/-- The attempts of one node, from the number `want` on: the scan stops at a gap. Returned with
    the number of current attempts it passed. -/
def scanGeneration (key : String) : Int → Nat → List AttemptRecord → List String × Nat
  | _, current, [] => ([], current)
  | want, current, record :: records =>
      if record.attemptNumber ≠ want then
        (["attempt generation is not contiguous for " ++ key], current)
      else scanGeneration key (want + 1) (if record.isCurrent then current + 1 else current) records

/-- The rules for the attempts of one node. -/
def generationViolations (key : String) (records : List AttemptRecord) : List String :=
  let scan := scanGeneration key 1 0
    (records.insertionSort (fun a b => a.attemptNumber ≤ b.attemptNumber))
  scan.1 ++ (if 1 < scan.2 then ["more than one current attempt: " ++ key] else [])

def checkAttempts (attempts : List AttemptRecord) : List String :=
  attempts.flatMap AttemptRecord.violations ++
    (grouped AttemptRecord.nodeKey (attempts.filter AttemptRecord.complete)).flatMap
      (fun group => generationViolations group.1 group.2)

/-- `checkOwnershipAndAttempts`. -/
def checkOwnershipAndAttempts (history : List HistoryRecord) (attempts : List AttemptRecord) :
    List String :=
  checkOwnership history ++ checkAttempts attempts

end DurableEngine.Invariants
