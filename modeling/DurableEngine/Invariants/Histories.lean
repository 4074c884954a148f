/-
  DurableEngine.Invariants.Histories

  `Load` and the checker's rules for histories, results and submissions
  (`snapshot.go`, `checkHistory`, `checkResults`, `checkSubmissions`,
  `reconcileSubmissions`).  Every query of `Load` reads one snapshot.

  Go visits the groups of a map in any order; here they stand in the order of
  their keys in the trace.
-/

import DurableEngine.Invariants.Attempts
import DurableEngine.Lib.Quote

namespace DurableEngine.Invariants

open Lib State

-- ============================================================================
-- Records
-- ============================================================================

structure WorkflowRecord where
  workflowID : String
  state : String
  revision : Int
deriving DecidableEq, Repr

structure AcceptedResult where
  workflowID : String
  nodeID : String
  iteration : Int
  accepted : Bool
deriving DecidableEq, Repr

structure SubmissionRecord where
  namespace_ : String
  key : String
  hash : String
  workflowID : String
deriving DecidableEq, Repr

structure OutboxRecord where
  workflowID : String
  eventID : String
  aggregateRevision : Int
  eventType : String
  topic : String
  publishState : String
  payloadValid : Bool
deriving DecidableEq, Repr

structure InboxRecord where
  consumerID : String
  eventID : String
  topic : String
  partition : Int
  offset : Int
  disposition : String
deriving DecidableEq, Repr

structure WakeupRecord where
  workflowID : String
  eventID : String
  partitionID : Int
  state : String
deriving DecidableEq, Repr

structure ReconciliationRecord where
  workflowID : String
  kind : String
  reference : String
  status : String
deriving DecidableEq, Repr

/-- `Trace`, as far as the rules for histories, results, submissions, attempts and the transport read it. -/
structure Trace where
  workflows : List WorkflowRecord
  history : List HistoryRecord
  results : List AcceptedResult
  submissions : List SubmissionRecord
  attempts : List AttemptRecord
  outbox : List OutboxRecord
  inbox : List InboxRecord
  wakeups : List WakeupRecord
  reconciliation : List ReconciliationRecord
deriving DecidableEq, Repr

def InboxDisposition.text : InboxDisposition → String
  | .accepted => "ACCEPTED"
  | .alreadyHandled => "ALREADY_HANDLED"
  | .stale => "STALE"
  | .quarantined => "QUARANTINED"

def WakeupState.text : WakeupState → String
  | .pending => "PENDING"
  | .claimed => "CLAIMED"
  | .consumed => "CONSUMED"

def ReconciliationKind.text : ReconciliationKind → String
  | .expiredAttempt => "EXPIRED_ATTEMPT"
  | .pendingOutbox => "PENDING_OUTBOX"
  | .lostWakeup => "LOST_WAKEUP"
  | .dueTimer => "DUE_TIMER"
  | .poisonRecord => "POISON_RECORD"

def ReconciliationStatus.text : ReconciliationStatus → String
  | .open => "OPEN"
  | .resolved => "RESOLVED"
  | .abandoned => "ABANDONED"

-- ============================================================================
-- Load
-- ============================================================================

/-- `ORDER BY` of a text column. -/
def byText (env : Env) {ρ : Type} (column : ρ → String) (a b : ρ) : Prop :=
  column a = column b ∨ env.collation (column a) (column b) = true

instance (env : Env) {ρ : Type} (column : ρ → String) : DecidableRel (byText env column) :=
  fun _ _ => inferInstanceAs (Decidable (_ ∨ _))

def loadWorkflows (env : Env) (ids : List String) (db : DB) : List WorkflowRecord :=
  ((db.workflows.select (fun w => decide (w.workflowID ∈ ids))).insertionSort
    (byText env Workflow.workflowID)).map (fun w => ⟨w.workflowID, w.state.text, w.revision⟩)

/-- The record of a history row; an absent old state is read as the empty text. -/
def historyRecord (row : TransitionRecord) : HistoryRecord where
  workflowID := row.key.workflowID
  revision := row.key.revision
  actorKind := row.actorKind
  schedulerEpoch := row.schedulerEpoch
  oldState := (row.oldState.map WorkflowState.text).getD ""
  newState := row.newState.text
  reason := row.reason

/-- `ORDER BY workflow_id, revision`: by revision, then by workflow. -/
def loadHistory (env : Env) (ids : List String) (db : DB) : List HistoryRecord :=
  (((db.history.select (fun row => decide (row.key.workflowID ∈ ids))).insertionSort
    (fun a b => a.key.revision ≤ b.key.revision)).insertionSort
      (byText env (fun row => row.key.workflowID))).map historyRecord

/-- The nodes with an accepted result, `ORDER BY workflow_id, node_id, iteration`. -/
def loadResults (env : Env) (ids : List String) (db : DB) : List AcceptedResult :=
  ((((db.nodes.select (fun n => decide (n.key.workflowID ∈ ids) && n.acceptedResult.isSome)).insertionSort
    (fun a b => a.key.iteration ≤ b.key.iteration)).insertionSort
      (byText env (fun n => n.key.nodeID))).insertionSort
        (byText env (fun n => n.key.workflowID))).map
          (fun n => ⟨n.key.workflowID, n.key.nodeID, n.key.iteration, true⟩)

def loadSubmissions (env : Env) (ids : List String) (db : DB) : List SubmissionRecord :=
  ((db.workflows.select (fun w => decide (w.workflowID ∈ ids))).insertionSort
    (byText env Workflow.workflowID)).map
      (fun w => ⟨w.namespace_, w.submissionKey, w.payloadHash, w.workflowID⟩)

/-- The record of an event; the payload column is never null. -/
def outboxRecord (o : OutboxEvent) : OutboxRecord where
  workflowID := o.workflowID
  eventID := o.eventID
  aggregateRevision := o.aggregateRevision
  eventType := o.eventType
  topic := o.topic
  publishState := o.publishState.text
  payloadValid := true

/-- `ORDER BY event_id`. -/
def loadOutbox (ids : List String) (db : DB) : List OutboxRecord :=
  ((db.outbox.select (fun o => decide (o.workflowID ∈ ids))).insertionSort
    (fun a b => a.eventID ≤ b.eventID)).map outboxRecord

/-- The record of an inbox row; absent columns are read as empty ones. -/
def inboxRecord (row : InboxRow) : InboxRecord where
  consumerID := row.key.consumerID
  eventID := row.key.eventID
  topic := row.topic.getD ""
  partition := row.partition.getD 0
  offset := row.offset.getD 0
  disposition := InboxDisposition.text row.disposition

/-- The rows of the events of `ids`, `ORDER BY consumer_id, event_id`. -/
def loadInbox (env : Env) (ids : List String) (db : DB) : List InboxRecord :=
  (((db.transport.inbox.select (fun row => (db.outbox.get row.key.eventID).any (fun o =>
    decide (o.workflowID ∈ ids)))).insertionSort (fun a b => a.key.eventID ≤ b.key.eventID)).insertionSort
      (byText env (fun row => row.key.consumerID))).map inboxRecord

/-- `ORDER BY wakeup_id`. -/
def loadWakeups (ids : List String) (db : DB) : List WakeupRecord :=
  ((db.wakeups.select (fun w => decide (w.workflowID ∈ ids))).insertionSort
    (fun a b => a.wakeupID ≤ b.wakeupID)).map
      (fun w => ⟨w.workflowID, w.eventID, w.partitionID, WakeupState.text w.state⟩)

/-- The obligations of `ids` and those of no workflow; `item_id`, by which they are ordered, is not kept. -/
def loadReconciliation (ids : List String) (db : DB) : List ReconciliationRecord :=
  (db.reconciliation.select (fun r => r.workflowID.all (fun id => decide (id ∈ ids)))).map
    (fun r => ⟨r.workflowID.getD "", ReconciliationKind.text r.key.kind, r.key.reference,
      ReconciliationStatus.text r.status⟩)

/-- What the last loop of `loadSnapshot` collects for a workflow. -/
def historyEnd (history : List HistoryRecord) (workflowID : String) : Int × String :=
  (history.filter (fun h => decide (h.workflowID = workflowID))).foldl (fun r h => (r.1 + 1, h.newState)) (0, "")

/-- The queries of `loadSnapshot`. -/
def queryTrace (env : Env) (ids : List String) (db : DB) : Trace where
  workflows := loadWorkflows env ids db
  history := loadHistory env ids db
  results := loadResults env ids db
  submissions := loadSubmissions env ids db
  attempts := loadAttempts env ids db
  outbox := loadOutbox ids db
  inbox := loadInbox env ids db
  wakeups := loadWakeups ids db
  reconciliation := loadReconciliation ids db

/-- `loadSnapshot`: one snapshot of the workflows `ids`, refused as a whole when a workflow is missing
    or its history does not reach its row. -/
def loadSnapshot (env : Env) (ids : List String) (db : DB) : Except Err Trace := do
  rejectIf (ids = []) (.text "snapshot requires workflow identities")
  let trace := queryTrace env ids db
  rejectIf ("" ∈ ids ∨ ¬ ids.Nodup) (.text "duplicate or empty requested workflow")
  rejectIf (trace.workflows.length ≠ ids.length) (.text "accepted workflow missing from snapshot")
  match trace.workflows.find? (fun wf =>
    decide (historyEnd trace.history wf.workflowID ≠ (wf.revision, wf.state))) with
  | some wf => .error (.text ("history snapshot incomplete: " ++ wf.workflowID))
  | none => .ok trace

/-- `LoadNamespace`: the workflows of a namespace, selected in the same snapshot. -/
def loadNamespace (env : Env) (ns : String) (db : DB) : Except Err Trace := do
  rejectIf (ns = "") (.text "snapshot requires namespace")
  loadSnapshot env (((db.workflows.select (fun w => decide (w.namespace_ = ns))).insertionSort
    (byText env Workflow.workflowID)).map Workflow.workflowID) db

-- ============================================================================
-- Histories
-- ============================================================================

/-- `"illegal workflow transition %s -> %s for %s"`. -/
def illegalTransition (workflowID : String) (record : HistoryRecord) : String :=
  "illegal workflow transition " ++ record.oldState ++ " -> " ++ record.newState ++ " for " ++ workflowID

/-- The loop over the rows of one workflow, with the revision and the state of the previous row. -/
def scanHistory (env : Env) (workflowID : String) :
    Option (Int × String) → Bool → List HistoryRecord → List String
  | _, _, [] => []
  | previous, terminalSeen, record :: records =>
      (if record.revision ≤ 0 ∨ previous.any (fun p => record.revision ≠ p.1 + 1) then
        ["history revision " ++ toString record.revision ++ " is not contiguous for " ++ workflowID] else []) ++
      (if previous.any (fun p => record.oldState ≠ p.2) then
        ["history old state " ++ String.ofList (quoteText env.isPrint record.oldState) ++ " does not follow " ++
          String.ofList (quoteText env.isPrint ((previous.map Prod.snd).getD "")) ++ " for " ++ workflowID]
        else []) ++
      (if previous.isSome && !allowedTransition record.oldState record.newState then
        [illegalTransition workflowID record] else []) ++
      (if terminalSeen then ["workflow has history after its terminal decision: " ++ workflowID] else []) ++
      scanHistory env workflowID (some (record.revision, record.newState))
        (terminalSeen || isTerminal record.newState) records

/-- The history of a workflow begins with its creation. -/
def startsCreated : List HistoryRecord → Bool
  | [] => false
  | record :: _ => record.revision = 1 && record.oldState = "" && record.newState = "RUNNABLE"

/-- The rules for the rows of one workflow. -/
def historyViolations (env : Env) (workflowID : String) (records : List HistoryRecord) : List String :=
  let sorted := records.insertionSort (fun r s => r.revision ≤ s.revision)
  (if startsCreated sorted then [] else
    ["workflow history does not start with revision 1 creation: " ++ workflowID]) ++
  scanHistory env workflowID none false sorted

/-- `checkHistory`. -/
def checkHistory (env : Env) (history : List HistoryRecord) : List String :=
  (history.filter (fun h => decide (h.workflowID = ""))).map (fun _ => "history record has no workflow ID") ++
  (grouped HistoryRecord.workflowID (history.filter (fun h => decide (h.workflowID ≠ "")))).flatMap
    (fun group => historyViolations env group.1 group.2)

-- ============================================================================
-- Results and submissions
-- ============================================================================

/-- `"%s\x00%s\x00%d"` of the node. -/
def AcceptedResult.nodeKey (r : AcceptedResult) : String :=
  r.workflowID ++ "\x00" ++ r.nodeID ++ "\x00" ++ toString r.iteration

/-- The loop of `checkResults`, with the keys it has seen. -/
def scanResults : List String → List AcceptedResult → List String
  | _, [] => []
  | seen, result :: results =>
      (if result.workflowID = "" ∨ result.nodeID = "" ∨ result.iteration < 0 then
        ["accepted result identity is incomplete"] else []) ++
      (if result.accepted then
        (if result.nodeKey ∈ seen then ["node has more than one accepted result: " ++ result.nodeKey] else []) ++
          scanResults (result.nodeKey :: seen) results
      else scanResults seen results)

def checkResults (results : List AcceptedResult) : List String := scanResults [] results

namespace SubmissionRecord

def complete (s : SubmissionRecord) : Bool :=
  !(s.namespace_ = "" || s.key = "" || s.hash = "" || s.workflowID = "")

/-- `submission.Namespace + "\x00" + submission.Key`. -/
def mapKey (s : SubmissionRecord) : String := s.namespace_ ++ "\x00" ++ s.key

end SubmissionRecord

/-- The loop of `checkSubmissions`; both maps hold the last submission under a key, the newest first. -/
def scanSubmissions : List SubmissionRecord → List SubmissionRecord → List String
  | _, [] => []
  | seen, submission :: submissions =>
      if submission.complete then
        (if (seen.find? (fun s => decide (s.mapKey = submission.mapKey))).any (fun prior =>
            prior.hash ≠ submission.hash || prior.workflowID ≠ submission.workflowID) then
          ["submission key maps to conflicting identity: " ++ submission.mapKey] else []) ++
        (if (seen.find? (fun s => decide (s.workflowID = submission.workflowID))).any (fun prior =>
            prior.namespace_ ≠ submission.namespace_ || prior.key ≠ submission.key) then
          ["workflow ID maps to multiple submissions: " ++ submission.workflowID] else []) ++
        scanSubmissions (submission :: seen) submissions
      else "submission identity is incomplete" :: scanSubmissions seen submissions

def checkSubmissions (submissions : List SubmissionRecord) : List String := scanSubmissions [] submissions

-- ============================================================================
-- Workflows against their histories
-- ============================================================================

/-- The newest row of a workflow; the map's absent entry counts as revision 0. -/
def latest (history : List HistoryRecord) (workflowID : String) : Option HistoryRecord :=
  (history.filter (fun h => decide (h.workflowID = workflowID))).foldl
    (fun best h => if h.revision > (best.map HistoryRecord.revision).getD 0 then some h else best) none

def submissionLines (history : List HistoryRecord) : List SubmissionRecord → List String × List String
  | [] => ([], [])
  | s :: submissions =>
      let rest := submissionLines history submissions
      match latest history s.workflowID with
      | none => (("accepted workflow missing history: " ++ s.workflowID) :: rest.1, rest.2)
      | some h => (rest.1, if isTerminal h.newState then rest.2 else s.workflowID :: rest.2)

/-- The row of a workflow is not that of the last of its revisions. -/
def Trace.incomplete (t : Trace) (wf : WorkflowRecord) : Bool :=
  !((latest t.history wf.workflowID).any (fun h => h.revision = wf.revision && h.newState = wf.state) &&
    (t.history.countP (fun h => h.workflowID = wf.workflowID) : Int) = wf.revision)

/-- `reconcileSubmissions`: what it reports, and the workflows that have not ended. -/
def reconcileSubmissions (t : Trace) : List String × List String :=
  let lines := submissionLines t.history t.submissions
  (lines.1 ++ (t.workflows.filter t.incomplete).map
      (fun wf => "workflow/history snapshot incomplete: " ++ wf.workflowID),
    lines.2.insertionSort (fun a b => a ≤ b))

end DurableEngine.Invariants
