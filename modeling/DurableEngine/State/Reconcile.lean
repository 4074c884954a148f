/-
  DurableEngine.State.Reconcile

  The store calls of the reconciler (`internal/state/m3.go`): the listings of
  unfinished work, the backlog, and the obligations it keeps in
  `reconciliation_items`.

  Every listing is a statement of its own, so the rows it returned may have
  moved on when an obligation is written for one of them.  An obligation is
  named by its kind and reference, which are unique, in place of `item_id`.
-/

import DurableEngine.Lib.Time
import DurableEngine.State.Inbox

namespace DurableEngine.State

open Lib

-- ============================================================================
-- Listings
-- ============================================================================

/-- The first `limit` of the rows. -/
def page {α : Type} (limit : Int) (rows : List α) : List α := rows.take limit.toNat

structure DueAttempt where
  workflowID : String
  nodeID : String
  iteration : Int
  attemptNumber : Int
  partitionID : Int
  workflowState : WorkflowState
  revision : Int
  deadline : Int
deriving DecidableEq, Repr

/-- The row of `ListDueAttempts` for an attempt: it is the current one of its node, claimed, and
    its deadline has passed. -/
def dueAttempt? (partitionID : Int) (db : DB) (a : Attempt) : Option DueAttempt := do
  let w ← db.workflows.get a.key.node.workflowID
  let n ← db.nodes.get a.key.node
  let deadline ← a.heartbeatDeadline
  if n.currentAttempt = some a.key.number ∧ a.isCurrent = true ∧ w.partitionID = partitionID ∧
      w.state.isTerminal = false ∧ a.state = .claimed ∧ deadline ≤ db.now then
    return ⟨w.workflowID, a.key.node.nodeID, a.key.node.iteration, a.key.number, w.partitionID,
      w.state, w.revision, deadline⟩
  else none

def deadlineBefore (a b : DueAttempt) : Prop := a.deadline ≤ b.deadline

instance : DecidableRel deadlineBefore := fun a b =>
  inferInstanceAs (Decidable (a.deadline ≤ b.deadline))

/-- `ListDueAttempts`. -/
def listDueAttempts (partitionID limit : Int) (db : DB) : Except Err (List DueAttempt) := do
  rejectIf (partitionID < 0 ∨ 16 ≤ partitionID ∨ limit ≤ 0 ∨ 1000 < limit)
    (.text "partition and bounded due-attempt limit are required")
  return page limit
    ((db.attempts.rows.filterMap (dueAttempt? partitionID db)).insertionSort deadlineBefore)

structure DueTimer where
  timerID : String
  workflowID : String
  nodeID : String
  iteration : Int
  partitionID : Int
  dueAt : Int
  purpose : TimerPurpose
  owningRevision : Int
  workflowRevision : Int
deriving DecidableEq, Repr

/-- The row of `ListDueTimers` for a timer that was not consumed. -/
def dueTimer? (partitionID : Int) (db : DB) (t : Timer) : Option DueTimer := do
  let w ← db.workflows.get t.node.workflowID
  if w.partitionID = partitionID ∧ t.consumedAt = none ∧ t.dueAt ≤ db.now then
    return ⟨t.timerID, t.node.workflowID, t.node.nodeID, t.node.iteration, w.partitionID, t.dueAt,
      t.purpose, t.owningRevision, w.revision⟩
  else none

def dueBefore (a b : DueTimer) : Prop := a.dueAt ≤ b.dueAt

instance : DecidableRel dueBefore := fun a b => inferInstanceAs (Decidable (a.dueAt ≤ b.dueAt))

/-- `ListDueTimers`. -/
def listDueTimers (partitionID limit : Int) (db : DB) : Except Err (List DueTimer) := do
  rejectIf (partitionID < 0 ∨ 16 ≤ partitionID ∨ limit ≤ 0 ∨ 1000 < limit)
    (.text "partition and bounded due-timer limit are required")
  return page limit
    ((db.timers.rows.filterMap (dueTimer? partitionID db)).insertionSort dueBefore)

/-- The event has still to be published, and its workflow belongs to the partition. -/
def OutboxEvent.pendingIn (db : DB) (partitionID : Int) (o : OutboxEvent) : Bool :=
  (o.publishState = .pending || o.publishState = .claimed) &&
    (db.workflows.get o.workflowID).any (fun w => w.partitionID = partitionID)

/-- `ListPendingOutbox`. -/
def listPendingOutbox (partitionID limit : Int) (db : DB) : Except Err (List OutboxEvent) := do
  rejectIf (partitionID < 0 ∨ 16 ≤ partitionID ∨ limit ≤ 0 ∨ 10000 < limit)
    (.text "partition and bounded pending-outbox limit are required")
  return page limit ((db.outbox.select (·.pendingIn db partitionID)).insertionSort outboxBefore)

/-- `ListPendingWakeups`; no party of the system claims wake-ups one by one, so those that wait are
    the pending ones. -/
def listPendingWakeups (partitionID limit : Int) (db : DB) : Except Err (List Wakeup) := do
  rejectIf (partitionID < 0 ∨ 16 ≤ partitionID ∨ limit ≤ 0 ∨ 10000 < limit)
    (.text "partition and bounded pending-wakeup limit are required")
  return page limit
    (db.wakeups.select (fun w => w.partitionID = partitionID && w.state = .pending))

/-- `strings.TrimSpace`. -/
def trimSpace (s : String) : String :=
  String.ofList (((s.toList.dropWhile isSpace).reverse.dropWhile isSpace).reverse)

/-- `ListTransportQuarantine`. -/
def listTransportQuarantine (limit : Int) (db : DB) : Except Err (List QuarantineRow) := do
  rejectIf (limit ≤ 0 ∨ 10000 < limit) (.text "bounded transport quarantine limit is required")
  return page limit (db.transport.quarantine.rows.map (fun q => { q with
    key := ⟨⟨trimSpace q.key.stream.consumerID, trimSpace q.key.stream.topic, q.key.stream.partition⟩,
      q.key.offset⟩
    eventID := some (trimSpace (q.eventID.getD ""))
    eventType := some (trimSpace (q.eventType.getD ""))
    reason := trimSpace q.reason
    workflowID := some (trimSpace (q.workflowID.getD "")) }))

-- ============================================================================
-- Backlog
-- ============================================================================

/-- Limits of 0 are off. -/
structure BackpressureLimits where
  pendingOutbox : Int
  pendingWakeups : Int
  openItems : Int
  oldestAge : Int
deriving DecidableEq, Repr

structure Backlog where
  partitionID : Int
  pendingOutbox : Nat
  pendingWakeups : Nat
  openItems : Nat
  quarantinedOutbox : Nat
  poisonRecords : Nat
  oldestAge : Int
deriving DecidableEq, Repr

/-- The obligation is open and belongs to the partition, or to none. -/
def ReconciliationItem.openIn (partitionID : Int) (r : ReconciliationItem) : Bool :=
  r.partitionID.all (fun p => p = partitionID) && r.status = .open

/-- `GetBacklog`; the age of the oldest obligation is handed in. -/
def getBacklog (oldestAge partitionID : Int) (db : DB) : Except Err Backlog := do
  rejectIf (partitionID < 0 ∨ 16 ≤ partitionID) (.text "partition is outside the frozen map")
  return {
    partitionID := partitionID
    pendingOutbox := (db.outbox.select (·.pendingIn db partitionID)).length
    pendingWakeups := (db.wakeups.select (fun w =>
      w.partitionID = partitionID && (w.state = .pending || w.state = .claimed))).length
    openItems := (db.reconciliation.select (·.openIn partitionID)).length
    quarantinedOutbox := (db.outbox.select (fun o => o.publishState = .quarantined &&
      (db.workflows.get o.workflowID).any (fun w => w.partitionID = partitionID))).length
    poisonRecords := (db.transport.quarantine.select (fun q =>
      q.partitionID.all (fun p => p = partitionID))).length
    oldestAge := oldestAge }

/-- The backlog is over one of the limits. -/
def Backlog.exceeds (b : Backlog) (limits : BackpressureLimits) : Prop :=
  (0 < limits.pendingOutbox ∧ limits.pendingOutbox < b.pendingOutbox) ∨
    (0 < limits.pendingWakeups ∧ limits.pendingWakeups < b.pendingWakeups) ∨
    (0 < limits.openItems ∧ limits.openItems < b.openItems) ∨
    (0 < limits.oldestAge ∧ limits.oldestAge < b.oldestAge)

instance (b : Backlog) (limits : BackpressureLimits) : Decidable (b.exceeds limits) :=
  inferInstanceAs (Decidable (_ ∨ _))

def Backlog.text (b : Backlog) : String :=
  "partition=" ++ toString b.partitionID ++ " outbox=" ++ toString b.pendingOutbox ++ " wakeups=" ++
    toString b.pendingWakeups ++ " reconciliation=" ++ toString b.openItems ++ " quarantined=" ++
    toString b.quarantinedOutbox ++ " poison=" ++ toString b.poisonRecords ++ " oldest_age=" ++
    durationText b.oldestAge

/-- `CheckBackpressure`. -/
def checkBackpressure (oldestAge partitionID : Int) (limits : BackpressureLimits) (db : DB) :
    Except Err Backlog := do
  let backlog ← getBacklog oldestAge partitionID db
  rejectIf (backlog.exceeds limits) (.wrapped .backlogLimit backlog.text)
  return backlog

-- ============================================================================
-- Obligations
-- ============================================================================

/-- The fields of a `ReconciliationItem` that a caller of the upsert sets. -/
structure UpsertInput where
  workflowID : String
  partitionID : Int
  nodeID : String
  iteration : Option Int
  attemptNumber : Option Int
  kind : ReconciliationKind
  reference : String
  detail : RawMessage

def UpsertInput.key (input : UpsertInput) : ReconciliationKey := ⟨input.kind, input.reference⟩

/-- The obligation belongs to no workflow. -/
def UpsertInput.global (input : UpsertInput) : Prop := input.workflowID = "" ∧ input.partitionID = -1

instance (input : UpsertInput) : Decidable input.global := inferInstanceAs (Decidable (_ ∧ _))

/-- The row an upsert inserts: it is open. -/
def UpsertInput.row (input : UpsertInput) (detail : Jsonb) : ReconciliationItem where
  key := input.key
  workflowID := if input.global then none else some input.workflowID
  partitionID := if input.global then none else some input.partitionID
  nodeID := nullIfEmpty input.nodeID
  iteration := input.iteration
  attemptNumber := input.attemptNumber
  status := .open
  detail := detail

/-- `UpsertReconciliationItem`: an obligation that is there keeps its status. -/
def upsertReconciliationItem (input : UpsertInput) (db : DB) : Except Err (ReconciliationItem × DB) := do
  rejectIf ((¬ input.global ∧ (input.workflowID = "" ∨ input.partitionID < 0 ∨ 16 ≤ input.partitionID)) ∨
    input.reference = "") (.text "reconciliation item identity is required")
  rejectIf (!input.detail.orEmptyObject.valid) (.text "reconciliation detail must be valid JSON")
  let detail ← getOr input.detail.orEmptyObject.toJsonb (.invalidText "upsert reconciliation item")
  rejectIf (∃ i ∈ input.iteration, i < 0)
    (.constraint "upsert reconciliation item" "reconciliation_items_iteration_check")
  rejectIf (∃ n ∈ input.attemptNumber, n ≤ 0)
    (.constraint "upsert reconciliation item" "reconciliation_items_attempt_number_check")
  match db.reconciliation.get input.key with
  | some row =>
      return ({ row with detail := detail }, { db with
        reconciliation := db.reconciliation.modify input.key (fun r => { r with detail := detail })
          (ReconciliationItem.key_withDetail detail) })
  | none => do
      rejectIf (¬ input.global ∧ (db.workflows.get input.workflowID).isNone)
        (.constraint "upsert reconciliation item" "reconciliation_items_workflow_id_fkey")
      let row := input.row detail
      let reconciliation ← getOr (db.reconciliation.insert? row)
        (.constraint "upsert reconciliation item" "reconciliation_items_kind_reference_key")
      return (row, { db with reconciliation := reconciliation })

/-- `ResolveReconciliationItem`. -/
def resolveReconciliationItem (key : ReconciliationKey) (status : ReconciliationStatus) (db : DB) :
    Except Err (Unit × DB) := do
  rejectIf (status = .open) (.text "item ID and RESOLVED or ABANDONED status are required")
  let matched (r : ReconciliationItem) : Bool := r.key = key && r.status = .open
  rejectIf (db.reconciliation.select matched).isEmpty (.sentinel .reconciliationNotFound)
  return ((), { db with
    reconciliation := db.reconciliation.update matched (fun r => { r with status := status })
      (fun _ => rfl) })

/-- `ListReconciliationItems`: open obligations of the partition, and those of none. -/
def listReconciliationItems (partitionID limit : Int) (db : DB) :
    Except Err (List ReconciliationItem) := do
  rejectIf (partitionID < 0 ∨ 16 ≤ partitionID ∨ limit ≤ 0 ∨ 10000 < limit)
    (.text "partition and bounded reconciliation limit are required")
  return page limit (db.reconciliation.select (·.openIn partitionID))

end DurableEngine.State
