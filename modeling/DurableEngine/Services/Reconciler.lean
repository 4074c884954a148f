/-
  DurableEngine.Services.Reconciler

  The reconciler (`Reconciler.RunOnce` in
  `internal/reconciliation/reconciler.go`) as a program over store calls, and
  the world with any number of its passes in progress.

  A pass lists unfinished rows and writes an obligation for each of them, one
  call at a time.  The scheduler, the workers, the relays and the consumers go
  on between its calls, and other passes run beside it.
-/

import DurableEngine.Lib.Prog
import DurableEngine.Services.World
import DurableEngine.State.Reconcile

namespace DurableEngine.Services

open Lib State

-- ============================================================================
-- Calls
-- ============================================================================

/-- The store calls of the reconciler. -/
inductive ReconcileOp : Type → Type where
  | checkBackpressure (partitionID : Int) (limits : BackpressureLimits) : ReconcileOp Backlog
  | listDueAttempts (partitionID limit : Int) : ReconcileOp (List DueAttempt)
  | timeoutAttempt (input : TimeoutInput) : ReconcileOp TimeoutResult
  | listDueTimers (partitionID limit : Int) : ReconcileOp (List DueTimer)
  | listPendingOutbox (partitionID limit : Int) : ReconcileOp (List OutboxEvent)
  | listPendingWakeups (partitionID limit : Int) : ReconcileOp (List Wakeup)
  | listTransportQuarantine (limit : Int) : ReconcileOp (List QuarantineRow)
  | upsertReconciliationItem (input : UpsertInput) : ReconcileOp ReconciliationItem
  | resolveReconciliationItem (key : ReconciliationKey) (status : ReconciliationStatus) :
      ReconcileOp Unit
  | listReconciliationItems (partitionID limit : Int) : ReconcileOp (List ReconciliationItem)

namespace ReconcileOp

variable {α : Type}

/-- The transaction of a call; `oldestAge` is the age of the oldest obligation. -/
def run (env : Env) (amb : Ambient) (oldestAge : Int) : ReconcileOp α → DB → Except Err (α × DB)
  | .checkBackpressure p limits => query (State.checkBackpressure oldestAge p limits)
  | .listDueAttempts p limit => query (State.listDueAttempts p limit)
  | .timeoutAttempt input => State.timeoutAttempt env amb input
  | .listDueTimers p limit => query (State.listDueTimers p limit)
  | .listPendingOutbox p limit => query (State.listPendingOutbox p limit)
  | .listPendingWakeups p limit => query (State.listPendingWakeups p limit)
  | .listTransportQuarantine limit => query (State.listTransportQuarantine limit)
  | .upsertReconciliationItem input => State.upsertReconciliationItem input
  | .resolveReconciliationItem key status => State.resolveReconciliationItem key status
  | .listReconciliationItems p limit => query (State.listReconciliationItems p limit)

end ReconcileOp

/-- A store call; its reply is the call's reply or its error. -/
inductive ReconcilerCall : Type → Type 1 where
  | store {α : Type} (op : ReconcileOp α) : ReconcilerCall (Except Err α)

/-- A program that stops at the first error it does not handle. -/
abbrev ReconcilerM (α : Type) := ExceptT Err (Prog ReconcilerCall) α

/-- Make a store call. -/
def reconcile {α : Type} (op : ReconcileOp α) : ReconcilerM α :=
  ExceptT.mk (Prog.ofCall (.store op))

/-- Make a store call and keep its error as a value. -/
def tryReconcile {α : Type} (op : ReconcileOp α) : ReconcilerM (Except Err α) :=
  ExceptT.lift (Prog.ofCall (.store op))

-- ============================================================================
-- The reconciler
-- ============================================================================

/-- `Reconciler` with its `Config`. -/
structure Reconciler where
  env : Env
  batchSize : Int
  dispatchLease : Int
  backpressure : BackpressureLimits

structure Report where
  expiredAttempts : Nat
  pendingOutbox : Nat
  pendingWakeups : Nat
  poisonRecords : Nat
  dueTimers : Nat
  openItems : Nat
  timedOut : Nat
  backlog : Backlog

namespace Reconciler

variable (r : Reconciler)

/-- `New` replaces sizes and leases that are not positive. -/
def batch : Int := if r.batchSize ≤ 0 then 100 else r.batchSize

def lease : Int := if r.dispatchLease ≤ 0 then minute else r.dispatchLease

/-- A detail built by `fmt.Sprintf`. -/
def detail (fields : List (String × Field)) : RawMessage :=
  if fields.all (fun f => f.2.quotable r.env) then
    .json (.obj (fields.map (fun f => (f.1, f.2.json))))
  else .malformed

/-- `%s/%s/%d/%d` of a due attempt. -/
def dueReference (due : DueAttempt) : String :=
  due.workflowID ++ "/" ++ due.nodeID ++ "/" ++ toString due.iteration ++ "/" ++
    toString due.attemptNumber

/-- The obligation of a due attempt. -/
def attemptItem (due : DueAttempt) (detail : RawMessage) : UpsertInput where
  workflowID := due.workflowID
  partitionID := due.partitionID
  nodeID := due.nodeID
  iteration := some due.iteration
  attemptNumber := some due.attemptNumber
  kind := .expiredAttempt
  reference := dueReference due
  detail := detail

/-- `{"deadline":"%s"}`. -/
def deadlineDetail (due : DueAttempt) : RawMessage :=
  .json (.obj [("deadline", .str (rfc3339Nano due.deadline))])

/-- `{"outcome":"timeout-applied"}`. -/
def appliedDetail : RawMessage := .json (.obj [("outcome", .str "timeout-applied")])

/-- The timeout of a due attempt at the revision it was listed with. -/
def timeoutInput (lease : LeaseRef) (actorID : String) (due : DueAttempt) : TimeoutInput where
  lease := lease
  workflowID := due.workflowID
  nodeID := due.nodeID
  iteration := due.iteration
  attemptNumber := due.attemptNumber
  expectedRevision := due.revision
  actorID := actorID
  dispatchLease := r.lease

/-- The obligation is about the due attempt; its iteration is not compared. -/
def concerns (due : DueAttempt) (item : ReconciliationItem) : Bool :=
  item.key.kind = .expiredAttempt && item.workflowID.getD "" = due.workflowID &&
    item.nodeID.getD "" = due.nodeID && item.attemptNumber = some due.attemptNumber

/-- Resolve the listed obligations of a due attempt. -/
def resolveItems (due : DueAttempt) : List ReconciliationItem → ReconcilerM Unit
  | [] => pure ()
  | item :: items => do
      if concerns due item then reconcile (.resolveReconciliationItem item.key .resolved)
      resolveItems due items

/-- One due attempt: write its obligation, apply its timeout, and resolve the obligation when the
    timeout settled the attempt. -/
def timeOut (lease : LeaseRef) (actorID : String) (due : DueAttempt) : ReconcilerM Bool := do
  let _ ← reconcile (.upsertReconciliationItem (attemptItem due (deadlineDetail due)))
  match ← tryReconcile (.timeoutAttempt (r.timeoutInput lease actorID due)) with
  | .error e => if e.is .revisionConflict || e.is .attemptNotCurrent then pure false else throw e
  | .ok timeout => do
      let _ ← reconcile (.upsertReconciliationItem (attemptItem due appliedDetail))
      if !timeout.reconciliation then do
        let items ← reconcile (.listReconciliationItems lease.partitionID r.batch)
        resolveItems due items
      return timeout.reconciliation || timeout.redispatched || timeout.replacementNumber.isSome

/-- The due attempts one by one; the reply counts those timed out. -/
def timeOutAll (lease : LeaseRef) (actorID : String) : List DueAttempt → ReconcilerM Nat
  | [] => pure 0
  | due :: rest => do
      let counted ← r.timeOut lease actorID due
      let others ← timeOutAll lease actorID rest
      return (if counted then 1 else 0) + others

/-- The obligation of a due timer. -/
def timerItem (due : DueTimer) : UpsertInput where
  workflowID := due.workflowID
  partitionID := due.partitionID
  nodeID := due.nodeID
  iteration := some due.iteration
  attemptNumber := none
  kind := .dueTimer
  reference := "timer/" ++ due.timerID
  detail := r.detail
    [("purpose", .quoted due.purpose.text), ("due_at", .quoted (rfc3339Nano due.dueAt))]

/-- The obligation of a pending event. -/
def outboxItem (lease : LeaseRef) (event : OutboxEvent) : UpsertInput where
  workflowID := event.workflowID
  partitionID := lease.partitionID
  nodeID := ""
  iteration := none
  attemptNumber := none
  kind := .pendingOutbox
  reference := "outbox/" ++ event.eventID
  detail := r.detail
    [("event_type", .quoted event.eventType), ("publish_state", .quoted event.publishState.text)]

/-- The obligation of a pending wake-up. -/
def wakeupItem (lease : LeaseRef) (wakeup : Wakeup) : UpsertInput where
  workflowID := wakeup.workflowID
  partitionID := lease.partitionID
  nodeID := ""
  iteration := none
  attemptNumber := none
  kind := .lostWakeup
  reference := "wakeup/" ++ wakeup.wakeupID
  detail := r.detail [("reason", .quoted wakeup.reason)]

/-- The obligation of a poison record of the partition; the others are global evidence. -/
def poisonItem? (lease : LeaseRef) (poison : QuarantineRow) : Option UpsertInput :=
  if poison.workflowID.getD "" = "" ∨ poison.partitionID ≠ some lease.partitionID then none
  else some {
    workflowID := poison.workflowID.getD ""
    partitionID := lease.partitionID
    nodeID := ""
    iteration := none
    attemptNumber := none
    kind := .poisonRecord
    reference := "transport/" ++ poison.key.stream.consumerID ++ "/" ++ poison.key.stream.topic ++
      "/" ++ toString poison.key.stream.partition ++ "/" ++ toString poison.key.offset
    detail := r.detail [("event_id", .quoted (poison.eventID.getD "")),
      ("event_type", .quoted (poison.eventType.getD "")), ("reason", .quoted poison.reason)] }

/-- Write obligations one by one. -/
def upsertAll : List UpsertInput → ReconcilerM Unit
  | [] => pure ()
  | item :: items => do
      let _ ← reconcile (.upsertReconciliationItem item)
      upsertAll items

/-- `RunOnce`. -/
def runOnce (lease : LeaseRef) (actorID : String) : ReconcilerM Report := do
  if actorID = "" then throw (.text "reconciler requires a store and actor")
  else do
    let backlog ← reconcile (.checkBackpressure lease.partitionID r.backpressure)
    let dueAttempts ← reconcile (.listDueAttempts lease.partitionID r.batch)
    let timedOut ← r.timeOutAll lease actorID dueAttempts
    let dueTimers ← reconcile (.listDueTimers lease.partitionID r.batch)
    upsertAll (dueTimers.map r.timerItem)
    let pending ← reconcile (.listPendingOutbox lease.partitionID r.batch)
    upsertAll (pending.map (r.outboxItem lease))
    let wakeups ← reconcile (.listPendingWakeups lease.partitionID r.batch)
    upsertAll (wakeups.map (r.wakeupItem lease))
    let poisonRecords ← reconcile (.listTransportQuarantine r.batch)
    upsertAll (poisonRecords.filterMap (r.poisonItem? lease))
    let items ← reconcile (.listReconciliationItems lease.partitionID r.batch)
    return ⟨dueAttempts.length, backlog.pendingOutbox, backlog.pendingWakeups, poisonRecords.length,
      dueTimers.length, items.length, timedOut, backlog⟩

end Reconciler

-- ============================================================================
-- The world with its reconcilers
-- ============================================================================

/-- A pass of the reconciler in progress. -/
abbrev ReconcilerPass := Prog ReconcilerCall (Except Err Report)

structure Deployment where
  world : World
  reconcilers : List ReconcilerPass

namespace Deployment

/-- The database of the deployment. -/
abbrev db (s : Deployment) : DB := s.world.db

/-- The deployment after a call changed the database. -/
def withDB (s : Deployment) (db : DB) : Deployment := { s with world := { s.world with db := db } }

/-- The freshly migrated database, with nothing in progress. -/
def start (now : Int) : Deployment := ⟨World.start now, []⟩

/-- A call of a reconciler that commits. -/
abbrev Reconciled := (α : Type) × ReconcileOp α

/-- One step of the deployment, with the call that a reconciler commits in it: a step of the world,
    the start of a pass, a call of a pass that commits or is refused, or the end of a pass at any
    point. -/
inductive Step (env : Env) : Deployment → List Reconciled → Deployment → Prop where
  | world (s : Deployment) (events : List Event) (w' : World)
      (h : World.Step env s.world events w') : Step env s [] { s with world := w' }
  | begin (s : Deployment) (r : Reconciler) (lease : LeaseRef) (actorID : String)
      (deployed : r.env = env) :
      Step env s [] { s with reconcilers := (r.runOnce lease actorID).run :: s.reconcilers }
  | commit {α : Type} (s : Deployment) (before after : List ReconcilerPass) (amb : Ambient)
      (oldestAge : Int) (op : ReconcileOp α) (k : Except Err α → ReconcilerPass)
      (reconcilers : s.reconcilers = before ++ .call (.store op) k :: after) (a : α) (db' : DB)
      (h : op.run env amb oldestAge s.db = .ok (a, db')) (typed : db'.EventIDsTyped) :
      Step env s [⟨α, op⟩] { s.withDB db' with reconcilers := before ++ k (.ok a) :: after }
  | refuse {α : Type} (s : Deployment) (before after : List ReconcilerPass) (amb : Ambient)
      (oldestAge : Int) (op : ReconcileOp α) (k : Except Err α → ReconcilerPass)
      (reconcilers : s.reconcilers = before ++ .call (.store op) k :: after) (e : Err)
      (h : op.run env amb oldestAge s.db = .error e) :
      Step env s [] { s with reconcilers := before ++ k (.error e) :: after }
  | finish (s : Deployment) (before after : List ReconcilerPass) (p : ReconcilerPass)
      (reconcilers : s.reconcilers = before ++ p :: after) :
      Step env s [] { s with reconcilers := before ++ after }

/-- A run of the deployment with the calls its reconcilers commit. -/
abbrev Run (env : Env) : Deployment → List Reconciled → Deployment → Prop := Trace (Step env)

end Deployment

end DurableEngine.Services
