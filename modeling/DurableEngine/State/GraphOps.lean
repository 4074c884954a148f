/-
  DurableEngine.State.GraphOps

  The scheduler's graph operations (`internal/state/graph.go`): reading nodes
  and timers, `ScheduleTimer`, `CancelWorkflow`, `AdvanceGraph`.
-/

import DurableEngine.State.Attempts

namespace DurableEngine.State

open Lib

-- ============================================================================
-- Reads
-- ============================================================================

/-- `ORDER BY iteration, node_id`. -/
def nodeBefore (env : Env) (a b : NodeInstance) : Prop :=
  a.key.iteration < b.key.iteration ∨
    (a.key.iteration = b.key.iteration ∧ env.collation a.key.nodeID b.key.nodeID = true)

instance (env : Env) : DecidableRel (nodeBefore env) := fun _ _ =>
  inferInstanceAs (Decidable (_ ∨ _))

/-- The nodes of a workflow in the order the repository lists them. -/
def listNodes (env : Env) (workflowID : String) (db : DB) : List NodeInstance :=
  (db.nodes.select (fun n => n.key.workflowID = workflowID)).insertionSort (nodeBefore env)

theorem mem_listNodes {env : Env} {workflowID : String} {db : DB} {n : NodeInstance} :
    n ∈ listNodes env workflowID db ↔ db.nodes.get n.key = some n ∧ n.key.workflowID = workflowID := by
  simp [listNodes, List.mem_insertionSort, Table.mem_select, Table.mem_rows_iff]

theorem nodup_listNodes (env : Env) (workflowID : String) (db : DB) :
    ((listNodes env workflowID db).map NodeInstance.key).Nodup := by
  have hperm : (listNodes env workflowID db).Perm
      (db.nodes.select (fun n => n.key.workflowID = workflowID)) := List.perm_insertionSort _ _
  rw [(hperm.map NodeInstance.key).nodup_iff]
  exact db.nodes.nodup.sublist (List.filter_sublist.map _)

/-- `GetNode`. -/
def getNode (key : NodeKey) (db : DB) : Except Err NodeInstance :=
  getOr (db.nodes.get key) (.noRows "")

-- ============================================================================
-- ScheduleTimer
-- ============================================================================

structure ScheduleTimerInput where
  lease : LeaseRef
  workflowID : String
  nodeID : String
  iteration : Int
  expectedRevision : Int
  delay : Int
  purpose : String
  actorID : String

def ScheduleTimerInput.key (input : ScheduleTimerInput) : NodeKey :=
  ⟨input.workflowID, input.nodeID, input.iteration⟩

/-- `ScheduleTimer`; the reply is the timer ID. -/
def scheduleTimer (env : Env) (amb : Ambient) (input : ScheduleTimerInput) (db : DB) :
    Except Err (String × DB) := do
  rejectIf (input.workflowID = "" ∨ input.nodeID = "" ∨ input.actorID = "")
    (.text "timer identity and actor are required")
  let purpose ← getOr
    (TimerPurpose.ofText (if input.purpose = "" then "WORKFLOW_TIMER" else input.purpose))
    (.text "invalid timer purpose")
  let workflow ← lockOwnedWorkflow db input.lease input.workflowID input.expectedRevision
    "lock workflow for timer"
  rejectIf (workflow.state ≠ .runnable)
    (.text ("workflow state " ++ workflow.state.text ++ " cannot schedule a timer"))
  let node ← getOr (db.nodes.get input.key) (.noRows "lock node for timer")
  rejectIf (node.state ≠ .runnable)
    (.text ("node state " ++ node.state.text ++ " cannot schedule a timer"))
  let newRevision := workflow.revision + 1
  let dueAt := db.now + input.delay
  let timers ← getOr
    (db.timers.insert? ⟨amb.timerID, input.key, dueAt, purpose, none, newRevision⟩)
    (.constraint "insert timer" "timers_pkey")
  let db := { db with timers := timers }
  let db := db.modifyNode input.key (fun n => { n with
    state := .waitingTimer, deadlineAt := some dueAt, revision := n.revision + 1 })
  let db := db.setWorkflow input.workflowID .waitingTimer newRevision
  let db ← insertHistory db input.workflowID newRevision "scheduler" input.actorID
    (some input.lease.epoch) input.nodeID (some input.iteration) none (some workflow.state)
    .waitingTimer "TIMER_SCHEDULED"
  let db ← insertOutbox amb db input.workflowID newRevision "timer.scheduled"
    (sprintfJson env [("workflow_id", .quoted input.workflowID), ("node_id", .quoted input.nodeID),
      ("iteration", .int input.iteration), ("timer_id", .quoted amb.timerID),
      ("purpose", .quoted purpose.text)])
  return (amb.timerID, db)

-- ============================================================================
-- CancelWorkflow
-- ============================================================================

/-- The node row after a cancellation. -/
def NodeInstance.settle (n : NodeInstance) : NodeInstance :=
  { n with
    state := .canceled
    currentAttempt := none
    deadlineAt := none
    revision := n.revision + 1 }

@[simp] theorem NodeInstance.settle_key (n : NodeInstance) : n.settle.key = n.key := rfl

/-- Settle the current attempt of a node, which has to exist. -/
def cancelAttemptOf (db : DB) (context : String) (n : NodeInstance) : Except Err DB :=
  match n.currentAttempt with
  | none => .ok db
  | some number => do
      let _ ← getOr (db.attempts.get ⟨n.key, number⟩) (.noRows context)
      return db.modifyAttempt ⟨n.key, number⟩ Attempt.cancel Attempt.cancel_key

/-- Settle one node of a canceled workflow. -/
def cancelNode (context : String) (db : DB) (n : NodeInstance) : Except Err DB :=
  if n.state.isTerminal then .ok db
  else do
    let db ← cancelAttemptOf db context n
    return db.modifyNode n.key NodeInstance.settle NodeInstance.settle_key

/-- `cancelWorkflowTx`: settle every node that is not terminal and end the
    workflow. -/
def cancelWorkflowTx (env : Env) (amb : Ambient) (db : DB) (lease : LeaseRef) (workflow : Workflow)
    (actorID context : String) : Except Err (Workflow × DB) := do
  let db ← (listNodes env workflow.workflowID db).foldlM (cancelNode context) db
  let newRevision := workflow.revision + 1
  let db := db.setWorkflow workflow.workflowID .canceled newRevision
  let db ← releaseAdmissionSlotTx env db workflow.namespace_ workflow.workflowID workflow.state
    .canceled
  let db ← insertHistory db workflow.workflowID newRevision "scheduler" actorID (some lease.epoch)
    "" none none (some workflow.state) .canceled "CANCELED_ALL_ACTIVE_NODES"
  let db ← insertOutbox amb db workflow.workflowID newRevision "workflow.canceled"
    (sprintfJson env [("workflow_id", .quoted workflow.workflowID)])
  return ({ workflow with state := .canceled, revision := newRevision }, db)

structure CancelWorkflowInput where
  lease : LeaseRef
  workflowID : String
  expectedRevision : Int
  actorID : String

/-- `CancelWorkflow`. -/
def cancelWorkflow (env : Env) (amb : Ambient) (input : CancelWorkflowInput) (db : DB) :
    Except Err (Workflow × DB) := do
  rejectIf (input.workflowID = "" ∨ input.actorID = "") (.text "workflow and actor are required")
  let workflow ← lockOwnedWorkflow db input.lease input.workflowID input.expectedRevision
    "lock workflow for cancellation"
  rejectIf (workflow.state.isTerminal) (.sentinel .attemptNotCurrent)
  cancelWorkflowTx env amb db input.lease workflow input.actorID
    "lock active attempt for cancellation"

-- ============================================================================
-- AdvanceGraph
-- ============================================================================

structure AdvanceGraphInput where
  lease : LeaseRef
  workflowID : String
  fromNodeID : String
  iteration : Int
  expectedRevision : Int
  next : List GraphNodeInput
  finalWorkflowState : Option WorkflowState
  finalNodeState : Option WorkflowState
  actorID : String

def AdvanceGraphInput.key (input : AdvanceGraphInput) : NodeKey :=
  ⟨input.workflowID, input.fromNodeID, input.iteration⟩

/-- The workflow state the advancement leads to; the default depends on
    whether there are successors. -/
def AdvanceGraphInput.workflowState (input : AdvanceGraphInput) : WorkflowState :=
  input.finalWorkflowState.getD (if input.next.isEmpty then .succeeded else .runnable)

def AdvanceGraphInput.nodeState (input : AdvanceGraphInput) : WorkflowState :=
  input.finalNodeState.getD .succeeded

structure AdvanceGraphResult where
  workflow : Workflow
  created : List NodeInstance

/-- The source node may be advanced: an activity after its result was
    consumed, a control node while it is runnable. -/
def checkSource (source : DefinitionGraphNode) (node : NodeInstance) : Except Err Unit := do
  rejectIf (node.currentAttempt.isSome) (.sentinel .attemptNotCurrent)
  if source.kind = "activity" then
    rejectIf (node.state ≠ .succeeded ∨ node.acceptedResult.isNone) (.sentinel .resultNotConsumable)
  else
    rejectIf (node.state ≠ .runnable)
      (.wrapped .graphViolation ("control node " ++ quote source.id ++ " is not runnable"))

/-- A node that keeps the workflow from ending when `key` moves to `final`. -/
def blocksEnd (key : NodeKey) (final : WorkflowState) (n : NodeInstance) : Bool :=
  if n.key = key then !final.isTerminal else n.live

/-- A terminal advancement leaves no live node behind. -/
def checkSettled (env : Env) (db : DB) (key : NodeKey) (workflowState nodeState : WorkflowState) :
    Except Err Unit :=
  if workflowState.isTerminal then
    match (listNodes env key.workflowID db).find? (blocksEnd key nodeState) with
    | some n => .error (.wrapped .graphViolation ("terminal workflow has live node " ++
        n.key.nodeID ++ "/" ++ toString n.key.iteration))
    | none => .ok ()
  else .ok ()

/-- Create one successor unless it exists. -/
def createNext (workflowID : String) (acc : List NodeInstance × DB) (next : GraphNodeInput) :
    Except Err (List NodeInstance × DB) := do
  rejectIf (next.nodeID = "" ∨ next.iteration < 0) (.text "next graph node identity is required")
  let input ← getOr next.input.orEmptyObject.toJsonb (.invalidText "create next graph node")
  let node : NodeInstance := ⟨⟨workflowID, next.nodeID, next.iteration⟩, .runnable,
    next.dependencies, input, none, none, 0, none, false, 0⟩
  match acc.2.nodes.insert? node with
  | some nodes =>
      .ok (acc.1 ++ [node], ensureRetryPolicyTx { acc.2 with nodes := nodes } node.key)
  | none => .ok acc

def GraphNodeInput.json (next : GraphNodeInput) : Option Json :=
  let document : Option Json := match next.input with
    | .empty => some .null
    | .malformed => none
    | .json v => some v
  document.map (fun v => .obj [("NodeID", .str next.nodeID),
    ("Iteration", .num (.ofInt64 next.iteration)),
    ("Dependencies", if next.dependencies = [] then .null else .arr (next.dependencies.map .str)),
    ("Input", v)])

/-- The payload of `graph.advanced`. -/
def advancedPayload (input : AdvanceGraphInput) : Option Jsonb := do
  let next ← input.next.mapM GraphNodeInput.json
  Jsonb.ofJson? (.obj [("from_node_id", .str input.fromNodeID),
    ("next", if input.next.isEmpty then .null else .arr next),
    ("workflow_id", .str input.workflowID)])

/-- `AdvanceGraph`. -/
def advanceGraph (env : Env) (amb : Ambient) (input : AdvanceGraphInput) (db : DB) :
    Except Err (AdvanceGraphResult × DB) := do
  rejectIf (input.workflowID = "" ∨ input.fromNodeID = "" ∨ input.actorID = "")
    (.text "graph advancement identity is required")
  rejectIf (input.workflowState ≠ .runnable ∧ input.next.isEmpty = false)
    (.text "non-terminal graph advancement must remain runnable")
  let workflow ← lockOwnedWorkflow db input.lease input.workflowID input.expectedRevision
    "lock workflow for graph advancement"
  rejectIf (workflow.state.isTerminal) (.sentinel .attemptNotCurrent)
  rejectIf (!workflow.state.legalTransition input.workflowState)
    (.wrapped .invalidTransition (workflow.state.text ++ " -> " ++ input.workflowState.text))
  let definition ← getOr
    (db.definitions.get ⟨workflow.definitionID, workflow.definitionVersion⟩)
    (.noRows "read graph for advancement")
  let graph ← (decodeDefinitionGraph definition.graph.doc).mapError (.wrapped .graphViolation)
  let source ← graph.node input.fromNodeID
  let node ← getOr (db.nodes.get input.key) (.noRows "lock source node for graph advancement")
  checkSource source node
  validateGraphSuccessors graph source input.iteration input.next
  checkSettled env db input.key input.workflowState input.nodeState
  let newRevision := workflow.revision + 1
  let db := db.modifyNode input.key (fun n => { n with
    state := input.nodeState, revision := n.revision + 1 })
  let (created, db) ← input.next.foldlM (createNext input.workflowID) ([], db)
  let db := db.setWorkflow input.workflowID input.workflowState newRevision
  let db ← releaseAdmissionSlotTx env db workflow.namespace_ input.workflowID workflow.state
    input.workflowState
  let db ← insertHistory db input.workflowID newRevision "scheduler" input.actorID
    (some input.lease.epoch) input.fromNodeID (some input.iteration) none (some workflow.state)
    input.workflowState "GRAPH_ADVANCED"
  let db ← insertOutbox amb db input.workflowID newRevision "graph.advanced"
    (advancedPayload input)
  return (⟨{ workflow with state := input.workflowState, revision := newRevision }, created⟩, db)

end DurableEngine.State
