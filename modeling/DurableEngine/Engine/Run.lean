/-
  DurableEngine.Engine.Run

  The scheduler pass `Engine.Run` (`internal/engine/engine.go`) as a program
  over store calls, in both activity modes.

  Every definition follows the Go method of its name.  A program makes one
  store call at a time and may be stopped between any two of them, so what it
  read can be out of date when it writes; the store's revision checks are all
  that guards it.  The in-process activity driver is a program of its own
  that may save and load checkpoints.
-/

import DurableEngine.Engine.Graph
import DurableEngine.Lib.Prog

namespace DurableEngine

open Lib State

namespace Engine

-- ============================================================================
-- Programs over the store
-- ============================================================================

/-- A store call; its reply is the operation's reply or its error. -/
inductive Call : Type → Type 1 where
  | store {α : Type} (op : Op α) : Call (Except Err α)

/-- A program that stops at the first error it does not handle. -/
abbrev EngineM (α : Type) := ExceptT Err (Prog Call) α

/-- Make a store call. -/
def store {α : Type} (op : Op α) : EngineM α := ExceptT.mk (Prog.ofCall (.store op))

/-- Make a store call and keep its error as a value. -/
def tryStore {α : Type} (op : Op α) : EngineM (Except Err α) :=
  ExceptT.lift (Prog.ofCall (.store op))

/-- A local computation with a text for its error. -/
def localCheck {α : Type} (x : Except String α) : EngineM α :=
  match x with
  | .ok a => pure a
  | .error e => throw (.text e)

-- ============================================================================
-- Drivers
-- ============================================================================

structure Activity where
  workflowID : String
  nodeID : String
  iteration : Int
  attemptNumber : Int
  effectClass : EffectClass
  input : RawMessage
  logicalEffectKey : String
  grantScopeHash : String
  claimToken : String

/-- What a driver returns; no state means success. -/
structure ActivityResult where
  attemptState : Option AttemptState
  payload : RawMessage
  retryAfter : Int

/-- `CheckpointSink` and `CheckpointReader`. -/
inductive SinkCall : Type → Type where
  | save (sequence schemaVersion : Int) (payload : RawMessage) : SinkCall (Except Err Unit)
  | load : SinkCall (Except Err Checkpoint)

/-- An activity driver: a program that may use the checkpoint sink. -/
abbrev Driver := Activity → Prog SinkCall (Except String ActivityResult)

/-- `checkpointSink.Save`. -/
def saveInput (activity : Activity) (sequence schemaVersion : Int) (payload : RawMessage) :
    CheckpointInput where
  workflowID := activity.workflowID
  nodeID := activity.nodeID
  iteration := activity.iteration
  attemptNumber := activity.attemptNumber
  claimToken := activity.claimToken
  sequence := sequence
  schemaVersion := schemaVersion
  payload := payload

/-- The store calls of a driver. -/
def driverCalls {α : Type} (activity : Activity) : Prog SinkCall α → Prog Call α
  | .done a => .done a
  | .call (.save sequence schemaVersion payload) k =>
      .call (.store (.recordCheckpoint (saveInput activity sequence schemaVersion payload)))
        (fun r => driverCalls activity (k (r.map (fun _ => ()))))
  | .call .load k =>
      .call (.store (.getLatestCheckpoint
        ⟨activity.workflowID, activity.nodeID, activity.iteration⟩))
        (fun r => driverCalls activity (k r))

-- ============================================================================
-- The engine
-- ============================================================================

end Engine

/-- `Engine`, without its clock, telemetry and test hooks. -/
structure Engine where
  env : Env
  driver : Engine.Driver
  externalActivities : Bool
  ownerID : String
  workerID : String
  actorID : String
  leaseTTL : Int
  attemptLease : Int
  retryBackoff : Int
  maxSteps : Int

namespace Engine

variable (e : Engine)

def worker : String := if e.workerID = "" then "m1-worker" else e.workerID

def actor : String := if e.actorID = "" then "m1-scheduler" else e.actorID

def ttl : Int := if e.leaseTTL ≤ 0 then minute else e.leaseTTL

def steps : Nat := if e.maxSteps ≤ 0 then 100 else e.maxSteps.toNat

/-- `{"error":%q}`. -/
def errorPayload (message : String) : RawMessage :=
  if quotable e.env message then .json (.obj [("error", .str message)]) else .malformed

/-- The outcome, payload and retry delay a driver's return stands for. -/
def driverOutcome (definitionNode : Node) (returned : Except String ActivityResult) :
    AttemptState × RawMessage × Int :=
  let result : ActivityResult := match returned with
    | .ok r => r
    | .error message => ⟨some .failedRetryable, e.errorPayload message, e.retryBackoff⟩
  let attemptState := result.attemptState.getD .succeeded
  let payload := result.payload.orEmptyObject
  let retryAfter := if result.retryAfter ≤ 0 then e.retryBackoff else result.retryAfter
  match attemptState, validateActivityResult definitionNode payload with
  | .succeeded, .error message => (.failedFinal, e.errorPayload message, retryAfter)
  | _, _ => (attemptState, payload, retryAfter)

/-- The input `consumeRecordedResult` submits. -/
def consumeInput (workflow : Workflow) (key : NodeKey) (attemptNumber : Int)
    (attemptState : AttemptState) (retryAfter : Int) (lease : LeaseRef) : ConsumeResultInput where
  lease := lease
  workflowID := key.workflowID
  nodeID := key.nodeID
  iteration := key.iteration
  attemptNumber := attemptNumber
  expectedRevision := workflow.revision
  newWorkflowState :=
    if attemptState = .failedRetryable then .waitingTimer
    else if attemptState = .failedFinal then .failed else .runnable
  retryAfter := if attemptState = .failedRetryable then some retryAfter else none
  actorID := e.actor

/-- `consumeRecordedResult`. -/
def consumeRecordedResult (key : NodeKey) (attemptNumber : Int) (attemptState : AttemptState)
    (retryAfter : Int) (lease : LeaseRef) : EngineM Unit := do
  let workflow ← store (.getWorkflow key.workflowID)
  let _ ← store (.consumeResult
    (e.consumeInput workflow key attemptNumber attemptState retryAfter lease))

/-- The request under which the engine claims an attempt for itself. -/
def claimInput (key : AttemptKey) : ClaimInput where
  expectedAttempt := 0
  workflowID := key.node.workflowID
  nodeID := key.node.nodeID
  iteration := key.node.iteration
  workerID := e.worker
  requestID := "engine:" ++ key.node.workflowID ++ ":" ++ key.node.nodeID ++ ":" ++
    toString key.node.iteration ++ ":" ++ toString key.number
  attemptLease := e.attemptLease

/-- The engine's own claim of an attempt; one that was claimed before keeps its token. -/
def claimFor (node : NodeInstance) (attempt : Attempt) : EngineM ClaimResult :=
  if attempt.state = .dispatchable then
    store (.claimAttempt (e.claimInput ⟨node.key, attempt.key.number⟩))
  else pure ⟨attempt.key.number, attempt.claimToken.getD "", attempt.effectClass, none⟩

def activityOf (node : NodeInstance) (attempt : Attempt) (claim : ClaimResult) : Activity where
  workflowID := node.key.workflowID
  nodeID := node.key.nodeID
  iteration := node.key.iteration
  attemptNumber := claim.attemptNumber
  effectClass := claim.effectClass
  input := .json node.input.doc
  logicalEffectKey := attempt.logicalEffectKey.getD ""
  grantScopeHash := attempt.grantScopeHash.getD ""
  claimToken := claim.claimToken

/-- `executeAttempt`. -/
def executeAttempt (node : NodeInstance) (definitionNode : Node) (attempt : Attempt)
    (lease : LeaseRef) : EngineM Unit := do
  let claim ← e.claimFor node attempt
  if claim.claimToken = "" then throw (.sentinel .staleClaim)
  else do
    let activity := activityOf node attempt claim
    let returned ← ExceptT.lift (driverCalls activity (e.driver activity))
    let (attemptState, payload, retryAfter) := e.driverOutcome definitionNode returned
    let _ ← store (.recordResultReceipt ⟨node.key.workflowID, node.key.nodeID, node.key.iteration,
      claim.attemptNumber, claim.claimToken, attemptState, payload, "activity.result", ""⟩)
    e.consumeRecordedResult node.key claim.attemptNumber attemptState retryAfter lease

/-- `definitionEffect`. -/
def definitionEffect (workflow : Workflow) (nodeID : String) : EngineM (Option EffectClass) := do
  let reply ← tryStore (.getDefinition workflow.definitionID workflow.definitionVersion)
  return reply.toOption.bind (fun definition =>
    (definition.effectClasses.lookup nodeID).bind EffectClass.ofText)

/-- `startActivity`. -/
def startActivity (workflow : Workflow) (node : NodeInstance) (definitionNode : Node)
    (lease : LeaseRef) : EngineM Unit := do
  match ← definitionEffect workflow node.key.nodeID with
  | none => throw (.text ("no effect class for activity " ++ quote node.key.nodeID))
  | some effectClass =>
      let logicalKey := workflow.workflowID ++ ":" ++ node.key.nodeID ++ ":" ++
        toString node.key.iteration
      let attempt ← store (.createAttempt ⟨lease, workflow.workflowID, node.key.nodeID,
        node.key.iteration, workflow.revision, effectClass, logicalKey, node.key.nodeID,
        e.attemptLease, e.actor⟩)
      if e.externalActivities then pure ()
      else e.executeAttempt node definitionNode attempt lease

/-- The transition that schedules an activity. -/
def scheduleInput (workflow : Workflow) (key : NodeKey) (lease : LeaseRef) :
    OwnerTransitionInput where
  lease := lease
  workflowID := workflow.workflowID
  expectedRevision := workflow.revision
  newState := .waitingActivity
  actorID := e.actor
  reason := "ACTIVITY_SCHEDULED"
  nodeID := key.nodeID
  iteration := key.iteration
  nodeState := some .waitingActivity
  attemptNumber := none

/-- `runActivity`. -/
def runActivity (workflow : Workflow) (node : NodeInstance) (definitionNode : Node)
    (lease : LeaseRef) : EngineM Unit := do
  store (.applyOwnerTransition (e.scheduleInput workflow node.key lease))
  let workflow ← store (.getWorkflow workflow.workflowID)
  e.startActivity workflow node definitionNode lease

/-- The transition of a node whose timer is due. -/
def dueInput (workflow : Workflow) (key : NodeKey) (lease : LeaseRef) : OwnerTransitionInput where
  lease := lease
  workflowID := workflow.workflowID
  expectedRevision := workflow.revision
  newState := .runnable
  actorID := e.actor
  reason := "TIMER_DUE"
  nodeID := key.nodeID
  iteration := key.iteration
  nodeState := some .runnable
  attemptNumber := none

/-- `advanceDueTimer`. -/
def advanceDueTimer (workflow : Workflow) (lease : LeaseRef) :
    List NodeInstance → EngineM Bool
  | [] => pure false
  | node :: nodes =>
      if node.state ≠ .waitingTimer then advanceDueTimer workflow lease nodes
      else do
        let timer ← store (.pendingTimer ⟨workflow.workflowID, node.key.nodeID, node.key.iteration⟩)
        let databaseNow ← store .databaseTime
        if timer.any (fun t => t.dueAt ≤ databaseNow) then do
          store (.applyOwnerTransition (e.dueInput workflow node.key lease))
          pure true
        else advanceDueTimer workflow lease nodes

/-- The input of `AdvanceGraph` for a node. -/
def advanceInput (workflow : Workflow) (key : NodeKey) (lease : LeaseRef)
    (next : List GraphNodeInput) : AdvanceGraphInput where
  lease := lease
  workflowID := workflow.workflowID
  fromNodeID := key.nodeID
  iteration := key.iteration
  expectedRevision := workflow.revision
  next := next
  finalWorkflowState := none
  finalNodeState := none
  actorID := e.actor

/-- `advanceFromControl`. -/
def advanceFromControl (workflow : Workflow) (node : NodeInstance) (definitionNode : Node)
    (graph : Graph) (lease : LeaseRef) : EngineM Unit := do
  let next ← localCheck (nextInputs node definitionNode graph)
  let _ ← store (.advanceGraph (e.advanceInput workflow node.key lease next))

/-- The successors of a fan-out node: its branches and their join. -/
def fanoutNext (node : NodeInstance) (definitionNode : Node) : List GraphNodeInput :=
  definitionNode.branches.map (fun branch =>
      ⟨branch, node.key.iteration, [], .json node.input.doc⟩) ++
    (if definitionNode.join = "" then [] else
      [⟨definitionNode.join, node.key.iteration, definitionNode.branches, .json node.input.doc⟩])

/-- The delay of a timer node, 25 milliseconds by default. -/
def timerDelay (definitionNode : Node) : Int :=
  if definitionNode.delay ≤ 0 then 25000000 else definitionNode.delay

def timerInput (workflow : Workflow) (key : NodeKey) (definitionNode : Node) (lease : LeaseRef) :
    ScheduleTimerInput where
  lease := lease
  workflowID := workflow.workflowID
  nodeID := key.nodeID
  iteration := key.iteration
  expectedRevision := workflow.revision
  delay := timerDelay definitionNode
  purpose := "WORKFLOW_TIMER"
  actorID := e.actor

/-- `runNode`. -/
def runNode (workflow : Workflow) (node : NodeInstance) (definitionNode : Node) (graph : Graph)
    (lease : LeaseRef) : EngineM Unit := do
  if definitionNode.kind = "activity" then
    e.runActivity workflow node definitionNode lease
  else if isFanout definitionNode.kind then
    let _ ← store (.advanceGraph (e.advanceInput workflow node.key lease
      (fanoutNext node definitionNode)))
  else if definitionNode.kind = "join" then
    e.advanceFromControl workflow node definitionNode graph lease
  else if definitionNode.kind = "timer" then
    if node.timerFired = false then
      let _ ← store (.scheduleTimer (e.timerInput workflow node.key definitionNode lease))
    else
      e.advanceFromControl workflow node definitionNode graph lease
  else if definitionNode.kind = "success" ∨ definitionNode.kind = "succeed" then
    let _ ← store (.advanceGraph { e.advanceInput workflow node.key lease [] with
      finalWorkflowState := some .succeeded })
  else if definitionNode.kind = "failure" ∨ definitionNode.kind = "fail" then
    let _ ← store (.advanceGraph { e.advanceInput workflow node.key lease [] with
      finalWorkflowState := some .failed, finalNodeState := some .failed })
  else
    throw (.text ("unsupported graph node kind " ++ quote definitionNode.kind))

/-- The input of `TimeoutAttempt` for an attempt. -/
def timeoutInput (workflow : Workflow) (key : AttemptKey) (lease : LeaseRef) : TimeoutInput where
  lease := lease
  workflowID := workflow.workflowID
  nodeID := key.node.nodeID
  iteration := key.node.iteration
  attemptNumber := key.number
  expectedRevision := workflow.revision
  actorID := e.actor
  dispatchLease := e.attemptLease

/-- The attempt's deadline has passed. -/
def hasExpired (attempt : Attempt) (now : Int) : Bool :=
  attempt.heartbeatDeadline.any (fun d => d ≤ now)

/-- `recoverActivity`; the reply says whether the pass made progress. -/
def recoverActivity (workflow : Workflow) (node : NodeInstance) (definitionNode : Node)
    (lease : LeaseRef) : EngineM Bool := do
  match node.currentAttempt with
  | none =>
      e.startActivity workflow node definitionNode lease
      pure true
  | some number =>
      let key : AttemptKey :=
        ⟨⟨workflow.workflowID, node.key.nodeID, node.key.iteration⟩, number⟩
      let attempt ← store (.getAttempt key)
      if attempt.isCurrent = false ∧ attempt.state.isTerminal ∧ attempt.result.isSome then
        e.consumeRecordedResult key.node attempt.key.number attempt.state e.retryBackoff lease
        pure true
      else
        let databaseNow ← store .databaseTime
        if attempt.state = .dispatchable then
          if e.externalActivities then
            if !hasExpired attempt databaseNow then pure false
            else
              let _ ← store (.timeoutAttempt
                (e.timeoutInput workflow ⟨node.key, attempt.key.number⟩ lease))
              pure true
          else
            e.executeAttempt node definitionNode attempt lease
            pure true
        else if attempt.state = .claimed ∧ hasExpired attempt databaseNow then
          let _ ← store (.timeoutAttempt
            (e.timeoutInput workflow ⟨node.key, attempt.key.number⟩ lease))
          pure true
        else pure false

/-- Some proposed successor is not among the nodes. -/
def successorMissing (nodes : List NodeInstance) (next : List GraphNodeInput) : Bool :=
  next.any (fun item => !nodes.any (fun n =>
    n.key.nodeID = item.nodeID && n.key.iteration = item.iteration))

/-- `recoverSucceeded`; the reply says whether the pass made progress. -/
def recoverSucceeded (workflow : Workflow) (node : NodeInstance) (definitionNode : Node)
    (graph : Graph) (lease : LeaseRef) : EngineM Bool := do
  let next ← localCheck
    (if definitionNode.kind = "activity" then
      nextInputsForResult node.key definitionNode graph node.acceptedResult
    else nextInputs node definitionNode graph)
  let nodes ← store (.listNodes workflow.workflowID)
  if !successorMissing nodes next ∧ next ≠ [] then pure false
  else
    let _ ← store (.advanceGraph (e.advanceInput workflow node.key lease next))
    pure true

/-- `joinReady`. -/
def joinReady (workflowID : String) (iteration : Int) (ready : Bool) :
    List String → EngineM Bool
  | [] => pure ready
  | dependency :: dependencies => do
      match ← tryStore (.getNode ⟨workflowID, dependency, iteration⟩) with
      | .ok n =>
          if n.state = .succeeded then joinReady workflowID iteration true dependencies
          else pure false
      | .error _ => pure false

/-- A runnable join waits for its dependencies; other nodes are ready. -/
def nodeReady (workflow : Workflow) (node : NodeInstance) (definitionNode : Node) :
    EngineM Bool :=
  if definitionNode.kind = "join" then
    joinReady workflow.workflowID node.key.iteration false node.dependencies
  else pure true

/-- One node of a pass; the reply says whether the pass made progress. -/
def visitNode (workflow : Workflow) (graph : Graph) (lease : LeaseRef) (node : NodeInstance)
    (definitionNode : Node) : EngineM Bool := do
  match node.state with
  | .runnable =>
      if ← nodeReady workflow node definitionNode then
        e.runNode workflow node definitionNode graph lease
        pure true
      else pure false
  | .waitingActivity => e.recoverActivity workflow node definitionNode lease
  | .succeeded => e.recoverSucceeded workflow node definitionNode graph lease
  | _ => pure false

/-- The nodes of a pass one by one, up to the first that makes progress. -/
def visitNodes (workflow : Workflow) (graph : Graph) (lease : LeaseRef) :
    List NodeInstance → EngineM Bool
  | [] => pure false
  | node :: nodes => do
      match graph.find node.key.nodeID with
      | none => throw (.text ("node " ++ quote node.key.nodeID ++ " is not in definition"))
      | some definitionNode =>
          if ← e.visitNode workflow graph lease node definitionNode then pure true
          else visitNodes workflow graph lease nodes

structure RunResult where
  workflow : Workflow
  steps : Nat
  blocked : Bool

/-- The loop of `Run`: at most `fuel` further steps after `steps` ones. -/
def loop (workflowID : String) (graph : Graph) (lease : LeaseRef) :
    Nat → Nat → EngineM RunResult
  | 0, steps => do
      let workflow ← store (.getWorkflow workflowID)
      return ⟨workflow, steps, true⟩
  | fuel + 1, steps => do
      let renewed ← store (.renewLease lease e.ttl)
      let workflow ← store (.getWorkflow workflowID)
      if workflow.state.isTerminal then return ⟨workflow, steps, false⟩
      else do
        let nodes ← store (.listNodes workflowID)
        if ← e.advanceDueTimer workflow renewed.ref nodes then
          loop workflowID graph renewed.ref fuel (steps + 1)
        else if ← e.visitNodes workflow graph renewed.ref nodes then do
          let workflow ← store (.getWorkflow workflowID)
          if workflow.state.isTerminal then return ⟨workflow, steps + 1, false⟩
          else loop workflowID graph renewed.ref fuel (steps + 1)
        else return ⟨workflow, steps + 1, true⟩

-- ============================================================================
-- The local runtime
-- ============================================================================

/-- `RuntimeRegistry`: the activities of the local deployment with their versions. -/
def runtimeRegistry (env : Env) : List (String × String) :=
  [("pure.add", "v1"), ("pure.echo", "v1")] ++
    (if env.allowSleepFixture then [("dur048.sleep", "v1")] else []) ++
    (if env.allowCPUFixture then [("dur053.cpu", "v1")] else [])

/-- `RuntimeVersion`: the local deployment can run the activity. -/
def runtimeSupports (env : Env) (definition : DefinitionView) (nodeID : String) : Bool :=
  match unmarshalStringMap definition.row.activityVersions.doc with
  | none => false
  | some versions =>
      (nodeID, (versions.lookup nodeID).getD "") ∈ runtimeRegistry env &&
        definition.effectClasses.lookup nodeID = some EffectClass.pure.text

/-- `ApplyRuntimeCancellations`. -/
def applyRuntimeCancellations (lease : LeaseRef) (workflowID : String) : EngineM Unit := do
  let ids ← store (.pendingCancellations workflowID)
  ids.forM (fun id => do
    let _ ← store (.applyCancellationRequest lease id e.actor))

/-- The transition that parks a workflow the deployment cannot run. -/
def pauseInput (workflow : Workflow) (lease : LeaseRef) : OwnerTransitionInput where
  lease := lease
  workflowID := workflow.workflowID
  expectedRevision := workflow.revision
  newState := .pausedUnsupportedVersion
  actorID := e.actor
  reason := "LOCAL_ACTIVITY_UNSUPPORTED"
  nodeID := ""
  iteration := 0
  nodeState := none
  attemptNumber := none

/-- The states in which an external pass leaves the workflow alone. -/
def parked (state : WorkflowState) : Bool :=
  state.isTerminal || state = .pausedUnsupportedVersion || state = .waitingApproval ||
    state = .reconciliationRequired

/-- What `Run` does in external-activity mode before its loop; a result ends the run. -/
def externalPrelude (workflowID : String) (definition : DefinitionView) (graph : Graph) (lease : LeaseRef) :
    EngineM (Option RunResult) := do
  e.applyRuntimeCancellations lease workflowID
  let workflow ← store (.getWorkflow workflowID)
  if parked workflow.state then return some ⟨workflow, 0, !workflow.state.isTerminal⟩
  else if graph.nodes.all (fun n => n.kind ≠ "activity" || runtimeSupports e.env definition n.id) then
    return none
  else
    store (.applyOwnerTransition (e.pauseInput workflow lease))
    let workflow ← store (.getWorkflow workflowID)
    return some ⟨workflow, 0, true⟩

/-- `Run` while it holds the lease. -/
def body (workflowID : String) (definition : DefinitionView) (graph : Graph) (lease : LeaseRef) :
    EngineM RunResult :=
  if e.externalActivities then do
    match ← e.externalPrelude workflowID definition graph lease with
    | some result => return result
    | none => e.loop workflowID graph lease e.steps 0
  else e.loop workflowID graph lease e.steps 0

/-- A successful external run acknowledges the wakeups it has seen. -/
def acknowledge (workflowID : String) (lease : LeaseRef) (outcome : Except Err RunResult) :
    EngineM (Except Err RunResult) :=
  match outcome with
  | .ok result =>
      if e.externalActivities then do
        let reply ← tryStore
          (.acknowledgeWorkflowWakeups lease workflowID result.workflow.revision)
        return reply.map (fun _ => result)
      else pure outcome
  | .error _ => pure outcome

/-- What `Run` defers until it returns: the acknowledgement, then the release
    of the lease, whose reference renewals do not change. -/
def finish (workflowID : String) (lease : LeaseRef) (outcome : Except Err RunResult) :
    EngineM RunResult := do
  let outcome ← e.acknowledge workflowID lease outcome
  let _ ← tryStore (.releaseLease lease)
  ExceptT.mk (pure outcome)

/-- `Engine.Run`; `newID` is what `state.NewID` draws for an engine without an owner ID. -/
def run (newID : String) (workflowID : String) : EngineM RunResult := do
  let workflow ← store (.getWorkflow workflowID)
  let definition ← store (.getDefinition workflow.definitionID workflow.definitionVersion)
  let graph ← localCheck (parseGraph definition.row.graph.doc)
  let ownerID := if e.ownerID = "" then newID else e.ownerID
  let (lease, acquired) ← store (.acquireLease workflow.partitionID ownerID e.ttl)
  if acquired then
    let outcome ← ExceptT.lift (e.body workflowID definition graph lease.ref).run
    e.finish workflowID lease.ref outcome
  else throw (.sentinel .leaseNotOwned)

end Engine

end DurableEngine
