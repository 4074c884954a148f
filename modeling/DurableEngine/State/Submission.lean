/-
  DurableEngine.State.Submission

  Definitions, workflow submission and partition leases
  (`CreateDefinition`, `CreateWorkflow`, `AcquireLease`, `RenewLease`,
  `ReleaseLease` of `internal/state/store.go`, `internal/partition`).

  Every operation is one transaction: a function from the database to its
  reply and the next database, or to an error.
-/

import DurableEngine.State.Graph

namespace DurableEngine.State

open Lib

-- ============================================================================
-- Definitions
-- ============================================================================

structure DefinitionInput where
  definitionID : String
  version : Int
  definitionHash : String
  graph : RawMessage
  activityVersions : RawMessage
  effectClasses : RawMessage

/-- `reflect.DeepEqual` of the stored and the submitted effect classes. -/
def sameClasses (stored : List (String × String)) (classes : List (String × EffectClass)) : Bool :=
  stored.length = classes.length && classes.all (fun c => stored.lookup c.1 = some c.2.text)

/-- `CreateDefinition`. -/
def createDefinition (input : DefinitionInput) (db : DB) : Except Err (Unit × DB) := do
  rejectIf (input.definitionID = "" ∨ input.version ≤ 0 ∨ input.definitionHash = "")
    (.text "definition ID, positive version, and hash are required")
  let classes ← decodeEffectClasses input.effectClasses
  rejectIf (classes.isEmpty) (.sentinel .missingEffectClass)
  let graph ← getOr input.graph.orEmptyObject.toJsonb (.invalidText "insert workflow definition")
  let activityVersions ← getOr input.activityVersions.orEmptyObject.toJsonb
    (.invalidText "insert workflow definition")
  let effectClasses ← getOr input.effectClasses.toJsonb (.invalidText "insert workflow definition")
  let row : Definition :=
    ⟨input.definitionID, input.version, input.definitionHash, graph, activityVersions, effectClasses⟩
  let definitions := (db.definitions.insert? row).getD db.definitions
  let existing ← getOr (definitions.get row.key) (.noRows "read workflow definition")
  let stored ← getOr (unmarshalStringMap existing.effectClasses.doc)
    (.text "decode stored effect classes")
  rejectIf (existing.definitionHash ≠ input.definitionHash ∨ !sameClasses stored classes)
    (.text ("definition " ++ input.definitionID ++ " version " ++ toString input.version ++
      " already has a different hash"))
  return ((), { db with definitions := definitions })

/-- A definition as `GetDefinition` returns it. -/
structure DefinitionView where
  row : Definition
  effectClasses : List (String × String)

/-- `GetDefinition`. -/
def getDefinition (definitionID : String) (version : Int) (db : DB) :
    Except Err DefinitionView := do
  let row ← getOr (db.definitions.get ⟨definitionID, version⟩) (.sentinel .definitionNotFound)
  let effectClasses ← getOr (unmarshalStringMap row.effectClasses.doc)
    (.text "decode workflow effect classes")
  return ⟨row, effectClasses⟩

-- ============================================================================
-- Submission
-- ============================================================================

structure CreateWorkflowInput where
  workflowID : String
  namespace_ : String
  submissionKey : String
  submissionPayloadHash : String
  definitionID : String
  definitionVersion : Int
  partitionID : Int
  initialNodeID : String
  initialInput : RawMessage
  actorID : String

structure CreateWorkflowResult where
  workflow : Workflow
  created : Bool

/-- `partition.ID`: the first eight digest bytes, big-endian, modulo 16. -/
def partitionOf (workflowID : String) : Int :=
  let digest := Sha256.sum256 (Sha256.stringBytes workflowID)
  (((digest.take 8).foldl (fun n b => n * 256 + b) 0 % 16 : Nat) : Int)

example : [partitionOf "workflow-0001", partitionOf "workflow-0002",
    partitionOf "incident-2026-09-14-a", partitionOf "retry-key/abc"] = [8, 14, 0, 0] := by
  decide +kernel

/-- The workflow stored under an idempotency key. -/
def DB.submission (db : DB) (ns key : String) : Option Workflow :=
  db.workflows.rows.find? (fun w => w.namespace_ = ns && w.submissionKey = key)

/-- A submission whose key is taken returns the stored workflow. -/
def replaySubmission (workflow : Workflow) (input : CreateWorkflowInput) :
    Except Err CreateWorkflowResult := do
  rejectIf (workflow.payloadHash ≠ input.submissionPayloadHash) (.sentinel .submissionConflict)
  return ⟨workflow, false⟩

/-- A submission whose workflow ID is taken. -/
def replayWorkflowID (workflow : Workflow) (input : CreateWorkflowInput) :
    Except Err CreateWorkflowResult := do
  rejectIf (workflow.namespace_ ≠ input.namespace_ ∨ workflow.submissionKey ≠ input.submissionKey)
    (.sentinel .workflowIDConflict)
  replaySubmission workflow input

/-- The writes of a new workflow. -/
def insertWorkflow (env : Env) (amb : Ambient) (input : CreateWorkflowInput)
    (admissionLocked : Bool) (db : DB) : Except Err (CreateWorkflowResult × DB) := do
  let actorID := if input.actorID = "" then "client" else input.actorID
  let workflow : Workflow :=
    ⟨input.workflowID, input.namespace_, input.submissionKey, input.submissionPayloadHash,
      input.definitionID, input.definitionVersion, input.partitionID, .runnable, 1⟩
  let key : NodeKey := ⟨input.workflowID, input.initialNodeID, 0⟩
  let workflows ← getOr (db.workflows.insert? workflow)
    (.constraint "insert workflow" "workflow_executions_pkey")
  let db := { db with workflows := workflows }
  let db ← (if admissionLocked then insertAdmissionSlot db input.namespace_ input.workflowID
    else .ok db)
  let initialInput ← getOr input.initialInput.orEmptyObject.toJsonb
    (.invalidText "insert initial node")
  let nodes ← getOr
    (db.nodes.insert? ⟨key, .runnable, [], initialInput, none, none, 0, none, false, 0⟩)
    (.constraint "insert initial node" "node_instances_pkey")
  let db := ensureRetryPolicyTx { db with nodes := nodes } key
  let db ← insertHistory db input.workflowID 1 "client" actorID none input.initialNodeID none none
    none .runnable "WORKFLOW_CREATED"
  let db ← insertOutbox amb db input.workflowID 1 "workflow.created"
    (sprintfJson env [("workflow_id", .quoted input.workflowID)])
  return (⟨workflow, true⟩, db)

/-- `CreateWorkflow` once no workflow holds the idempotency key. -/
def submitWorkflow (env : Env) (amb : Ambient) (input : CreateWorkflowInput) (db : DB) :
    Except Err (CreateWorkflowResult × DB) := do
  let definition ← getOr (db.definitions.get ⟨input.definitionID, input.definitionVersion⟩)
    (.sentinel .definitionNotFound)
  let graph ← (decodeDefinitionGraph definition.graph.doc).mapError (.wrapped .graphViolation)
  rejectIf (input.initialNodeID ≠ graph.entry) (.sentinel .unknownNode)
  rejectIf (partitionOf input.workflowID ≠ input.partitionID)
    (.wrapped .partitionMismatch ("got " ++ toString input.partitionID ++ ", want " ++
      toString (partitionOf input.workflowID)))
  let admissionLocked ← lockAdmissionNamespace env input.namespace_
  match db.workflows.get input.workflowID with
  | some existing => do
      let result ← replayWorkflowID existing input
      return (result, db)
  | none => do
      let _ ← (if admissionLocked then checkAdmissionCapacity env db input.namespace_ else .ok ())
      insertWorkflow env amb input admissionLocked db

/-- `CreateWorkflow`. -/
def createWorkflow (env : Env) (amb : Ambient) (input : CreateWorkflowInput) (db : DB) :
    Except Err (CreateWorkflowResult × DB) := do
  rejectIf (input.workflowID = "" ∨ input.namespace_ = "" ∨ input.submissionKey = "" ∨
      input.submissionPayloadHash = "" ∨ input.definitionID = "" ∨ input.initialNodeID = "")
    (.text "workflow identity and initial node are required")
  match db.submission input.namespace_ input.submissionKey with
  | some workflow => do
      let result ← replaySubmission workflow input
      return (result, db)
  | none => submitWorkflow env amb input db

/-- `GetWorkflow`. -/
def getWorkflow (workflowID : String) (db : DB) : Except Err Workflow :=
  getOr (db.workflows.get workflowID) (.wrapped .workflowNotFound workflowID)

-- ============================================================================
-- Leases
-- ============================================================================

/-- `AcquireLease`; the reply says whether the caller owns the lease. -/
def acquireLease (partitionID : Int) (ownerID : String) (ttl : Int) (db : DB) :
    Except Err ((Lease × Bool) × DB) := do
  rejectIf (ttl ≤ 0 ∨ ownerID = "") (.text "owner ID and positive lease TTL are required")
  let row ← getOr (db.leases.get partitionID) (.noRows "lock partition lease")
  let live := row.leaseExpiresAt.any (fun expiry => db.now < expiry)
  match row.ownerID, row.leaseExpiresAt with
  | some owner, some expiry =>
      if live && owner ≠ ownerID then
        .ok ((⟨partitionID, owner, row.epoch, expiry⟩, false), db)
      else
        takeLease (if live then row.epoch else row.epoch + 1)
  | _, _ => takeLease (row.epoch + 1)
where
  /-- Write the caller as owner under `nextEpoch`. -/
  takeLease (nextEpoch : Int) : Except Err ((Lease × Bool) × DB) := do
    let owner ← getOr (uuidText ownerID) (.invalidText "acquire partition lease")
    let lease : Lease := ⟨partitionID, ownerID, nextEpoch, db.now + ttl⟩
    return ((lease, true), { db with
      leases := db.leases.modify partitionID (fun l => { l with
        ownerID := some owner, epoch := nextEpoch, leaseExpiresAt := some (db.now + ttl) })
        (fun _ => rfl) })

/-- `ReleaseLease`. -/
def releaseLease (ref : LeaseRef) (db : DB) : Except Err (Unit × DB) := do
  let _ ← lockLease db ref
  return ((), { db with
    leases := db.leases.modify ref.partitionID
      (fun l => { l with ownerID := none, leaseExpiresAt := none }) (fun _ => rfl) })

/-- `RenewLease` extends an unexpired lease without changing its epoch. -/
def renewLease (ref : LeaseRef) (ttl : Int) (db : DB) : Except Err (Lease × DB) := do
  rejectIf (ref.ownerID = "" ∨ ref.epoch ≤ 0 ∨ ttl ≤ 0)
    (.text "lease owner, positive epoch, and positive TTL are required")
  let current ← lockLease db ref
  return ({ current with leaseExpiresAt := db.now + ttl }, { db with
    leases := db.leases.modify ref.partitionID
      (fun l => { l with leaseExpiresAt := some (db.now + ttl) }) (fun _ => rfl) })

end DurableEngine.State
