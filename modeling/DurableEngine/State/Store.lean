/-
  DurableEngine.State.Store

  The repository's interface: one constructor of `Op` for each operation, its
  reply type as index, and `run`, the transaction each one is.

  Clients interleave at the granularity of operations, so a run of the store
  is a sequence of committed operations and clock ticks (`Step`); a failed
  operation changes nothing.
-/

import DurableEngine.State.Recovery

namespace DurableEngine.State

open Lib

/-- The operations of the store, indexed by the type of their reply. -/
inductive Op : Type → Type where
  | createDefinition (input : DefinitionInput) : Op Unit
  | getDefinition (definitionID : String) (version : Int) : Op DefinitionView
  | createWorkflow (input : CreateWorkflowInput) : Op CreateWorkflowResult
  | getWorkflow (workflowID : String) : Op Workflow
  | acquireLease (partitionID : Int) (ownerID : String) (ttl : Int) : Op (Lease × Bool)
  | renewLease (ref : LeaseRef) (ttl : Int) : Op Lease
  | releaseLease (ref : LeaseRef) : Op Unit
  | applyOwnerTransition (input : OwnerTransitionInput) : Op Unit
  | consumeResult (input : ConsumeResultInput) : Op ConsumeResult
  | createAttempt (input : AttemptInput) : Op Attempt
  | getAttempt (key : AttemptKey) : Op Attempt
  | claimAttempt (input : ClaimInput) : Op ClaimResult
  | heartbeatAttempt (input : HeartbeatInput) : Op Int
  | recordResultReceipt (input : ResultInput) : Op ResultReceipt
  | recordLateEvidence (input : LateEvidenceInput) : Op String
  | timeoutAttempt (input : TimeoutInput) : Op TimeoutResult
  | listNodes (workflowID : String) : Op (List NodeInstance)
  | getNode (key : NodeKey) : Op NodeInstance
  | pendingTimer (key : NodeKey) : Op (Option Timer)
  | databaseTime : Op Int
  | scheduleTimer (input : ScheduleTimerInput) : Op String
  | cancelWorkflow (input : CancelWorkflowInput) : Op Workflow
  | advanceGraph (input : AdvanceGraphInput) : Op AdvanceGraphResult
  | setRetryPolicy (input : RetryPolicyInput) : Op Unit
  | recordCheckpoint (input : CheckpointInput) : Op Checkpoint
  | getLatestCheckpoint (key : NodeKey) : Op Checkpoint
  | createApprovalIntent (input : ApprovalIntentInput) : Op ApprovalIntent
  | recordApprovalDecision (input : ApprovalDecisionInput) : Op ApprovalIntent
  | applyApproval (input : ApplyApprovalInput) : Op ApprovalGrant
  | requestCancellation (input : CancellationRequestInput) : Op CancellationRequest
  | applyCancellationRequest (lease : LeaseRef) (requestID actorID : String) : Op Workflow
  | pendingCancellations (workflowID : String) : Op (List String)
  | acknowledgeWorkflowWakeups (lease : LeaseRef) (workflowID : String) (revision : Int) : Op Unit

/-- A query reads and writes nothing. -/
def query {α : Type} (f : DB → Except Err α) (db : DB) : Except Err (α × DB) := do
  let a ← f db
  return (a, db)

namespace Op

variable {α : Type}

/-- The transaction of an operation. -/
def run (env : Env) (amb : Ambient) : Op α → DB → Except Err (α × DB)
  | .createDefinition input => State.createDefinition input
  | .getDefinition id version => query (State.getDefinition id version)
  | .createWorkflow input => State.createWorkflow env amb input
  | .getWorkflow id => query (State.getWorkflow id)
  | .acquireLease p owner ttl => State.acquireLease p owner ttl
  | .renewLease ref ttl => State.renewLease ref ttl
  | .releaseLease ref => State.releaseLease ref
  | .applyOwnerTransition input => State.applyOwnerTransition env input
  | .consumeResult input => State.consumeResult env amb input
  | .createAttempt input => State.createAttempt env amb input
  | .getAttempt key => query (State.getAttempt key)
  | .claimAttempt input => State.claimAttempt amb input
  | .heartbeatAttempt input => State.heartbeatAttempt input
  | .recordResultReceipt input => State.recordResultReceipt amb input
  | .recordLateEvidence input => State.recordLateEvidence amb input
  | .timeoutAttempt input => State.timeoutAttempt env amb input
  | .listNodes id => query (fun db => .ok (State.listNodes env id db))
  | .getNode key => query (State.getNode key)
  | .pendingTimer key => query (fun db => .ok (db.pendingTimer key))
  | .databaseTime => query (fun db => .ok db.now)
  | .scheduleTimer input => State.scheduleTimer env amb input
  | .cancelWorkflow input => State.cancelWorkflow env amb input
  | .advanceGraph input => State.advanceGraph env amb input
  | .setRetryPolicy input => State.setRetryPolicy input
  | .recordCheckpoint input => State.recordCheckpoint input
  | .getLatestCheckpoint key => query (fun db => getOr (db.latestCheckpoint key) (.noRows ""))
  | .createApprovalIntent input => State.createApprovalIntent env amb input
  | .recordApprovalDecision input => State.recordApprovalDecision amb input
  | .applyApproval input => State.applyApproval env amb input
  | .requestCancellation input => State.requestCancellation amb input
  | .applyCancellationRequest lease requestID actorID =>
      State.applyCancellationRequest env amb lease requestID actorID
  | .pendingCancellations id => query (fun db => .ok (State.pendingCancellations id db))
  | .acknowledgeWorkflowWakeups lease id revision =>
      State.acknowledgeWorkflowWakeups lease id revision

/-- The lease under which a scheduler issues the operation. -/
def leaseRef : Op α → Option LeaseRef
  | .renewLease ref _ | .releaseLease ref => some ref
  | .applyOwnerTransition input => some input.lease
  | .consumeResult input => some input.lease
  | .createAttempt input => some input.lease
  | .timeoutAttempt input => some input.lease
  | .scheduleTimer input => some input.lease
  | .cancelWorkflow input => some input.lease
  | .advanceGraph input => some input.lease
  | .setRetryPolicy input => some input.lease
  | .createApprovalIntent input => some input.lease
  | .applyApproval input => some input.lease
  | .applyCancellationRequest lease _ _ => some lease
  | .acknowledgeWorkflowWakeups lease _ _ => some lease
  | _ => none

/-- The reply of an operation and the database it leaves; an error rolls back. -/
def exec (env : Env) (amb : Ambient) (op : Op α) (db : DB) : Except Err α × DB :=
  match op.run env amb db with
  | .ok (a, db') => (.ok a, db')
  | .error e => (.error e, db)

end Op

-- ============================================================================
-- Runs
-- ============================================================================

/-- The clock advances by `d`. -/
def DB.tick (db : DB) (d : Nat) : DB := { db with now := db.now + d }

/-- One step of the store: the clock advances, or some client's operation commits. -/
inductive Step (env : Env) : DB → DB → Prop where
  | tick (db : DB) (d : Nat) : Step env db (db.tick d)
  | commit {α : Type} {db db' : DB} (amb : Ambient) (op : Op α) (a : α)
      (h : op.run env amb db = .ok (a, db')) : Step env db db'

/-- The states the store can reach from the freshly migrated database. -/
def Reachable (env : Env) (db : DB) : Prop :=
  ∃ now, Relation.ReflTransGen (Step env) (DB.init now) db

theorem Reachable.step {env : Env} {db db' : DB} (h : Reachable env db) (hs : Step env db db') :
    Reachable env db' := by
  obtain ⟨now, hrun⟩ := h
  exact ⟨now, hrun.tail hs⟩

/-- What holds in the fresh database and is kept by every step holds in every
    reachable state. -/
theorem Reachable.induction {env : Env} {I : DB → Prop} {db : DB} (h : Reachable env db)
    (hinit : ∀ now, I (DB.init now)) (hstep : ∀ db db', I db → Step env db db' → I db') : I db := by
  obtain ⟨now, hrun⟩ := h
  exact invariant_of_step hrun (hinit now) hstep

/-- A step whose operation meets the condition `C` where it is issued. -/
inductive StepIf (env : Env) (C : ∀ α : Type, Op α → DB → Prop) : DB → DB → Prop where
  | tick (db : DB) (d : Nat) : StepIf env C db (db.tick d)
  | commit {α : Type} {db db' : DB} (amb : Ambient) (op : Op α) (a : α)
      (h : op.run env amb db = .ok (a, db')) (meets : C α op db) : StepIf env C db db'

theorem StepIf.step {env : Env} {C : ∀ α : Type, Op α → DB → Prop} {db db' : DB}
    (h : StepIf env C db db') : Step env db db' := by
  cases h with
  | tick _ d => exact .tick db d
  | commit amb op a h _ => exact .commit amb op a h

/-- The states the store reaches when every operation meets the condition. -/
def ReachableIf (env : Env) (C : ∀ α : Type, Op α → DB → Prop) (db : DB) : Prop :=
  ∃ now, Relation.ReflTransGen (StepIf env C) (DB.init now) db

theorem ReachableIf.reachable {env : Env} {C : ∀ α : Type, Op α → DB → Prop} {db : DB}
    (h : ReachableIf env C db) : Reachable env db := by
  obtain ⟨now, hrun⟩ := h
  exact ⟨now, hrun.lift id (fun _ _ => StepIf.step)⟩

theorem ReachableIf.run {env : Env} {C : ∀ α : Type, Op α → DB → Prop} {db db' : DB}
    (h : ReachableIf env C db) (hrun : Relation.ReflTransGen (StepIf env C) db db') :
    ReachableIf env C db' := by
  obtain ⟨now, hfirst⟩ := h
  exact ⟨now, hfirst.trans hrun⟩

/-- What holds in the fresh database and is kept by every step that meets the
    condition in a reachable state holds in every state so reached. -/
theorem ReachableIf.induction {env : Env} {C : ∀ α : Type, Op α → DB → Prop} {I : DB → Prop}
    {db : DB} (h : ReachableIf env C db) (hinit : ∀ now, I (DB.init now))
    (hstep : ∀ db db', ReachableIf env C db → I db → StepIf env C db db' → I db') : I db := by
  obtain ⟨now, hrun⟩ := h
  induction hrun with
  | refl => exact hinit now
  | tail hfirst hlast ih => exact hstep _ _ ⟨now, hfirst⟩ ih hlast

-- ============================================================================
-- Scripts
-- ============================================================================

/-- A deployment without admission limits, with texts ordered by code points. -/
def Env.plain : Env := ⟨⟨0, 0⟩, false, false, fun _ => true, fun a b => decide (a ≤ b)⟩

def padded (width n : Nat) : String :=
  let digits := toString n
  String.ofList (List.replicate (width - digits.length) '0') ++ digits

/-- The `n`-th identifier of a kind. -/
def uuidOf (kind n : Nat) : String :=
  "00000000-0000-4000-" ++ padded 4 kind ++ "-" ++ padded 12 n

theorem append_ne_empty {s t : String} (h : s ≠ "") : s ++ t ≠ "" := by
  intro hempty
  have hchars := congrArg String.toList hempty
  rw [String.toList_append] at hchars
  exact h (String.toList_inj.mp (List.append_eq_nil_iff.mp hchars).1)

theorem uuidOf_ne (kind n : Nat) : uuidOf kind n ≠ "" :=
  append_ne_empty (append_ne_empty (append_ne_empty (by decide)))

/-- What the `n`-th call draws. -/
def Ambient.drawn (n : Nat) : Ambient where
  eventID := uuidOf 1 n
  timerID := uuidOf 2 n
  claimToken := uuidOf 3 n
  intentID := uuidOf 4 n
  grantToken := uuidOf 5 n
  requestID := uuidOf 6 n
  evidenceID := uuidOf 7 n
  ownerID := uuidOf 8 n
  wallClock := 0
  named := by simp [uuidOf_ne]

/-- One entry of a script: the clock advances, or an operation is called. -/
inductive Action where
  | tick (d : Nat)
  | call {α : Type} (op : Op α)

/-- The state after an entry, absent when its operation fails. -/
def Action.run? (env : Env) (amb : Ambient) (db : DB) : Action → Option DB
  | .tick d => some (db.tick d)
  | .call op =>
      match op.run env amb db with
      | .ok (_, db') => some db'
      | .error _ => none

theorem Action.step_of_run? {env : Env} {amb : Ambient} {db db' : DB} {action : Action}
    (h : action.run? env amb db = some db') : Step env db db' := by
  cases action with
  | tick d =>
      cases h
      exact .tick db d
  | call op =>
      simp only [Action.run?] at h
      split at h
      · rename_i hrun
        cases h
        exact .commit amb op _ hrun
      · cases h

/-- The state a script leads to, its first entry being the `n`-th call. -/
def runScript? (env : Env) : Nat → List Action → DB → Option DB
  | _, [], db => some db
  | n, action :: script, db =>
      (action.run? env (.drawn n) db).bind (runScript? env (n + 1) script)

theorem run_of_runScript? {env : Env} {n : Nat} {script : List Action} {db db' : DB}
    (h : runScript? env n script db = some db') : Relation.ReflTransGen (Step env) db db' := by
  induction script generalizing n db with
  | nil =>
      cases h
      exact .refl
  | cons action script ih =>
      obtain ⟨db₁, hfirst, hrest⟩ := Option.bind_eq_some_iff.mp h
      exact .head (Action.step_of_run? hfirst) (ih hrest)

theorem reachable_of_runScript? {env : Env} {script : List Action} {now : Int} {db : DB}
    (h : runScript? env 0 script (DB.init now) = some db) : Reachable env db :=
  ⟨now, run_of_runScript? h⟩

/-- The state a script leads to, absent when an operation fails or does not
    pass the check `c`. -/
def runScriptIf? (env : Env) (c : ∀ α : Type, Op α → DB → Bool) :
    Nat → List Action → DB → Option DB
  | _, [], db => some db
  | n, .tick d :: script, db => runScriptIf? env c (n + 1) script (db.tick d)
  | n, .call op :: script, db =>
      match op.run env (.drawn n) db with
      | .ok (_, db') => if c _ op db then runScriptIf? env c (n + 1) script db' else none
      | .error _ => none

theorem run_of_runScriptIf? {env : Env} {c : ∀ α : Type, Op α → DB → Bool}
    {C : ∀ α : Type, Op α → DB → Prop} (hc : ∀ α op db, c α op db = true → C α op db) {n : Nat}
    {script : List Action} {db db' : DB} (h : runScriptIf? env c n script db = some db') :
    Relation.ReflTransGen (StepIf env C) db db' := by
  induction script generalizing n db with
  | nil =>
      cases h
      exact .refl
  | cons action script ih =>
      cases action with
      | tick d => exact .head (.tick db d) (ih h)
      | call op =>
          simp only [runScriptIf?] at h
          split at h
          · rename_i hrun
            obtain ⟨hmeets, hrest⟩ := Option.ite_none_right_eq_some.mp h
            exact .head (.commit _ op _ hrun (hc _ op db hmeets)) (ih hrest)
          · cases h

-- ============================================================================
-- A run of one activity
-- ============================================================================

/-- The definition of a workflow with the single pure activity `a`. -/
def soloDefinition : DefinitionInput where
  definitionID := "solo"
  version := 1
  definitionHash := "hash"
  graph := .json (.obj [("entry", .str "a"), ("nodes", .arr [.str "a"])])
  activityVersions := .json (.obj [("a", .str "1")])
  effectClasses := .json (.obj [("a", .str "PURE_ACTIVITY")])

def soloWorkflow : CreateWorkflowInput where
  workflowID := "w"
  namespace_ := "ns"
  submissionKey := "key"
  submissionPayloadHash := "payload"
  definitionID := "solo"
  definitionVersion := 1
  partitionID := 0
  initialNodeID := "a"
  initialInput := .json (.obj [])
  actorID := "client"

/-- The first scheduler's lease on the workflow's partition. -/
def soloLease : LeaseRef := ⟨0, uuidOf 8 0, 1⟩

/-- The workflow is submitted, its activity dispatched, claimed, answered and consumed. -/
def soloScript : List Action := [
  .call (.createDefinition soloDefinition),
  .call (.createWorkflow soloWorkflow),
  .call (.acquireLease 0 (uuidOf 8 0) 1000),
  .call (.applyOwnerTransition ⟨soloLease, "w", 1, .waitingActivity, "scheduler",
    "ACTIVITY_SCHEDULED", "a", 0, some .waitingActivity, none⟩),
  .call (.createAttempt ⟨soloLease, "w", "a", 0, 2, .pure, "", "", 0, "scheduler"⟩),
  .call (.claimAttempt ⟨1, "w", "a", 0, "worker", "request", 0⟩),
  .call (.recordResultReceipt ⟨"w", "a", 0, 1, uuidOf 3 5, .succeeded, .json (.obj []), "", ""⟩),
  .call (.consumeResult ⟨soloLease, "w", "a", 0, 1, 4, .succeeded, none, "scheduler"⟩)]

-- ============================================================================
-- A run with two branches
-- ============================================================================

def graphNode (id kind : String) (members : List (String × Json)) : Json :=
  .obj ([("id", .str id), ("kind", .str kind)] ++ members)

/-- The definition of a workflow that runs two pure activities in parallel. -/
def forkDefinition : DefinitionInput where
  definitionID := "fork"
  version := 1
  definitionHash := "hash"
  graph := .json (.obj [("entry", .str "root"), ("nodes", .arr [
    graphNode "root" "fanout"
      [("branches", .arr [.str "pure.add", .str "pure.echo"]), ("join", .str "join")],
    graphNode "pure.add" "activity" [("next", .str "join")],
    graphNode "pure.echo" "activity" [("next", .str "join")],
    graphNode "join" "join" [("next", .str "done")],
    graphNode "done" "success" []])])
  activityVersions := .json (.obj [("pure.add", .str "v1"), ("pure.echo", .str "v1")])
  effectClasses := .json
    (.obj [("pure.add", .str "PURE_ACTIVITY"), ("pure.echo", .str "PURE_ACTIVITY")])

def forkWorkflow : CreateWorkflowInput :=
  { soloWorkflow with definitionID := "fork", initialNodeID := "root" }

/-- The fan-out node creates both branches and the join. -/
def forkAdvance : AdvanceGraphInput where
  lease := soloLease
  workflowID := "w"
  fromNodeID := "root"
  iteration := 0
  expectedRevision := 1
  next := [⟨"pure.add", 0, [], .json (.obj [])⟩, ⟨"pure.echo", 0, [], .json (.obj [])⟩,
    ⟨"join", 0, ["pure.add", "pure.echo"], .json (.obj [])⟩]
  finalWorkflowState := none
  finalNodeState := none
  actorID := "scheduler"

/-- The workflow is submitted and its branches are created. -/
def forkScript : List Action := [
  .call (.createDefinition forkDefinition),
  .call (.createWorkflow forkWorkflow),
  .call (.acquireLease 0 (uuidOf 8 0) 1000),
  .call (.advanceGraph forkAdvance)]

end DurableEngine.State
