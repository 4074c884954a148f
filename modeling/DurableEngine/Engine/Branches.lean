/-
  DurableEngine.Engine.Branches

  What one branch of a fan-out does to another through the state of their
  workflow.

  The workflow row has one state for all branches, and some transactions take
  it for the state of their own branch.  For each such transaction this module
  says in which of the live states it goes through.
-/

import DurableEngine.Engine.Accepted
import DurableEngine.State.Provision

namespace DurableEngine

open Lib State Engine

-- ============================================================================
-- Claims
-- ============================================================================

namespace State

/-- A worker's request for the attempt of a node, under a request ID of its own. -/
structure ClaimInput.Fresh (input : ClaimInput) (key : AttemptKey) (db : DB) : Prop where
  node : input.key = key.node
  worker : input.workerID ≠ ""
  request : input.requestID ≠ ""
  expected : input.expectedAttempt = 0 ∨ input.expectedAttempt = key.number
  fresh : db.workerRequest input.requestID = none

/-- The attempt waits for a worker: its node points to it, and no worker has it. -/
structure Attempt.Dispatched (a : Attempt) (db : DB) : Prop where
  stored : db.attempts.get a.key = some a
  pointed : ∃ n, db.nodes.get a.key.node = some n ∧ n.currentAttempt = some a.key.number
  current : a.isCurrent = true
  dispatchable : a.state = .dispatchable

theorem claimAttempt_waiting {amb : Ambient} {input : ClaimInput} {db db' : DB} {r : ClaimResult}
    (h : claimAttempt amb input db = .ok (r, db')) :
    ∃ w, db.workflows.get input.workflowID = some w ∧ w.state = .waitingActivity := by
  simp only [claimAttempt, bind_eq_ok, getOr_eq_ok, rejectIf_eq_ok, exists_const] at h
  obtain ⟨-, w, hw, hstate, -⟩ := h
  exact ⟨w, hw, by simpa using hstate⟩

theorem bindClaim_succeeds {amb : Ambient} {input : ClaimInput} {db : DB} {a : Attempt}
    (ha : a.Dispatched db) (hin : input.Fresh a.key db) :
    ∃ r db', bindClaim amb input db = .ok (r, db') := by
  obtain ⟨n, hn, hcur⟩ := ha.pointed
  simp only [bindClaim, bind_eq_ok, getOr_eq_ok, rejectIf_eq_ok, exists_const, pure_eq_ok]
  refine ⟨_, _, n, by rw [hin.node]; exact hn, ?_, a, ?_, ?_, rfl⟩
  · rw [hcur, Option.getD_some]
    rintro ⟨hgiven, hne⟩
    exact hin.expected.elim hgiven (fun heq => hne heq.symm)
  · rw [hcur, hin.node]
    exact ha.stored
  · simp [ha.current, ha.dispatchable]

end State

/-- In every state of the system, a fresh request for a dispatched attempt is accepted exactly
    when the workflow waits for activities. -/
theorem claimAttempt_accepted_iff {env : Env} {s : Sys} (h : Sys.Reachable env s) {a : Attempt}
    (ha : a.Dispatched s.db) {w : Workflow}
    (hw : s.db.workflows.get a.key.node.workflowID = some w) (amb : Ambient) {input : ClaimInput}
    (hin : input.Fresh a.key s.db) :
    (∃ r db', claimAttempt amb input s.db = .ok (r, db')) ↔ w.state = .waitingActivity := by
  have hid : input.workflowID = a.key.node.workflowID := by
    rw [← hin.node]
    rfl
  have hname : input.nodeID = a.key.node.nodeID := by
    rw [← hin.node]
    rfl
  constructor
  · rintro ⟨r, db', hok⟩
    obtain ⟨w', hw', hstate⟩ := claimAttempt_waiting hok
    rw [hid, hw] at hw'
    cases hw'
    exact hstate
  · intro hstate
    have hprovided := (ReachableIf.reachable (Sys.ReachableIf.store h)).provided
    obtain ⟨n, hn, -⟩ := ha.pointed
    obtain ⟨r, db', hbind⟩ := bindClaim_succeeds ha hin
    refine ⟨r, db', ?_⟩
    simp only [claimAttempt, bind_eq_ok, getOr_eq_ok, rejectIf_eq_ok, exists_const]
    refine ⟨?_, w, by rw [hid]; exact hw, by simp [hstate], ?_⟩
    · rw [hid, hname]
      simp [(hprovided.workflow _ w hw).1, (hprovided.node _ n hn).1, hin.worker, hin.request]
    · rw [hin.fresh]
      exact hbind

/-- An engine that leaves its activities to workers. -/
def externalEngine : Engine :=
  { soloEngine 10 with externalActivities := true }

/-- Both branches of the fork are dispatched, and a worker claims the first. -/
def branchScript : List Sys.Action := [
  .client (.createDefinition forkDefinition), .client (.createWorkflow forkWorkflow),
  .pass externalEngine "w",
  .client (.claimAttempt ⟨0, "w", "pure.add", 0, "worker", "first", 0⟩)]

/-- The worker returns its result, and a pass consumes it. -/
def consumedBranchScript : List Sys.Action := branchScript ++ ([
  .client (.recordResultReceipt ⟨"w", "pure.add", 0, 1, uuidOf 3 43, .succeeded, .json (.obj []), "",
    ""⟩),
  .pass externalEngine "w"] : List Sys.Action)

/-- The system after a script. -/
def scriptSys (script : List Sys.Action) : Sys := ⟨Sys.runScript .plain 0 script (DB.init 0), []⟩

theorem reachable_branches : Sys.Reachable .plain (scriptSys branchScript) ∧
    Sys.Reachable .plain (scriptSys consumedBranchScript) := by
  constructor <;> refine Sys.reachable_of_runScript 0 ?_ <;>
    simp [consumedBranchScript, branchScript, Sys.Action.valid, Op.isClient, externalEngine, soloEngine]

/-- A worker asks for the second branch. -/
def secondClaim : ClaimInput := ⟨0, "w", "pure.echo", 0, "worker", "second", 0⟩

/-- The second branch is dispatched, its workflow is in the state, and the request for it is fresh. -/
def secondDispatched (db : DB) (state : WorkflowState) : Bool :=
  (db.attempts.get ⟨⟨"w", "pure.echo", 0⟩, 1⟩).any (fun a => a.isCurrent && a.state = .dispatchable) &&
    (db.nodes.get ⟨"w", "pure.echo", 0⟩).any (fun n => n.currentAttempt = some 1) &&
    (db.workerRequest "second").isNone && (db.workflows.get "w").any (fun w => w.state = state)

theorem secondDispatched_spec {db : DB} {state : WorkflowState} (h : secondDispatched db state = true) :
    ∃ (a : Attempt) (w : Workflow), a.Dispatched db ∧ db.workflows.get a.key.node.workflowID = some w ∧ w.state = state ∧
      secondClaim.Fresh a.key db := by
  simp only [secondDispatched, Bool.and_eq_true, Option.any_eq_true, decide_eq_true_eq,
    Option.isNone_iff_eq_none] at h
  obtain ⟨⟨⟨⟨a, ha, hcurrent, hstate⟩, n, hn, hcur⟩, hfresh⟩, w, hw, hwstate⟩ := h
  have hkey := Table.key_of_get ha
  refine ⟨a, w, ⟨by rw [hkey]; exact ha, ⟨n, ?_, ?_⟩, hcurrent, hstate⟩, ?_, hwstate, ?_⟩
  · rw [hkey]
    exact hn
  · rw [hkey]
    exact hcur
  · rw [hkey]
    exact hw
  · exact ⟨by rw [hkey]; rfl, by decide, by decide, .inl rfl, hfresh⟩

theorem claimAttempt_accepted_second :
    ∃ (s : Sys) (a : Attempt) (w : Workflow), Sys.Reachable .plain s ∧ a.Dispatched s.db ∧
      s.db.workflows.get a.key.node.workflowID = some w ∧ w.state = .waitingActivity ∧
      secondClaim.Fresh a.key s.db ∧
      ∃ r db', claimAttempt (.drawn 9) secondClaim s.db = .ok (r, db') := by
  have hdispatched : secondDispatched (scriptSys branchScript).db .waitingActivity = true := by
    decide +kernel
  obtain ⟨a, w, ha, hw, hstate, hfresh⟩ := secondDispatched_spec hdispatched
  exact ⟨scriptSys branchScript, a, w, reachable_branches.1, ha, hw, hstate, hfresh,
    (claimAttempt_accepted_iff reachable_branches.1 ha hw (.drawn 9) hfresh).mpr hstate⟩

/-- Once the first result is consumed the workflow is runnable, and no request for the second
    branch is accepted. -/
theorem claimAttempt_refused_runnable :
    ∃ (s : Sys) (a : Attempt) (w : Workflow), Sys.Reachable .plain s ∧ a.Dispatched s.db ∧
      s.db.workflows.get a.key.node.workflowID = some w ∧ w.state = .runnable ∧
      secondClaim.Fresh a.key s.db ∧
      ∀ amb r db', claimAttempt amb secondClaim s.db ≠ .ok (r, db') := by
  have hdispatched : secondDispatched (scriptSys consumedBranchScript).db .runnable = true := by
    decide +kernel
  obtain ⟨a, w, ha, hw, hstate, hfresh⟩ := secondDispatched_spec hdispatched
  refine ⟨scriptSys consumedBranchScript, a, w, reachable_branches.2, ha, hw, hstate, hfresh, fun amb r db' hok => ?_⟩
  obtain ⟨w', hw', hwaiting⟩ := claimAttempt_waiting hok
  rw [show secondClaim.workflowID = a.key.node.workflowID by rw [← hfresh.node]; rfl, hw] at hw'
  cases hw'
  rw [hstate] at hwaiting
  cases hwaiting

end DurableEngine
