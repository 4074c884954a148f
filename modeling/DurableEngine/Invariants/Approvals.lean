/-
  DurableEngine.Invariants.Approvals

  The rules of `checkM4` for approval intents: what an intent's record must
  say, and that its proposal hash covers the arguments that are stored.
-/

import DurableEngine.Invariants.Checker

namespace DurableEngine.Invariants

open Lib State

-- ============================================================================
-- Records
-- ============================================================================

structure ApprovalRecord where
  intentID : String
  workflowID : String
  nodeID : String
  iteration : Int
  proposalHash : String
  target : String
  argumentsValid : Bool
  canonicalArgumentHash : String
  expectedResourceRevision : String
  decision : String
  dispatchStatus : String
  grantScopeHash : String
  grantToken : String
deriving DecidableEq, Repr

def decisionText : Decision → String
  | .pending => "PENDING"
  | .approved => "APPROVED"
  | .rejected => "REJECTED"

def dispatchStatusText : DispatchStatus → String
  | .notGranted => "NOT_GRANTED"
  | .granted => "GRANTED"
  | .dispatched => "DISPATCHED"
  | .canceled => "CANCELED"

/-- `canonicalJSONHash`: the rule of `canonicalPayloadHash`, written again. -/
def canonicalJSONHash (payload : RawMessage) : Option String :=
  match payload with
  | .json v => if v.shallow then some (Sha256.hexSum (marshal v)) else none
  | _ => none

/-- `independentHash`. -/
def independentHash (value : String) : String := Sha256.hexSum value

/-- The record `Load` makes of an intent, absent when its arguments have no hash. -/
def approvalRecord (i : ApprovalIntent) : Option ApprovalRecord := do
  let hash ← canonicalJSONHash (.json i.canonicalArguments.doc)
  return {
    intentID := i.intentID
    workflowID := i.node.workflowID
    nodeID := i.node.nodeID
    iteration := i.node.iteration
    proposalHash := i.proposalHash
    target := i.target
    argumentsValid := true
    canonicalArgumentHash := hash
    expectedResourceRevision := i.expectedResourceRevision
    decision := decisionText i.decision
    dispatchStatus := dispatchStatusText i.dispatchStatus
    grantScopeHash := i.grantScopeHash
    grantToken := i.grantToken }

-- ============================================================================
-- The rules
-- ============================================================================

namespace ApprovalRecord

/-- `expectedProposal`: the proposal hash as the checker computes it. -/
def expectedProposal (a : ApprovalRecord) : String :=
  independentHash (a.target ++ "\x00" ++ a.canonicalArgumentHash ++ "\x00" ++ a.expectedResourceRevision)

/-- The rules for a single intent. -/
def violations (a : ApprovalRecord) : List String :=
  (if a.intentID = "" ∨ a.workflowID = "" ∨ a.nodeID = "" ∨ a.iteration < 0 ∨ a.proposalHash = "" ∨
      a.target = "" ∨ a.argumentsValid = false then ["approval intent is incomplete"] else []) ++
  (if a.decision ∈ ["PENDING", "APPROVED", "REJECTED"] then []
    else ["approval decision is unknown: " ++ a.intentID]) ++
  (if a.dispatchStatus ∈ ["NOT_GRANTED", "GRANTED", "DISPATCHED", "CANCELED"] then []
    else ["approval dispatch status is unknown: " ++ a.intentID]) ++
  (if a.dispatchStatus ∈ ["GRANTED", "DISPATCHED"] ∧
      (a.decision ≠ "APPROVED" ∨ a.grantScopeHash = "" ∨ a.grantToken = "") then
    ["approval grant lacks matching approved decision: " ++ a.intentID] else []) ++
  (if a.argumentsValid = true ∧ a.canonicalArgumentHash ≠ "" ∧ a.proposalHash ≠ a.expectedProposal then
    ["approval proposal hash does not cover its target and arguments: " ++ a.intentID] else [])

end ApprovalRecord

end DurableEngine.Invariants
