/-
  DurableEngine.IncidentAgent.Workflow

  The approval-gated incident workflow over its SQLite store
  (`incident_agent/workflow.py`).

  Every method of the store ends with a commit, and a call of the workflow is
  the chain of its commits: a crash leaves what the commits before it wrote.
  The tools and the model answer as they like.
-/

import DurableEngine.IncidentAgent.Redaction
import DurableEngine.Lib.Durable
import DurableEngine.Lib.PythonJson
import DurableEngine.Lib.Sha256

namespace DurableEngine.IncidentAgent

open Lib Lib.Durable

-- ============================================================================
-- Data
-- ============================================================================

inductive WorkflowState where
  | accepted
  | investigating
  | waitingApproval
  | dispatched
  | verifying
  | completed
  | abstained
  | rejected
  | interrupted
deriving DecidableEq, Repr

/-- The items of a dict. -/
abbrev Items := List (PyKey × PyValue)

structure Proposal where
  actionType : PyStr
  targetResourceID : PyStr
  arguments : Items
  canonicalArgumentHash : String

structure Receipt where
  resourceID : PyStr
  action : PyStr
  argumentHash : String
deriving DecidableEq

inductive ToolMethod where
  | queryLogs
  | queryMetrics
  | searchRunbooks
deriving DecidableEq, Repr

structure ToolResult where
  data : Items
  evidenceIDs : List PyStr

inductive Event where
  | incidentAccepted
  | investigationStarted
  | interrupted
  | mcpToolCall (method : ToolMethod) (result : ToolResult)
  | investigationRoundOpened
  | citationViolation
  | diagnosisCommitted
  | modelUsage
  | abstained
  | approvalRequested (proposalHash : String)
  | approvalGranted (actor : String)
  | approvalRejected (actor : String)
  | effectDispatched (proposalHash : String)
  | effectVerified
  | incidentCompleted

/-- A row of `incidents`. -/
structure Incident where
  caseID : String
  state : WorkflowState
  revision : Nat
  diagnosis : Option PyStr
  citations : List PyStr
  proposal : Option Proposal
  receipt : Option Receipt

inductive Approval where
  | approved
  | rejected
deriving DecidableEq, Repr

inductive GrantState where
  | granted
  | dispatched
deriving DecidableEq, Repr

/-- A row of `approval_grants`. -/
structure Grant where
  effectKey : String
  proposalHash : String
  resourceID : PyStr
  argumentHash : String
  workflowRevision : Nat
  state : GrantState

/-- A row of `effects`. -/
structure Effect where
  effectKey : String
  resourceID : PyStr
  argumentHash : String
  receipt : Receipt

/-- What the tables hold of one run.  The effect keys of two runs differ, the hash in them having a fixed length. -/
structure Store where
  runID : String
  incident : Option Incident
  timeline : List Event
  approval : Option Approval
  grant : Option Grant
  effects : List Effect

inductive Failure where
  | workflowError (message : String)
  | raised
deriving DecidableEq

structure WorkflowSnapshot where
  runID : String
  incident : Incident
  timeline : List Event

/-- What the workflow takes from the interpreter: `str`, the tables of `re` and the stack of `json`. -/
structure Python where
  str : PyValue → PyStr
  str_str : ∀ s, str (.str s) = s
  tables : UnicodeTables
  stack : Nat

abbrev Call := Durable Store Failure

-- ============================================================================
-- DurableStore
-- ============================================================================

namespace Store

def effectKey (runID : String) (hash : String) : String := s!"{runID}:{hash}"

/-- `INSERT OR IGNORE INTO incidents` -/
def created (s : Store) (caseID : String) : Store :=
  match s.incident with
  | some _ => s
  | none => { s with incident := some ⟨caseID, .accepted, 0, none, [], none, none⟩ }

/-- The two statements of `event`; `i` is the row that it read. -/
def recorded (s : Store) (i : Incident) (e : Event) : Store :=
  { s with incident := some { i with revision := i.revision + 1 }, timeline := s.timeline ++ [e] }

/-- The row that `update` writes: what is not given stays. -/
def updated (s : Store) (i : Incident) (state : WorkflowState) (diagnosis : Option PyStr)
    (citations : Option (List PyStr)) (proposal : Option Proposal) (receipt : Option Receipt) : Store :=
  { s with incident := some { i with
      state := state
      diagnosis := diagnosis <|> i.diagnosis
      citations := (citations.map (List.map PyStr.joined)).getD i.citations
      proposal := proposal <|> i.proposal
      receipt := receipt <|> i.receipt } }

/-- `INSERT OR REPLACE INTO approval_grants` -/
def granted (s : Store) (i : Incident) (p : Proposal) : Store :=
  let grant : Grant :=
    { effectKey := effectKey s.runID p.canonicalArgumentHash
      proposalHash := p.canonicalArgumentHash
      resourceID := p.targetResourceID
      argumentHash := p.canonicalArgumentHash
      workflowRevision := i.revision
      state := .granted }
  { s with grant := some grant }

/-- `SELECT * FROM approval_grants WHERE effect_key = ?` -/
def grantOf (s : Store) (key : String) : Option Grant := s.grant.filter (fun g => g.effectKey = key)

/-- `SELECT receipt FROM effects WHERE effect_key = ?` -/
def effectOf (s : Store) (key : String) : Option Receipt :=
  (s.effects.find? (fun e => e.effectKey = key)).map Effect.receipt

/-- `INSERT OR IGNORE INTO effects` and the grant marked `DISPATCHED`. -/
def applied (s : Store) (key : String) (p : Proposal) (receipt : Receipt) : Store :=
  { s with
    effects :=
      if s.effects.any (fun e => e.effectKey = key) then s.effects
      else s.effects ++ [⟨key, p.targetResourceID, p.canonicalArgumentHash, receipt⟩]
    grant := s.grant.map (fun g => if g.effectKey = key then { g with state := .dispatched } else g) }

end Store

/-- `DurableStore.row` -/
def row : Call Incident := do
  let s ← read
  match s.incident with
  | some i => pure i
  | none => raise (.workflowError s!"unknown incident run: {s.runID}")

/-- `DurableStore.event`, for data that `json` encodes. -/
def event (e : Event) : Call Unit := do
  let i ← row
  commit (fun s => s.recorded i e)

/-- A statement or a call that raises unless `p`. -/
def require (p : Bool) : Call Unit := if p then pure () else raise .raised

/-- `asdict` -/
def Proposal.asdict (p : Proposal) : PyValue :=
  .dict [(.str (.ofString "action_type"), .str p.actionType),
    (.str (.ofString "target_resource_id"), .str p.targetResourceID),
    (.str (.ofString "arguments"), .dict p.arguments),
    (.str (.ofString "canonical_argument_hash"), .str (.ofString p.canonicalArgumentHash))]

/-- `json.loads(json.dumps(asdict(proposal)))` -/
def Proposal.reread (p : Proposal) : Proposal :=
  { p with
    actionType := p.actionType.joined
    targetResourceID := p.targetResourceID.joined
    arguments := PyValue.dictOf (PyValue.rereadItems p.arguments) }

/-- `DurableStore.update`: SQLite takes no text with surrogates, and `json` not every proposal. -/
def update (py : Python) (state : WorkflowState) (diagnosis : Option PyStr) (citations : Option (List PyStr))
    (proposal : Option Proposal) (receipt : Option Receipt) : Call Unit := do
  let i ← row
  require (proposal.all (fun p => (PyValue.dumps (.spaced false) py.stack p.asdict).isSome))
  require (diagnosis.all PyStr.encodable)
  commit (fun s => s.updated i state diagnosis citations (proposal.map Proposal.reread) receipt)

/-- `DurableStore.approve` -/
def storeApproval (decision : Approval) : Call Unit := commit (fun s => { s with approval := some decision })

/-- `DurableStore.create_grant` -/
def createGrant (p : Proposal) : Call Unit := do
  let i ← row
  let s ← read
  if s.approval ≠ some .approved then raise (.workflowError "approval grant requires an approved intent")
  else do
    require p.targetResourceID.encodable
    commit (fun s => s.granted i p)

/-- `InvestigationWorkflow.snapshot` -/
def snapshot : Call WorkflowSnapshot := do
  let i ← row
  let s ← read
  pure ⟨s.runID, i, s.timeline⟩

-- ============================================================================
-- SandboxEffect
-- ============================================================================

/-- `canonical_proposal_hash` -/
def canonicalProposalHash (py : Python) (p : Proposal) : Option String :=
  (PyValue.dumps (.compact true) py.stack (.dict
    [(.str (.ofString "action"), .str p.actionType),
      (.str (.ofString "target"), .str p.targetResourceID),
      (.str (.ofString "arguments"), .dict p.arguments)])).map (fun t => Sha256.hexSum (String.ofList t))

/-- `proposal_from_dict` -/
def proposalFromDict (py : Python) (value : Items) : Option Proposal := do
  let action ← PyValue.get value "action"
  let target := ((PyValue.get value "service") <|> (PyValue.get value "resource_id")).getD
    (.str (.ofString "incident-resource"))
  let p : Proposal :=
    { actionType := py.str action
      targetResourceID := py.str target
      arguments := value.filter (fun m =>
        (!(["action", "service", "resource_id"].any (fun key => m.1 = .str (.ofString key)))) &&
          (match m.2 with | .none => false | _ => true))
      canonicalArgumentHash := "" }
  let hash ← canonicalProposalHash py p
  pure { p with canonicalArgumentHash := hash }

def Proposal.receipt (p : Proposal) : Receipt := ⟨p.targetResourceID, p.actionType, p.canonicalArgumentHash⟩

/-- The checks of `apply` before it writes: the receipt of an earlier use of the grant, or none. -/
def checkEffect (py : Python) (s : Store) (i : Incident) (p : Proposal) : Except Failure (Option Receipt) :=
  let key := Store.effectKey s.runID p.canonicalArgumentHash
  match s.grantOf key with
  | none => .error (.workflowError "effect requires a matching approval grant")
  | some g =>
      if g.proposalHash ≠ p.canonicalArgumentHash then
        .error (.workflowError "effect proposal does not match approval grant")
      else if g.resourceID ≠ p.targetResourceID then
        .error (.workflowError "effect resource does not match approval grant")
      else
        match canonicalProposalHash py p with
        | none => .error .raised
        | some hash =>
            if g.argumentHash ≠ hash then .error (.workflowError "effect arguments do not match approval grant")
            else
              match s.effectOf key with
              | some receipt => .ok (some receipt)
              | none =>
                  if i.revision ≠ g.workflowRevision ∧ i.revision ≠ g.workflowRevision + 1 then
                    .error (.workflowError "effect grant revision is stale")
                  else .ok none

/-- `SandboxEffect.apply` -/
def applyEffect (py : Python) (p : Proposal) : Call Receipt := do
  let i ← row
  let s ← read
  match checkEffect py s i p with
  | .error e => raise e
  | .ok (some receipt) => pure receipt
  | .ok none => do
      commit (fun s => s.applied (Store.effectKey s.runID p.canonicalArgumentHash) p p.receipt)
      pure p.receipt

-- ============================================================================
-- InvestigationWorkflow
-- ============================================================================

structure InvestigationWorkflow where
  py : Python
  cases : List String

/-- What `diagnose` returns: `str` of the citations and the diagnosis, and whether the members of
    `_usage` and the names beside it are what `model_usage` makes of them. -/
structure Decision where
  citations : List PyStr
  diagnosis : PyStr
  usage : Bool
  proposal : PyValue

/-- The answers an investigation gets; a tool or the model without one raises. -/
structure Investigation where
  interruptAfterLogs : Bool
  logs : Option ToolResult
  metrics : Option ToolResult
  search : Option ToolResult
  again : Option ToolResult
  decision : Option Decision

/-- `start` -/
def start (w : InvestigationWorkflow) (caseID : String) : Call Unit := do
  if caseID ∉ w.cases then raise (.workflowError s!"unknown incident case: {caseID}")
  else do
    commit (fun s => s.created caseID)
    let s ← read
    if s.timeline.isEmpty then event .incidentAccepted else pure ()

def ToolResult.reread (result : ToolResult) : ToolResult :=
  ⟨PyValue.dictOf (PyValue.rereadItems result.data), result.evidenceIDs.map PyStr.joined⟩

/-- `_checkpoints` -/
def checkpoints (timeline : List Event) (method : ToolMethod) : List ToolResult :=
  timeline.filterMap fun
    | .mcpToolCall m result => if m = method then some result else none
    | _ => none

/-- `len(result.data.get("rows", result.data.get("evidence", [])))` raises nothing. -/
def ToolResult.counts (result : ToolResult) : Bool :=
  match (PyValue.get result.data "rows") <|> (PyValue.get result.data "evidence") with
  | none | some (.str _) | some (.list _) | some (.dict _) => true
  | _ => false

/-- A call of a tool and `_record_tool_call`. -/
def callTool (py : Python) (method : ToolMethod) : Option ToolResult → Call ToolResult
  | none => raise .raised
  | some result => do
      require result.counts
      require (PyValue.dumps (.spaced true) py.stack
        (.dict [(.str (.ofString "result_data"), .dict result.data)])).isSome
      event (.mcpToolCall method result.reread)
      pure result

/-- The latest checkpoint of a tool, or a call of it. -/
def replayTool (py : Python) (method : ToolMethod) (answer : Option ToolResult) : Call ToolResult := do
  let s ← read
  match (checkpoints s.timeline method).getLast? with
  | some result => pure result
  | none => callTool py method answer

/-- The second round of an insufficient search. -/
def searchAgain (py : Python) (search : ToolResult) (answer : Option ToolResult) : Call ToolResult :=
  match PyValue.get search.data "sufficient" with
  | none => pure search
  | some sufficient =>
      if sufficient.truthy then pure search
      else do
        require (PyValue.get search.data "reason").isSome
        event .investigationRoundOpened
        let s ← read
        let searches := checkpoints s.timeline .searchRunbooks
        if searches.length < 2 then callTool py .searchRunbooks answer
        else pure (searches.getLast?.getD search)

/-- The tools of an investigation that goes on after the logs. -/
def gatherRest (py : Python) (inv : Investigation) (logs : ToolResult) : Call (List PyStr) := do
  let metrics ← replayTool py .queryMetrics inv.metrics
  let search ← replayTool py .searchRunbooks inv.search
  let search ← searchAgain py search inv.again
  pure (logs.evidenceIDs ++ metrics.evidenceIDs ++ search.evidenceIDs)

/-- An investigation up to its decision: the evidence, or none if it ends before. -/
def gather (w : InvestigationWorkflow) (inv : Investigation) : Call (Option (List PyStr)) := do
  let i ← row
  if i.caseID ∉ w.cases then
    raise (.workflowError s!"case is not configured for this workflow: {i.caseID}")
  else if i.state = .completed ∨ i.state = .abstained ∨ i.state = .rejected then pure none
  else do
    update w.py .investigating none none none none
    event .investigationStarted
    let s ← read
    let logs ← replayTool w.py .queryLogs inv.logs
    if inv.interruptAfterLogs = true ∧ (checkpoints s.timeline .queryLogs).isEmpty = true then do
      update w.py .interrupted none none none none
      event .interrupted
      pure none
    else do
      let evidence ← gatherRest w.py inv logs
      pure (some evidence)

/-- A decision with a proposal. -/
def propose (py : Python) (d : Decision) (diagnosis : PyStr) (value : Items) : Call Unit :=
  if d.citations.isEmpty then do
    require (PyValue.dumps (.spaced true) py.stack (.dict [(.str (.ofString "proposal"), .dict value)])).isSome
    event .citationViolation
    raise (.workflowError "remediation proposals require at least one citation")
  else
    match PyValue.dumps (.spaced true) py.stack (.dict value) with
    | none => raise .raised
    | some text =>
        if (redact py.tables (PyStr.ofString (String.ofList text))).count ≠ 0 then
          raise (.workflowError "proposal contains sensitive material")
        else
          match proposalFromDict py value with
          | none => raise .raised
          | some p => do
              update py .waitingApproval (some diagnosis) (some d.citations) (some p) none
              event (.approvalRequested p.canonicalArgumentHash)

/-- A decision that proposes nothing. -/
def abstain (py : Python) (d : Decision) (diagnosis : PyStr) : Call Unit := do
  update py .abstained (some diagnosis) (some d.citations) none none
  event .abstained

/-- An investigation from its decision on. -/
def conclude (py : Python) (evidence : List PyStr) : Option Decision → Call Unit
  | none => raise .raised
  | some d =>
      if d.citations.any (fun c => c ∉ evidence) then do
        event .citationViolation
        raise (.workflowError "diagnosis cited evidence not returned by an authorized tool")
      else do
        event .diagnosisCommitted
        require d.usage
        event .modelUsage
        let diagnosis := (redact py.tables d.diagnosis).text
        match d.proposal with
        | .dict value => propose py d diagnosis value
        | _ => abstain py d diagnosis

/-- `investigate` -/
def investigate (w : InvestigationWorkflow) (inv : Investigation) : Call WorkflowSnapshot := do
  let evidence ← gather w inv
  match evidence with
  | none => snapshot
  | some evidence => do
      conclude w.py evidence inv.decision
      snapshot

/-- `resume` of a run that is not `INTERRUPTED`. -/
def dispatch (py : Python) : Call WorkflowSnapshot := do
  let i ← row
  let s ← read
  if i.state ≠ .waitingApproval ∨ s.approval ≠ some .approved then snapshot
  else
    match i.proposal with
    | none => raise .raised
    | some p => do
        update py .dispatched none none none none
        event (.effectDispatched p.canonicalArgumentHash)
        let receipt ← applyEffect py p
        update py .verifying none none none (some receipt)
        event .effectVerified
        update py .completed none none none (some receipt)
        event .incidentCompleted
        snapshot

/-- `resume` -/
def resume (w : InvestigationWorkflow) (inv : Investigation) : Call WorkflowSnapshot := do
  let i ← row
  if i.state = .interrupted then investigate w { inv with interruptAfterLogs := false }
  else dispatch w.py

/-- `approve`; the run it resumes is not `INTERRUPTED`. -/
def approve (w : InvestigationWorkflow) (actor : String) : Call WorkflowSnapshot := do
  let i ← row
  if i.state ≠ .waitingApproval then
    raise (.workflowError "approval is only valid while waiting for approval")
  else do
    storeApproval .approved
    event (.approvalGranted actor)
    match i.proposal with
    | none => raise .raised
    | some p => do
        createGrant p
        dispatch w.py

/-- `reject` -/
def reject (w : InvestigationWorkflow) (actor : String) : Call WorkflowSnapshot := do
  let i ← row
  if i.state ≠ .waitingApproval then
    raise (.workflowError "rejection is only valid while waiting for approval")
  else do
    storeApproval .rejected
    update w.py .rejected none none none none
    event (.approvalRejected actor)
    snapshot

-- ============================================================================
-- Runs
-- ============================================================================

inductive Request where
  | start (caseID : String)
  | investigate (inv : Investigation)
  | approve (actor : String)
  | reject (actor : String)
  | resume (inv : Investigation)

/-- The states that the commits of a call leave. -/
def Request.states (w : InvestigationWorkflow) (s : Store) : Request → List Store
  | .start caseID => (IncidentAgent.start w caseID s).states
  | .investigate inv => (IncidentAgent.investigate w inv s).states
  | .approve actor => (IncidentAgent.approve w actor s).states
  | .reject actor => (IncidentAgent.reject w actor s).states
  | .resume inv => (IncidentAgent.resume w inv s).states

/-- A call that returns, raises or crashes after at most `n` commits; it shows each of them with the state before. -/
inductive InvestigationWorkflow.Step (w : InvestigationWorkflow) (s : Store) : List (Store × Store) → Store → Prop
  | call (r : Request) (n : Nat) :
      w.Step s (changes s ((r.states w s).take n)) (lastOf s ((r.states w s).take n))

/-- No table has a row of the run. -/
def Store.empty (runID : String) : Store := ⟨runID, none, [], none, none, []⟩

end DurableEngine.IncidentAgent
