/-
  DurableEngine.State.Provision

  What the transactions of a live workflow can rely on.

  The last statements of a transaction (history, outbox, admission slot) may
  fail for reasons that have nothing to do with its checks: a name that
  `fmt.Sprintf` does not turn into JSON, a revision that is taken, a slot that
  is missing.  In a reachable state none of this happens to a workflow that
  has not ended: its name was written into the event of its creation, that of
  an attempt's node into the announcement of the attempt, and a slot goes
  only with its workflow.
-/

import DurableEngine.State.Fencing
import DurableEngine.State.NodeLife

namespace DurableEngine.State

open Lib

-- ============================================================================
-- Payloads
-- ============================================================================

/-- What `%q` writes as a JSON string holds no NUL. -/
theorem textOK_of_quotable {env : Env} {s : String} (h : quotable env s = true) :
    Json.textOK s = true := by
  refine List.all_eq_true.mpr (fun c hc => ?_)
  have hvalid := List.all_eq_true.mp h c hc
  by_contra hzero
  have hnul : c.toNat = 0 := by simpa using hzero
  simp [quoteValid, hnul] at hvalid

/-- A payload whose texts can be quoted is a document. -/
theorem sprintfJson_of_quotable {env : Env} {fields : List (String × Field)}
    (hnames : ∀ f ∈ fields, Json.textOK f.1 = true)
    (h : ∀ f ∈ fields, f.2.quotable env = true) : ∃ document, sprintfJson env fields = some document := by
  rw [sprintfJson, if_pos (List.all_eq_true.mpr h)]
  refine ⟨_, Jsonb.ofJson?_of_ok ?_⟩
  refine JsonTree.allMembers_iff.mpr (fun m hm => ?_)
  obtain ⟨f, hf, rfl⟩ := List.mem_map.mp hm
  refine ⟨hnames f hf, ?_⟩
  cases hfield : f.2 with
  | quoted s =>
      have hq := h f hf
      rw [hfield] at hq
      exact textOK_of_quotable hq
  | int n => exact JsonNumber.numericOK_ofInt64 n

-- ============================================================================
-- The last statements of a transaction
-- ============================================================================

theorem insertHistory_succeeds {db : DB} {workflowID : String} {revision : Int}
    {actorKind actorID : String} {epoch : Option Int} {nodeID : String}
    {iteration attemptNumber : Option Int} {oldState : Option WorkflowState}
    {newState : WorkflowState} {reason : String} (hactor : actorID ≠ "")
    (hfree : db.history.get ⟨workflowID, revision⟩ = none) :
    Succeeds (fun db' => ∃ history, db' = { db with history := history })
      (insertHistory db workflowID revision actorKind actorID epoch nodeID iteration attemptNumber
        oldState newState reason) := by
  refine .unless hactor ?_
  obtain ⟨history, hins⟩ := Table.insert?_of_get_none (r := (⟨⟨workflowID, revision⟩, actorKind,
    actorID, epoch, if nodeID = "" then none else some nodeID, iteration, attemptNumber, oldState,
    newState, reason⟩ : TransitionRecord)) hfree
  exact .found hins (.ok ⟨history, rfl⟩)

theorem insertOutbox_succeeds {amb : Ambient} {db : DB} {workflowID : String} {revision : Int}
    {eventType topic : String} {payload : Option Jsonb} {document : Jsonb}
    (htopic : eventTopicFor eventType = some topic) (hpayload : payload = some document)
    (hfree : db.outbox.get amb.eventID = none) :
    Succeeds (fun db' => ∃ outbox, db' = { db with outbox := outbox })
      (insertOutbox amb db workflowID revision eventType payload) := by
  refine .found htopic (.found hpayload ?_)
  obtain ⟨outbox, hins⟩ := Table.insert?_of_get_none (r := (⟨amb.eventID, workflowID, revision,
    eventType, topic, document, .pending, 1, 0, none, none, db.now, none, db.now, none⟩ :
    OutboxEvent)) hfree
  exact .found hins (.ok ⟨outbox, rfl⟩)

theorem releaseAdmissionSlotTx_succeeds {env : Env} {db : DB} {ns workflowID : String}
    {oldState newState : WorkflowState}
    (hslot : env.admission.enabled = true → isDur050Namespace ns = true →
      oldState.isTerminal = false → db.admissionSlots.get workflowID = some ⟨workflowID, ns⟩) :
    Succeeds (fun db' => ∃ slots, db' = { db with admissionSlots := slots })
      (releaseAdmissionSlotTx env db ns workflowID oldState newState) := by
  unfold releaseAdmissionSlotTx
  split
  · exact .ok ⟨db.admissionSlots, rfl⟩
  · rename_i hends
    simp only [Bool.or_eq_true, Bool.not_eq_true', not_or, Bool.not_eq_false,
      Bool.not_eq_true] at hends
    obtain ⟨⟨⟨henabled, hgated⟩, hlive⟩, -⟩ := hends
    refine .unless (not_not.mpr ?_) (.ok ⟨_, rfl⟩)
    exact Table.length_select_of_get (hslot henabled hgated hlive) (by simp)
      (fun s hs => by simp only [Bool.and_eq_true, decide_eq_true_eq] at hs; exact hs.1)

theorem lockOwnedWorkflow_of_owned {db : DB} {lease : LeaseRef} {workflowID : String}
    {context : String} {w : Workflow} (h : Owned db lease workflowID w) :
    lockOwnedWorkflow db lease workflowID w.revision context = .ok w := by
  obtain ⟨held, hlock, -⟩ := lockLease_of_valid h.valid
  simp only [lockOwnedWorkflow, hlock, ok_bind, h.get, getOr_some,
    rejectIf_of_not _ (not_not.mpr h.partition), rejectIf_of_not _ (not_not.mpr rfl)]
  rfl

theorem lockApprovalWorkflow_of_owned {db : DB} {lease : LeaseRef} {workflowID : String} {w : Workflow}
    (h : Owned db lease workflowID w) : lockApprovalWorkflow db lease workflowID w.revision = .ok w := by
  obtain ⟨held, hlock, -⟩ := lockLease_of_valid h.valid
  simp only [lockApprovalWorkflow, hlock, ok_bind, h.get, getOr_some,
    rejectIf_of_not _ (not_not.mpr h.partition), rejectIf_of_not _ (not_not.mpr rfl)]
  rfl

-- ============================================================================
-- Names and slots
-- ============================================================================

theorem Moves.workflow_origin {db db' : DB} {w₀ : Workflow} {newState : WorkflowState}
    {row : TransitionRecord} (h : Moves db db' w₀ newState row) {id : String} {w' : Workflow}
    (hw' : db'.workflows.get id = some w') :
    ∃ w, db.workflows.get id = some w ∧ w'.namespace_ = w.namespace_ ∧
      (w'.state.isTerminal = false → w.state.isTerminal = false) := by
  rw [h.get_workflow] at hw'
  split at hw'
  · rename_i hid
    cases hw'
    exact ⟨w₀, by rw [hid]; exact h.get, rfl, fun _ => h.live⟩
  · exact ⟨w', hw', rfl, fun h => h⟩

/-- A workflow in the new state is one of the old state, or new. -/
theorem Change.workflow_origin {db db' : DB} {α : Type} {op : Op α} (h : Change db op db')
    {id : String} {w' : Workflow} (hw' : db'.workflows.get id = some w') :
    (∃ w, db.workflows.get id = some w ∧ w'.namespace_ = w.namespace_ ∧
      (w'.state.isTerminal = false → w.state.isTerminal = false)) ∨
    ∃ input : CreateWorkflowInput, (⟨α, op⟩ : Sigma Op) = ⟨_, .createWorkflow input⟩ ∧
      id = input.workflowID ∧ db.workflows.get id = none := by
  cases h with
  | created c =>
      rw [Table.get_insert c.workflows] at hw'
      split at hw'
      · rename_i hid
        refine .inr ⟨_, rfl, hid.trans c.workflow.1, ?_⟩
        rw [hid]
        exact (Table.insert?_eq_some_iff.mp c.workflows).1
      · exact .inl ⟨w', hw', rfl, fun h => h⟩
  | idle rows => exact .inl ⟨w', by rw [← rows.workflows]; exact hw', rfl, fun h => h⟩
  | claimed c | extended c => exact .inl ⟨w', by rw [← c.workflows]; exact hw', rfl, fun h => h⟩
  | owner c | recorded c => exact .inl (c.moves.workflow_origin hw')
  | consumed c | attemptCreated c | redispatched c | expired c | replaced c | timerScheduled c
  | canceled c | advanced c | approvalRequested c | approvalGranted c | approvalRejected c =>
      obtain ⟨row, hm, -⟩ := c.advances.moves
      exact .inl (hm.workflow_origin hw')

/-- The entry node of a submission apart, a new node has a name and an iteration. -/
theorem Change.node_origin {db db' : DB} {α : Type} {op : Op α} (h : Change db op db')
    {k : NodeKey} {n : NodeInstance} (hnone : db.nodes.get k = none)
    (hn : db'.nodes.get k = some n) :
    (k.nodeID ≠ "" ∧ 0 ≤ k.iteration) ∨
    ∃ input : CreateWorkflowInput, (⟨α, op⟩ : Sigma Op) = ⟨_, .createWorkflow input⟩ ∧
      k = input.rootKey := by
  have hsame : ∀ {o : Option NodeInstance} {f : NodeInstance → NodeInstance} {c : Prop}
      [Decidable c], o = none → (if c then o.map f else o) = some n → False := by
    intro o f c _ ho hsome
    rw [ho] at hsome
    split at hsome <;> cases hsome
  cases h with
  | idle rows =>
      rw [rows.nodes, hnone] at hn
      cases hn
  | claimed c | extended c | recorded c | redispatched c | expired c =>
      rw [c.nodes, hnone] at hn
      cases hn
  | created c =>
      rw [Table.get_insert c.nodes] at hn
      split at hn
      · rename_i hk
        exact .inr ⟨_, rfl, hk.trans c.node.1⟩
      · rw [hnone] at hn
        cases hn
  | owner c =>
      rw [c.nodes, moveOwnedNode_nodes] at hn
      exact (hsame hnone hn).elim
  | consumed c | attemptCreated c | replaced c | timerScheduled c | approvalRequested c
  | approvalGranted c | approvalRejected c =>
      rw [c.nodes, DB.get_modifyNode] at hn
      exact (hsame hnone hn).elim
  | canceled c =>
      rw [c.nodes, hnone] at hn
      cases hn
  | @advanced _ input w _ _ _ _ c =>
      by_cases hk : k = input.key
      · rw [hk, c.node] at hnone
        cases hnone
      · obtain ⟨-, -, hnamed⟩ := c.fresh k n hk hnone hn
        rw [Table.key_of_get hn] at hnamed
        exact .inl hnamed

/-- A new attempt replaces another one of its node, or `CreateAttempt` made it. -/
theorem Change.attempt_origin {db db' : DB} {α : Type} {op : Op α} (h : Change db op db')
    {k : AttemptKey} {a : Attempt} (hnone : db.attempts.get k = none)
    (ha : db'.attempts.get k = some a) :
    (∃ m b, db.attempts.get ⟨k.node, m⟩ = some b) ∨
    ∃ input : AttemptInput, (⟨α, op⟩ : Sigma Op) = ⟨_, .createAttempt input⟩ ∧
      k.node = input.key := by
  have hsame : ∀ {o : Option Attempt} {f : Attempt → Attempt} {c : Prop} [Decidable c],
      o = none → (if c then o.map f else o) = some a → False := by
    intro o f c _ ho hsome
    rw [ho] at hsome
    split at hsome <;> cases hsome
  cases h with
  | idle rows =>
      rw [rows.attempts, hnone] at ha
      cases ha
  | created c | consumed c | timerScheduled c | advanced c | approvalRequested c | approvalGranted c
  | approvalRejected c | canceled c =>
      rw [c.attempts, hnone] at ha
      cases ha
  | claimed c | extended c | recorded c | redispatched c | expired c =>
      rw [c.attempts, DB.get_modifyAttempt] at ha
      exact (hsame hnone ha).elim
  | owner c =>
      rw [c.attempts, moveOwnedNode_attempts] at ha
      exact (hsame hnone ha).elim
  | attemptCreated c =>
      rw [Table.get_insert c.attempts] at ha
      split at ha
      · rename_i hk
        exact .inr ⟨_, rfl, by rw [hk]; rfl⟩
      · rw [hnone] at ha
        cases ha
  | replaced c =>
      rw [Table.get_insert c.attempts] at ha
      split at ha
      · rename_i hk
        rw [hk]
        exact .inl ⟨_, _, c.attempt⟩
      · rw [DB.get_modifyAttempt] at ha
        exact (hsame hnone ha).elim

/-- The name of the node is written into the announcement of its attempt. -/
theorem createAttempt_named {env : Env} {amb : Ambient} {input : AttemptInput} {db db' : DB}
    {r : Attempt} (h : createAttempt env amb input db = .ok (r, db')) :
    quotable env input.nodeID = true := by
  simp only [createAttempt, bind_eq_ok, pure_eq_ok] at h
  obtain ⟨-, -, w, -, -, -, effectClass, -, -, -, identity, -, -, -, n, -, -, -, -, -, db₁, -, db₂, -,
    db₃, hout, -⟩ := h
  obtain ⟨⟨document, hdoc⟩, -⟩ := insertOutbox_eq_ok hout
  exact quotable_of_sprintfJson hdoc ("node_id", .quoted input.nodeID) (by simp [AttemptInput.key])

/-- The names a transaction formats into payloads and keys. -/
structure Provided (env : Env) (db : DB) : Prop where
  workflow : ∀ id w, db.workflows.get id = some w → id ≠ "" ∧ quotable env id = true
  node : ∀ k n, db.nodes.get k = some n → k.nodeID ≠ "" ∧ 0 ≤ k.iteration
  attempt : ∀ k a, db.attempts.get k = some a → quotable env k.node.nodeID = true

theorem Provided.commit {env : Env} {db db' : DB} {amb : Ambient} {α : Type} {op : Op α} {r : α}
    (h : Provided env db) (hrun : op.run env amb db = .ok (r, db')) : Provided env db' where
  workflow id w' hw' := by
    obtain ⟨w, hw, -⟩ | ⟨input, hop, rfl, hnone⟩ := (Op.run_commit hrun).change.workflow_origin hw'
    · exact h.workflow id w hw
    · cases hop
      obtain ⟨-, rfl, -⟩ | ⟨-, hid, -, -, -, n, event, hsubmits⟩ := createWorkflow_eq_ok hrun
      · rw [hnone] at hw'
        cases hw'
      · exact ⟨hid, hsubmits.named⟩
  node k n hn := by
    cases hold : db.nodes.get k with
    | some m => exact h.node k m hold
    | none =>
        obtain hnamed | ⟨input, hop, rfl⟩ := (Op.run_commit hrun).change.node_origin hold hn
        · exact hnamed
        · cases hop
          obtain ⟨-, rfl, -⟩ | ⟨-, -, hinitial, -⟩ := createWorkflow_eq_ok hrun
          · rw [hold] at hn
            cases hn
          · exact ⟨hinitial, Int.le_refl 0⟩
  attempt k a ha := by
    cases hold : db.attempts.get k with
    | some b => exact h.attempt k b hold
    | none =>
        obtain ⟨m, b, hb⟩ | ⟨input, hop, hk⟩ := (Op.run_commit hrun).change.attempt_origin hold ha
        · exact h.attempt ⟨k.node, m⟩ b hb
        · cases hop
          rw [hk]
          exact createAttempt_named hrun

theorem Reachable.provided {env : Env} {db : DB} (h : Reachable env db) : Provided env db := by
  refine h.induction (fun _ => ⟨fun _ _ hw => (nomatch hw), fun _ _ hn => (nomatch hn),
    fun _ _ ha => (nomatch ha)⟩) ?_
  intro db db' hi hs
  cases hs with
  | tick d => exact ⟨hi.workflow, hi.node, hi.attempt⟩
  | commit amb op r hrun => exact hi.commit hrun

/-- The next revision of a workflow is free. -/
theorem HistoryComplete.free {db : DB} (h : HistoryComplete db) {id : String} {w : Workflow}
    (hw : db.workflows.get id = some w) : db.history.get ⟨id, w.revision + 1⟩ = none := by
  have hchain := h.chain id w hw
  cases hrow : db.history.get ⟨id, w.revision + 1⟩ with
  | none => rfl
  | some row =>
      have hkey : row.key = ⟨id, w.revision + 1⟩ := Table.key_of_get hrow
      have hmem : row ∈ db.historyOf id :=
        Table.mem_select.mpr ⟨Table.mem_of_get hrow, by simp [hkey]⟩
      have hrev : row.key.revision ∈ (db.historyOf id).map (·.key.revision) := List.mem_map_of_mem hmem
      rw [hchain.revisions] at hrev
      obtain ⟨i, hi, heq⟩ := List.mem_map.mp hrev
      rw [List.mem_range] at hi
      rw [hkey, hchain.revision] at heq
      simp only at heq
      omega

theorem Reachable.history_free {env : Env} {db : DB} (h : Reachable env db) {id : String}
    {w : Workflow} (hw : db.workflows.get id = some w) :
    db.history.get ⟨id, w.revision + 1⟩ = none :=
  h.historyComplete.free hw

/-- What `NewID` draws for the call is not in use. -/
structure Ambient.Fresh (amb : Ambient) (db : DB) : Prop where
  event : db.outbox.get amb.eventID = none
  timer : db.timers.get amb.timerID = none

end DurableEngine.State
