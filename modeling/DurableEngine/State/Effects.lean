/-
  DurableEngine.State.Effects

  What a committed operation can do to the durable rows, once for all proofs.

  `Change db op db'` lists the shapes of a committed operation `op`: nothing,
  a new workflow, a move of one workflow (`Moves`: revision and history
  advance together) with the node, attempt and timer writes that go with it,
  or a write to one attempt.  Every invariant is proved by cases on `Change`;
  that each operation has one of these shapes is proved in `State.Commit`.
-/

import DurableEngine.State.Store

namespace DurableEngine.State

open Lib

-- ============================================================================
-- Helper statements
-- ============================================================================

/-- The table `t'` is `t` with one more row. -/
def Inserted {ρ κ : Type} [DecidableEq κ] {key : ρ → κ} (t : Table key) (r : ρ) (t' : Table key) :
    Prop :=
  t.insert? r = some t'

theorem insertHistory_eq_ok {db db' : DB} {workflowID : String} {revision : Int}
    {actorKind actorID : String} {epoch : Option Int} {nodeID : String}
    {iteration attemptNumber : Option Int} {oldState : Option WorkflowState}
    {newState : WorkflowState} {reason : String}
    (h : insertHistory db workflowID revision actorKind actorID epoch nodeID iteration attemptNumber
      oldState newState reason = .ok db') :
    ∃ history, Inserted db.history
        ⟨⟨workflowID, revision⟩, actorKind, actorID, epoch,
          if nodeID = "" then none else some nodeID, iteration, attemptNumber, oldState, newState,
          reason⟩ history ∧
      db' = { db with history := history } := by
  simp only [insertHistory, bind_eq_ok, getOr_eq_ok, rejectIf_eq_ok, exists_const, pure_eq_ok] at h
  obtain ⟨-, history, hins, rfl⟩ := h
  exact ⟨history, hins, rfl⟩

theorem quotable_of_sprintfJson {env : Env} {fields : List (String × Field)} {document : Jsonb}
    (h : sprintfJson env fields = some document) : ∀ f ∈ fields, f.2.quotable env = true := by
  unfold sprintfJson at h
  split at h
  · rename_i hall
    exact List.all_eq_true.mp hall
  · cases h

/-- An outbox row as a transaction writes it: no relay has claimed it. -/
structure OutboxEvent.IsNew (event : OutboxEvent) : Prop where
  pending : event.publishState = .pending
  attempts : event.relayAttempts = 0
  unclaimed : event.claimOwner = none
  topic : eventTopicFor event.eventType = some event.topic

theorem insertOutbox_eq_ok {amb : Ambient} {db db' : DB} {workflowID : String} {revision : Int}
    {eventType : String} {payload : Option Jsonb}
    (h : insertOutbox amb db workflowID revision eventType payload = .ok db') :
    (∃ document, payload = some document) ∧ ∃ event outbox, Inserted db.outbox event outbox ∧
      event.workflowID = workflowID ∧ event.aggregateRevision = revision ∧
      event.eventType = eventType ∧ event.IsNew ∧ db' = { db with outbox := outbox } := by
  simp only [insertOutbox, bind_eq_ok, getOr_eq_ok, pure_eq_ok] at h
  obtain ⟨topic, htopic, document, hdocument, outbox, hins, rfl⟩ := h
  exact ⟨⟨document, hdocument⟩, _, outbox, hins, rfl, rfl, rfl, ⟨rfl, rfl, rfl, htopic⟩, rfl⟩

/-- The slots after the workflow `workflowID` moved from `oldState` to `newState`: its own slot is
    gone if the gate holds one for it and it has ended, and no other slot changed. -/
structure Released (env : Env) (slots : Table AdmissionSlot.workflowID) (ns workflowID : String)
    (oldState newState : WorkflowState) (slots' : Table AdmissionSlot.workflowID) : Prop where
  kept : ∀ id slot, slots.get id = some slot →
    slots'.get id = some slot ∨ (id = workflowID ∧ newState.isTerminal = true)
  noNew : ∀ id slot, slots'.get id = some slot → slots.get id = some slot
  gone : env.admission.enabled = true → isDur050Namespace ns = true → oldState.isTerminal = false →
    newState.isTerminal = true → slots'.get workflowID = none
  fewer : ∀ p, (slots'.select p).length ≤ (slots.select p).length

theorem Released.of_eq {env : Env} {slots slots' : Table AdmissionSlot.workflowID}
    {ns workflowID : String} {oldState newState : WorkflowState} (h : slots' = slots)
    (hlive : newState.isTerminal = false) :
    Released env slots ns workflowID oldState newState slots' where
  kept _ _ hslot := .inl (by rw [h]; exact hslot)
  noNew _ _ hslot := by rw [← h]; exact hslot
  gone _ _ _ hend := by rw [hlive] at hend; cases hend
  fewer _ := by rw [h]

theorem releaseAdmissionSlotTx_eq_ok {env : Env} {db db' : DB} {ns workflowID : String}
    {oldState newState : WorkflowState}
    (h : releaseAdmissionSlotTx env db ns workflowID oldState newState = .ok db') :
    ∃ slots, db' = { db with admissionSlots := slots } ∧
      Released env db.admissionSlots ns workflowID oldState newState slots := by
  unfold releaseAdmissionSlotTx at h
  split at h
  · rename_i hskip
    cases h
    refine ⟨db.admissionSlots, rfl, fun _ _ hslot => .inl hslot, fun _ _ hslot => hslot, ?_,
      fun _ => Nat.le_refl _⟩
    intro henabled hgated hlive hend
    simp [henabled, hgated, hlive, hend] at hskip
  · rename_i hends
    simp only [bind_eq_ok, rejectIf_eq_ok, exists_const, pure_eq_ok, not_not] at h
    obtain ⟨hone, rfl⟩ := h
    simp only [Bool.or_eq_true, Bool.not_eq_true', not_or, Bool.not_eq_false] at hends
    refine ⟨_, rfl, fun id slot hslot => ?_, fun id slot hslot => ?_, fun _ _ _ _ => ?_, fun p => ?_⟩
    · by_cases hid : id = workflowID
      · exact .inr ⟨hid, hends.2⟩
      · have hkey := Table.key_of_get hslot
        refine .inl ?_
        rw [Table.get_delete, hslot]
        simp [hkey, hid]
    · rw [Table.get_delete, Option.filter_eq_some_iff] at hslot
      exact hslot.1
    · -- the one slot that is deleted is the one stored under the workflow's ID
      obtain ⟨slot, hslot⟩ := List.exists_mem_of_length_pos (by rw [hone]; exact Nat.one_pos)
      obtain ⟨hmem, howned⟩ := Table.mem_select.mp hslot
      have hget := Table.get_of_mem hmem
      simp only [Bool.and_eq_true, decide_eq_true_eq] at howned
      rw [howned.1] at hget
      rw [Table.get_delete, hget]
      simp [howned.1, howned.2]
    · exact (List.filter_sublist.filter p).length_le

/-- The policy a call of `SetRetryPolicy` stores, with what is used of the budget. -/
def RetryPolicyInput.policy (input : RetryPolicyInput) (retriesUsed : Int) : RetryPolicy :=
  ⟨input.key, input.maxRetries, retriesUsed, input.totalDeadlineAt,
    if input.checkpointSchemaVersion ≤ 0 then 1 else input.checkpointSchemaVersion⟩

/-- Stored retry policies stay as they are, and a new one is the default. -/
structure PoliciesKept (db db' : DB) : Prop where
  stored : ∀ k policy, db.retryPolicies.get k = some policy →
    db'.retryPolicies.get k = some policy
  read : ∀ k, db'.retryPolicyOf k = db.retryPolicyOf k

theorem PoliciesKept.of_eq {db db' : DB} (h : db'.retryPolicies = db.retryPolicies) :
    PoliciesKept db db' where
  stored k policy hpolicy := by rw [h]; exact hpolicy
  read k := by rw [DB.retryPolicyOf, DB.retryPolicyOf, h]

theorem PoliciesKept.trans {db db' db'' : DB} (h : PoliciesKept db db')
    (h' : PoliciesKept db' db'') : PoliciesKept db db'' where
  stored k policy hpolicy := h'.stored k policy (h.stored k policy hpolicy)
  read k := (h'.read k).trans (h.read k)

theorem ensureRetryPolicyTx_eq (db : DB) (k : NodeKey) :
    ∃ policies, ensureRetryPolicyTx db k = { db with retryPolicies := policies } ∧
      PoliciesKept db (ensureRetryPolicyTx db k) ∧ policies.get k = some (db.retryPolicyOf k) := by
  unfold ensureRetryPolicyTx
  split
  · rename_i policies hins
    have hnone : db.retryPolicies.get k = none := (Table.insert?_eq_some_iff.mp hins).1
    refine ⟨policies, rfl, ⟨fun k policy hpolicy => Table.get_insert_of_get hins hpolicy,
      fun k' => ?_⟩, ?_⟩
    · rw [DB.retryPolicyOf, DB.retryPolicyOf, Table.get_insert hins]
      split
      · rename_i hk
        rw [hk, hnone]
        rfl
      · rfl
    · rw [DB.retryPolicyOf, hnone]
      exact Table.get_insert_self hins
  · rename_i hins
    obtain ⟨policy, hget⟩ := Table.get_of_insert?_none hins
    have hget' : db.retryPolicies.get k = some policy := hget
    exact ⟨db.retryPolicies, rfl, .of_eq rfl, by rw [DB.retryPolicyOf, hget']; rfl⟩

theorem retryPolicyTx_eq_ok {db : DB} {k : NodeKey} {r : RetryPolicy × DB}
    (h : retryPolicyTx db k = .ok r) : r.1 = db.retryPolicyOf k ∧
      ∃ policies, r.2 = { db with retryPolicies := policies } ∧ PoliciesKept db r.2 ∧
        policies.get k = some (db.retryPolicyOf k) := by
  simp only [retryPolicyTx, bind_eq_ok, getOr_eq_ok, pure_eq_ok] at h
  obtain ⟨policy, hpolicy, rfl⟩ := h
  obtain ⟨policies, heq, hkept, hself⟩ := ensureRetryPolicyTx_eq db k
  rw [heq, hself, Option.some.injEq] at hpolicy
  exact ⟨hpolicy.symm, policies, heq, hkept, hself⟩

/-- The policy of the node `k` became `policy`; the other ones are kept. -/
structure PolicyWrite (db db' : DB) (k : NodeKey) (policy : RetryPolicy) : Prop where
  after : db'.retryPolicies.get k = some policy
  stored : ∀ k' old, k' ≠ k → db.retryPolicies.get k' = some old →
    db'.retryPolicies.get k' = some old
  others : ∀ k', k' ≠ k → db'.retryPolicyOf k' = db.retryPolicyOf k'

theorem PolicyWrite.of_modify {db db₁ db' : DB} {k : NodeKey} {f : RetryPolicy → RetryPolicy}
    (hf : ∀ p, (f p).key = p.key) (h : PoliciesKept db db₁)
    (hself : db₁.retryPolicies.get k = some (db.retryPolicyOf k))
    (hmodify : db'.retryPolicies = db₁.retryPolicies.modify k f hf) {policy : RetryPolicy}
    (hpolicy : f (db.retryPolicyOf k) = policy) : PolicyWrite db db' k policy where
  after := by rw [hmodify, Table.get_modify_self, hself, Option.map_some, hpolicy]
  stored k' old hk hold := by
    rw [hmodify, Table.get_modify_ne _ _ _ hk]
    exact h.stored k' old hold
  others k' hk := by
    rw [← h.read k', DB.retryPolicyOf, hmodify, Table.get_modify_ne _ _ _ hk]
    rfl

theorem PolicyWrite.congr {db db' db'' : DB} {k : NodeKey} {policy : RetryPolicy}
    (h : PolicyWrite db db' k policy) (heq : db''.retryPolicies = db'.retryPolicies) :
    PolicyWrite db db'' k policy where
  after := by rw [heq]; exact h.after
  stored k' old hk hold := by rw [heq]; exact h.stored k' old hk hold
  others k' hk := by
    rw [← h.others k' hk, DB.retryPolicyOf, heq]
    rfl

/-- The lease is valid and owns the partition of the workflow `w`. -/
structure Owned (db : DB) (lease : LeaseRef) (workflowID : String) (w : Workflow) : Prop where
  valid : db.leaseValid lease
  get : db.workflows.get workflowID = some w
  partition : w.partitionID = lease.partitionID

theorem Owned.workflowID {db : DB} {lease : LeaseRef} {workflowID : String} {w : Workflow}
    (h : Owned db lease workflowID w) : w.workflowID = workflowID :=
  Table.key_of_get h.get

theorem lockOwnedWorkflow_eq_ok {db : DB} {lease : LeaseRef} {workflowID : String}
    {expectedRevision : Int} {context : String} {w : Workflow}
    (h : lockOwnedWorkflow db lease workflowID expectedRevision context = .ok w) :
    Owned db lease workflowID w ∧ w.revision = expectedRevision := by
  simp only [lockOwnedWorkflow, bind_eq_ok, getOr_eq_ok, rejectIf_eq_ok, exists_const, not_not,
    ne_eq, pure_eq_ok] at h
  obtain ⟨lease', hlock, w', hget, hpart, hrev, rfl⟩ := h
  exact ⟨⟨(lockLease_eq_ok hlock).1, hget, hpart⟩, hrev⟩

theorem lockApprovalWorkflow_eq_ok {db : DB} {lease : LeaseRef} {workflowID : String}
    {expectedRevision : Int} {w : Workflow}
    (h : lockApprovalWorkflow db lease workflowID expectedRevision = .ok w) :
    Owned db lease workflowID w ∧ w.revision = expectedRevision := by
  simp only [lockApprovalWorkflow, bind_eq_ok, getOr_eq_ok, rejectIf_eq_ok, exists_const, not_not,
    ne_eq, pure_eq_ok] at h
  obtain ⟨lease', hlock, w', hget, hpart, hrev, rfl⟩ := h
  exact ⟨⟨(lockLease_eq_ok hlock).1, hget, hpart⟩, hrev⟩

-- ============================================================================
-- Moves of a workflow
-- ============================================================================

/-- A workflow `w` advances by one revision to the state `newState`, with the
    history row `row`; a row with an epoch was written under the lease. -/
structure Moves (db db' : DB) (w : Workflow) (newState : WorkflowState) (row : TransitionRecord) :
    Prop where
  get : db.workflows.get w.workflowID = some w
  live : w.state.isTerminal = false
  workflows : db'.workflows = (db.setWorkflow w.workflowID newState (w.revision + 1)).workflows
  history : Inserted db.history row db'.history
  key : row.key = ⟨w.workflowID, w.revision + 1⟩
  old : row.oldState = some w.state
  new : row.newState = newState
  epoch : ∀ e, row.schedulerEpoch = some e →
    ∃ ref : LeaseRef, db.leaseValid ref ∧ ref.partitionID = w.partitionID ∧ ref.epoch = e

theorem Moves.get_workflow {db db' : DB} {w : Workflow} {newState : WorkflowState}
    {row : TransitionRecord} (h : Moves db db' w newState row) (id : String) :
    db'.workflows.get id =
      if id = w.workflowID then some { w with state := newState, revision := w.revision + 1 }
      else db.workflows.get id := by
  rw [h.workflows, DB.get_setWorkflow]
  split
  · rename_i hid
    rw [hid, h.get, Option.map_some]
  · rfl

/-- One event of the workflow was written at revision `revision`. -/
def Emits (db db' : DB) (workflowID : String) (revision : Int) : Prop :=
  ∃ event, Inserted db.outbox event db'.outbox ∧ event.workflowID = workflowID ∧
    event.aggregateRevision = revision ∧ event.IsNew

/-- The reason of a recorded result. -/
def resultReason : String := "ATTEMPT_RESULT_RECORDED"

/-- A move of `w` other than an owner transition: it emits an event, and its
    history row is not that of a recorded result. -/
structure Advances (db db' : DB) (w : Workflow) (newState : WorkflowState) : Prop where
  moves : ∃ row, Moves db db' w newState row ∧ row.reason ≠ resultReason
  emits : Emits db db' w.workflowID (w.revision + 1)

/-- `Moves` reads only the workflows and the history of the new state. -/
theorem Moves.congr {db db' : DB} {w : Workflow} {newState : WorkflowState}
    {row : TransitionRecord} (h : Moves db db' w newState row) (db'' : DB)
    (hw : db''.workflows = db'.workflows) (hh : db''.history = db'.history) :
    Moves db db'' w newState row :=
  { h with workflows := hw.trans h.workflows, history := hh ▸ h.history }

/-- The writes of a transaction from the workflow's update to its history row. -/
theorem Moves.of_insertHistory {db dbS db₂ : DB} {w : Workflow} {workflowID : String}
    {newState : WorkflowState} {actorKind actorID nodeID reason : String}
    {epoch iteration attemptNumber : Option Int}
    (h : insertHistory dbS workflowID (w.revision + 1) actorKind actorID epoch nodeID iteration
      attemptNumber (some w.state) newState reason = .ok db₂)
    (hget : db.workflows.get workflowID = some w) (hlive : w.state.isTerminal = false)
    (hepoch : ∀ e, epoch = some e →
      ∃ ref : LeaseRef, db.leaseValid ref ∧ ref.partitionID = w.partitionID ∧ ref.epoch = e)
    (hws : dbS.workflows = (db.setWorkflow workflowID newState (w.revision + 1)).workflows)
    (hh : dbS.history = db.history) :
    ∃ history, db₂ = { dbS with history := history } ∧
      Moves db db₂ w newState ⟨⟨workflowID, w.revision + 1⟩, actorKind, actorID, epoch,
        if nodeID = "" then none else some nodeID, iteration, attemptNumber, some w.state, newState,
        reason⟩ := by
  obtain ⟨history, hins, rfl⟩ := insertHistory_eq_ok h
  have hid : w.workflowID = workflowID := Table.key_of_get hget
  refine ⟨history, rfl, ?_⟩
  exact
    { get := by rw [hid]; exact hget
      live := hlive
      workflows := by rw [hid]; exact hws
      history := hh ▸ hins
      key := by rw [hid]
      old := rfl
      new := rfl
      epoch := hepoch }

/-- The epoch of a valid lease on the workflow's partition. -/
theorem Owned.epoch {db : DB} {lease : LeaseRef} {workflowID : String} {w : Workflow}
    (h : Owned db lease workflowID w) (e : Int) (he : some lease.epoch = some e) :
    ∃ ref : LeaseRef, db.leaseValid ref ∧ ref.partitionID = w.partitionID ∧ ref.epoch = e :=
  ⟨lease, h.valid, h.partition.symm, Option.some.inj he⟩

theorem Emits.of_insertOutbox (db : DB) {dbS db' : DB} {amb : Ambient} {workflowID : String}
    {revision : Int} {eventType : String} {payload : Option Jsonb}
    (h : insertOutbox amb dbS workflowID revision eventType payload = .ok db')
    (ho : dbS.outbox = db.outbox) :
    ∃ outbox, db' = { dbS with outbox := outbox } ∧ Emits db db' workflowID revision := by
  obtain ⟨-, event, outbox, hins, hw, hr, -, hnew, rfl⟩ := insertOutbox_eq_ok h
  exact ⟨outbox, rfl, event, ho ▸ hins, hw, hr, hnew⟩

/-- The writes that end most transactions of a scheduler: the workflow's next
    revision, its history row and one event. -/
theorem Advances.of_tail {db dbS db₂ db' : DB} {amb : Ambient} {lease : LeaseRef} {w : Workflow}
    {workflowID : String} {newState : WorkflowState}
    {actorKind actorID nodeID reason eventType : String} {iteration attemptNumber : Option Int}
    {payload : Option Jsonb}
    (h : insertHistory dbS workflowID (w.revision + 1) actorKind actorID (some lease.epoch) nodeID
      iteration attemptNumber (some w.state) newState reason = .ok db₂)
    (h' : insertOutbox amb db₂ workflowID (w.revision + 1) eventType payload = .ok db')
    (hown : Owned db lease workflowID w) (hlive : w.state.isTerminal = false)
    (hws : dbS.workflows = (db.setWorkflow workflowID newState (w.revision + 1)).workflows)
    (hh : dbS.history = db.history) (ho : dbS.outbox = db.outbox)
    (hreason : reason ≠ resultReason) :
    (∃ history outbox, db' = { dbS with history := history, outbox := outbox }) ∧
      Advances db db' w newState := by
  obtain ⟨history, rfl, hmoves⟩ := Moves.of_insertHistory h hown.get hlive hown.epoch hws hh
  obtain ⟨outbox, rfl, hemits⟩ := Emits.of_insertOutbox db h' ho
  exact ⟨⟨history, outbox, rfl⟩, ⟨_, hmoves.congr _ rfl rfl, hreason⟩, hown.workflowID ▸ hemits⟩

theorem Advances.congr {db db' : DB} {w : Workflow} {newState : WorkflowState}
    (h : Advances db db' w newState) (db'' : DB) (hw : db''.workflows = db'.workflows)
    (hh : db''.history = db'.history) (ho : db''.outbox = db'.outbox) :
    Advances db db'' w newState := by
  obtain ⟨⟨row, hmoves, hreason⟩, event, hins, hevent⟩ := h
  exact ⟨⟨row, hmoves.congr db'' hw hh, hreason⟩, event, ho ▸ hins, hevent⟩

/-- The admission slots of a namespace. -/
def DB.slotsOf (db : DB) (ns : String) : List AdmissionSlot :=
  db.admissionSlots.select (fun s => s.namespace_ = ns)

/-- The gate holds slots for the workflows of the namespace. -/
def Env.gates (env : Env) (ns : String) : Bool := env.admission.enabled && isDur050Namespace ns

/-- What a committed operation does to the admission slots: a gated workflow takes one when it is
    created, while there is room, and gives it back when it ends. -/
structure SlotStep (env : Env) (db db' : DB) : Prop where
  kept : ∀ id slot, db.admissionSlots.get id = some slot → db'.admissionSlots.get id = some slot ∨
    ∃ w, db'.workflows.get id = some w ∧ w.state.isTerminal = true
  unchanged : ∀ id slot slot', db.admissionSlots.get id = some slot →
    db'.admissionSlots.get id = some slot' → slot' = slot
  ended : ∀ id w w', db.workflows.get id = some w → w.state.isTerminal = false →
    db'.workflows.get id = some w' → w'.state.isTerminal = true → env.gates w.namespace_ = true →
    db'.admissionSlots.get id = none
  fresh : ∀ id slot, db.admissionSlots.get id = none → db'.admissionSlots.get id = some slot →
    db.workflows.get id = none ∧ env.gates slot.namespace_ = true ∧
      ∃ w, db'.workflows.get id = some w ∧ w.namespace_ = slot.namespace_ ∧
        w.state.isTerminal = false
  admitted : ∀ id w, db.workflows.get id = none → db'.workflows.get id = some w →
    env.gates w.namespace_ = true → db'.admissionSlots.get id = some ⟨id, w.namespace_⟩
  bounded : ∀ ns, (db'.slotsOf ns).length ≤ (db.slotsOf ns).length ∨
    ((db'.slotsOf ns).length : Int) ≤ env.admission.maxActiveWorkflows ∧
      ∃ id w, db.workflows.get id = none ∧ db'.workflows.get id = some w ∧ w.namespace_ = ns

/-- Neither a workflow nor a slot changed. -/
theorem SlotStep.of_same {env : Env} {db db' : DB} (hw : db'.workflows = db.workflows)
    (hs : db'.admissionSlots = db.admissionSlots) : SlotStep env db db' where
  kept _ _ hslot := .inl (by rw [hs]; exact hslot)
  unchanged id slot slot' hslot hslot' := by
    rw [hs, hslot, Option.some.injEq] at hslot'
    exact hslot'.symm
  ended id w w' hget hlive hget' hend _ := by
    rw [hw, hget, Option.some.injEq] at hget'
    rw [← hget', hlive] at hend
    cases hend
  fresh id slot hnone hsome := by
    rw [hs, hnone] at hsome
    cases hsome
  admitted id w hnone hsome _ := by
    rw [hw, hnone] at hsome
    cases hsome
  bounded _ := .inl (by rw [DB.slotsOf, hs]; exact Nat.le_refl _)

/-- A workflow moved, and its slot was released if that ended it. -/
theorem Moves.slotStep {env : Env} {db db' : DB} {w : Workflow} {newState : WorkflowState}
    {row : TransitionRecord} (hm : Moves db db' w newState row)
    (h : Released env db.admissionSlots w.namespace_ w.workflowID w.state newState
      db'.admissionSlots) : SlotStep env db db' where
  kept id slot hslot := by
    refine (h.kept id slot hslot).imp_right (fun hend => ?_)
    exact ⟨_, by rw [hm.get_workflow, if_pos hend.1], hend.2⟩
  unchanged id slot slot' hslot hslot' := by
    rw [h.noNew id slot' hslot', Option.some.injEq] at hslot
    exact hslot
  ended id w₀ w' hget hlive hget' hend hgates := by
    simp only [Env.gates, Bool.and_eq_true] at hgates
    rw [hm.get_workflow] at hget'
    split at hget'
    · rename_i hid
      cases hget'
      rw [hid, hm.get, Option.some.injEq] at hget
      rw [hid]
      exact h.gone hgates.1 (by rw [hget]; exact hgates.2) hm.live hend
    · rw [hget, Option.some.injEq] at hget'
      rw [← hget', hlive] at hend
      cases hend
  fresh id slot hnone hsome := by
    rw [h.noNew id slot hsome] at hnone
    cases hnone
  admitted id w' hnone hsome _ := by
    rw [hm.get_workflow] at hsome
    split at hsome
    · rename_i hid
      rw [hid, hm.get] at hnone
      cases hnone
    · rw [hnone] at hsome
      cases hsome
  bounded _ := .inl (h.fewer _)

/-- A workflow moved and has not ended. -/
theorem Advances.slotStep {env : Env} {db db' : DB} {w : Workflow} {newState : WorkflowState}
    (h : Advances db db' w newState) (hs : db'.admissionSlots = db.admissionSlots)
    (hlive : newState.isTerminal = false) : SlotStep env db db' := by
  obtain ⟨row, hm, -⟩ := h.moves
  exact hm.slotStep (.of_eq hs hlive)

/-- The tables that `Change` describes are untouched. -/
structure SameRows (db db' : DB) : Prop where
  workflows : db'.workflows = db.workflows
  nodes : db'.nodes = db.nodes
  attempts : db'.attempts = db.attempts
  timers : db'.timers = db.timers
  history : db'.history = db.history
  outbox : db'.outbox = db.outbox

/-- A node row as it is created. -/
def NodeInstance.isFresh (n : NodeInstance) : Prop :=
  n.state = .runnable ∧ n.acceptedResult = none ∧ n.currentAttempt = none ∧ n.timerFired = false ∧
    n.retryCount = 0

/-- No attempt of the node is current. -/
def DB.noCurrent (db : DB) (k : NodeKey) : Prop :=
  ∀ a, db.attempts.get a.key = some a → a.key.node = k → a.isCurrent = false

/-- The node belongs to the canceled workflow and is not terminal. -/
def NodeInstance.cancelable (n : NodeInstance) (workflowID : String) : Bool :=
  n.key.workflowID = workflowID && !n.state.isTerminal

/-- The attempt is the current one of a node that is settled with its workflow. -/
def DB.cancelsAttempt (db : DB) (workflowID : String) (k : AttemptKey) : Bool :=
  (db.nodes.get k.node).any (fun n => n.cancelable workflowID && n.currentAttempt = some k.number)

/-- The row of the named node after an owner transition. -/
def NodeInstance.ownerMove (n : NodeInstance) (input : OwnerTransitionInput) (state : WorkflowState)
    (current : Option Int) (purpose : Option TimerPurpose) : NodeInstance :=
  if input.cancels state = true ∧ current.isSome = true then
    { n with state := .canceled, currentAttempt := none, revision := n.revision + 1 }
  else (input.target.map (fun s => n.transition s purpose)).getD n

theorem moveOwnedNode_nodes (db : DB) (input : OwnerTransitionInput) (state : WorkflowState)
    (current : Option Int) (purpose : Option TimerPurpose) (k : NodeKey) :
    (moveOwnedNode db input state current purpose).nodes.get k =
      if k = input.key then
        (db.nodes.get k).map (fun n => n.ownerMove input state current purpose)
      else db.nodes.get k := by
  unfold moveOwnedNode
  split
  · rename_i m hcancels
    rw [DB.get_modifyNode]
    simp only [NodeInstance.ownerMove, hcancels, Option.isSome_some, and_self, if_true]
    rfl
  · rename_i current _ _ hno
    have hcond : ¬ (input.cancels state = true ∧ current.isSome = true) := by
      rintro ⟨hcancels, hsome⟩
      obtain ⟨m, hm⟩ := Option.isSome_iff_exists.mp hsome
      exact hno m hcancels hm
    simp only [NodeInstance.ownerMove, if_neg hcond]
    split
    · rename_i s hs
      rw [DB.get_modifyNode]
      simp [hs]
    · rename_i hs
      cases db.nodes.get k <;> simp [hs]

theorem moveOwnedNode_attempts (db : DB) (input : OwnerTransitionInput) (state : WorkflowState)
    (current : Option Int) (purpose : Option TimerPurpose) (k : AttemptKey) :
    (moveOwnedNode db input state current purpose).attempts.get k =
      if k.node = input.key ∧ input.cancels state = true ∧ current = some k.number then
        (db.attempts.get k).map Attempt.cancel else db.attempts.get k := by
  unfold moveOwnedNode
  split
  · rename_i n hcancels
    have hkey : (k = ⟨input.key, n⟩) ↔
        (k.node = input.key ∧ input.cancels state = true ∧ some n = some k.number) := by
      cases k
      simp [hcancels, eq_comm]
    simp only [← hkey]
    exact DB.get_modifyAttempt db ⟨input.key, n⟩ k Attempt.cancel Attempt.cancel_key
  · rename_i hno
    rw [if_neg]
    · split <;> rfl
    · rintro ⟨-, hcancels, hcur⟩
      exact hno k.number hcancels hcur

/-- The keys of the proposed successors. -/
def AdvanceGraphInput.nextKeys (input : AdvanceGraphInput) : List NodeKey :=
  input.next.map (fun item => ⟨input.workflowID, item.nodeID, item.iteration⟩)

-- ============================================================================
-- Committed operations
-- ============================================================================

/-- The row of a submitted workflow. -/
def CreateWorkflowInput.workflow (input : CreateWorkflowInput) : Workflow :=
  ⟨input.workflowID, input.namespace_, input.submissionKey, input.submissionPayloadHash,
    input.definitionID, input.definitionVersion, input.partitionID, .runnable, 1⟩

/-- The key of a submitted workflow's entry node. -/
def CreateWorkflowInput.rootKey (input : CreateWorkflowInput) : NodeKey :=
  ⟨input.workflowID, input.initialNodeID, 0⟩

/-- The first history row of a submitted workflow. -/
def CreateWorkflowInput.firstRow (input : CreateWorkflowInput) : TransitionRecord :=
  ⟨⟨input.workflowID, 1⟩, "client", if input.actorID = "" then "client" else input.actorID, none,
    if input.initialNodeID = "" then none else some input.initialNodeID, none, none, none, .runnable,
    "WORKFLOW_CREATED"⟩

/-- Everything a submission writes for a new workflow. -/
structure Submits (env : Env) (input : CreateWorkflowInput) (locked : Bool) (n : NodeInstance)
    (event : OutboxEvent) (db db' : DB) : Prop where
  named : quotable env input.workflowID = true
  workflows : Inserted db.workflows input.workflow db'.workflows
  root : n.key = input.rootKey ∧ n.isFresh
  nodes : Inserted db.nodes n db'.nodes
  policy : ∃ policy, db'.retryPolicies.get input.rootKey = some policy
  policies : PoliciesKept db db'
  history : Inserted db.history input.firstRow db'.history
  announces : event.workflowID = input.workflowID ∧ event.aggregateRevision = 1 ∧
    event.eventType = "workflow.created" ∧ event.IsNew
  outbox : Inserted db.outbox event db'.outbox
  slots : if locked then Inserted db.admissionSlots ⟨input.workflowID, input.namespace_⟩
      db'.admissionSlots
    else db'.admissionSlots = db.admissionSlots
  rest : db' = { db with
    workflows := db'.workflows
    nodes := db'.nodes
    retryPolicies := db'.retryPolicies
    history := db'.history
    outbox := db'.outbox
    admissionSlots := db'.admissionSlots }

/-- A new workflow with its entry node, first history row and event. -/
structure Change.Created (db : DB) (input : CreateWorkflowInput) (w : Workflow) (n : NodeInstance)
    (row : TransitionRecord) (db' : DB) : Prop where
  workflow : w.workflowID = input.workflowID ∧ w.state = .runnable ∧ w.revision = 1
  node : n.key = ⟨input.workflowID, input.initialNodeID, 0⟩ ∧ n.isFresh
  workflows : Inserted db.workflows w db'.workflows
  nodes : Inserted db.nodes n db'.nodes
  history : Inserted db.history row db'.history
  key : row.key = ⟨input.workflowID, 1⟩
  states : row.oldState = none ∧ row.newState = .runnable ∧ row.schedulerEpoch = none
  reason : row.reason ≠ resultReason
  emits : Emits db db' input.workflowID 1
  attempts : db'.attempts = db.attempts
  timers : db'.timers = db.timers

/-- An owner transition of the workflow, with the writes to the node it names. -/
structure Change.Owner (db : DB) (input : OwnerTransitionInput) (w : Workflow)
    (row : TransitionRecord) (current : Option Int) (timer : Option Timer) (db' : DB) : Prop where
  workflow : w.workflowID = input.workflowID
  legal : w.state.legalTransition input.newState = true
  moves : Moves db db' w input.newState row
  reason : row.reason = input.reason
  node : input.nodeID ≠ "" → ∃ n, db.nodes.get input.key = some n ∧ n.currentAttempt = current
  noNode : input.nodeID = "" → current = none
  due : ownerTimer db input w.state = .ok timer
  nodes : db'.nodes =
      (moveOwnedNode db input w.state current (timer.map (·.purpose))).nodes
  attempts : db'.attempts =
      (moveOwnedNode db input w.state current (timer.map (·.purpose))).attempts
  timers : db'.timers = (consumeTimer db timer).timers
  obligations : db'.reconciliation = (consumeTimer db timer).reconciliation
  outbox : db'.outbox = db.outbox

/-- The recorded result of a node was consumed. -/
structure Change.Consumed (db : DB) (input : ConsumeResultInput) (w : Workflow) (n : NodeInstance)
    (a : Attempt) (result : Jsonb) (newState nodeState : WorkflowState) (retryAfter : Option Int)
    (db' : DB) : Prop where
  workflow : w.workflowID = input.workflowID
  advances : Advances db db' w newState
  node : db.nodes.get input.key = some n
  current : n.currentAttempt = some input.attemptNumber
  attempt : db.attempts.get ⟨input.key, input.attemptNumber⟩ = some a
  recorded : a.isCurrent = false ∧ a.state.isTerminal = true ∧ a.result = some result
  accepts : w.state = .waitingActivity ∨ w.state = .runnable ∨ w.state = .waitingTimer
  spent : ∃ db₁, spendRetry db input a.state = .ok ((newState, retryAfter), db₁) ∧
      db'.retryPolicies = db₁.retryPolicies
  outcome : consumedNodeState a.state newState retryAfter = .ok nodeState
  settled : newState.isTerminal = true → db.liveSiblings input.key = []
  nodes : db'.nodes = (db.modifyNode input.key
      (·.consume nodeState result (retryAfter.map (fun delay => db.now + delay)))
      (·.consume_key nodeState result (retryAfter.map (fun delay => db.now + delay)))).nodes
  attempts : db'.attempts = db.attempts
  timers : (nodeState ≠ .waitingTimer ∧ db'.timers = db.timers) ∨
      ∃ (delay : Int) (t : Timer), nodeState = .waitingTimer ∧ retryAfter = some delay ∧
        Inserted db.timers t db'.timers ∧ t.node = input.key ∧ t.dueAt = db.now + delay ∧
        t.purpose = .retryBackoff ∧ t.consumedAt = none

/-- A node got its next attempt. -/
structure Change.AttemptCreated (db : DB) (input : AttemptInput) (w : Workflow) (n : NodeInstance)
    (effectClass : EffectClass) (deadline : Int) (effectKey scope : Option String)
    (db' : DB) : Prop where
  workflow : w.workflowID = input.workflowID
  waiting : w.state = .waitingActivity
  advances : Advances db db' w w.state
  node : db.nodes.get input.key = some n
  nodeWaiting : n.state = .waitingActivity
  free : n.currentAttempt.getD 0 = 0
  noCurrent : db.noCurrent input.key
  attempts : Inserted db.attempts
      (freshAttempt ⟨input.key, db.maxAttempt input.key + 1⟩ effectClass deadline effectKey scope)
      db'.attempts
  nodes : db'.nodes = (db.modifyNode input.key (fun n =>
      { n with currentAttempt := some (db.maxAttempt input.key + 1) })).nodes
  timers : db'.timers = db.timers

/-- A worker claimed the dispatchable attempt of a node. -/
structure Change.Claimed (db : DB) (input : ClaimInput) (w : Workflow) (n : NodeInstance)
    (a : Attempt) (token : String) (deadline : Int) (db' : DB) : Prop where
  workflow : db.workflows.get input.workflowID = some w
  waiting : w.state = .waitingActivity
  unbound : db.workerRequest input.requestID = none
  node : db.nodes.get input.key = some n
  attempt : db.attempts.get ⟨input.key, n.currentAttempt.getD 0⟩ = some a
  dispatchable : a.isCurrent = true ∧ a.state = .dispatchable
  named : token ≠ "" ∧ input.workerID ≠ "" ∧ input.requestID ≠ ""
  attempts : db'.attempts = (db.modifyAttempt ⟨input.key, n.currentAttempt.getD 0⟩ (fun a =>
      { a with
        state := .claimed
        claimToken := some token
        workerID := some input.workerID
        workerRequestID := some input.requestID
        heartbeatDeadline := some deadline })).attempts
  workflows : db'.workflows = db.workflows
  nodes : db'.nodes = db.nodes
  timers : db'.timers = db.timers
  history : db'.history = db.history
  outbox : db'.outbox = db.outbox

/-- The deadline of a claimed attempt moved. -/
structure Change.Extended (db : DB) (input : HeartbeatInput) (n : NodeInstance) (a : Attempt)
    (deadline : Int) (db' : DB) : Prop where
  node : db.nodes.get input.key = some n
  current : n.currentAttempt.getD 0 = input.attemptNumber
  attempt : db.attempts.get ⟨input.key, input.attemptNumber⟩ = some a
  isClaimed : a.isCurrent = true ∧ a.state = .claimed
  claim : ∃ token, uuidText input.claimToken = some token ∧ a.claimToken = some token
  attempts : db'.attempts = (db.modifyAttempt ⟨input.key, input.attemptNumber⟩ (fun a =>
      { a with heartbeatDeadline := some deadline })).attempts
  workflows : db'.workflows = db.workflows
  nodes : db'.nodes = db.nodes
  timers : db'.timers = db.timers
  history : db'.history = db.history
  outbox : db'.outbox = db.outbox

/-- The result of a claimed attempt was recorded. -/
structure Change.Recorded (db : DB) (input : ResultInput) (w : Workflow) (n : NodeInstance)
    (a : Attempt) (row : TransitionRecord) (document : Jsonb) (db' : DB) : Prop where
  named : input.workflowID ≠ "" ∧ input.nodeID ≠ ""
  workflow : w.workflowID = input.workflowID
  outcome : input.attemptState.isTerminal = true
  stored : input.payload.orEmptyObject.toJsonb = some document
  moves : Moves db db' w w.state row
  reason : row.reason = resultReason
  subject : row.nodeID = some input.nodeID ∧ row.iteration = some input.iteration ∧
      row.attemptNumber = some input.attemptNumber
  emits : Emits db db' w.workflowID (w.revision + 1)
  node : db.nodes.get input.key.node = some n
  current : n.currentAttempt = some input.attemptNumber
  attempt : db.attempts.get input.key = some a
  isClaimed : a.isCurrent = true ∧ a.state = .claimed
  claim : ∃ token, uuidText input.claimToken = some token ∧ a.claimToken = some token
  attempts : db'.attempts = (db.modifyAttempt input.key (fun a => { a with
      state := input.attemptState
      outcomeDisposition := if input.attemptState = .succeeded then .knownSuccess else .none
      result := some document
      isCurrent := false })).attempts
  nodes : db'.nodes = db.nodes
  timers : db'.timers = db.timers

/-- An unclaimed attempt was announced again. -/
structure Change.Redispatched (db : DB) (input : TimeoutInput) (w : Workflow) (a : Attempt)
    (deadline : Int) (db' : DB) : Prop where
  workflow : w.workflowID = input.workflowID
  advances : Advances db db' w w.state
  attempt : db.attempts.get input.key = some a
  dispatchable : a.isCurrent = true ∧ a.state = .dispatchable
  attempts : db'.attempts = (db.modifyAttempt input.key (fun a =>
      { a with heartbeatDeadline := some deadline })).attempts
  nodes : db'.nodes = db.nodes
  timers : db'.timers = db.timers
  obligations : db'.reconciliation = db.reconciliation

/-- The effect of a claimed attempt is left to reconciliation. -/
structure Change.Expired (db : DB) (input : TimeoutInput) (w : Workflow) (a : Attempt)
    (db' : DB) : Prop where
  workflow : w.workflowID = input.workflowID
  advances : Advances db db' w .reconciliationRequired
  attempt : db.attempts.get input.key = some a
  isClaimed : a.isCurrent = true ∧ a.state = .claimed
  effectClass : a.effectClass = .nonCooperating
  attempts : db'.attempts = (db.modifyAttempt input.key (fun a => { a with
      state := .timedOut, isCurrent := false, outcomeDisposition := .outcomeUnknown })).attempts
  nodes : db'.nodes = db.nodes
  timers : db'.timers = db.timers
  obligations : ∃ detail, db'.reconciliation = (openExpiredAttempt db w input detail).reconciliation

/-- A claimed attempt timed out and was replaced by the next one. -/
structure Change.Replaced (db : DB) (input : TimeoutInput) (w : Workflow) (n : NodeInstance)
    (a : Attempt) (deadline : Int) (db' : DB) : Prop where
  workflow : w.workflowID = input.workflowID
  advances : Advances db db' w w.state
  node : db.nodes.get input.key.node = some n
  current : n.currentAttempt.getD 0 = input.attemptNumber
  attempt : db.attempts.get input.key = some a
  isClaimed : a.isCurrent = true ∧ a.state = .claimed
  effectClass : a.effectClass ≠ .nonCooperating
  attempts : Inserted (db.modifyAttempt input.key (fun a =>
        { a with state := .timedOut, isCurrent := false })).attempts
      (freshAttempt ⟨input.key.node, input.attemptNumber + 1⟩ a.effectClass deadline
        a.logicalEffectKey a.grantScopeHash) db'.attempts
  nodes : db'.nodes = (db.modifyNode input.key.node (fun n =>
      { n with currentAttempt := some (input.attemptNumber + 1) })).nodes
  timers : db'.timers = db.timers
  obligations : db'.reconciliation = db.reconciliation

/-- A runnable node starts to wait for a timer. -/
structure Change.TimerScheduled (db : DB) (input : ScheduleTimerInput) (w : Workflow)
    (n : NodeInstance) (t : Timer) (db' : DB) : Prop where
  workflow : w.workflowID = input.workflowID
  runnable : w.state = .runnable
  advances : Advances db db' w .waitingTimer
  node : db.nodes.get input.key = some n
  nodeRunnable : n.state = .runnable
  timers : Inserted db.timers t db'.timers
  timer : t.node = input.key ∧ t.dueAt = db.now + input.delay ∧ t.consumedAt = none
  purpose : TimerPurpose.ofText
      (if input.purpose = "" then "WORKFLOW_TIMER" else input.purpose) = some t.purpose
  nodes : db'.nodes = (db.modifyNode input.key (fun n => { n with
      state := .waitingTimer
      deadlineAt := some (db.now + input.delay)
      revision := n.revision + 1 })).nodes
  attempts : db'.attempts = db.attempts

/-- The workflow was canceled with its unsettled nodes and their attempts. -/
structure Change.Canceled (db : DB) (w : Workflow) (db' : DB) : Prop where
  advances : Advances db db' w .canceled
  nodes : ∀ k, db'.nodes.get k = (db.nodes.get k).map (fun n =>
      if n.cancelable w.workflowID then n.settle else n)
  attempts : ∀ k, db'.attempts.get k = (db.attempts.get k).map (fun a =>
      if db.cancelsAttempt w.workflowID k then a.cancel else a)
  timers : db'.timers = db.timers

/-- The source node was advanced to its successors. -/
structure Change.Advanced (db : DB) (input : AdvanceGraphInput) (w : Workflow) (n : NodeInstance)
    (definition : Definition) (graph : DefinitionGraph) (source : DefinitionGraphNode)
    (db' : DB) : Prop where
  workflow : w.workflowID = input.workflowID
  legal : w.state.legalTransition input.workflowState = true
  advances : Advances db db' w input.workflowState
  stored : db.definitions.get ⟨w.definitionID, w.definitionVersion⟩ = some definition
  decoded : decodeDefinitionGraph definition.graph.doc = .ok graph
  declared : graph.find input.fromNodeID = some source
  node : db.nodes.get input.key = some n
  ready : checkSource source n = .ok ()
  valid : validateGraphSuccessors graph source input.iteration input.next = .ok ()
  growing : input.workflowState ≠ .runnable → input.next = []
  settled : input.workflowState.isTerminal = true → input.nodeState.isTerminal = true ∧
      db.liveSiblings input.key = []
  nodes : ∀ k, db'.nodes.get k =
      if k = input.key then some { n with state := input.nodeState, revision := n.revision + 1 }
      else (db.nodes.get k).or (db'.nodes.get k)
  fresh : ∀ k m, k ≠ input.key → db.nodes.get k = none → db'.nodes.get k = some m →
      m.isFresh ∧ (∃ item ∈ input.next, k = ⟨input.workflowID, item.nodeID, item.iteration⟩ ∧
        m.dependencies = item.dependencies) ∧ m.key.nodeID ≠ "" ∧ 0 ≤ m.key.iteration
  complete : ∀ k ∈ input.nextKeys, ∃ m, db'.nodes.get k = some m
  attempts : db'.attempts = db.attempts
  timers : db'.timers = db.timers

/-- A runnable workflow starts to wait for an approval. -/
structure Change.ApprovalRequested (db : DB) (input : ApprovalIntentInput) (w : Workflow)
    (n : NodeInstance) (db' : DB) : Prop where
  workflow : w.workflowID = input.workflowID
  runnable : w.state = .runnable
  advances : Advances db db' w .waitingApproval
  node : db.nodes.get input.key = some n
  ready : n.state = .runnable ∨ n.state = .waitingApproval
  nodes : db'.nodes =
      (db.modifyNode input.key (·.approve .waitingApproval) (·.approve_key .waitingApproval)).nodes
  attempts : db'.attempts = db.attempts
  timers : db'.timers = db.timers

/-- An approved workflow runs on. -/
structure Change.ApprovalGranted (db : DB) (input : ApplyApprovalInput) (w : Workflow)
    (db' : DB) : Prop where
  workflow : w.workflowID = input.workflowID
  waiting : w.state = .waitingApproval
  advances : Advances db db' w .runnable
  nodes : db'.nodes =
      (db.modifyNode input.key (·.approve .runnable) (·.approve_key .runnable)).nodes
  attempts : db'.attempts = db.attempts
  timers : db'.timers = db.timers

/-- A rejected workflow ended. -/
structure Change.ApprovalRejected (db : DB) (input : ApplyApprovalInput) (w : Workflow)
    (intent : ApprovalIntent) (id : String) (db' : DB) : Prop where
  named : uuidText input.intentID = some id
  stored : db.intents.get id = some intent
  rejected : intent.decision = .rejected
  workflow : w.workflowID = input.workflowID
  waiting : w.state = .waitingApproval
  advances : Advances db db' w .rejected
  nodes : db'.nodes =
      (db.modifyNode input.key (·.approve .rejected) (·.approve_key .rejected)).nodes
  attempts : db'.attempts = db.attempts
  timers : db'.timers = db.timers

/-- The operation cancels the workflow. -/
def Op.cancels {α : Type} (op : Op α) (db : DB) (w : Workflow) : Prop :=
  match op with
  | .cancelWorkflow input => w.workflowID = input.workflowID
  | .applyCancellationRequest _ requestID _ => ∃ id request, uuidText requestID = some id ∧
      db.cancellations.get id = some request ∧ w.workflowID = request.workflowID
  | _ => False

/-- The shapes of a committed operation. -/
inductive Change (db : DB) : {α : Type} → Op α → DB → Prop where
  | idle {α : Type} {op : Op α} {db' : DB} (rows : SameRows db db') : Change db op db'
  | created {db' : DB} {input : CreateWorkflowInput} {w : Workflow} {n : NodeInstance}
      {row : TransitionRecord}
      (effect : Change.Created db input w n row db') : Change db (.createWorkflow input) db'
  | owner {db' : DB} {input : OwnerTransitionInput} {w : Workflow} {row : TransitionRecord}
      {current : Option Int} {timer : Option Timer}
      (effect : Change.Owner db input w row current timer db') :
      Change db (.applyOwnerTransition input) db'
  | consumed {db' : DB} {input : ConsumeResultInput} {w : Workflow} {n : NodeInstance} {a : Attempt}
      {result : Jsonb} {newState nodeState : WorkflowState} {retryAfter : Option Int}
      (effect : Change.Consumed db input w n a result newState nodeState retryAfter db') :
      Change db (.consumeResult input) db'
  | attemptCreated {db' : DB} {input : AttemptInput} {w : Workflow} {n : NodeInstance}
      {effectClass : EffectClass} {deadline : Int} {effectKey scope : Option String}
      (effect : Change.AttemptCreated db input w n effectClass deadline effectKey scope db') :
      Change db (.createAttempt input) db'
  | claimed {db' : DB} {input : ClaimInput} {w : Workflow} {n : NodeInstance} {a : Attempt}
      {token : String} {deadline : Int}
      (effect : Change.Claimed db input w n a token deadline db') :
      Change db (.claimAttempt input) db'
  | extended {db' : DB} {input : HeartbeatInput} {n : NodeInstance} {a : Attempt} {deadline : Int}
      (effect : Change.Extended db input n a deadline db') :
      Change db (.heartbeatAttempt input) db'
  | recorded {db' : DB} {input : ResultInput} {w : Workflow} {n : NodeInstance} {a : Attempt}
      {row : TransitionRecord} {document : Jsonb}
      (effect : Change.Recorded db input w n a row document db') :
      Change db (.recordResultReceipt input) db'
  | redispatched {db' : DB} {input : TimeoutInput} {w : Workflow} {a : Attempt} {deadline : Int}
      (effect : Change.Redispatched db input w a deadline db') :
      Change db (.timeoutAttempt input) db'
  | expired {db' : DB} {input : TimeoutInput} {w : Workflow} {a : Attempt}
      (effect : Change.Expired db input w a db') : Change db (.timeoutAttempt input) db'
  | replaced {db' : DB} {input : TimeoutInput} {w : Workflow} {n : NodeInstance} {a : Attempt}
      {deadline : Int}
      (effect : Change.Replaced db input w n a deadline db') : Change db (.timeoutAttempt input) db'
  | timerScheduled {db' : DB} {input : ScheduleTimerInput} {w : Workflow} {n : NodeInstance}
      {t : Timer}
      (effect : Change.TimerScheduled db input w n t db') : Change db (.scheduleTimer input) db'
  | canceled {α : Type} {op : Op α} {db' : DB} {w : Workflow}
      (effect : Change.Canceled db w db') (cancels : op.cancels db w) : Change db op db'
  | advanced {db' : DB} {input : AdvanceGraphInput} {w : Workflow} {n : NodeInstance}
      {definition : Definition} {graph : DefinitionGraph} {source : DefinitionGraphNode}
      (effect : Change.Advanced db input w n definition graph source db') :
      Change db (.advanceGraph input) db'
  | approvalRequested {db' : DB} {input : ApprovalIntentInput} {w : Workflow} {n : NodeInstance}
      (effect : Change.ApprovalRequested db input w n db') :
      Change db (.createApprovalIntent input) db'
  | approvalGranted {db' : DB} {input : ApplyApprovalInput} {w : Workflow}
      (effect : Change.ApprovalGranted db input w db') : Change db (.applyApproval input) db'
  | approvalRejected {db' : DB} {input : ApplyApprovalInput} {w : Workflow}
      {intent : ApprovalIntent} {id : String}
      (effect : Change.ApprovalRejected db input w intent id db') :
      Change db (.applyApproval input) db'

end DurableEngine.State
