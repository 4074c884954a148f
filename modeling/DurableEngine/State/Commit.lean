/-
  DurableEngine.State.Commit

  Every committed operation has one of the shapes of `Change`, keeps the clock
  and the stored definitions, and touches a lease only as the lease operations
  do (`Op.run_commit`).
-/

import DurableEngine.State.Effects

namespace DurableEngine.State

open Lib

variable {env : Env}

/-- The lease row of an acquisition that succeeds: the epoch is kept when the
    caller already holds an unexpired lease, else it is the next one. -/
structure Acquired (db : DB) (ownerID : String) (row row' : LeaseRow) : Prop where
  held : ∃ expiry, row'.leaseExpiresAt = some expiry ∧ db.now < expiry
  owner : row'.ownerID = uuidText ownerID ∧ row'.ownerID.isSome
  partition : row'.partitionID = row.partitionID
  epoch : row'.epoch = row.epoch + 1 ∨
    (row'.epoch = row.epoch ∧ row.ownerID = some ownerID ∧
      ∃ expiry, row.leaseExpiresAt = some expiry ∧ db.now < expiry)
  free : ∀ owner expiry, row.ownerID = some owner → row.leaseExpiresAt = some expiry →
    db.now < expiry → owner = ownerID

/-- What a committed operation does to the lease table. -/
inductive LeaseChange (db : DB) : {α : Type} → Op α → DB → Prop where
  | same {α : Type} {op : Op α} {db' : DB} (leases : db'.leases = db.leases) : LeaseChange db op db'
  | acquired {db' : DB} (partitionID : Int) (ownerID : String) (ttl : Int) (row row' : LeaseRow)
      (before : db.leases.get partitionID = some row)
      (acquired : Acquired db ownerID row row')
      (after : db'.leases.get partitionID = some row')
      (others : ∀ p, p ≠ partitionID → db'.leases.get p = db.leases.get p) :
      LeaseChange db (.acquireLease partitionID ownerID ttl) db'
  | renewed {db' : DB} (ref : LeaseRef) (ttl : Int) (valid : db.leaseValid ref)
      (leases : db'.leases = db.leases.modify ref.partitionID
        (fun l => { l with leaseExpiresAt := some (db.now + ttl) }) (fun _ => rfl)) :
      LeaseChange db (.renewLease ref ttl) db'
  | released {db' : DB} (ref : LeaseRef) (valid : db.leaseValid ref)
      (leases : db'.leases = db.leases.modify ref.partitionID
        (fun l => { l with ownerID := none, leaseExpiresAt := none }) (fun _ => rfl)) :
      LeaseChange db (.releaseLease ref) db'

/-- What a committed operation does to the retry policies. -/
inductive PolicyChange (db : DB) : {α : Type} → Op α → DB → Prop where
  | kept {α : Type} {op : Op α} {db' : DB} (policies : PoliciesKept db db') :
      PolicyChange db op db'
  | set {db' : DB} (input : RetryPolicyInput)
      (enough : 0 ≤ input.maxRetries ∧ (db.retryPolicyOf input.key).retriesUsed ≤ input.maxRetries)
      (write : PolicyWrite db db' input.key
        (input.policy (db.retryPolicyOf input.key).retriesUsed)) :
      PolicyChange db (.setRetryPolicy input) db'
  | spent {db' : DB} (input : ConsumeResultInput)
      (left : (db.retryPolicyOf input.key).exhausted db.now = false)
      (write : PolicyWrite db db' input.key { db.retryPolicyOf input.key with
        retriesUsed := (db.retryPolicyOf input.key).retriesUsed + 1 }) :
      PolicyChange db (.consumeResult input) db'

theorem PolicyChange.of_eq {db db' : DB} {α : Type} {op : Op α}
    (h : db'.retryPolicies = db.retryPolicies) : PolicyChange db op db' :=
  .kept (.of_eq h)

/-- `PolicyChange` reads only the retry policies of the new state. -/
theorem PolicyChange.congr {db db' db'' : DB} {α : Type} {op : Op α} (h : PolicyChange db op db')
    (heq : db''.retryPolicies = db'.retryPolicies) : PolicyChange db op db'' := by
  cases h with
  | kept policies => exact .kept (policies.trans (.of_eq heq))
  | set input enough write => exact .set input enough (write.congr heq)
  | spent input left write => exact .spent input left (write.congr heq)

/-- A stored policy stays, and what it counts as used is not taken back. -/
theorem PolicyChange.stored {db db' : DB} {α : Type} {op : Op α} (h : PolicyChange db op db')
    {k : NodeKey} {policy : RetryPolicy} (hpolicy : db.retryPolicies.get k = some policy) :
    ∃ policy', db'.retryPolicies.get k = some policy' ∧ policy.retriesUsed ≤ policy'.retriesUsed := by
  have hread : db.retryPolicyOf k = policy := by
    rw [DB.retryPolicyOf, hpolicy]
    rfl
  cases h with
  | kept policies => exact ⟨policy, policies.stored k policy hpolicy, le_refl _⟩
  | set input enough write =>
      by_cases hk : k = input.key
      · exact ⟨_, hk ▸ write.after, by rw [← hread, hk]; exact le_refl _⟩
      · exact ⟨policy, write.stored k policy hk hpolicy, le_refl _⟩
  | spent input left write =>
      by_cases hk : k = input.key
      · exact ⟨_, hk ▸ write.after, by rw [← hread, hk]; exact Int.le_add_one (le_refl _)⟩
      · exact ⟨policy, write.stored k policy hk hpolicy, le_refl _⟩

/-- The tables an operation may write, with the contents they have in `db'`. -/
def Op.frame {α : Type} (op : Op α) (db db' : DB) : DB :=
  { db with
    workflows := db'.workflows
    nodes := db'.nodes
    attempts := db'.attempts
    timers := db'.timers
    history := db'.history
    outbox := db'.outbox
    retryPolicies := db'.retryPolicies
    checkpoints := match op with
      | .recordCheckpoint _ => db'.checkpoints
      | _ => db.checkpoints
    evidence := db'.evidence
    reconciliation := match op with
      | .applyOwnerTransition _ | .timeoutAttempt _ | .acknowledgeWorkflowWakeups _ _ _ =>
          db'.reconciliation
      | _ => db.reconciliation
    admissionSlots := db'.admissionSlots
    definitions := match op with
      | .createDefinition _ => db'.definitions
      | _ => db.definitions
    leases := match op with
      | .acquireLease _ _ _ | .renewLease _ _ | .releaseLease _ => db'.leases
      | _ => db.leases
    intents := match op with
      | .createApprovalIntent _ | .recordApprovalDecision _ | .applyApproval _ => db'.intents
      | _ => db.intents
    cancellations := match op with
      | .requestCancellation _ | .applyCancellationRequest _ _ _ => db'.cancellations
      | _ => db.cancellations
    wakeups := match op with
      | .acknowledgeWorkflowWakeups _ _ _ => db'.wakeups
      | _ => db.wakeups }

/-- The effect of a committed operation. -/
structure Commit (env : Env) (db : DB) {α : Type} (op : Op α) (db' : DB) : Prop where
  now : db'.now = db.now
  definitions : ∀ k d, db.definitions.get k = some d → db'.definitions.get k = some d
  leases : LeaseChange db op db'
  frame : db' = op.frame db db'
  slots : SlotStep env db db'
  policies : PolicyChange db op db'
  fenced : ∀ ref, op.leaseRef = some ref → db.leaseValid ref
  change : Change db op db'

/-- An operation that leaves clock, definitions and leases alone. -/
theorem Commit.of_change {db db' : DB} {α : Type} {op : Op α} (hnow : db'.now = db.now)
    (hdefs : db'.definitions = db.definitions) (hleases : db'.leases = db.leases)
    (hframe : db' = op.frame db db') (hslots : SlotStep env db db')
    (hpolicies : PolicyChange db op db')
    (hfenced : ∀ ref, op.leaseRef = some ref → db.leaseValid ref) (h : Change db op db') :
    Commit env db op db' :=
  ⟨hnow, fun _ _ hd => by rw [hdefs]; exact hd, .same hleases, hframe, hslots, hpolicies, hfenced, h⟩

/-- An operation that changes none of the tables of `Change`, nor the slots. -/
theorem Commit.of_sameRows {db db' : DB} {α : Type} {op : Op α} (hnow : db'.now = db.now)
    (hdefs : db'.definitions = db.definitions) (hleases : db'.leases = db.leases)
    (hframe : db' = op.frame db db') (hslots : db'.admissionSlots = db.admissionSlots)
    (hpolicies : PolicyChange db op db')
    (hfenced : ∀ ref, op.leaseRef = some ref → db.leaseValid ref) (h : SameRows db db') :
    Commit env db op db' :=
  .of_change hnow hdefs hleases hframe (.of_same h.workflows hslots) hpolicies hfenced (.idle h)

theorem Op.frame_self {α : Type} (op : Op α) (db : DB) : op.frame db db = db := by
  cases op <;> rfl

theorem Commit.refl (db : DB) {α : Type} (op : Op α)
    (hfenced : ∀ ref, op.leaseRef = some ref → db.leaseValid ref) : Commit env db op db :=
  .of_sameRows rfl rfl rfl (op.frame_self db).symm rfl (.of_eq rfl) hfenced
    ⟨rfl, rfl, rfl, rfl, rfl, rfl⟩

/-- An operation that needs no lease. -/
theorem fenced_of_none {db : DB} {α : Type} {op : Op α} (h : op.leaseRef = none) (ref : LeaseRef)
    (href : op.leaseRef = some ref) : db.leaseValid ref := by
  rw [h] at href
  cases href

/-- An operation under a lease that it locked. -/
theorem fenced_of_valid {db : DB} {α : Type} {op : Op α} {lease : LeaseRef}
    (h : op.leaseRef = some lease) (hvalid : db.leaseValid lease) (ref : LeaseRef)
    (href : op.leaseRef = some ref) : db.leaseValid ref := by
  rw [h, Option.some.injEq] at href
  exact href ▸ hvalid

-- ============================================================================
-- Definitions, submissions and leases
-- ============================================================================

theorem createDefinition_commit {input : DefinitionInput} {db db' : DB} {r : Unit}
    (h : createDefinition input db = .ok (r, db')) :
    Commit env db (.createDefinition input) db' := by
  simp only [createDefinition, bind_eq_ok, getOr_eq_ok, rejectIf_eq_ok, exists_const, pure_eq_ok,
    Prod.mk.injEq] at h
  obtain ⟨-, classes, -, -, graph, -, versions, -, effects, -, existing, -, stored, -, -, -, rfl⟩ := h
  refine ⟨rfl, fun k d hd => ?_, .same rfl, rfl, .of_same rfl rfl, .of_eq rfl, fenced_of_none rfl,
    .idle ⟨rfl, rfl, rfl, rfl, rfl, rfl⟩⟩
  cases hins : db.definitions.insert?
      ⟨input.definitionID, input.version, input.definitionHash, graph, versions, effects⟩ with
  | none => simpa using hd
  | some definitions =>
      simpa using Table.get_insert_of_get hins hd

theorem insertWorkflow_eq_ok {amb : Ambient} {input : CreateWorkflowInput} {locked : Bool}
    {db db' : DB} {r : CreateWorkflowResult}
    (h : insertWorkflow env amb input locked db = .ok (r, db')) :
    r = ⟨input.workflow, true⟩ ∧ ∃ n event, Submits env input locked n event db db' := by
  simp only [insertWorkflow, bind_eq_ok, getOr_eq_ok, pure_eq_ok, Prod.mk.injEq] at h
  obtain ⟨workflows, hw, db₁, hslot, doc, -, nodes, hn, db₂, hhist, db₃, hout, rfl, rfl⟩ := h
  have hdb₁ : ∃ slots, db₁ = { db with workflows := workflows, admissionSlots := slots } ∧
      if locked then Inserted db.admissionSlots ⟨input.workflowID, input.namespace_⟩ slots
      else slots = db.admissionSlots := by
    cases locked with
    | false =>
        cases hslot
        exact ⟨db.admissionSlots, rfl, rfl⟩
    | true =>
        simp only [if_true, insertAdmissionSlot, bind_eq_ok, getOr_eq_ok, pure_eq_ok] at hslot
        obtain ⟨slots, hins, rfl⟩ := hslot
        exact ⟨slots, rfl, hins⟩
  obtain ⟨slots, rfl, hslots⟩ := hdb₁
  obtain ⟨policies, hpol, hkept, hpolicy⟩ := ensureRetryPolicyTx_eq
    { db with workflows := workflows, admissionSlots := slots, nodes := nodes } input.rootKey
  rw [CreateWorkflowInput.rootKey] at hpol hkept
  rw [hpol] at hhist hkept
  obtain ⟨history, hins, rfl⟩ := insertHistory_eq_ok hhist
  obtain ⟨⟨document, hdoc⟩, event, outbox, hev, hevw, hevr, hevt, hnew, rfl⟩ := insertOutbox_eq_ok hout
  exact ⟨rfl, _, event, quotable_of_sprintfJson hdoc _ List.mem_cons_self, hw,
    ⟨rfl, rfl, rfl, rfl, rfl, rfl⟩, hn, ⟨_, hpolicy⟩, ⟨hkept.stored, hkept.read⟩, hins, ⟨hevw, hevr, hevt, hnew⟩, hev, hslots, rfl⟩

/-- A submission returns the workflow that holds its idempotency key and writes nothing, or its
    key is free and a new workflow is written. -/
theorem createWorkflow_eq_ok {amb : Ambient} {input : CreateWorkflowInput} {db db' : DB}
    {r : CreateWorkflowResult} (h : createWorkflow env amb input db = .ok (r, db')) :
    (r.created = false ∧ db' = db ∧ db.workflows.get r.workflow.workflowID = some r.workflow ∧
      r.workflow.namespace_ = input.namespace_ ∧ r.workflow.submissionKey = input.submissionKey ∧
      r.workflow.payloadHash = input.submissionPayloadHash) ∨
    (r = ⟨input.workflow, true⟩ ∧ input.workflowID ≠ "" ∧ input.initialNodeID ≠ "" ∧
      db.submission input.namespace_ input.submissionKey = none ∧
      (env.gates input.namespace_ = true →
        ((db.slotsOf input.namespace_).length : Int) < env.admission.maxActiveWorkflows) ∧
      ∃ n event, Submits env input (env.gates input.namespace_) n event db db') := by
  simp only [createWorkflow, bind_eq_ok, rejectIf_eq_ok, exists_const, not_or] at h
  obtain ⟨⟨hid, -, -, -, -, hinitial⟩, h⟩ := h
  split at h
  · rename_i w hfound
    simp only [replaySubmission, bind_eq_ok, rejectIf_eq_ok, exists_const, pure_eq_ok,
      Prod.mk.injEq, not_not] at h
    obtain ⟨result, ⟨hhash, rfl⟩, rfl, rfl⟩ := h
    have hmem := List.mem_of_find?_eq_some hfound
    have hkeys := List.find?_some hfound
    simp only [Bool.and_eq_true, decide_eq_true_eq] at hkeys
    exact .inl ⟨rfl, rfl, Table.get_of_mem hmem, hkeys.1, hkeys.2, hhash⟩
  · rename_i hfree
    simp only [submitWorkflow, bind_eq_ok, getOr_eq_ok, rejectIf_eq_ok, exists_const] at h
    obtain ⟨definition, -, graph, -, -, -, locked, hlocked, h⟩ := h
    have hgates : locked = env.gates input.namespace_ := by
      simp only [lockAdmissionNamespace, bind_eq_ok, pure_eq_ok] at hlocked
      obtain ⟨-, -, rfl⟩ := hlocked
      rfl
    split at h
    · rename_i w hstored
      simp only [replayWorkflowID, replaySubmission, bind_eq_ok, rejectIf_eq_ok, exists_const,
        pure_eq_ok, Prod.mk.injEq, not_not, not_or] at h
      obtain ⟨result, ⟨⟨hns, hkey⟩, hhash, rfl⟩, rfl, rfl⟩ := h
      exact .inl ⟨rfl, rfl, by rw [Table.key_of_get hstored]; exact hstored, hns, hkey, hhash⟩
    · simp only [bind_eq_ok] at h
      obtain ⟨u, hroom, h⟩ := h
      rw [hgates] at h hroom
      obtain ⟨hr, hsubmits⟩ := insertWorkflow_eq_ok h
      refine .inr ⟨hr, hid, hinitial, hfree, fun hgate => ?_, hsubmits⟩
      simp only [hgate, if_true, checkAdmissionCapacity, bind_eq_ok, rejectIf_eq_ok,
        exists_const] at hroom
      exact Int.not_le.mp hroom.1

theorem Submits.created {input : CreateWorkflowInput} {locked : Bool} {n : NodeInstance}
    {event : OutboxEvent} {db db' : DB} (h : Submits env input locked n event db db') :
    Change.Created db input input.workflow n input.firstRow db' where
  workflow := ⟨rfl, rfl, rfl⟩
  node := h.root
  workflows := h.workflows
  nodes := h.nodes
  history := h.history
  key := rfl
  states := ⟨rfl, rfl, rfl⟩
  reason := by simp [resultReason, CreateWorkflowInput.firstRow]
  emits := ⟨event, h.outbox, h.announces.1, h.announces.2.1, h.announces.2.2.2⟩
  attempts := by rw [h.rest]
  timers := by rw [h.rest]

theorem Submits.slotStep {input : CreateWorkflowInput} {n : NodeInstance} {event : OutboxEvent}
    {db db' : DB} (h : Submits env input (env.gates input.namespace_) n event db db')
    (hroom : env.gates input.namespace_ = true →
      ((db.slotsOf input.namespace_).length : Int) < env.admission.maxActiveWorkflows) :
    SlotStep env db db' := by
  have hworkflow : db'.workflows.get input.workflowID = some input.workflow :=
    Table.get_insert_self h.workflows
  have hnone : db.workflows.get input.workflowID = none := (Table.insert?_eq_some_iff.mp h.workflows).1
  have hslots := h.slots
  have hended : ∀ id w w', db.workflows.get id = some w → w.state.isTerminal = false →
      db'.workflows.get id = some w' → w'.state.isTerminal = true → False := by
    intro id w w' hget hlive hget' hend
    rw [Table.get_insert_of_get h.workflows hget, Option.some.injEq] at hget'
    rw [← hget', hlive] at hend
    cases hend
  have hnew : ∀ id w, db.workflows.get id = none → db'.workflows.get id = some w →
      id = input.workflowID ∧ w = input.workflow := by
    intro id w hbefore hafter
    rw [Table.get_insert h.workflows] at hafter
    split at hafter
    · rename_i hid
      exact ⟨hid, (Option.some.inj hafter).symm⟩
    · rw [hbefore] at hafter
      cases hafter
  split at hslots
  · rename_i hgate
    refine ⟨fun id slot hslot => .inl (Table.get_insert_of_get hslots hslot),
      fun id slot slot' hslot hslot' => ?_, fun id w w' hw hl hw' he _ => (hended id w w' hw hl hw' he).elim, ?_, ?_, fun ns => ?_⟩
    · rw [Table.get_insert_of_get hslots hslot, Option.some.injEq] at hslot'
      exact hslot'.symm
    · intro id slot hbefore hafter
      rw [Table.get_insert hslots] at hafter
      split at hafter
      · rename_i hid
        cases hafter
        rw [hid]
        exact ⟨hnone, hgate, _, hworkflow, rfl, rfl⟩
      · rw [hbefore] at hafter
        cases hafter
    · intro id w hbefore hafter _
      obtain ⟨rfl, rfl⟩ := hnew id w hbefore hafter
      exact Table.get_insert_self hslots
    · simp only [DB.slotsOf, Table.select_insert hslots]
      split
      · rename_i hns
        have hroom' := hroom hgate
        simp only [decide_eq_true_eq] at hns
        rw [hns, DB.slotsOf] at hroom'
        refine .inr ⟨?_, _, _, hnone, hworkflow, hns⟩
        rw [List.length_append, List.length_singleton]
        omega
      · exact .inl (Nat.le_refl _)
  · rename_i hgate
    refine ⟨fun id slot hslot => .inl (by rw [hslots]; exact hslot),
      fun id slot slot' hslot hslot' => ?_, fun id w w' hw hl hw' he _ => (hended id w w' hw hl hw' he).elim, ?_, ?_, fun ns => ?_⟩
    · rw [hslots, hslot, Option.some.injEq] at hslot'
      exact hslot'.symm
    · intro id slot hbefore hafter
      rw [hslots, hbefore] at hafter
      cases hafter
    · intro id w hbefore hafter hgates
      obtain ⟨rfl, rfl⟩ := hnew id w hbefore hafter
      exact absurd hgates hgate
    · rw [DB.slotsOf, hslots]
      exact .inl (Nat.le_refl _)

theorem Submits.commit {input : CreateWorkflowInput} {n : NodeInstance} {event : OutboxEvent}
    {db db' : DB} (h : Submits env input (env.gates input.namespace_) n event db db')
    (hroom : env.gates input.namespace_ = true →
      ((db.slotsOf input.namespace_).length : Int) < env.admission.maxActiveWorkflows) :
    Commit env db (.createWorkflow input) db' := by
  have hrest := h.rest
  exact .of_change (by rw [hrest]) (by rw [hrest])
    (by rw [hrest]) (by rw [hrest]; rfl) (h.slotStep hroom) (.kept h.policies)
    (fenced_of_none rfl) (.created h.created)

theorem createWorkflow_commit {amb : Ambient} {input : CreateWorkflowInput}
    {db db' : DB} {r : CreateWorkflowResult} (h : createWorkflow env amb input db = .ok (r, db')) :
    Commit env db (.createWorkflow input) db' := by
  obtain ⟨-, rfl, -⟩ | ⟨-, -, -, -, hroom, n, event, hsubmits⟩ := createWorkflow_eq_ok h
  · exact .refl _ _ (fenced_of_none rfl)
  · exact hsubmits.commit hroom

/-- The database after an acquisition by `ownerID`. -/
structure AcquiredBy (db : DB) (p : Int) (ownerID : String) (db' : DB) (row row' : LeaseRow) :
    Prop where
  before : db.leases.get p = some row
  acquired : Acquired db ownerID row row'
  after : db'.leases.get p = some row'
  others : ∀ p', p' ≠ p → db'.leases.get p' = db.leases.get p'
  rest : db' = { db with leases := db'.leases }

theorem takeLease_eq_ok {p : Int} {ownerID : String} {ttl : Int} {db db' : DB} {row : LeaseRow}
    {epoch : Int} {r : Lease × Bool} (hrow : db.leases.get p = some row) (httl : 0 < ttl)
    (hepoch : epoch = row.epoch + 1 ∨ (epoch = row.epoch ∧ row.ownerID = some ownerID ∧
      ∃ expiry, row.leaseExpiresAt = some expiry ∧ db.now < expiry))
    (hfree : ∀ owner expiry, row.ownerID = some owner → row.leaseExpiresAt = some expiry →
      db.now < expiry → owner = ownerID)
    (h : acquireLease.takeLease p ownerID ttl db epoch = .ok (r, db')) :
    r.2 = true ∧ ∃ row', AcquiredBy db p ownerID db' row row' := by
  simp only [acquireLease.takeLease, bind_eq_ok, getOr_eq_ok, pure_eq_ok, Prod.mk.injEq] at h
  obtain ⟨owner, howner, rfl, rfl⟩ := h
  refine ⟨rfl, { row with
      ownerID := some owner, epoch := epoch, leaseExpiresAt := some (db.now + ttl) }, hrow,
    ⟨⟨_, rfl, by omega⟩, ⟨howner.symm, rfl⟩, rfl, hepoch, hfree⟩, ?_, ?_, rfl⟩
  · simp only [Table.get_modify_self, hrow, Option.map_some]
  · intro p' hp'
    rw [Table.get_modify_ne _ _ _ hp']

/-- An acquisition succeeds, or leaves the lease to the owner that holds it. -/
theorem acquireLease_eq_ok {p : Int} {ownerID : String} {ttl : Int} {db db' : DB}
    {r : Lease × Bool} (h : acquireLease p ownerID ttl db = .ok (r, db')) :
    (r.2 = false ∧ db' = db) ∨ (r.2 = true ∧ ∃ row row', AcquiredBy db p ownerID db' row row') := by
  simp only [acquireLease, bind_eq_ok, getOr_eq_ok, rejectIf_eq_ok, exists_const] at h
  obtain ⟨hargs, row, hrow, h⟩ := h
  have httl : 0 < ttl := by
    simp only [not_or, Int.not_le] at hargs
    exact hargs.1
  cases ho : row.ownerID with
  | none =>
      rw [ho] at h
      obtain ⟨hr, hrow'⟩ := takeLease_eq_ok hrow httl (.inl rfl)
        (fun _ _ hown => by rw [ho] at hown; cases hown) h
      exact .inr ⟨hr, row, hrow'⟩
  | some owner =>
      cases he : row.leaseExpiresAt with
      | none =>
          rw [ho, he] at h
          obtain ⟨hr, hrow'⟩ := takeLease_eq_ok hrow httl (.inl rfl)
            (fun _ _ _ hexp => by rw [he] at hexp; cases hexp) h
          exact .inr ⟨hr, row, hrow'⟩
      | some expiry =>
          rw [ho, he] at h
          by_cases hlive : db.now < expiry
          · simp only [Option.any_some, hlive, decide_true, Bool.true_and, if_true] at h
            by_cases hown : owner = ownerID
            · simp only [hown, ne_eq, not_true_eq_false, decide_false, Bool.false_eq_true,
                if_false] at h
              have hsame : ∀ owner' expiry', row.ownerID = some owner' →
                  row.leaseExpiresAt = some expiry' → db.now < expiry' → owner' = ownerID := by
                intro owner' expiry' hown' _ _
                rw [ho, Option.some.injEq] at hown'
                exact hown' ▸ hown
              obtain ⟨hr, hrow'⟩ := takeLease_eq_ok hrow httl
                (.inr ⟨rfl, by rw [ho, hown], expiry, he, hlive⟩) hsame h
              exact .inr ⟨hr, row, hrow'⟩
            · simp only [ne_eq, hown, not_false_eq_true, decide_true, if_true, Except.ok.injEq,
                Prod.mk.injEq] at h
              obtain ⟨rfl, rfl⟩ := h
              exact .inl ⟨rfl, rfl⟩
          · simp only [Option.any_some, hlive, decide_false, Bool.false_and, Bool.false_eq_true,
              if_false] at h
            have hexpired : ∀ owner' expiry', row.ownerID = some owner' →
                row.leaseExpiresAt = some expiry' → db.now < expiry' → owner' = ownerID := by
              intro owner' expiry' _ hexp hnow
              rw [he, Option.some.injEq] at hexp
              exact absurd (hexp ▸ hnow) hlive
            obtain ⟨hr, hrow'⟩ := takeLease_eq_ok hrow httl (.inl rfl) hexpired h
            exact .inr ⟨hr, row, hrow'⟩

theorem acquireLease_commit {p : Int} {ownerID : String} {ttl : Int} {db db' : DB}
    {r : Lease × Bool} (h : acquireLease p ownerID ttl db = .ok (r, db')) :
    Commit env db (.acquireLease p ownerID ttl) db' := by
  obtain ⟨-, rfl⟩ | ⟨-, row, row', hacq⟩ := acquireLease_eq_ok h
  · exact .refl _ _ (fenced_of_none rfl)
  · have hrows : SameRows db db' := by
      rw [hacq.rest]
      exact ⟨rfl, rfl, rfl, rfl, rfl, rfl⟩
    exact ⟨by rw [hacq.rest], fun _ _ hd => by rw [hacq.rest]; exact hd,
      .acquired p ownerID ttl row row' hacq.before hacq.acquired hacq.after hacq.others,
      by rw [hacq.rest]; rfl, .of_same hrows.workflows (by rw [hacq.rest]),
      .of_eq (by rw [hacq.rest]), fenced_of_none rfl, .idle hrows⟩

theorem renewLease_commit {ref : LeaseRef} {ttl : Int} {db db' : DB} {r : Lease}
    (h : renewLease ref ttl db = .ok (r, db')) : Commit env db (.renewLease ref ttl) db' := by
  simp only [renewLease, bind_eq_ok, rejectIf_eq_ok, exists_const, pure_eq_ok, Prod.mk.injEq] at h
  obtain ⟨-, lease, hlock, -, rfl⟩ := h
  have hvalid := (lockLease_eq_ok hlock).1
  exact ⟨rfl, fun _ _ hd => hd, .renewed ref ttl hvalid rfl, rfl, .of_same rfl rfl, .of_eq rfl,
    fenced_of_valid rfl hvalid, .idle ⟨rfl, rfl, rfl, rfl, rfl, rfl⟩⟩

theorem releaseLease_commit {ref : LeaseRef} {db db' : DB} {r : Unit}
    (h : releaseLease ref db = .ok (r, db')) : Commit env db (.releaseLease ref) db' := by
  simp only [releaseLease, bind_eq_ok, pure_eq_ok, Prod.mk.injEq] at h
  obtain ⟨lease, hlock, -, rfl⟩ := h
  have hvalid := (lockLease_eq_ok hlock).1
  exact ⟨rfl, fun _ _ hd => hd, .released ref hvalid rfl, rfl, .of_same rfl rfl, .of_eq rfl,
    fenced_of_valid rfl hvalid, .idle ⟨rfl, rfl, rfl, rfl, rfl, rfl⟩⟩

-- ============================================================================
-- Owner transitions
-- ============================================================================

/-- The node and attempt writes of an owner transition read nothing else. -/
theorem moveOwnedNode_eq (db db₀ : DB) (input : OwnerTransitionInput) (state : WorkflowState)
    (current : Option Int) (purpose : Option TimerPurpose) (hn : db.nodes = db₀.nodes)
    (ha : db.attempts = db₀.attempts) :
    moveOwnedNode db input state current purpose = { db with
      nodes := (moveOwnedNode db₀ input state current purpose).nodes
      attempts := (moveOwnedNode db₀ input state current purpose).attempts } := by
  unfold moveOwnedNode
  split
  · simp only [DB.modifyNode, DB.modifyAttempt, hn, ha]
  · split <;> simp only [DB.modifyNode, ← hn, ← ha]

theorem consumeTimer_eq (db db₀ : DB) (timer : Option Timer) (ht : db.timers = db₀.timers)
    (hnow : db.now = db₀.now) (hitems : db.reconciliation = db₀.reconciliation) :
    consumeTimer db timer = { db with
      timers := (consumeTimer db₀ timer).timers
      reconciliation := (consumeTimer db₀ timer).reconciliation } := by
  cases timer with
  | none => simp only [consumeTimer, ← ht, ← hitems]
  | some t => simp only [consumeTimer, DB.modifyTimer, ht, hnow, hitems]

theorem ownerCurrentAttempt_eq_ok {db : DB} {input : OwnerTransitionInput} {current : Option Int}
    (h : ownerCurrentAttempt db input = .ok current) :
    (input.nodeID ≠ "" → ∃ n, db.nodes.get input.key = some n ∧ n.currentAttempt = current) ∧
      (input.nodeID = "" → current = none) := by
  unfold ownerCurrentAttempt at h
  split at h
  · rename_i hnode
    cases h
    exact ⟨fun hne => absurd hnode hne, fun _ => rfl⟩
  · rename_i hnode
    simp only [bind_eq_ok, getOr_eq_ok, pure_eq_ok] at h
    exact ⟨fun _ => h, fun he => absurd he hnode⟩

theorem applyOwnerTransition_owner {env : Env} {input : OwnerTransitionInput} {db db' : DB}
    {r : Unit} (h : applyOwnerTransition env input db = .ok (r, db')) :
    ∃ w row current timer, Change.Owner db input w row current timer db' ∧
      Commit env db (.applyOwnerTransition input) db' := by
  simp only [applyOwnerTransition, bind_eq_ok, rejectIf_eq_ok, exists_const, pure_eq_ok,
    Prod.mk.injEq] at h
  obtain ⟨-, w, hw, hlegal, current, hcur, number, -, timer, htimer, -, -, db₁, hslot, db₂, hhist,
    -, rfl⟩ := h
  obtain ⟨hown, -⟩ := lockOwnedWorkflow_eq_ok hw
  obtain ⟨hnode, hnoNode⟩ := ownerCurrentAttempt_eq_ok hcur
  have hlegal' : w.state.legalTransition input.newState = true := by simpa using hlegal
  obtain ⟨slots, hdb₁, hreleased⟩ := releaseAdmissionSlotTx_eq_ok hslot
  have hmove := moveOwnedNode_eq db₁ db input w.state current (timer.map (·.purpose))
    (by rw [hdb₁]; rfl) (by rw [hdb₁]; rfl)
  have hconsume := consumeTimer_eq
    (moveOwnedNode db₁ input w.state current (timer.map (·.purpose))) db timer
    (by rw [hmove, hdb₁]; rfl) (by rw [hmove, hdb₁]; rfl) (by rw [hmove, hdb₁]; rfl)
  rw [hconsume, hmove, hdb₁] at hhist
  obtain ⟨history, rfl, hmoves⟩ := Moves.of_insertHistory hhist hown.get
    (WorkflowState.isTerminal_of_legalTransition hlegal') hown.epoch rfl rfl
  have howner : Change.Owner db input w _ current timer _ :=
    ⟨hown.workflowID, hlegal', hmoves, rfl, hnode, hnoNode, htimer, rfl, rfl, rfl, rfl, rfl⟩
  exact ⟨w, _, current, timer, howner, .of_change rfl rfl rfl rfl
    (hmoves.slotStep (by rw [hown.workflowID]; exact hreleased)) (.of_eq rfl)
    (fenced_of_valid rfl hown.valid) (.owner howner)⟩

theorem applyOwnerTransition_commit {env : Env} {input : OwnerTransitionInput} {db db' : DB}
    {r : Unit} (h : applyOwnerTransition env input db = .ok (r, db')) :
    Commit env db (.applyOwnerTransition input) db' := by
  obtain ⟨w, row, current, timer, -, hcommit⟩ := applyOwnerTransition_owner h
  exact hcommit

-- ============================================================================
-- Consumed results
-- ============================================================================

/-- What a result does to the retry budget: a retryable failure finds it used up, or spends one
    retry; any other result leaves it alone. -/
inductive Spends (db : DB) (input : ConsumeResultInput) (newState : WorkflowState)
    (retryAfter : Option Int) : AttemptState → DB → Prop where
  | exhausted {db₁ : DB} (used : (db.retryPolicyOf input.key).exhausted db.now = true)
      (verdict : newState = .failed ∧ retryAfter = none) (kept : PoliciesKept db db₁) :
      Spends db input newState retryAfter .failedRetryable db₁
  | spent {db₁ : DB} (left : (db.retryPolicyOf input.key).exhausted db.now = false)
      (verdict : newState = input.newWorkflowState ∧ retryAfter = input.retryAfter)
      (write : PolicyWrite db db₁ input.key { db.retryPolicyOf input.key with
        retriesUsed := (db.retryPolicyOf input.key).retriesUsed + 1 }) :
      Spends db input newState retryAfter .failedRetryable db₁
  | none {state : AttemptState} (other : state ≠ .failedRetryable)
      (verdict : newState = input.newWorkflowState ∧ retryAfter = input.retryAfter) :
      Spends db input newState retryAfter state db

theorem spendRetry_eq_ok {db db₁ : DB} {input : ConsumeResultInput} {state : AttemptState}
    {newState : WorkflowState} {retryAfter : Option Int}
    (h : spendRetry db input state = .ok ((newState, retryAfter), db₁)) :
    (∃ policies, db₁ = { db with retryPolicies := policies }) ∧
      Spends db input newState retryAfter state db₁ := by
  unfold spendRetry at h
  split at h
  · rename_i hstate
    simp only [bind_eq_ok] at h
    obtain ⟨⟨policy, db₂⟩, hpol, h⟩ := h
    obtain ⟨rfl, policies, hdb₂, hkept, hself⟩ := retryPolicyTx_eq_ok hpol
    simp only at hdb₂ hkept
    subst hdb₂ hstate
    split at h
    · rename_i hused
      cases h
      exact ⟨⟨_, rfl⟩, .exhausted hused ⟨rfl, rfl⟩ hkept⟩
    · rename_i hleft
      cases h
      let spend (p : RetryPolicy) : RetryPolicy :=
        { p with retriesUsed := (db.retryPolicyOf input.key).retriesUsed + 1 }
      exact ⟨⟨_, rfl⟩, .spent (by simpa using hleft) ⟨rfl, rfl⟩
        (.of_modify (f := spend) (fun _ => rfl) hkept hself rfl rfl)⟩
  · rename_i hstate
    cases h
    exact ⟨⟨db.retryPolicies, rfl⟩, .none hstate ⟨rfl, rfl⟩⟩

theorem Spends.policyChange {db db₁ : DB} {input : ConsumeResultInput} {state : AttemptState}
    {newState : WorkflowState} {retryAfter : Option Int}
    (h : Spends db input newState retryAfter state db₁) :
    PolicyChange db (.consumeResult input) db₁ := by
  cases h with
  | exhausted _ _ kept => exact .kept kept
  | spent left _ write => exact .spent input left write
  | none => exact .of_eq rfl

/-- Only a retryable failure leaves its node waiting for a timer. -/
theorem consumedNodeState_waitingTimer {state : AttemptState} {newState nodeState : WorkflowState}
    {retryAfter : Option Int} (h : consumedNodeState state newState retryAfter = .ok nodeState) :
    nodeState = .waitingTimer ↔
      state = .failedRetryable ∧ newState = .waitingTimer ∧ retryAfter.isSome := by
  unfold consumedNodeState at h
  split at h
  · split at h <;> cases h
    simp
  · split at h
    · rename_i hfailed
      cases h
      simp [hfailed]
    · split at h <;> cases h
      rename_i hwait
      simp only [not_or, not_not, ← Option.isSome_iff_ne_none] at hwait
      simp [hwait]
  · split at h <;> cases h
    simp
  · cases h

theorem insertRetryTimer_eq_ok {amb : Ambient} {db db' : DB} {key : NodeKey} {state : AttemptState}
    {newState nodeState : WorkflowState} {retryAfter : Option Int} {revision : Int}
    (hnode : consumedNodeState state newState retryAfter = .ok nodeState)
    (h : insertRetryTimer amb db key state newState (retryAfter.map (fun delay => db.now + delay))
      revision = .ok db') :
    ∃ timers, db' = { db with timers := timers } ∧
      ((nodeState ≠ .waitingTimer ∧ timers = db.timers) ∨
        ∃ (delay : Int) (t : Timer), nodeState = .waitingTimer ∧ retryAfter = some delay ∧
          Inserted db.timers t timers ∧ t.node = key ∧ t.dueAt = db.now + delay ∧
          t.purpose = .retryBackoff ∧ t.consumedAt = none) := by
  have hwait := consumedNodeState_waitingTimer hnode
  unfold insertRetryTimer at h
  split at h
  · rename_i dueAt hdue
    simp only [bind_eq_ok, getOr_eq_ok, pure_eq_ok] at h
    obtain ⟨timers, hins, rfl⟩ := h
    obtain ⟨delay, rfl, rfl⟩ := Option.map_eq_some_iff.mp hdue
    exact ⟨timers, rfl, .inr ⟨delay, _, hwait.mpr ⟨rfl, rfl, rfl⟩, rfl, hins, rfl, rfl, rfl, rfl⟩⟩
  · rename_i hno
    cases h
    refine ⟨db.timers, rfl, .inl ⟨fun hw => ?_, rfl⟩⟩
    obtain ⟨rfl, rfl, hsome⟩ := hwait.mp hw
    obtain ⟨delay, rfl⟩ := Option.isSome_iff_exists.mp hsome
    exact hno _ rfl rfl rfl

theorem consumeResult_consumed {env : Env} {amb : Ambient} {input : ConsumeResultInput}
    {db db' : DB} {r : ConsumeResult} (h : consumeResult env amb input db = .ok (r, db')) :
    (∃ w n a result newState retryAfter,
      Change.Consumed db input w n a result newState r.nodeState retryAfter db') ∧
      Commit env db (.consumeResult input) db' := by
  simp only [consumeResult, bind_eq_ok, getOr_eq_ok, rejectIf_eq_ok, exists_const, pure_eq_ok,
    Prod.mk.injEq] at h
  obtain ⟨-, w, hw, hstate, n, hn, hcur, a, ha, hrec, result, hres, ⟨⟨newState, retryAfter⟩, db₁⟩,
    hspend, nodeState, hnode, hsettled, db₂, hslot, db₃, hhist, db₄, htimer, db₅, hout, rfl, rfl⟩ := h
  simp only at hnode hsettled hslot hhist htimer
  obtain ⟨hown, -⟩ := lockOwnedWorkflow_eq_ok hw
  have haccepts : w.state = .waitingActivity ∨ w.state = .runnable ∨ w.state = .waitingTimer := by
    by_contra hno
    simp only [not_or] at hno
    exact hstate hno
  have hlive : w.state.isTerminal = false := by
    rcases haccepts with hs | hs | hs <;> rw [hs] <;> rfl
  have hrec' : a.isCurrent = false ∧ a.state.isTerminal = true := by simpa using hrec
  obtain ⟨⟨policies, hdb₁⟩, hspends⟩ := spendRetry_eq_ok hspend
  obtain ⟨slots, hdb₂, hreleased⟩ := releaseAdmissionSlotTx_eq_ok hslot
  obtain ⟨history, hdb₃, hmoves⟩ := Moves.of_insertHistory hhist hown.get hlive hown.epoch
    (by rw [hdb₂, hdb₁]; rfl) (by rw [hdb₂, hdb₁]; rfl)
  have hnow : db₁.now = db₃.now := by rw [hdb₃, hdb₂]; rfl
  simp only [hnow] at htimer
  obtain ⟨timers, hdb₄, htimers⟩ := insertRetryTimer_eq_ok hnode htimer
  obtain ⟨outbox, hdb₅, hemits⟩ := Emits.of_insertOutbox db hout
    (by rw [hdb₄, hdb₃, hdb₂, hdb₁]; rfl)
  have hnow' : db₃.now = db.now := by rw [← hnow, hdb₁]
  have htimers' : db₃.timers = db.timers := by rw [hdb₃, hdb₂, hdb₁]; rfl
  have hsame : db₁.liveSiblings input.key = db.liveSiblings input.key := by rw [hdb₁]; rfl
  rw [hnow', htimers'] at htimers
  rw [hsame] at hsettled
  have hmoves' := hmoves.congr db₅ (by rw [hdb₅, hdb₄]) (by rw [hdb₅, hdb₄])
  have hslots : SlotStep env db db₅ := by
    refine hmoves'.slotStep ?_
    rw [hdb₅, hdb₄, hdb₃, hdb₂, hown.workflowID]
    rw [hdb₁] at hreleased
    exact hreleased
  have hadv : Advances db db₅ w newState :=
    ⟨⟨_, hmoves', by simp [resultReason]⟩, hown.workflowID ▸ hemits⟩
  have hconsumed : Change.Consumed db input w n a result newState nodeState retryAfter db₅ := by
    refine ⟨hown.workflowID, hadv, hn, by simpa using hcur, ha, ⟨hrec'.1, hrec'.2, hres⟩, haccepts,
      ⟨_, hspend, by rw [hdb₅, hdb₄, hdb₃, hdb₂]; rfl⟩, hnode, fun hterm => ?_,
      by rw [hdb₅, hdb₄, hdb₃, hdb₂, hdb₁]; rfl, by rw [hdb₅, hdb₄, hdb₃, hdb₂, hdb₁]; rfl,
      by rw [hdb₅, hdb₄]; exact htimers⟩
    by_contra hne
    exact hsettled ⟨hterm, fun hzero => hne (List.eq_nil_of_length_eq_zero hzero)⟩
  exact ⟨⟨w, n, a, result, newState, retryAfter, hconsumed⟩,
    .of_change (by rw [hdb₅, hdb₄, hdb₃, hdb₂, hdb₁]; rfl)
      (by rw [hdb₅, hdb₄, hdb₃, hdb₂, hdb₁]; rfl) (by rw [hdb₅, hdb₄, hdb₃, hdb₂, hdb₁]; rfl)
      (by rw [hdb₅, hdb₄, hdb₃, hdb₂, hdb₁]; rfl) hslots
      (hspends.policyChange.congr (by rw [hdb₅, hdb₄, hdb₃, hdb₂]; rfl))
      (fenced_of_valid rfl hown.valid) (.consumed hconsumed)⟩

theorem consumeResult_commit {env : Env} {amb : Ambient} {input : ConsumeResultInput}
    {db db' : DB} {r : ConsumeResult} (h : consumeResult env amb input db = .ok (r, db')) :
    Commit env db (.consumeResult input) db' :=
  (consumeResult_consumed h).2

-- ============================================================================
-- Attempts
-- ============================================================================

theorem insertAttempt_eq_ok {db db' : DB} {context : String} {a : Attempt}
    (h : insertAttempt db context a = .ok db') :
    (a.isCurrent = true → ∀ b ∈ db.attempts.rows, b.key.node = a.key.node → b.isCurrent = false) ∧
      ∃ attempts, Inserted db.attempts a attempts ∧ db' = { db with attempts := attempts } := by
  simp only [insertAttempt, bind_eq_ok, getOr_eq_ok, rejectIf_eq_ok, exists_const, pure_eq_ok] at h
  obtain ⟨hone, attempts, hins, rfl⟩ := h
  refine ⟨fun hcur b hb hkey => ?_, attempts, hins, rfl⟩
  by_contra hb'
  exact hone ⟨hcur, b, hb, hkey, by simpa using hb'⟩

theorem createAttempt_commit {env : Env} {amb : Ambient} {input : AttemptInput} {db db' : DB}
    {r : Attempt} (h : createAttempt env amb input db = .ok (r, db')) :
    Commit env db (.createAttempt input) db' := by
  simp only [createAttempt, bind_eq_ok, getOr_eq_ok, rejectIf_eq_ok, exists_const, pure_eq_ok,
    Prod.mk.injEq] at h
  obtain ⟨-, w, hw, hstate, effectClass, -, -, identity, -, -, n, hn, hnstate, hfree, db₁, hins, db₂,
    hhist, db₃, hout, -, rfl⟩ := h
  obtain ⟨hown, -⟩ := lockOwnedWorkflow_eq_ok hw
  obtain ⟨hone, attempts, hattempt, rfl⟩ := insertAttempt_eq_ok hins
  have hwaiting : w.state = .waitingActivity := by simpa using hstate
  obtain ⟨⟨history, outbox, rfl⟩, hadv⟩ := Advances.of_tail hhist hout hown
    (by rw [hwaiting]; rfl) rfl rfl rfl (by simp [resultReason])
  refine .of_change rfl rfl rfl rfl (hadv.slotStep rfl (by rw [hwaiting]; rfl)) (.of_eq rfl)
    (fenced_of_valid rfl hown.valid) ?_
  refine .attemptCreated ⟨hown.workflowID, hwaiting, hadv, hn, by simpa using hnstate,
    by simpa using hfree, ?_, hattempt, rfl, rfl⟩
  intro a ha hkey
  exact hone rfl a (Table.mem_of_get ha) hkey

theorem claimAttempt_commit {amb : Ambient} {input : ClaimInput} {db db' : DB} {r : ClaimResult}
    (h : claimAttempt amb input db = .ok (r, db')) : Commit env db (.claimAttempt input) db' := by
  simp only [claimAttempt, bind_eq_ok, getOr_eq_ok, rejectIf_eq_ok, exists_const] at h
  obtain ⟨hargs, w, hw, hstate, h⟩ := h
  split at h
  · simp only [bind_eq_ok, pure_eq_ok, Prod.mk.injEq] at h
    obtain ⟨result, -, -, rfl⟩ := h
    exact .refl db _ (fenced_of_none rfl)
  · rename_i hreq
    simp only [not_or] at hargs
    simp only [bindClaim, bind_eq_ok, getOr_eq_ok, rejectIf_eq_ok, exists_const, pure_eq_ok,
      Prod.mk.injEq] at h
    obtain ⟨n, hn, -, a, ha, hdisp, -, rfl⟩ := h
    exact .of_change rfl rfl rfl rfl (.of_same rfl rfl) (.of_eq rfl) (fenced_of_none rfl)
      (.claimed ⟨hw, by simpa using hstate, hreq, hn, ha, by simpa using hdisp,
        ⟨amb.named _ (by simp), hargs.2.2.1, hargs.2.2.2⟩, rfl, rfl, rfl, rfl, rfl, rfl⟩)

theorem heartbeatAttempt_commit {input : HeartbeatInput} {db db' : DB} {r : Int}
    (h : heartbeatAttempt input db = .ok (r, db')) : Commit env db (.heartbeatAttempt input) db' := by
  simp only [heartbeatAttempt, bind_eq_ok, getOr_eq_ok, rejectIf_eq_ok, exists_const, pure_eq_ok,
    Prod.mk.injEq] at h
  obtain ⟨-, w, -, -, n, hn, hcur, token, htoken, a, ha, hclaimed, -, rfl⟩ := h
  simp only [not_or, not_not, Bool.not_eq_false, ne_eq] at hclaimed hcur
  exact .of_change rfl rfl rfl rfl (.of_same rfl rfl) (.of_eq rfl) (fenced_of_none rfl)
    (.extended ⟨hn, hcur, ha, ⟨hclaimed.1, hclaimed.2.1⟩, ⟨token, htoken, hclaimed.2.2⟩, rfl, rfl,
      rfl, rfl, rfl, rfl⟩)

theorem insertAttemptEvidence_eq_ok {amb : Ambient} {db : DB} {key : AttemptKey}
    {claimToken reconciliationRef : String} {payload : RawMessage} {r : String × DB}
    (h : insertAttemptEvidence amb db key claimToken reconciliationRef payload = .ok r) :
    ∃ evidence, r.2 = { db with evidence := evidence } ∧
      (evidence = db.evidence ∨ ∃ e, Inserted db.evidence e evidence ∧ e.attempt = key) := by
  simp only [insertAttemptEvidence, bind_eq_ok, rejectIf_eq_ok, exists_const] at h
  obtain ⟨-, h⟩ := h
  split at h
  · simp only [bind_eq_ok, rejectIf_eq_ok, exists_const, pure_eq_ok] at h
    obtain ⟨-, rfl⟩ := h
    exact ⟨db.evidence, rfl, .inl rfl⟩
  · simp only [bind_eq_ok, getOr_eq_ok, pure_eq_ok] at h
    obtain ⟨document, -, evidence, hins, rfl⟩ := h
    exact ⟨evidence, rfl, .inr ⟨_, hins, rfl⟩⟩

theorem recordResultReceipt_commit {amb : Ambient} {input : ResultInput} {db db' : DB}
    {r : ResultReceipt} (h : recordResultReceipt amb input db = .ok (r, db')) :
    Commit env db (.recordResultReceipt input) db' := by
  simp only [recordResultReceipt, bind_eq_ok, getOr_eq_ok, rejectIf_eq_ok, exists_const] at h
  obtain ⟨hargs, houtcome, -, -, w, hw, n, hn, token, htoken, a, ha, hholds, h⟩ := h
  unfold settleResult at h
  split at h
  · simp only [bind_eq_ok, rejectIf_eq_ok, exists_const, pure_eq_ok, Prod.mk.injEq] at h
    obtain ⟨-, -, rfl⟩ := h
    exact .refl db _ (fenced_of_none rfl)
  · split at h
    · simp only [bind_eq_ok, pure_eq_ok, Prod.mk.injEq] at h
      obtain ⟨⟨id, db₁⟩, hev, -, hdb⟩ := h
      obtain ⟨evidence, hdb₁, -⟩ := insertAttemptEvidence_eq_ok hev
      simp only at hdb₁ hdb
      subst hdb hdb₁
      exact .of_sameRows rfl rfl rfl rfl rfl (.of_eq rfl) (fenced_of_none rfl) ⟨rfl, rfl, rfl, rfl, rfl, rfl⟩
    · simp only [bind_eq_ok, rejectIf_eq_ok, exists_const, acceptResult, getOr_eq_ok, pure_eq_ok,
        Prod.mk.injEq] at h
      obtain ⟨hlive, hclaimed, document, hdoc, db₁, hhist, db₂, hout, -, rfl⟩ := h
      simp only [not_or, not_not, Bool.not_eq_false, ne_eq] at hclaimed
      obtain ⟨hcur, hisCur, hst⟩ := hclaimed
      obtain ⟨history, rfl, hmoves⟩ := Moves.of_insertHistory hhist hw (by simpa using hlive)
        (fun _ he => by cases he) rfl rfl
      obtain ⟨outbox, rfl, hemits⟩ := Emits.of_insertOutbox db hout rfl
      have hid : w.workflowID = input.workflowID := Table.key_of_get hw
      have hnodeID : input.nodeID ≠ "" := fun he => hargs (.inr (.inl he))
      have hlive' : w.state.isTerminal = false := by simpa using hlive
      exact .of_change rfl rfl rfl rfl
        (Moves.slotStep (hmoves.congr _ rfl rfl) (.of_eq rfl hlive')) (.of_eq rfl)
        (fenced_of_none rfl)
        (.recorded ⟨⟨fun he => hargs (.inl he), hnodeID⟩, hid, by simpa using houtcome, hdoc,
          hmoves.congr _ rfl rfl, rfl,
          ⟨if_neg hnodeID, rfl, rfl⟩, hid ▸ hemits, hn, hcur, ha,
          ⟨hisCur, hst⟩, ⟨token, htoken, by simpa using hholds⟩, rfl, rfl, rfl⟩)

theorem recordLateEvidence_commit {amb : Ambient} {input : LateEvidenceInput} {db db' : DB}
    {r : String} (h : recordLateEvidence amb input db = .ok (r, db')) :
    Commit env db (.recordLateEvidence input) db' := by
  simp only [recordLateEvidence, bind_eq_ok, getOr_eq_ok, rejectIf_eq_ok, exists_const] at h
  obtain ⟨-, w, -, n, -, a, -, -, -, -, -, hev⟩ := h
  obtain ⟨evidence, rfl, -⟩ := insertAttemptEvidence_eq_ok hev
  exact .of_sameRows rfl rfl rfl rfl rfl (.of_eq rfl) (fenced_of_none rfl) ⟨rfl, rfl, rfl, rfl, rfl, rfl⟩

-- ============================================================================
-- Timeouts
-- ============================================================================

/-- The checks every timeout passes. -/
theorem timeoutAttempt_eq_ok {env : Env} {amb : Ambient} {input : TimeoutInput} {db : DB}
    {r : TimeoutResult × DB} (h : timeoutAttempt env amb input db = .ok r) :
    ∃ w n a deadline, Owned db input.lease input.workflowID w ∧ w.state.isTerminal = false ∧
      db.nodes.get input.key.node = some n ∧ n.currentAttempt.getD 0 = input.attemptNumber ∧
      db.attempts.get input.key = some a ∧ a.isCurrent = true ∧
      ((a.state = .dispatchable ∧ redispatch env amb input w deadline db = .ok r) ∨
        (a.state = .claimed ∧ a.effectClass = .nonCooperating ∧
          requireReconciliation env amb input w db = .ok r) ∨
        (a.state = .claimed ∧ a.effectClass ≠ .nonCooperating ∧
          replaceAttempt env amb input w a deadline db = .ok r)) := by
  simp only [timeoutAttempt, bind_eq_ok, getOr_eq_ok, rejectIf_eq_ok, exists_const,
    Option.filter_eq_some_iff] at h
  obtain ⟨lease, hlock, w, hw, hpart, hlive, -, n, hn, hcur, a, ⟨ha, hisCur⟩, -, h⟩ := h
  refine ⟨w, n, a, db.now + (if input.dispatchLease ≤ 0 then minute else input.dispatchLease),
    ⟨(lockLease_eq_ok hlock).1, hw, by simpa using hpart⟩, by simpa using hlive, hn,
    by simpa using hcur, ha, hisCur, ?_⟩
  split at h
  · rename_i hdisp
    exact .inl ⟨hdisp, h⟩
  · split at h
    · cases h
    · rename_i hclaimed
      simp only [ne_eq, not_not] at hclaimed
      split at h
      · rename_i hclass
        exact .inr (.inl ⟨hclaimed, hclass, h⟩)
      · rename_i hclass
        exact .inr (.inr ⟨hclaimed, hclass, h⟩)

theorem redispatch_commit {env : Env} {amb : Ambient} {input : TimeoutInput} {w : Workflow}
    {a : Attempt} {deadline : Int} {db db' : DB} {r : TimeoutResult}
    (hown : Owned db input.lease input.workflowID w) (hlive : w.state.isTerminal = false)
    (ha : db.attempts.get input.key = some a)
    (hdisp : a.isCurrent = true ∧ a.state = .dispatchable)
    (h : redispatch env amb input w deadline db = .ok (r, db')) :
    Change.Redispatched db input w a deadline db' ∧ Commit env db (.timeoutAttempt input) db' := by
  simp only [redispatch, bind_eq_ok, pure_eq_ok, Prod.mk.injEq] at h
  obtain ⟨db₁, hhist, db₂, hout, -, rfl⟩ := h
  obtain ⟨⟨history, outbox, rfl⟩, hadv⟩ := Advances.of_tail hhist hout hown hlive rfl rfl rfl
    (by simp [resultReason])
  have hredispatched : Change.Redispatched db input w a deadline _ :=
    ⟨hown.workflowID, hadv, ha, hdisp, rfl, rfl, rfl, rfl⟩
  exact ⟨hredispatched, .of_change rfl rfl rfl rfl (hadv.slotStep rfl hlive) (.of_eq rfl)
    (fenced_of_valid rfl hown.valid) (.redispatched hredispatched)⟩

theorem openExpiredAttempt_eq (db db₀ : DB) (w : Workflow) (input : TimeoutInput) (detail : Jsonb)
    (h : db.reconciliation = db₀.reconciliation) : openExpiredAttempt db w input detail =
      { db with reconciliation := (openExpiredAttempt db₀ w input detail).reconciliation } := by
  unfold openExpiredAttempt
  simp only [h]
  split <;> rfl

/-- Writing a workflow row twice is writing it once. -/
theorem setWorkflow_twice {db db₁ : DB} {workflowID : String} {s : WorkflowState} {r : Int}
    (h : db₁.workflows = (db.setWorkflow workflowID s r).workflows) :
    (db₁.setWorkflow workflowID s r).workflows = db₁.workflows := by
  apply Table.ext
  simp only [DB.setWorkflow, h, Table.modify, Table.update, List.map_map]
  apply List.map_congr_left
  intro w _
  by_cases hw : w.workflowID = workflowID <;> simp [hw]

theorem requireReconciliation_commit {env : Env} {amb : Ambient} {input : TimeoutInput}
    {w : Workflow} {a : Attempt} {db db' : DB} {r : TimeoutResult}
    (hown : Owned db input.lease input.workflowID w) (hlive : w.state.isTerminal = false)
    (ha : db.attempts.get input.key = some a) (hcur : a.isCurrent = true)
    (hclaimed : a.state = .claimed) (hclass : a.effectClass = .nonCooperating)
    (h : requireReconciliation env amb input w db = .ok (r, db')) :
    Change.Expired db input w a db' ∧ Commit env db (.timeoutAttempt input) db' := by
  simp only [requireReconciliation, bind_eq_ok, getOr_eq_ok, pure_eq_ok, Prod.mk.injEq] at h
  obtain ⟨detail, -, db₁, hhist, db₂, hout, -, rfl⟩ := h
  have hopen := openExpiredAttempt_eq (db.modifyAttempt input.key (fun a => { a with
    state := .timedOut, isCurrent := false, outcomeDisposition := .outcomeUnknown })) db w input detail rfl
  simp only [updateRevisionAndHistory, hopen, if_true] at hhist
  obtain ⟨history, hdb₁, hmoves⟩ := Moves.of_insertHistory hhist hown.get hlive hown.epoch rfl rfl
  obtain ⟨outbox, hdb₂, hemits⟩ := Emits.of_insertOutbox db hout (by rw [hdb₁]; rfl)
  have hset := setWorkflow_twice (hown.workflowID ▸ hmoves.workflows)
  have hadv : Advances db db₂ w .reconciliationRequired :=
    ⟨⟨_, hmoves.congr db₂ (by rw [hdb₂]; exact hset) (by rw [hdb₂]; rfl), by simp [resultReason]⟩,
      hown.workflowID ▸ hemits⟩
  rw [hdb₁] at hdb₂
  have hexpired : Change.Expired db input w a db₂ :=
    ⟨hown.workflowID, hadv, ha, ⟨hcur, hclaimed⟩, hclass, by rw [hdb₂]; rfl,
      by rw [hdb₂]; rfl, by rw [hdb₂]; rfl, detail, by rw [hdb₂]; rfl⟩
  exact ⟨hexpired, .of_change (by rw [hdb₂]; rfl) (by rw [hdb₂]; rfl) (by rw [hdb₂]; rfl)
    (by rw [hdb₂]; rfl) (hadv.slotStep (by rw [hdb₂]; rfl) rfl) (.of_eq (by rw [hdb₂]; rfl))
    (fenced_of_valid rfl hown.valid) (.expired hexpired)⟩

theorem replaceAttempt_commit {env : Env} {amb : Ambient} {input : TimeoutInput} {w : Workflow}
    {n : NodeInstance} {a : Attempt} {deadline : Int} {db db' : DB} {r : TimeoutResult}
    (hown : Owned db input.lease input.workflowID w) (hlive : w.state.isTerminal = false)
    (hn : db.nodes.get input.key.node = some n)
    (hnum : n.currentAttempt.getD 0 = input.attemptNumber)
    (ha : db.attempts.get input.key = some a) (hcur : a.isCurrent = true)
    (hclaimed : a.state = .claimed) (hclass : a.effectClass ≠ .nonCooperating)
    (h : replaceAttempt env amb input w a deadline db = .ok (r, db')) :
    Change.Replaced db input w n a deadline db' ∧ Commit env db (.timeoutAttempt input) db' := by
  simp only [replaceAttempt, bind_eq_ok, pure_eq_ok, Prod.mk.injEq] at h
  obtain ⟨db₁, hins, db₂, hhist, db₃, hout, -, rfl⟩ := h
  obtain ⟨-, attempts, hattempt, rfl⟩ := insertAttempt_eq_ok hins
  obtain ⟨⟨history, outbox, rfl⟩, hadv⟩ := Advances.of_tail hhist hout hown hlive rfl rfl rfl
    (by simp [resultReason])
  have hreplaced : Change.Replaced db input w n a deadline _ :=
    ⟨hown.workflowID, hadv, hn, hnum, ha, ⟨hcur, hclaimed⟩, hclass, hattempt, rfl, rfl, rfl⟩
  exact ⟨hreplaced, .of_change rfl rfl rfl rfl (hadv.slotStep rfl hlive) (.of_eq rfl)
    (fenced_of_valid rfl hown.valid) (.replaced hreplaced)⟩

/-- What a committed timeout did, with the attempt it was about. -/
inductive TimeoutStep (db : DB) (input : TimeoutInput) (db' : DB) : Prop where
  | redispatched (w : Workflow) (a : Attempt) (deadline : Int)
      (effect : Change.Redispatched db input w a deadline db')
  | expired (w : Workflow) (a : Attempt) (effect : Change.Expired db input w a db')
  | replaced (w : Workflow) (n : NodeInstance) (a : Attempt) (deadline : Int)
      (effect : Change.Replaced db input w n a deadline db')

theorem timeoutAttempt_step {env : Env} {amb : Ambient} {input : TimeoutInput} {db db' : DB}
    {r : TimeoutResult} (h : timeoutAttempt env amb input db = .ok (r, db')) :
    TimeoutStep db input db' ∧ Commit env db (.timeoutAttempt input) db' := by
  obtain ⟨w, n, a, deadline, hown, hlive, hn, hnum, ha, hcur, ⟨hdisp, h⟩ | ⟨hclaimed, hclass, h⟩ |
    ⟨hclaimed, hclass, h⟩⟩ := timeoutAttempt_eq_ok h
  · exact (redispatch_commit hown hlive ha ⟨hcur, hdisp⟩ h).imp_left (.redispatched w a deadline)
  · exact (requireReconciliation_commit hown hlive ha hcur hclaimed hclass h).imp_left
      (.expired w a)
  · exact (replaceAttempt_commit hown hlive hn hnum ha hcur hclaimed hclass h).imp_left
      (.replaced w n a deadline)

theorem timeoutAttempt_commit {env : Env} {amb : Ambient} {input : TimeoutInput} {db db' : DB}
    {r : TimeoutResult} (h : timeoutAttempt env amb input db = .ok (r, db')) :
    Commit env db (.timeoutAttempt input) db' :=
  (timeoutAttempt_step h).2

end DurableEngine.State
