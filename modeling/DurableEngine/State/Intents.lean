/-
  DurableEngine.State.Intents

  The life of an approval intent, and how a cancellation request meets it.

  An intent is created ungranted, is granted or canceled once, under the lock
  of a workflow that waits for approval, and keeps its grant for good; only a
  granted intent is dispatched (`ApprovalIntent.Step`).  A cancellation request
  reads the intents under the same lock (`Cancellation`).
-/

import DurableEngine.State.EffectLedger
import DurableEngine.State.History

namespace DurableEngine.State

open Lib

-- ============================================================================
-- Steps of an intent
-- ============================================================================

/-- The intent after a decision. -/
def ApprovalIntent.decide (i : ApprovalIntent) (decision : Decision)
    (approverID decisionReason : String) : ApprovalIntent :=
  { i with decision := decision, approverID := approverID, decisionReason := decisionReason }

/-- The intent after its rejection was applied. -/
def ApprovalIntent.withdraw (i : ApprovalIntent) : ApprovalIntent :=
  { i with dispatchStatus := .canceled }

/-- The intent after its approval was applied. -/
def ApprovalIntent.grant (i : ApprovalIntent) (token scope : String) : ApprovalIntent :=
  { i with
    dispatchStatus := .granted
    grantToken := token
    grantScopeHash := scope
    grantExpiresAt := some i.validUntil }

/-- The workflow of the intent waits for approval. -/
def ApprovalIntent.awaited (i : ApprovalIntent) (db : DB) : Prop :=
  ∃ w, db.workflows.get i.node.workflowID = some w ∧ w.state = .waitingApproval

/-- What one transaction can do to an intent. -/
inductive ApprovalIntent.Step (db : DB) (i : ApprovalIntent) : ApprovalIntent → Prop where
  | decided (decision : Decision) (approverID decisionReason : String) :
      Step db i (i.decide decision approverID decisionReason)
  | withdrawn (ungranted : i.isGranted = false) : Step db i i.withdraw
  | granted (token scope : String) (ungranted : i.isGranted = false) (awaited : i.awaited db) :
      Step db i (i.grant token scope)
  | dispatched (granted : i.isGranted = true) : Step db i i.dispatch

/-- The proposal of the intent. -/
structure ApprovalIntent.SameProposal (i i' : ApprovalIntent) : Prop where
  intentID : i'.intentID = i.intentID
  node : i'.node = i.node
  proposalHash : i'.proposalHash = i.proposalHash
  target : i'.target = i.target
  expectedResourceRevision : i'.expectedResourceRevision = i.expectedResourceRevision

/-- The intent is still granted, with its token and its scope. -/
structure ApprovalIntent.KeepsGrant (i i' : ApprovalIntent) : Prop where
  proposal : i.SameProposal i'
  granted : i'.isGranted = true
  token : i'.grantToken = i.grantToken
  scope : i'.grantScopeHash = i.grantScopeHash

theorem ApprovalIntent.Step.sameProposal {db : DB} {i i' : ApprovalIntent} (h : i.Step db i') :
    i.SameProposal i' := by
  cases h <;> exact ⟨rfl, rfl, rfl, rfl, rfl⟩

/-- A grant is not taken back. -/
theorem ApprovalIntent.Step.keepsGrant {db : DB} {i i' : ApprovalIntent} (h : i.Step db i')
    (hgranted : i.isGranted = true) : i.KeepsGrant i' := by
  have hproposal := h.sameProposal
  cases h with
  | decided => exact ⟨hproposal, hgranted, rfl, rfl⟩
  | withdrawn hun | granted _ _ hun _ =>
      rw [hgranted] at hun
      cases hun
  | dispatched => exact ⟨hproposal, rfl, rfl, rfl⟩

/-- A new grant takes a workflow that waits for it. -/
theorem ApprovalIntent.Step.awaited_of_grant {db : DB} {i i' : ApprovalIntent} (h : i.Step db i')
    (hungranted : i.isGranted = false) (hgranted : i'.isGranted = true) : i.awaited db := by
  cases h with
  | decided => exact absurd (hgranted.symm.trans hungranted) (by decide)
  | withdrawn => cases hgranted
  | granted _ _ _ hawaited => exact hawaited
  | dispatched hbefore =>
      rw [hbefore] at hungranted
      cases hungranted

-- ============================================================================
-- Steps of the table
-- ============================================================================

/-- What one transaction does to the intents: none is lost, each makes at most one step, and the
    new ones are ungranted. -/
structure IntentsMove (db db' : DB) : Prop where
  kept : ∀ id i, db.intents.get id = some i →
    ∃ i', db'.intents.get id = some i' ∧ (i' = i ∨ i.Step db i')
  fresh : ∀ id i', db.intents.get id = none → db'.intents.get id = some i' → i'.isGranted = false

theorem IntentsMove.of_eq {db db' : DB} (h : db'.intents = db.intents) : IntentsMove db db' where
  kept := fun _ i hi => ⟨i, by rw [h]; exact hi, .inl rfl⟩
  fresh := by
    intro id i' hnone hi'
    rw [h, hnone] at hi'
    cases hi'

theorem IntentsMove.of_inserted {db db' : DB} {intent : ApprovalIntent}
    (h : Inserted db.intents intent db'.intents) (hstatus : intent.isGranted = false) :
    IntentsMove db db' where
  kept := fun _ i hi => ⟨i, Table.get_insert_of_get h hi, .inl rfl⟩
  fresh := by
    intro id i' hnone hi'
    rw [Table.get_insert h] at hi'
    split at hi'
    · cases hi'
      exact hstatus
    · rw [hnone] at hi'
      cases hi'

/-- One intent makes a step. -/
theorem IntentsMove.of_modify {db db' : DB} {id : String} {i : ApprovalIntent}
    (hget : db.intents.get id = some i) (f : ApprovalIntent → ApprovalIntent)
    (hf : ∀ i, (f i).intentID = i.intentID) (h : db'.intents = db.intents.modify id f hf)
    (hstep : i.Step db (f i)) : IntentsMove db db' where
  kept := by
    intro id' i' hi'
    rw [h, Table.get_modify_of_get hget]
    split
    · rename_i heq
      subst heq
      rw [hget] at hi'
      cases hi'
      exact ⟨f i, rfl, .inr hstep⟩
    · exact ⟨i', hi', .inl rfl⟩
  fresh := by
    intro id' i' hnone hi'
    rw [h, Table.get_modify_of_get hget] at hi'
    split at hi'
    · rename_i heq
      subst heq
      rw [hget] at hnone
      cases hnone
    · rw [hnone] at hi'
      cases hi'

/-- The intent is approved and granted. -/
def ApprovalIntent.IsSettled (i : ApprovalIntent) : Prop :=
  i.decision = .approved ∧ i.isGranted = true

/-- What an operation of the store writes to the intents: nothing, a new one, or one that was not
    settled. -/
inductive IntentWrite (db db' : DB) : Prop where
  | same (h : db'.intents = db.intents)
  | inserted (i : ApprovalIntent) (h : Inserted db.intents i db'.intents)
      (ungranted : i.isGranted = false) (named : i.target ≠ "")
  | modified (id : String) (i : ApprovalIntent) (row : db.intents.get id = some i)
      (f : ApprovalIntent → ApprovalIntent) (hf : ∀ i, (f i).intentID = i.intentID)
      (h : db'.intents = db.intents.modify id f hf) (unsettled : ¬ i.IsSettled)
      (step : i.Step db (f i))

theorem createApprovalIntent_intents {env : Env} {amb : Ambient} {input : ApprovalIntentInput}
    {db db' : DB} {r : ApprovalIntent} (h : createApprovalIntent env amb input db = .ok (r, db')) :
    IntentWrite db db' := by
  simp only [createApprovalIntent, bind_eq_ok, getOr_eq_ok, rejectIf_eq_ok, exists_const] at h
  obtain ⟨-, hash, hhash, w, -, -, n, -, -, h⟩ := h
  have hnamed : input.target ≠ "" := by
    simp only [proposalHash, bind_eq_ok, rejectIf_eq_ok, exists_const, not_or] at hhash
    exact hhash.1.1
  split at h
  · simp only [bind_eq_ok, rejectIf_eq_ok, exists_const, pure_eq_ok, Prod.mk.injEq] at h
    obtain ⟨-, -, rfl⟩ := h
    exact .same rfl
  · simp only [insertIntent, bind_eq_ok, getOr_eq_ok] at h
    obtain ⟨arguments, -, intents, hins, h⟩ := h
    split at h
    · simp only [bind_eq_ok, pure_eq_ok, Prod.mk.injEq] at h
      obtain ⟨db₁, hhist, db₂, hout, -, rfl⟩ := h
      obtain ⟨history, -, rfl⟩ := insertHistory_eq_ok hhist
      obtain ⟨-, event, outbox, -, -, -, -, -, rfl⟩ := insertOutbox_eq_ok hout
      exact .inserted _ hins rfl hnamed
    · simp only [pure_eq_ok, Prod.mk.injEq] at h
      obtain ⟨-, rfl⟩ := h
      exact .inserted _ hins rfl hnamed

theorem recordApprovalDecision_intents {amb : Ambient} {input : ApprovalDecisionInput} {db db' : DB}
    {r : ApprovalIntent} (h : recordApprovalDecision amb input db = .ok (r, db')) :
    IntentWrite db db' := by
  simp only [recordApprovalDecision, bind_eq_ok, getOr_eq_ok, rejectIf_eq_ok, exists_const] at h
  obtain ⟨-, id, -, intent, hintent, -, h⟩ := h
  split at h
  · simp only [bind_eq_ok, rejectIf_eq_ok, exists_const, pure_eq_ok, Prod.mk.injEq] at h
    obtain ⟨-, -, rfl⟩ := h
    exact .same rfl
  · rename_i hpending
    simp only [bind_eq_ok, rejectIf_eq_ok, exists_const, pure_eq_ok, Prod.mk.injEq] at h
    obtain ⟨-, -, rfl⟩ := h
    refine .modified _ intent hintent
      (·.decide input.decision input.approverID input.decisionReason) (fun _ => rfl) rfl ?_
      (.decided _ _ _)
    rintro ⟨happroved, -⟩
    rw [not_not.mp hpending] at happroved
    cases happroved

theorem applyApproval_intents {env : Env} {amb : Ambient} {input : ApplyApprovalInput} {db db' : DB}
    {r : ApprovalGrant} (h : applyApproval env amb input db = .ok (r, db')) : IntentWrite db db' := by
  simp only [applyApproval, bind_eq_ok, getOr_eq_ok, rejectIf_eq_ok, exists_const,
    Option.filter_eq_some_iff] at h
  obtain ⟨-, w, hw, hstate, id, -, intent, ⟨hintent, hnode⟩, hstatus, -, h⟩ := h
  obtain ⟨hown, -⟩ := lockApprovalWorkflow_eq_ok hw
  have hnode : intent.node = input.key := by simpa using hnode
  have hungranted : intent.isGranted = false := by
    have hstatus : intent.dispatchStatus = .notGranted := by simpa using hstatus
    rw [ApprovalIntent.isGranted, hstatus]
    rfl
  have hunsettled : ¬ intent.IsSettled := by
    rintro ⟨-, hgranted⟩
    rw [hungranted] at hgranted
    cases hgranted
  have hawaited : intent.awaited db := by
    refine ⟨w, ?_, by simpa using hstate⟩
    rw [hnode]
    exact hown.get
  split at h
  · simp only [rejectApproval, bind_eq_ok, pure_eq_ok, Prod.mk.injEq] at h
    obtain ⟨db₁, hslot, db₂, hhist, db₃, hout, -, rfl⟩ := h
    obtain ⟨slots, rfl, -⟩ := releaseAdmissionSlotTx_eq_ok hslot
    obtain ⟨history, -, rfl⟩ := insertHistory_eq_ok hhist
    obtain ⟨-, event, outbox, -, -, -, -, -, rfl⟩ := insertOutbox_eq_ok hout
    exact .modified _ intent hintent (·.withdraw) (fun _ => rfl) rfl hunsettled (.withdrawn hungranted)
  · simp only [grantApproval, bind_eq_ok, rejectIf_eq_ok, exists_const, pure_eq_ok,
      Prod.mk.injEq] at h
    obtain ⟨-, -, db₁, hhist, db₂, hout, -, rfl⟩ := h
    obtain ⟨history, -, rfl⟩ := insertHistory_eq_ok hhist
    obtain ⟨-, event, outbox, -, -, -, -, -, rfl⟩ := insertOutbox_eq_ok hout
    rw [← Table.key_of_get hintent] at hintent
    exact .modified _ intent hintent
      (·.grant amb.grantToken (grantScopeHash intent.proposalHash intent.expectedResourceRevision
        input.logicalEffectKey intent.target))
      (fun _ => rfl) rfl hunsettled (.granted _ _ hungranted hawaited)

/-- What a committed operation writes to the intents. -/
theorem intentWrite_of_commit {env : Env} {amb : Ambient} {α : Type} {op : Op α} {db db' : DB} {a : α}
    (h : op.run env amb db = .ok (a, db')) : IntentWrite db db' := by
  have hframe := (Op.run_commit h).frame
  cases op with
  | createApprovalIntent input => exact createApprovalIntent_intents h
  | recordApprovalDecision input => exact recordApprovalDecision_intents h
  | applyApproval input => exact applyApproval_intents h
  | _ => exact .same (by rw [hframe]; rfl)

/-- What a committed operation does to the intents. -/
theorem intents_of_commit {env : Env} {amb : Ambient} {α : Type} {op : Op α} {db db' : DB} {a : α}
    (h : op.run env amb db = .ok (a, db')) : IntentsMove db db' := by
  cases intentWrite_of_commit h with
  | same hsame => exact .of_eq hsame
  | inserted i hins hungranted _ => exact .of_inserted hins hungranted
  | modified id i hrow f hf hmodified _ hstep => exact .of_modify hrow f hf hmodified hstep

/-- No operation of the store changes a settled intent. -/
theorem IntentWrite.settled {db db' : DB} (h : IntentWrite db db') {id : String} {i : ApprovalIntent}
    (hi : db.intents.get id = some i) (hsettled : i.IsSettled) : db'.intents.get id = some i := by
  cases h with
  | same hsame =>
      rw [hsame]
      exact hi
  | inserted _ hins _ _ => exact Table.get_insert_of_get hins hi
  | modified id' i' hrow f hf hmodified hunsettled _ =>
      rw [hmodified, Table.get_modify_ne _ _ _ (fun heq => ?_)]
      · exact hi
      · subst heq
        rw [hi] at hrow
        exact hunsettled (Option.some.inj hrow ▸ hsettled)

/-- Every intent names its target. -/
def DB.IntentsNamed (db : DB) : Prop := ∀ id i, db.intents.get id = some i → i.target ≠ ""

theorem IntentWrite.named {db db' : DB} (h : IntentWrite db db') (hnamed : db.IntentsNamed) :
    db'.IntentsNamed := by
  intro id i' hi'
  cases h with
  | same hsame =>
      rw [hsame] at hi'
      exact hnamed id i' hi'
  | inserted i hins _ htarget =>
      rw [Table.get_insert hins] at hi'
      split at hi'
      · cases hi'
        exact htarget
      · exact hnamed id i' hi'
  | modified id' i hrow f hf hmodified _ hstep =>
      rw [hmodified, Table.get_modify_of_get hrow] at hi'
      split at hi'
      · cases hi'
        rw [hstep.sameProposal.target]
        exact hnamed _ i hrow
      · exact hnamed id i' hi'

/-- Marking a grant. -/
theorem Dispatched.intentsMove {db db' : DB} {id : String} {intent : ApprovalIntent}
    (h : Dispatched db db' id intent) : IntentsMove db db' where
  kept := by
    intro id' i hi
    rw [h.intents]
    split
    · rename_i heq
      subst heq
      rw [h.row] at hi
      cases hi
      exact ⟨intent.dispatch, rfl, .inr (.dispatched h.granted)⟩
    · exact ⟨i, hi, .inl rfl⟩
  fresh := by
    intro id' i' hnone hi'
    rw [h.intents] at hi'
    split at hi'
    · rename_i heq
      subst heq
      rw [h.row] at hnone
      cases hnone
    · rw [hnone] at hi'
      cases hi'

-- ============================================================================
-- Grants
-- ============================================================================

/-- The text whose hash is the scope of a grant for the effect. -/
def ApprovalIntent.scopeText (i : ApprovalIntent) (logicalEffectKey : String) : String :=
  i.proposalHash ++ "\x00" ++ i.expectedResourceRevision ++ "\x00" ++ logicalEffectKey ++ "\x00" ++
    i.target

/-- The intent is granted to the call. -/
structure ApprovalIntent.Backs (i : ApprovalIntent) (input : EffectApplyInput) : Prop where
  granted : i.isGranted = true
  node : i.node = input.node
  token : uuidText input.grantToken = some i.grantToken
  scope : i.grantScopeHash = Sha256.hexSum (i.scopeText input.logicalEffectKey)

theorem ApprovalIntent.Backs.of_keepsGrant {i i' : ApprovalIntent} {input : EffectApplyInput}
    (h : i.Backs input) (hkeeps : i.KeepsGrant i') : i'.Backs input where
  granted := hkeeps.granted
  node := hkeeps.proposal.node.trans h.node
  token := by
    rw [hkeeps.token]
    exact h.token
  scope := by
    rw [hkeeps.scope, h.scope, scopeText, scopeText, hkeeps.proposal.proposalHash,
      hkeeps.proposal.expectedResourceRevision, hkeeps.proposal.target]

/-- A call that passes the checks carries the grant of an intent. -/
theorem checkGrant_eq_ok {now : Int} {input : EffectApplyInput} {db : DB}
    (h : checkGrant now input db = .ok ()) : ∃ id i, db.intents.get id = some i ∧ i.Backs input := by
  simp only [checkGrant, bind_eq_ok, rejectIf_eq_ok, exists_const, not_or, not_not, ne_eq] at h
  obtain ⟨-, -, -, intent, hintent, ⟨-, hgranted, hscope, -⟩, -, -, submitted, -, approved, -, -,
    hkey⟩ := h
  simp only [grantIntent, bind_eq_ok, getOr_eq_ok, Option.filter_eq_some_iff, Bool.and_eq_true,
    decide_eq_true_eq] at hintent
  obtain ⟨id, -, token, htoken, hget, heq, hnode⟩ := hintent
  refine ⟨id, intent, hget, by simpa using hgranted, hnode, by rw [heq]; exact htoken, ?_⟩
  rw [hscope, ← hkey]
  rfl

-- ============================================================================
-- Cancellation requests
-- ============================================================================

/-- Some intent of the workflow is granted. -/
def DB.hasGrant (db : DB) (workflowID : String) : Prop :=
  ∃ i ∈ db.intents.rows, i.node.workflowID = workflowID ∧ i.isGranted = true

/-- What a committed `ApplyCancellationRequest` does: the workflows stay as they are, and a pending
    request of a workflow with a grant ends as best effort; or the workflow of the request, which
    has no grant, is canceled. -/
inductive Cancellation (db db' : DB) (request : CancellationRequest) : Prop where
  | kept (workflows : db'.workflows = db.workflows)
      (bestEffort : request.status = .pending → db.hasGrant request.workflowID →
        ∃ request', db'.cancellations.get request.requestID = some request' ∧
          request'.status = .bestEffort) : Cancellation db db' request
  | canceled (ungranted : ¬ db.hasGrant request.workflowID)
      (intents : db'.intents = db.intents)
      (others : ∀ id, id ≠ request.workflowID → db'.workflows.get id = db.workflows.get id) :
      Cancellation db db' request

theorem applyPendingRequest_eq_ok {env : Env} {amb : Ambient} {lease : LeaseRef} {actorID : String}
    {request : CancellationRequest} {db db' : DB} {r : Workflow} (hvalid : db.leaseValid lease)
    (hrequest : db.cancellations.get request.requestID = some request)
    (h : applyPendingRequest env amb lease actorID request db = .ok (r, db')) :
    Cancellation db db' request := by
  simp only [applyPendingRequest, bind_eq_ok, getOr_eq_ok, rejectIf_eq_ok, exists_const] at h
  obtain ⟨w, hw, hpart, h⟩ := h
  have hid : w.workflowID = request.workflowID := Table.key_of_get hw
  split at h
  · cases h
    refine .kept rfl (fun _ _ => ⟨{ request with
      status := .bestEffort, appliedAt := some db.now }, ?_, rfl⟩)
    exact (Table.get_modify_of_get hrequest (fun c => { c with
      status := .bestEffort, appliedAt := some db.now }) (fun _ => rfl) _).trans (if_pos rfl)
  · rename_i hnone
    have hungranted : ¬ db.hasGrant request.workflowID := by
      rintro ⟨i, hi, hworkflow, hgranted⟩
      refine hnone (List.any_eq_true.mpr ⟨i, hi, ?_⟩)
      rw [Bool.and_eq_true]
      exact ⟨decide_eq_true hworkflow, hgranted⟩
    split at h
    · cases h
      exact .kept rfl (fun _ hgrant => absurd hgrant hungranted)
    · rename_i hlive
      simp only [bind_eq_ok, pure_eq_ok, Prod.mk.injEq] at h
      obtain ⟨⟨w', db₁⟩, htx, -, rfl⟩ := h
      have hown : Owned db lease w.workflowID w := ⟨hvalid, hid.symm ▸ hw, by simpa using hpart⟩
      obtain ⟨hadv, -, -, -, -, hrest⟩ := cancelWorkflowTx_eq_ok hown (by simpa using hlive) htx
      obtain ⟨row, hmoves, -⟩ := hadv.moves
      refine .canceled hungranted (by rw [hrest]; rfl) (fun id hne => ?_)
      exact (hmoves.get_workflow id).trans (if_neg (by rw [hid]; exact hne))

theorem applyCancellationRequest_eq_ok {env : Env} {amb : Ambient} {lease : LeaseRef}
    {requestID actorID : String} {db db' : DB} {r : Workflow}
    (h : applyCancellationRequest env amb lease requestID actorID db = .ok (r, db')) :
    ∃ request, uuidText requestID = some request.requestID ∧
      db.cancellations.get request.requestID = some request ∧ Cancellation db db' request := by
  simp only [applyCancellationRequest, bind_eq_ok, getOr_eq_ok, rejectIf_eq_ok, exists_const] at h
  obtain ⟨-, lease', hlock, id, hrequestID, request, hrequest, h⟩ := h
  have hvalid := (lockLease_eq_ok hlock).1
  obtain rfl : request.requestID = id := Table.key_of_get hrequest
  refine ⟨request, hrequestID, hrequest, ?_⟩
  split at h
  · rename_i hdone
    simp only [bind_eq_ok, getOr_eq_ok, pure_eq_ok, Prod.mk.injEq] at h
    obtain ⟨w, -, -, rfl⟩ := h
    exact .kept rfl (fun hpending => absurd hpending hdone)
  · exact applyPendingRequest_eq_ok hvalid hrequest h

/-- A workflow that has ended stays as it is. -/
theorem Change.ended {db db' : DB} {α : Type} {op : Op α} (h : Change db op db') {id : String}
    {w : Workflow} (hw : db.workflows.get id = some w) (hend : w.state.isTerminal = true) :
    db'.workflows.get id = some w := by
  obtain ⟨hsame, -⟩ | ⟨_, _, hins, -⟩ | ⟨w', _, _, hm⟩ := h.history_cases
  · rw [hsame]
    exact hw
  · exact Table.get_insert_of_get hins hw
  · rw [hm.get_workflow]
    split
    · rename_i hid
      rw [hid, hm.get, Option.some.injEq] at hw
      rw [← hw, hm.live] at hend
      cases hend
    · exact hw

end DurableEngine.State
