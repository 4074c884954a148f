/-
  DurableEngine.State.Signatures

  Who signs a history row.  A row of a scheduler carries the epoch of its lease,
  which is positive, and no other row carries an epoch.
-/

import DurableEngine.Lib.Ensures
import DurableEngine.State.Fencing

namespace DurableEngine.State

open Lib

/-- The row carries an epoch exactly when a scheduler wrote it. -/
def TransitionRecord.Signed (row : TransitionRecord) : Prop :=
  row.actorKind = "scheduler" ↔ row.schedulerEpoch.isSome = true

/-- The rows that `db'` adds to the history of `db` are signed. -/
def Signs (db db' : DB) : Prop :=
  ∀ key row, db'.history.get key = some row → db.history.get key = some row ∨ row.Signed

-- ============================================================================
-- Statements
-- ============================================================================

section Statements

variable {db dbS : DB} {workflowID actorKind actorID nodeID reason : String} {revision : Int}
  {epoch iteration attemptNumber : Option Int} {oldState : Option WorkflowState} {newState : WorkflowState}

theorem Signs.of_eq {db db' : DB} (h : db'.history = db.history) : Signs db db' :=
  fun _ _ hrow => .inl (h ▸ hrow)

theorem signs_insertHistory (hh : dbS.history = db.history)
    (hkind : actorKind = "scheduler" ↔ epoch.isSome = true) :
    Ensures (Signs db) (insertHistory dbS workflowID revision actorKind actorID epoch nodeID iteration
      attemptNumber oldState newState reason) := by
  intro db' h key row hrow
  obtain ⟨history, hins, rfl⟩ := insertHistory_eq_ok h
  rw [Table.get_insert hins] at hrow
  by_cases hkey : key = ⟨workflowID, revision⟩
  · rw [if_pos hkey, Option.some.injEq] at hrow
    subst hrow
    exact .inr hkind
  · rw [if_neg hkey] at hrow
    exact .inl (hh ▸ hrow)

theorem signs_insertOutbox {amb : Ambient} {eventType : String} {payload : Option Jsonb} (h : Signs db dbS) :
    Ensures (Signs db) (insertOutbox amb dbS workflowID revision eventType payload) := by
  intro db' hout
  obtain ⟨-, event, outbox, -, -, -, -, -, rfl⟩ := insertOutbox_eq_ok hout
  exact h

/-- A transaction ends with the row of a scheduler, its event and the reply. -/
theorem signs_event {α : Type} {amb : Ambient} {eventType : String} {payload : Option Jsonb} {e : Int}
    {reply : DB → α × DB} (hh : dbS.history = db.history) (hreply : ∀ db', (reply db').2.history = db'.history) :
    Ensures (fun r => Signs db r.2) (do
      let db₁ ← insertHistory dbS workflowID revision "scheduler" actorID (some e) nodeID iteration
        attemptNumber oldState newState reason
      let db₂ ← insertOutbox amb db₁ workflowID revision eventType payload
      .ok (reply db₂)) :=
  .bind (signs_insertHistory hh (by simp)) (fun _ h₁ => .bind (signs_insertOutbox h₁)
    (fun _ h₂ => .ok (fun key row hrow => h₂ key row (hreply _ ▸ hrow))))

end Statements

-- ============================================================================
-- Operations
-- ============================================================================

section Operations

variable {env : Env} {amb : Ambient} {db : DB}

theorem scheduleTimer_signs {input : ScheduleTimerInput} :
    Ensures (fun r => Signs db r.2) (scheduleTimer env amb input db) := by
  unfold scheduleTimer
  refine .skip (fun _ => .skip (fun _ => .skip (fun _ => .skip (fun _ => .skip (fun _ => .skip (fun _ => ?_))))))
  exact .skip (fun _ => signs_event rfl (fun _ => rfl))

theorem cancelWorkflowTx_signs {lease : LeaseRef} {workflow : Workflow} {actorID context : String} :
    Ensures (fun r => Signs db r.2) (cancelWorkflowTx env amb db lease workflow actorID context) := by
  unfold cancelWorkflowTx
  refine .bind (P := fun db₁ => db₁.history = db.history) (fun db₁ h => ?_) (fun db₁ h₁ =>
    .bind (P := fun db₂ => db₂.history = db.history) (fun db₂ h => ?_) (fun db₂ h₂ => signs_event h₂ (fun _ => rfl)))
  · obtain ⟨nodes, attempts, rfl, -⟩ := cancelNodes_eq_ok (nodup_listNodes _ _ _) h
    rfl
  · obtain ⟨slots, rfl, -⟩ := releaseAdmissionSlotTx_eq_ok h
    exact h₁

theorem cancelWorkflow_signs {input : CancelWorkflowInput} :
    Ensures (fun r => Signs db r.2) (cancelWorkflow env amb input db) := by
  unfold cancelWorkflow
  exact .skip (fun _ => .skip (fun _ => .skip (fun _ => cancelWorkflowTx_signs)))

theorem applyCancellationRequest_signs {lease : LeaseRef} {requestID actorID : String} :
    Ensures (fun r => Signs db r.2) (applyCancellationRequest env amb lease requestID actorID db) := by
  unfold applyCancellationRequest applyPendingRequest
  refine .skip (fun _ => .skip (fun _ => .skip (fun _ => .skip (fun request => .ite ?_ ?_))))
  · exact .skip (fun _ => .ok (.of_eq rfl))
  · refine .skip (fun _ => .skip (fun _ => .ite (.ok (.of_eq rfl)) (.ite (.ok (.of_eq rfl)) ?_)))
    exact .bind cancelWorkflowTx_signs (fun _ h => .ok h)

theorem moved_history {db : DB} {input : OwnerTransitionInput} {state : WorkflowState} {current : Option Int}
    {purpose : Option TimerPurpose} {timer : Option Timer} :
    (consumeTimer (moveOwnedNode db input state current purpose) timer).history = db.history := by
  have hmove : (moveOwnedNode db input state current purpose).history = db.history := by
    unfold moveOwnedNode
    split
    · rfl
    · split <;> rfl
  cases timer with
  | none => exact hmove
  | some t => exact hmove

theorem applyOwnerTransition_signs {input : OwnerTransitionInput} :
    Ensures (fun r => Signs db r.2) (applyOwnerTransition env input db) := by
  unfold applyOwnerTransition
  refine .skip (fun _ => .skip (fun _ => .skip (fun _ => .skip (fun _ => .skip (fun _ => .skip (fun _ =>
    .skip (fun _ => ?_)))))))
  refine .bind (P := fun db₁ => db₁.history = db.history) (fun db₁ h => ?_) (fun db₁ h₁ =>
    .bind (signs_insertHistory ?_ (by simp)) (fun _ h => .ok h))
  · obtain ⟨slots, rfl, -⟩ := releaseAdmissionSlotTx_eq_ok h
    rfl
  · rw [moved_history]
    exact h₁

theorem consumeResult_signs {input : ConsumeResultInput} :
    Ensures (fun r => Signs db r.2) (consumeResult env amb input db) := by
  unfold consumeResult
  refine .skip (fun _ => .skip (fun w => .skip (fun _ => .skip (fun _ => .skip (fun _ => .skip (fun a =>
    .skip (fun _ => .skip (fun _ => ?_))))))))
  refine .bind (P := fun r => r.2.history = db.history) (fun ⟨⟨_, _⟩, db₁⟩ h => ?_) (fun ⟨⟨_, _⟩, db₁⟩ h₁ => ?_)
  · obtain ⟨⟨policies, rfl⟩, -⟩ := spendRetry_eq_ok h
    rfl
  refine .bind (P := fun _ => True) (fun _ _ => trivial) (fun nodeState _ => .skip (fun _ => ?_))
  refine .bind (P := fun db₂ => db₂.history = db.history) (fun db₂ h => ?_) (fun db₂ h₂ => ?_)
  · obtain ⟨slots, rfl, -⟩ := releaseAdmissionSlotTx_eq_ok h
    exact h₁
  refine .bind (signs_insertHistory h₂ (by simp)) (fun db₃ h₃ => ?_)
  refine .bind (P := Signs db) (fun db₄ h => ?_) (fun db₄ h₄ => .bind (signs_insertOutbox h₄) (fun _ h => .ok h))
  unfold insertRetryTimer at h
  split at h
  · simp only [bind_eq_ok, getOr_eq_ok, pure_eq_ok] at h
    obtain ⟨timers, -, rfl⟩ := h
    exact h₃
  · cases h
    exact h₃

theorem createAttempt_signs {input : AttemptInput} :
    Ensures (fun r => Signs db r.2) (createAttempt env amb input db) := by
  unfold createAttempt
  refine .skip (fun _ => .skip (fun _ => .skip (fun _ => .skip (fun _ => .skip (fun _ => .skip (fun ⟨_, _⟩ =>
    .skip (fun _ => .skip (fun _ => .skip (fun _ => .skip (fun _ => ?_))))))))))
  refine .bind (P := fun db₁ => db₁.history = db.history) (fun db₁ h => ?_) (fun db₁ h₁ => signs_event h₁ (fun _ => rfl))
  obtain ⟨-, attempts, -, rfl⟩ := insertAttempt_eq_ok h
  rfl

theorem recordResultReceipt_signs {input : ResultInput} :
    Ensures (fun r => Signs db r.2) (recordResultReceipt amb input db) := by
  unfold recordResultReceipt settleResult acceptResult
  refine .skip (fun _ => .skip (fun _ => .skip (fun _ => .skip (fun _ => .skip (fun _ => .skip (fun _ =>
    .skip (fun _ => .skip (fun a => .skip (fun _ => .ite ?_ (.ite ?_ ?_))))))))))
  · exact .skip (fun _ => .ok (.of_eq rfl))
  · refine .bind (P := fun r => r.2.history = db.history) (fun ⟨_, db₁⟩ h => ?_) (fun ⟨_, db₁⟩ h => .ok (.of_eq h))
    obtain ⟨evidence, hframe, -⟩ := insertAttemptEvidence_eq_ok h
    rw [hframe]
  · refine .skip (fun _ => .skip (fun _ => .skip (fun _ => ?_)))
    exact .bind (signs_insertHistory rfl (by decide)) (fun _ h => .bind (signs_insertOutbox h) (fun _ h => .ok h))

theorem openExpiredAttempt_history {db : DB} {workflow : Workflow} {input : TimeoutInput} {detail : Jsonb} :
    (openExpiredAttempt db workflow input detail).history = db.history := by
  unfold openExpiredAttempt
  dsimp only
  split <;> rfl

theorem timeoutAttempt_signs {input : TimeoutInput} :
    Ensures (fun r => Signs db r.2) (timeoutAttempt env amb input db) := by
  unfold timeoutAttempt redispatch requireReconciliation replaceAttempt updateRevisionAndHistory
  refine .skip (fun _ => .skip (fun _ => .skip (fun _ => .skip (fun _ => .skip (fun _ => .skip (fun _ =>
    .skip (fun _ => .skip (fun a => .skip (fun _ => .ite ?_ (.ite .error (.ite ?_ ?_)))))))))))
  · exact signs_event rfl (fun _ => rfl)
  · refine .skip (fun _ => .bind (signs_insertHistory ?_ (by simp)) (fun _ h =>
      .bind (signs_insertOutbox h) (fun _ h => .ok h)))
    exact openExpiredAttempt_history
  · refine .bind (P := fun db₁ => db₁.history = db.history) (fun db₁ h => ?_) (fun db₁ h₁ =>
      signs_event h₁ (fun _ => rfl))
    obtain ⟨-, attempts, -, rfl⟩ := insertAttempt_eq_ok h
    rfl

theorem advanceGraph_signs {input : AdvanceGraphInput} :
    Ensures (fun r => Signs db r.2) (advanceGraph env amb input db) := by
  unfold advanceGraph
  refine .skip (fun _ => .skip (fun _ => .skip (fun _ => .skip (fun _ => .skip (fun _ => .skip (fun _ =>
    .skip (fun _ => .skip (fun _ => .skip (fun _ => .skip (fun _ => .skip (fun _ => .skip (fun _ => ?_))))))))))))
  refine .bind (P := fun r => r.2.history = db.history) (fun ⟨_, db₁⟩ h => ?_) (fun ⟨_, db₁⟩ h₁ => ?_)
  · obtain ⟨nodes, policies, hframe, -⟩ := createNexts_eq_ok h
    change db₁ = _ at hframe
    rw [hframe]
    rfl
  · refine .bind (P := fun db₂ => db₂.history = db.history) (fun db₂ h => ?_) (fun db₂ h₂ =>
      signs_event h₂ (fun _ => rfl))
    obtain ⟨slots, rfl, -⟩ := releaseAdmissionSlotTx_eq_ok h
    exact h₁

theorem createApprovalIntent_signs {input : ApprovalIntentInput} :
    Ensures (fun r => Signs db r.2) (createApprovalIntent env amb input db) := by
  unfold createApprovalIntent insertIntent
  refine .skip (fun _ => .skip (fun _ => .skip (fun _ => .skip (fun _ => .skip (fun _ => .skip (fun _ => ?_))))))
  split
  next => exact .skip (fun _ => .ok (.of_eq rfl))
  next =>
    exact .skip (fun _ => .skip (fun _ => .ite (signs_event rfl (fun _ => rfl)) (.ok (.of_eq rfl))))

theorem applyApproval_signs {input : ApplyApprovalInput} :
    Ensures (fun r => Signs db r.2) (applyApproval env amb input db) := by
  unfold applyApproval rejectApproval grantApproval
  refine .skip (fun _ => .skip (fun _ => .skip (fun _ => .skip (fun _ => .skip (fun _ => .skip (fun _ =>
    .skip (fun _ => .ite ?_ ?_)))))))
  · refine .bind (P := fun db₁ => db₁.history = db.history) (fun db₁ h => ?_) (fun db₁ h₁ =>
      signs_event h₁ (fun _ => rfl))
    obtain ⟨slots, rfl, -⟩ := releaseAdmissionSlotTx_eq_ok h
    rfl
  · exact .skip (fun _ => .skip (fun _ => signs_event rfl (fun _ => rfl)))

theorem createWorkflow_signs {input : CreateWorkflowInput} :
    Ensures (fun r => Signs db r.2) (createWorkflow env amb input db) := by
  unfold createWorkflow submitWorkflow insertWorkflow
  refine .skip (fun _ => ?_)
  split
  next => exact .skip (fun _ => .ok (.of_eq rfl))
  refine .skip (fun _ => .skip (fun _ => .skip (fun _ => .skip (fun _ => .skip (fun _ => ?_)))))
  split
  next => exact .skip (fun _ => .ok (.of_eq rfl))
  refine .skip (fun _ => .skip (fun _ => ?_))
  refine .bind (P := fun db₁ => db₁.history = db.history) (fun db₁ h => ?_) (fun db₁ h₁ => ?_)
  · split at h
    · simp only [insertAdmissionSlot, bind_eq_ok, getOr_eq_ok, pure_eq_ok] at h
      obtain ⟨slots, -, rfl⟩ := h
      rfl
    · cases h
      rfl
  · refine .skip (fun _ => .skip (fun _ => .bind (signs_insertHistory ?_ (by decide)) (fun _ h =>
      .bind (signs_insertOutbox h) (fun _ h => .ok h))))
    obtain ⟨policies, heq, -⟩ := ensureRetryPolicyTx_eq { db₁ with nodes := _ } ⟨input.workflowID, input.initialNodeID, 0⟩
    rw [heq]
    exact h₁

/-- The operations that write history. -/
def Op.moves {α : Type} : Op α → Bool
  | .createWorkflow _ | .applyOwnerTransition _ | .consumeResult _ | .createAttempt _ | .recordResultReceipt _
  | .timeoutAttempt _ | .scheduleTimer _ | .cancelWorkflow _ | .advanceGraph _ | .createApprovalIntent _
  | .applyApproval _ | .applyCancellationRequest _ _ _ => true
  | _ => false

theorem Change.history_of_quiet {α : Type} {op : Op α} {db' : DB} (h : Change db op db')
    (hquiet : op.moves = false) : db'.history = db.history := by
  cases h with
  | idle rows => exact rows.history
  | claimed c => exact c.history
  | extended c => exact c.history
  | canceled c hcancels =>
      cases op with
      | cancelWorkflow input => cases hquiet
      | applyCancellationRequest lease requestID actorID => cases hquiet
      | _ => exact hcancels.elim
  | _ => cases hquiet

/-- Every history row that an operation writes is signed. -/
theorem Op.signs {α : Type} {op : Op α} {a : α} {db' : DB} (h : op.run env amb db = .ok (a, db')) :
    Signs db db' := by
  cases op with
  | createWorkflow input => exact createWorkflow_signs _ h
  | applyOwnerTransition input => exact applyOwnerTransition_signs _ h
  | consumeResult input => exact consumeResult_signs _ h
  | createAttempt input => exact createAttempt_signs _ h
  | recordResultReceipt input => exact recordResultReceipt_signs _ h
  | timeoutAttempt input => exact timeoutAttempt_signs _ h
  | scheduleTimer input => exact scheduleTimer_signs _ h
  | cancelWorkflow input => exact cancelWorkflow_signs _ h
  | advanceGraph input => exact advanceGraph_signs _ h
  | createApprovalIntent input => exact createApprovalIntent_signs _ h
  | applyApproval input => exact applyApproval_signs _ h
  | applyCancellationRequest lease requestID actorID => exact applyCancellationRequest_signs _ h
  | _ => exact .of_eq ((Op.run_commit h).change.history_of_quiet rfl)

end Operations

-- ============================================================================
-- Epochs
-- ============================================================================

/-- A lease that was ever taken has a positive epoch. -/
def EpochsPositive (db : DB) : Prop :=
  ∀ p row, db.leases.get p = some row → 0 ≤ row.epoch ∧ (row.ownerID.isSome = true → 0 < row.epoch)

theorem EpochsPositive.of_modify {db db' : DB} {p : Int} {f : LeaseRow → LeaseRow}
    {hf : ∀ l, (f l).partitionID = l.partitionID} (h : EpochsPositive db)
    (hdb' : db'.leases = db.leases.modify p f hf) (hepoch : ∀ l, (f l).epoch = l.epoch)
    (howner : ∀ l, (f l).ownerID.isSome = true → l.ownerID.isSome = true) : EpochsPositive db' := by
  intro q row hrow
  rw [hdb', Table.get_modify] at hrow
  split at hrow
  · obtain ⟨row₀, hrow₀, rfl⟩ := Option.map_eq_some_iff.mp hrow
    rw [hepoch]
    exact ⟨(h q row₀ hrow₀).1, fun hheld => (h q row₀ hrow₀).2 (howner row₀ hheld)⟩
  · exact h q row hrow

theorem EpochsPositive.change {db db' : DB} {α : Type} {op : Op α} (h : EpochsPositive db)
    (hc : LeaseChange db op db') : EpochsPositive db' := by
  cases hc with
  | same leases => exact fun p row hrow => h p row (leases ▸ hrow)
  | acquired partitionID ownerID ttl row row' before acquired after others =>
      intro p row₀ hrow
      by_cases hp : p = partitionID
      · rw [hp, after, Option.some.injEq] at hrow
        subst hrow
        obtain ⟨hnonneg, hheld⟩ := h partitionID row before
        have hpositive : 0 < row'.epoch := by
          rcases acquired.epoch with he | ⟨he, hown, -⟩
          · omega
          · rw [he]
            exact hheld (by rw [hown]; rfl)
        exact ⟨hpositive.le, fun _ => hpositive⟩
      · exact h p row₀ (others p hp ▸ hrow)
  | renewed ref ttl valid leases => exact h.of_modify leases (fun _ => rfl) (fun _ hheld => hheld)
  | released ref valid leases => exact h.of_modify leases (fun _ => rfl) (fun _ hheld => nomatch hheld)

/-- Every row of a scheduler carries a positive epoch, and no other row carries an epoch. -/
def HistorySigned (db : DB) : Prop :=
  ∀ key row, db.history.get key = some row → row.Signed ∧ ∀ e, row.schedulerEpoch = some e → 0 < e

theorem Reachable.historySigned {env : Env} {db : DB} (h : Reachable env db) : HistorySigned db := by
  have hboth : EpochsPositive db ∧ HistorySigned db := by
    refine h.induction (I := fun db => EpochsPositive db ∧ HistorySigned db) (fun now =>
      ⟨fun p row hrow => ?_, fun _ _ hrow => (nomatch hrow)⟩) (fun db db' hi hs => ?_)
    · obtain ⟨q, -, rfl⟩ := List.mem_map.mp (Table.mem_of_get hrow)
      exact ⟨le_refl _, fun hheld => nomatch hheld⟩
    · obtain ⟨hpositive, hsigned⟩ := hi
      cases hs with
      | tick d => exact ⟨hpositive, hsigned⟩
      | commit amb op a hrun =>
          have hcommit := Op.run_commit hrun
          refine ⟨hpositive.change hcommit.leases, fun key row hrow => ?_⟩
          cases hold : db.history.get key with
          | some row' =>
              rw [hcommit.change.history_persists hold, Option.some.injEq] at hrow
              exact hsigned key row (hrow ▸ hold)
          | none =>
              refine ⟨(Op.signs hrun key row hrow).resolve_left (by rw [hold]; exact fun h => nomatch h),
                fun e he => ?_⟩
              -- the epoch of a new row is that of a lease that is held
              obtain ⟨-, hsame⟩ | ⟨w, row', -, hins, -, -, -, -, hnone⟩ | ⟨w, newState, row', hmoves⟩ :=
                hcommit.change.history_cases
              · rw [hsame, hold] at hrow
                cases hrow
              · rw [Table.get_insert hins] at hrow
                split at hrow
                · cases hrow
                  rw [hnone] at he
                  cases he
                · rw [hold] at hrow
                  cases hrow
              · rw [Table.get_insert hmoves.history] at hrow
                split at hrow
                · cases hrow
                  obtain ⟨ref, ⟨lease, hlease, howner, hepoch, -⟩, -, rfl⟩ := hmoves.epoch e he
                  rw [← hepoch]
                  exact (hpositive _ lease hlease).2 (by rw [howner]; rfl)
                · rw [hold] at hrow
                  cases hrow
  exact hboth.2

end DurableEngine.State
