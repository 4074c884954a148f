/-
  DurableEngine.Services.Awaiting

  What becomes of a request for an approval: whether the intent it gets can be
  decided, and whether the decision can be applied.

  `CreateApprovalIntent` returns an undecided intent of the node as it is, and
  moves the node only together with its workflow.  `ApplyApproval` asks for a
  workflow that waits for approval, which has one state for all its nodes.
-/

import DurableEngine.Services.Exclusion
import DurableEngine.State.Provision

namespace DurableEngine.Services

open Lib State

-- ============================================================================
-- The property
-- ============================================================================

/-- The node is in the state. -/
def NodeIn (db : DB) (k : NodeKey) (state : WorkflowState) : Prop :=
  (db.nodes.get k).map (·.state) = some state

/-- The workflow is in the state. -/
def WorkflowIn (db : DB) (id : String) (state : WorkflowState) : Prop :=
  (db.workflows.get id).map (·.state) = some state

/-- The intent is stored undecided and unexpired, and its node and its workflow wait for it. -/
structure AwaitsDecision (clock : Int) (intent : ApprovalIntent) (db : DB) : Prop where
  stored : db.intents.get intent.intentID = some intent
  pending : intent.decision = .pending
  ungranted : intent.dispatchStatus = .notGranted
  unexpired : clock < intent.validUntil
  node : NodeIn db intent.node .waitingApproval
  workflow : WorkflowIn db intent.node.workflowID .waitingApproval

/-- The node has an undecided intent that has not expired, and waits for it with its workflow; or it
    has none, and either its workflow runs or the node waits already. -/
def Answerable (clock : Int) (k : NodeKey) (db : DB) : Prop :=
  match db.pendingIntent k with
  | some old => clock < old.validUntil ∧ NodeIn db k .waitingApproval ∧
      WorkflowIn db k.workflowID .waitingApproval
  | none => WorkflowIn db k.workflowID .runnable ∨ NodeIn db k .waitingApproval

/-- The lease holder applies the intent `i` at the current revision of `w`, which is not about to be
    canceled. -/
structure AppliesIntent (amb : Ambient) (input : ApplyApprovalInput) (i : ApprovalIntent) (w : Workflow)
    (db : DB) : Prop where
  complete : ¬ (input.workflowID = "" ∨ input.nodeID = "" ∨ input.intentID = "" ∨ input.actorID = "")
  owned : Owned db input.lease input.workflowID w
  current : input.expectedRevision = w.revision
  node : input.key = i.node
  intent : uuidText input.intentID = some i.intentID
  effect : input.logicalEffectKey ≠ ""
  uncanceled : ¬ ∃ c ∈ db.cancellations.rows, c.workflowID = input.workflowID ∧ c.status = .pending
  fresh : db.outbox.get amb.eventID = none

/-- The call commits, and the intent is granted. -/
def ApplicationGrants (env : Env) (amb : Ambient) (input : ApplyApprovalInput) (i : ApprovalIntent) (db : DB) :
    Prop :=
  ∃ grant db' i', applyApproval env amb input db = .ok (grant, db') ∧
    db'.intents.get i.intentID = some i' ∧ i'.dispatchStatus = .granted

-- ============================================================================
-- Requests
-- ============================================================================

/-- What a request that commits has read, and what it wrote. -/
structure Requested (amb : Ambient) (input : ApprovalIntentInput) (w : Workflow) (n : NodeInstance)
    (intent : ApprovalIntent) (db db' : DB) : Prop where
  workflow : db.workflows.get input.workflowID = some w
  ready : w.state = .runnable ∨ w.state = .waitingApproval
  node : db.nodes.get input.key = some n
  answer : db.pendingIntent input.key = some intent ∧ db' = db ∨
    db.pendingIntent input.key = none ∧ Inserted db.intents intent db'.intents ∧
      intent.node = input.key ∧ intent.decision = .pending ∧ intent.dispatchStatus = .notGranted ∧
      amb.wallClock < intent.validUntil ∧
      if w.state = .runnable then
        NodeIn db' input.key .waitingApproval ∧ WorkflowIn db' input.workflowID .waitingApproval
      else db'.nodes = db.nodes ∧ db'.workflows = db.workflows

theorem createApprovalIntent_eq_ok {env : Env} {amb : Ambient} {input : ApprovalIntentInput} {db db' : DB}
    {intent : ApprovalIntent} (h : createApprovalIntent env amb input db = .ok (intent, db')) :
    ∃ w n, Requested amb input w n intent db db' := by
  simp only [createApprovalIntent, bind_eq_ok, getOr_eq_ok, rejectIf_eq_ok, exists_const] at h
  obtain ⟨hnamed, hash, -, w, hlock, hready, n, hn, -, h⟩ := h
  have hw := (lockApprovalWorkflow_eq_ok hlock).1.get
  have hready : w.state = .runnable ∨ w.state = .waitingApproval := by
    by_contra hother
    exact hready (not_or.mp hother)
  have hfuture : amb.wallClock < input.validUntil := by
    by_contra hpast
    exact hnamed (.inr (.inr (.inr hpast)))
  split at h
  · rename_i existing hpending
    simp only [bind_eq_ok, rejectIf_eq_ok, exists_const, pure_eq_ok, Prod.mk.injEq] at h
    obtain ⟨-, rfl, rfl⟩ := h
    exact ⟨w, n, hw, hready, hn, .inl ⟨hpending, rfl⟩⟩
  · rename_i hpending
    simp only [insertIntent, bind_eq_ok, getOr_eq_ok] at h
    obtain ⟨arguments, -, intents, hins, h⟩ := h
    split at h
    · rename_i hrunnable
      simp only [bind_eq_ok, pure_eq_ok, Prod.mk.injEq] at h
      obtain ⟨db₁, hhist, db₂, hout, rfl, rfl⟩ := h
      obtain ⟨history, -, rfl⟩ := insertHistory_eq_ok hhist
      obtain ⟨-, event, outbox, -, -, -, -, -, rfl⟩ := insertOutbox_eq_ok hout
      refine ⟨w, n, hw, hready, hn, .inr ⟨hpending, hins, rfl, rfl, rfl, hfuture, ?_⟩⟩
      rw [if_pos hrunnable]
      constructor
      · have hnode := DB.get_modifyNode { db with intents := intents } input.key input.key (fun n => { n with
          state := .waitingApproval, revision := n.revision + 1 }) (fun _ => rfl)
        rw [if_pos rfl, show ({ db with intents := intents } : DB).nodes.get input.key = some n from hn] at hnode
        exact congrArg (Option.map _) hnode
      · have hworkflow := DB.get_setWorkflow db input.workflowID input.workflowID .waitingApproval
          (w.revision + 1)
        rw [if_pos rfl, hw] at hworkflow
        exact congrArg (Option.map _) hworkflow
    · rename_i hwaiting
      simp only [pure_eq_ok, Prod.mk.injEq] at h
      obtain ⟨rfl, rfl⟩ := h
      refine ⟨w, n, hw, hready, hn, .inr ⟨hpending, hins, rfl, rfl, rfl, hfuture, ?_⟩⟩
      rw [if_neg hwaiting]
      exact ⟨rfl, rfl⟩

/-- The intent that a request gets can be decided exactly when the node can answer it. -/
theorem Requested.awaits_iff {amb : Ambient} {input : ApprovalIntentInput} {w : Workflow}
    {n : NodeInstance} {intent : ApprovalIntent} {db db' : DB}
    (h : Requested amb input w n intent db db') :
    AwaitsDecision amb.wallClock intent db' ↔ Answerable amb.wallClock input.key db := by
  unfold Answerable
  obtain ⟨hpending, rfl⟩ | ⟨hpending, hins, hnode, hdecision, hstatus, hfuture, hmoved⟩ := h.answer
  · have hshown := List.find?_some hpending
    simp only [Bool.and_eq_true, decide_eq_true_eq] at hshown
    obtain ⟨⟨hnode, hdecision⟩, hstatus⟩ := hshown
    rw [hpending, ← hnode]
    constructor
    · intro hawaits
      exact ⟨hawaits.unexpired, hawaits.node, hawaits.workflow⟩
    · rintro ⟨hunexpired, hn, hw⟩
      exact ⟨Table.get_of_mem (List.mem_of_find?_eq_some hpending), hdecision, hstatus, hunexpired, hn, hw⟩
  · rw [hpending]
    have hstored : db'.intents.get intent.intentID = some intent := Table.get_insert_self hins
    constructor
    · intro hawaits
      rcases h.ready with hrunnable | hwaiting
      · exact .inl (congrArg (Option.map _) h.workflow |>.trans (congrArg some hrunnable))
      · rw [if_neg (by rw [hwaiting]; decide)] at hmoved
        have hn := hawaits.node
        rw [hnode, NodeIn, hmoved.1] at hn
        exact .inr hn
    · intro hanswerable
      have hboth : NodeIn db' input.key .waitingApproval ∧
          WorkflowIn db' input.workflowID .waitingApproval := by
        rcases h.ready with hrunnable | hwaiting
        · rwa [if_pos hrunnable] at hmoved
        · rw [if_neg (by rw [hwaiting]; decide)] at hmoved
          have hw : WorkflowIn db input.workflowID .waitingApproval :=
            (congrArg (Option.map _) h.workflow).trans (congrArg some hwaiting)
          rw [NodeIn, WorkflowIn, hmoved.1, hmoved.2]
          obtain hrunnable | hn := hanswerable
          · rw [WorkflowIn, show input.key.workflowID = input.workflowID from rfl, hw] at hrunnable
            cases hrunnable
          · exact ⟨hn, hw⟩
      rw [← hnode] at hboth
      exact ⟨hstored, hdecision, hstatus, hfuture, hboth.1,
        show WorkflowIn db' intent.node.workflowID _ by rw [hnode] at hboth ⊢; exact hboth.2⟩

-- ============================================================================
-- Decisions
-- ============================================================================

/-- Nothing changes the node and the validity of an intent, nor a decision once it was taken. -/
def DecisionsKept (db db' : DB) : Prop :=
  ∀ id i, db.intents.get id = some i → ∃ i', db'.intents.get id = some i' ∧ i'.node = i.node ∧
    i'.validUntil = i.validUntil ∧ (i.decision ≠ .pending → i'.decision = i.decision)

theorem DecisionsKept.of_eq {db db' : DB} (h : db'.intents = db.intents) : DecisionsKept db db' :=
  fun _ i hi => ⟨i, by rw [h]; exact hi, rfl, rfl, fun _ => rfl⟩

theorem DecisionsKept.of_inserted {db db' : DB} {intent : ApprovalIntent}
    (h : Inserted db.intents intent db'.intents) : DecisionsKept db db' :=
  fun _ i hi => ⟨i, Table.get_insert_of_get h hi, rfl, rfl, fun _ => rfl⟩

/-- One intent is rewritten. -/
theorem DecisionsKept.of_modify {db db' : DB} {id : String} {i : ApprovalIntent}
    (hget : db.intents.get id = some i) (f : ApprovalIntent → ApprovalIntent)
    (hf : ∀ i, (f i).intentID = i.intentID) (h : db'.intents = db.intents.modify id f hf)
    (hnode : (f i).node = i.node) (hvalid : (f i).validUntil = i.validUntil)
    (hdecision : i.decision ≠ .pending → (f i).decision = i.decision) : DecisionsKept db db' := by
  intro id' i' hi'
  rw [h, Table.get_modify_of_get hget]
  split
  · rename_i heq
    subst heq
    rw [hget] at hi'
    cases hi'
    exact ⟨f i, rfl, hnode, hvalid, hdecision⟩
  · exact ⟨i', hi', rfl, rfl, fun _ => rfl⟩

theorem recordApprovalDecision_decisions {amb : Ambient} {input : ApprovalDecisionInput} {db db' : DB}
    {r : ApprovalIntent} (h : recordApprovalDecision amb input db = .ok (r, db')) :
    DecisionsKept db db' ∧ ∃ id i, uuidText input.intentID = some id ∧ db'.intents.get id = some i ∧
      i.decision = input.decision := by
  simp only [recordApprovalDecision, bind_eq_ok, getOr_eq_ok, rejectIf_eq_ok, exists_const] at h
  obtain ⟨-, id, hid, intent, hintent, -, h⟩ := h
  split at h
  · simp only [bind_eq_ok, rejectIf_eq_ok, exists_const, pure_eq_ok, Prod.mk.injEq] at h
    obtain ⟨hsame, -, rfl⟩ := h
    exact ⟨.of_eq rfl, id, intent, hid, hintent, not_not.mp (not_or.mp hsame).1⟩
  · rename_i hpending
    simp only [bind_eq_ok, rejectIf_eq_ok, exists_const, pure_eq_ok, Prod.mk.injEq] at h
    obtain ⟨-, -, rfl⟩ := h
    refine ⟨.of_modify hintent (·.decide input.decision input.approverID input.decisionReason)
      (fun _ => rfl) rfl rfl rfl (fun hdecided => absurd hdecided hpending), id,
      intent.decide input.decision input.approverID input.decisionReason, hid, ?_, rfl⟩
    exact (Table.get_modify_of_get hintent (·.decide input.decision input.approverID input.decisionReason)
      (fun _ => rfl) _).trans (if_pos rfl)

theorem applyApproval_decisions {env : Env} {amb : Ambient} {input : ApplyApprovalInput} {db db' : DB}
    {r : ApprovalGrant} (h : applyApproval env amb input db = .ok (r, db')) : DecisionsKept db db' := by
  simp only [applyApproval, bind_eq_ok, getOr_eq_ok, rejectIf_eq_ok, exists_const,
    Option.filter_eq_some_iff] at h
  obtain ⟨-, w, -, -, id, -, intent, ⟨hintent, -⟩, -, -, h⟩ := h
  split at h
  · simp only [rejectApproval, bind_eq_ok, pure_eq_ok, Prod.mk.injEq] at h
    obtain ⟨db₁, hslot, db₂, hhist, db₃, hout, -, rfl⟩ := h
    obtain ⟨slots, rfl, -⟩ := releaseAdmissionSlotTx_eq_ok hslot
    obtain ⟨history, -, rfl⟩ := insertHistory_eq_ok hhist
    obtain ⟨-, event, outbox, -, -, -, -, -, rfl⟩ := insertOutbox_eq_ok hout
    exact .of_modify hintent (·.withdraw) (fun _ => rfl) rfl rfl rfl (fun _ => rfl)
  · simp only [grantApproval, bind_eq_ok, rejectIf_eq_ok, exists_const, pure_eq_ok,
      Prod.mk.injEq] at h
    obtain ⟨-, -, db₁, hhist, db₂, hout, -, rfl⟩ := h
    obtain ⟨history, -, rfl⟩ := insertHistory_eq_ok hhist
    obtain ⟨-, event, outbox, -, -, -, -, -, rfl⟩ := insertOutbox_eq_ok hout
    rw [← Table.key_of_get hintent] at hintent
    exact .of_modify hintent
      (·.grant amb.grantToken (grantScopeHash intent.proposalHash intent.expectedResourceRevision
        input.logicalEffectKey intent.target))
      (fun _ => rfl) rfl rfl rfl (fun _ => rfl)

theorem decisionsKept_of_commit {env : Env} {amb : Ambient} {α : Type} {op : Op α} {db db' : DB} {a : α}
    (h : op.run env amb db = .ok (a, db')) : DecisionsKept db db' := by
  have hframe := (Op.run_commit h).frame
  cases op with
  | createApprovalIntent input =>
      obtain ⟨w, n, hrequested⟩ := createApprovalIntent_eq_ok h
      obtain ⟨-, rfl⟩ | ⟨-, hins, -⟩ := hrequested.answer
      · exact .of_eq rfl
      · exact .of_inserted hins
  | recordApprovalDecision input => exact (recordApprovalDecision_decisions h).1
  | applyApproval input => exact applyApproval_decisions h
  | _ => exact .of_eq (by rw [hframe]; rfl)

theorem World.Step.decisionsKept {env : Env} {w w' : World} {events : List Event}
    (h : World.Step env w events w') : DecisionsKept w.db w'.db := by
  cases h with
  | tick _ d => exact .of_eq rfl
  | commit _ amb op a db' h _ => exact decisionsKept_of_commit h
  | relay _ events s' h => exact .of_eq (by rw [h.frame]; rfl)
  | consumer _ events db' h => exact .of_eq (by rw [h.frame]; rfl)
  | effect _ events s' h =>
      cases h.intents with
      | same h => exact .of_eq h
      | dispatched id intent h =>
          intro id' i hi
          rw [h.intents]
          split
          · rename_i heq
            subst heq
            rw [h.row] at hi
            cases hi
            exact ⟨intent.dispatch, rfl, rfl, rfl, fun _ => rfl⟩
          · exact ⟨i, hi, rfl, rfl, fun _ => rfl⟩

theorem World.Run.decisionsKept {env : Env} {w w' : World} {trace : List Event}
    (h : World.Run env w trace w') : DecisionsKept w.db w'.db := by
  refine h.relates (R := fun w w' => DecisionsKept w.db w'.db) (fun _ => .of_eq rfl) ?_
    (fun _ _ _ hs => hs.decisionsKept)
  intro a b c hab hbc id i hi
  obtain ⟨i', hi', hnode, hvalid, hdecision⟩ := hab id i hi
  obtain ⟨i'', hi'', hnode', hvalid', hdecision'⟩ := hbc id i' hi'
  refine ⟨i'', hi'', hnode'.trans hnode, hvalid'.trans hvalid, fun hdecided => ?_⟩
  have hsame := hdecision hdecided
  exact (hdecision' (by rw [hsame]; exact hdecided)).trans hsame

-- ============================================================================
-- Histories
-- ============================================================================

theorem historyComplete_congr {db db' : DB} (h : HistoryComplete db) (hw : db'.workflows = db.workflows)
    (hh : db'.history = db.history) : HistoryComplete db' where
  chain id w hget := by
    rw [DB.historyOf, hh]
    exact h.chain id w (hw ▸ hget)
  orphan id hget := by
    rw [DB.historyOf, hh]
    exact h.orphan id (hw ▸ hget)

theorem World.Step.historyComplete {env : Env} {w w' : World} {events : List Event}
    (h : World.Step env w events w') (hw : HistoryComplete w.db) : HistoryComplete w'.db := by
  cases h with
  | tick _ d => exact historyComplete_congr hw rfl rfl
  | commit _ amb op a db' h _ => exact hw.step (.commit amb op a h)
  | relay _ events s' h =>
      rw [h.frame]
      exact historyComplete_congr hw rfl rfl
  | consumer _ events db' h =>
      rw [h.frame]
      exact historyComplete_congr hw rfl rfl
  | effect _ events s' h =>
      rw [h.frame]
      exact historyComplete_congr hw rfl rfl

theorem World.Run.historyComplete {env : Env} {w w' : World} {trace : List Event}
    (h : World.Run env w trace w') (hw : HistoryComplete w.db) : HistoryComplete w'.db :=
  h.keeps (I := fun w => HistoryComplete w.db) hw (fun _ _ _ hw hs => hs.historyComplete hw)

-- ============================================================================
-- Texts
-- ============================================================================

/-- A printable ASCII character. -/
def IsPlain (c : Char) : Prop := 32 ≤ c.toNat ∧ c.toNat < 127

theorem quotable_of_plain {env : Env} {s : String} (h : ∀ c ∈ s.toList, IsPlain c) :
    quotable env s = true := by
  refine List.all_eq_true.mpr (fun c hc => ?_)
  obtain ⟨hlow, hhigh⟩ := h c hc
  simp only [quoteValid, Bool.or_eq_true, Bool.and_eq_true, decide_eq_true_eq]
  exact .inr ⟨⟨hlow, by omega⟩, .inl (by omega)⟩

theorem plain_of_hexLower? {c d : Char} (h : hexLower? c = some d) : IsPlain c := by
  have hall : ∀ n : Fin 128, (hexLower? (Char.ofNat n)).isSome →
      32 ≤ (Char.ofNat n).toNat ∧ (Char.ofNat n).toNat < 127 := by decide +kernel
  have hc := hall ⟨c.toNat, hexLower?_ascii h⟩
  rw [Char.ofNat_toNat, h] at hc
  exact hc rfl

/-- What is read as bytes is digits and hyphens. -/
theorem plain_of_uuidDigits : ∀ {n : Nat} {cs ds rest : List Char},
    uuidDigits n cs = some (ds, rest) → ∀ c ∈ cs, IsPlain c ∨ c ∈ rest
  | 0, cs, ds, rest, h, c, hc => by
      cases h
      exact .inr hc
  | n + 1, a :: b :: cs, ds, rest, h, c, hc => by
      simp only [uuidDigits, Option.bind_eq_bind, Option.bind_eq_some_iff] at h
      obtain ⟨a', ha, b', hb, ⟨ds', rest'⟩, hrec, heq⟩ := h
      simp only [Option.some.injEq, Prod.mk.injEq] at heq
      obtain ⟨-, rfl⟩ := heq
      rcases List.mem_cons.mp hc with rfl | hc
      · exact .inl (plain_of_hexLower? ha)
      rcases List.mem_cons.mp hc with rfl | hc
      · exact .inl (plain_of_hexLower? hb)
      split at hrec
      · rename_i hhyphen
        obtain ⟨tail, rfl⟩ := List.head?_eq_some_iff.mp hhyphen.1
        rcases List.mem_cons.mp hc with rfl | hc
        · exact .inl ⟨by decide, by decide⟩
        · exact plain_of_uuidDigits hrec c hc
      · exact plain_of_uuidDigits hrec c hc

/-- A literal of a `uuid` can be quoted. -/
theorem quotable_of_uuidText {env : Env} {s t : String} (h : uuidText s = some t) :
    quotable env s = true := by
  simp only [uuidText, Option.bind_eq_bind, Option.bind_eq_some_iff] at h
  obtain ⟨⟨ds, rest⟩, hdigits, h⟩ := h
  obtain ⟨hrest, -⟩ := Option.ite_none_right_eq_some.mp h
  simp only at hrest
  have hplain := plain_of_uuidDigits hdigits
  refine quotable_of_plain (fun c hc => ?_)
  split at hrest
  · rename_i hbrace
    obtain ⟨tail, hs⟩ := List.head?_eq_some_iff.mp hbrace
    rw [if_pos hbrace, hs] at hplain
    rw [hs] at hc
    rcases List.mem_cons.mp hc with rfl | hc
    · exact ⟨by decide, by decide⟩
    · rcases hplain c hc with hplain | hlast
      · exact hplain
      · rw [hrest, List.mem_singleton] at hlast
        rw [hlast]
        exact ⟨by decide, by decide⟩
  · rename_i hbrace
    rw [if_neg hbrace] at hplain
    rcases hplain c hc with hplain | hlast
    · exact hplain
    · rw [hrest] at hlast
      cases hlast

theorem quotable_hexSum {env : Env} (s : String) : quotable env (Sha256.hexSum s) = true := by
  have hdigit : ∀ n, IsPlain (Sha256.hexDigit n) := by
    intro n
    by_cases hn : n < 16
    · have hall : ∀ m : Fin 16, 32 ≤ (Sha256.hexDigit m).toNat ∧ (Sha256.hexDigit m).toNat < 127 := by
        decide
      exact hall ⟨n, hn⟩
    · have hzero : Sha256.hexDigit n = '0' := by
        rw [Sha256.hexDigit, List.getD_eq_getElem?_getD, List.getElem?_eq_none (Nat.not_lt.mp hn)]
        rfl
      rw [hzero]
      exact ⟨by decide, by decide⟩
  refine quotable_of_plain (fun c hc => ?_)
  rw [Sha256.hexSum, Sha256.hexString, String.toList_ofList, List.mem_flatMap] at hc
  obtain ⟨b, -, hc⟩ := hc
  simp only [List.mem_cons, List.not_mem_nil, or_false] at hc
  rcases hc with rfl | rfl <;> exact hdigit _

-- ============================================================================
-- Applications
-- ============================================================================

theorem AppliesIntent.commits (env : Env) {amb : Ambient} {input : ApplyApprovalInput}
    {i : ApprovalIntent} {w : Workflow} {db : DB} (h : AppliesIntent amb input i w db)
    (hhist : HistoryComplete db) (hrow : db.intents.get i.intentID = some i)
    (happroved : i.decision = .approved) (hstate : w.state = .waitingApproval)
    (hstatus : i.dispatchStatus = .notGranted) (hvalid : amb.wallClock < i.validUntil) :
    Succeeds (fun r => ∃ i', r.2.intents.get i.intentID = some i' ∧ i'.dispatchStatus = .granted)
      (applyApproval env amb input db) := by
  have hintent : (db.intents.get i.intentID).filter (fun i => i.node = input.key) = some i := by
    rw [hrow, Option.filter_some, if_pos (decide_eq_true h.node.symm)]
  have hundecided : i.decision ≠ .rejected := by
    rw [happroved]
    decide
  unfold applyApproval
  refine .unless h.complete ?_
  rw [h.current, lockApprovalWorkflow_of_owned h.owned]
  refine .unless (not_not.mpr hstate) (.found h.intent (.found hintent
    (.unless (not_not.mpr hstatus) (.unless h.uncanceled ?_))))
  rw [if_neg hundecided]
  refine .unless ?_ (.unless (not_not.mpr hvalid) ?_)
  · rintro (hother | hunnamed)
    · exact hother happroved
    · exact h.effect hunnamed
  refine .bind (insertHistory_succeeds (fun hempty => h.complete (.inr (.inr (.inr hempty)))) ?_) ?_
  · exact hhist.free h.owned.get
  rintro db₁ ⟨history, rfl⟩
  obtain ⟨document, hdoc⟩ := @sprintfJson_of_quotable env
    [("intent_id", .quoted input.intentID), ("grant_scope_hash", .quoted (grantScopeHash i.proposalHash
      i.expectedResourceRevision input.logicalEffectKey i.target))] (by simp; decide) (by
        simp only [List.forall_mem_cons, Field.quotable, List.not_mem_nil]
        exact ⟨quotable_of_uuidText h.intent, quotable_hexSum _, by simp⟩)
  refine .bind (insertOutbox_succeeds rfl hdoc h.fresh) ?_
  rintro db₂ ⟨outbox, rfl⟩
  exact .ok ⟨_, (Table.get_modify_of_get hrow (·.grant amb.grantToken (grantScopeHash i.proposalHash
    i.expectedResourceRevision input.logicalEffectKey i.target)) (fun _ => rfl) _).trans (if_pos rfl), rfl⟩

/-- An approved intent is granted exactly while the workflow waits, and until it expires. -/
theorem AppliesIntent.grants_iff {env : Env} {amb : Ambient} {input : ApplyApprovalInput}
    {i : ApprovalIntent} {w : Workflow} {db : DB} (h : AppliesIntent amb input i w db)
    (hhist : HistoryComplete db) (hrow : db.intents.get i.intentID = some i)
    (happroved : i.decision = .approved) :
    ApplicationGrants env amb input i db ↔
      w.state = .waitingApproval ∧ i.dispatchStatus = .notGranted ∧ amb.wallClock < i.validUntil := by
  have hundecided : i.decision ≠ .rejected := by
    rw [happroved]
    decide
  constructor
  · rintro ⟨grant, db', -, hok, -⟩
    simp only [applyApproval, bind_eq_ok, getOr_eq_ok, rejectIf_eq_ok, exists_const,
      Option.filter_eq_some_iff] at hok
    obtain ⟨-, w', hlock, hstate, id, hid, i', ⟨hi', -⟩, hstatus, -, hok⟩ := hok
    have hw' := (lockApprovalWorkflow_eq_ok hlock).1.get
    rw [h.owned.get] at hw'
    cases hw'
    rw [h.intent, Option.some.injEq] at hid
    subst hid
    rw [hrow] at hi'
    cases hi'
    rw [if_neg hundecided] at hok
    simp only [grantApproval, bind_eq_ok, rejectIf_eq_ok, exists_const] at hok
    obtain ⟨-, hvalid, -⟩ := hok
    exact ⟨not_not.mp hstate, not_not.mp hstatus, not_not.mp hvalid⟩
  · rintro ⟨hstate, hstatus, hvalid⟩
    obtain ⟨⟨grant, db'⟩, hok, i', hi', hgranted⟩ := h.commits env hhist hrow happroved hstate hstatus hvalid
    exact ⟨grant, db', i', hok, hi', hgranted⟩

-- ============================================================================
-- From the request to the grant
-- ============================================================================

/-- An approval of the intent was recorded in `db`, which left `db'`. -/
structure Approves (amb : Ambient) (input : ApprovalDecisionInput) (intent : ApprovalIntent)
    (db db' : DB) : Prop where
  named : uuidText input.intentID = some intent.intentID
  approved : input.decision = .approved
  unexpired : amb.wallClock < intent.validUntil
  recorded : ∃ r, recordApprovalDecision amb input db = .ok (r, db')

/-- What becomes of the requests for an approval in `w`.  The intent that a request gets can be
    decided exactly when the node can answer it.  Once it was approved, and whatever else was
    committed before and after that, it is granted exactly while its workflow waits, when it is not
    granted yet and has not expired.  And no request replaces an expired intent. -/
structure ApprovalsAnswered (env : Env) (w : World) : Prop where
  created : ∀ amb input intent db', createApprovalIntent env amb input w.db = .ok (intent, db') →
    (AwaitsDecision amb.wallClock intent db' ↔ Answerable amb.wallClock input.key w.db)
  granted : ∀ amb input intent db₁, createApprovalIntent env amb input w.db = .ok (intent, db₁) →
    ∀ trace₁ w₁, World.Run env { w with db := db₁ } trace₁ w₁ →
    ∀ amb₁ decision db₂, Approves amb₁ decision intent w₁.db db₂ →
    ∀ trace₂ w₂, World.Run env { w₁ with db := db₂ } trace₂ w₂ →
    ∃ i, w₂.db.intents.get intent.intentID = some i ∧
      ∀ amb₂ input₂ wf, AppliesIntent amb₂ input₂ i wf w₂.db →
        (ApplicationGrants env amb₂ input₂ i w₂.db ↔ wf.state = .waitingApproval ∧ i.dispatchStatus = .notGranted ∧
          amb₂.wallClock < intent.validUntil)
  renewed : ∀ amb input old, w.db.pendingIntent input.key = some old → ¬ amb.wallClock < old.validUntil →
    ∀ intent db', createApprovalIntent env amb input w.db = .ok (intent, db') →
      ¬ AwaitsDecision amb.wallClock intent db'

/-- In every state that any interleaving of everything reaches. -/
theorem approvals_answered {env : Env} {now : Int} {trace : List Event} {w : World}
    (h : World.Run env (World.start now) trace w) : ApprovalsAnswered env w where
  created amb input intent db' hrequest := by
    obtain ⟨wf, n, hrequested⟩ := createApprovalIntent_eq_ok hrequest
    exact hrequested.awaits_iff
  granted := by
    intro amb input intent db₁ hrequest trace₁ w₁ hrun₁ amb₁ decision db₂ happroves trace₂ w₂ hrun₂
    obtain ⟨r, hrecord⟩ := happroves.recorded
    obtain ⟨wf, n, hrequested⟩ := createApprovalIntent_eq_ok hrequest
    have hstored : db₁.intents.get intent.intentID = some intent := by
      obtain ⟨hpending, rfl⟩ | ⟨-, hins, -⟩ := hrequested.answer
      · exact Table.get_of_mem (List.mem_of_find?_eq_some hpending)
      · exact Table.get_insert_self hins
    -- the histories are complete all along
    have hstart : HistoryComplete (World.start now).db :=
      ⟨fun _ _ hget => (nomatch hget), fun _ _ => rfl⟩
    have hhist₁ : HistoryComplete w₁.db := hrun₁.historyComplete
      ((h.historyComplete hstart).step (.commit amb (.createApprovalIntent input) intent hrequest))
    have hhist₂ : HistoryComplete w₂.db := hrun₂.historyComplete
      (hhist₁.step (show Step env w₁.db db₂ from .commit amb₁ (.recordApprovalDecision decision) r hrecord))
    -- and so is what was decided
    obtain ⟨i₁, hi₁, hnode₁, hvalid₁, -⟩ := hrun₁.decisionsKept _ intent hstored
    obtain ⟨hkept, id, i₂, hid, hi₂, hdecision⟩ := recordApprovalDecision_decisions hrecord
    rw [happroves.named, Option.some.injEq] at hid
    subst hid
    obtain ⟨i₂', hi₂', hnode₂, hvalid₂, -⟩ := hkept _ i₁ hi₁
    rw [hi₂] at hi₂'
    cases hi₂'
    have happroved : i₂.decision = .approved := hdecision.trans happroves.approved
    obtain ⟨i, hi, hnode, hvalid, hsame⟩ := hrun₂.decisionsKept _ i₂ hi₂
    refine ⟨i, hi, fun amb₂ input₂ wf₂ happlies => ?_⟩
    have hself : w₂.db.intents.get i.intentID = some i := by
      rw [Table.key_of_get hi]
      exact hi
    rw [happlies.grants_iff hhist₂ hself ((hsame (by rw [happroved]; decide)).trans happroved), hvalid,
      hvalid₂, hvalid₁]
  renewed amb input old hpending hexpired intent db' hrequest hawaits := by
    obtain ⟨wf, n, hrequested⟩ := createApprovalIntent_eq_ok hrequest
    have hanswerable := hrequested.awaits_iff.mp hawaits
    rw [Answerable, hpending] at hanswerable
    exact hexpired hanswerable.1

/-- The workflow of one activity has a scheduler. -/
def ownedScript : List Move := approvedScript.take 3

/-- A request to approve the proposal until `validUntil`. -/
def proposalRequest (validUntil : Int) : ApprovalIntentInput :=
  ⟨soloLease, "w", "a", 0, 1, "r", .json (.obj []), "0", validUntil, "scheduler"⟩

def proposalDecision : ApprovalDecisionInput := ⟨uuidOf 4 3, "approver", soloProposal, .approved, ""⟩

def proposalApplication : ApplyApprovalInput := ⟨soloLease, "w", "a", 0, uuidOf 4 3, "key", 2, "scheduler"⟩

/-- The intent can be granted under the scheduler's lease. -/
def showsGrantable (db : DB) : Bool :=
  (db.workflows.get "w").any (fun wf =>
    decide (wf.state = .waitingApproval ∧ wf.revision = 2 ∧ wf.partitionID = 0)) &&
  (db.intents.get (uuidOf 4 3)).any (fun i => decide (i.dispatchStatus = .notGranted ∧
    i.node = ⟨"w", "a", 0⟩ ∧ i.intentID = uuidOf 4 3)) &&
  decide (db.cancellations.rows.length = 0 ∧ (db.outbox.get (uuidOf 1 5)).isNone) &&
  (lockLease db soloLease).toOption.isSome

theorem appliesIntent_of_shown {db : DB} (h : showsGrantable db = true) :
    ∃ wf i, db.intents.get (uuidOf 4 3) = some i ∧ i.dispatchStatus = .notGranted ∧
      wf.state = .waitingApproval ∧ AppliesIntent (.drawn 5) proposalApplication i wf db := by
  simp only [showsGrantable, Bool.and_eq_true, Option.any_eq_true, decide_eq_true_eq,
    List.length_eq_zero_iff, Option.isNone_iff_eq_none, Option.isSome_iff_exists] at h
  obtain ⟨⟨⟨⟨wf, hwf, hwaiting, hrevision, hpartition⟩, i, hi, hstatus, hnode, hid⟩, hnone, hfresh⟩, lease,
    hlease⟩ := h
  refine ⟨wf, i, hi, hstatus, hwaiting, by decide, ⟨(lockLease_eq_ok (toOption_eq_some hlease)).1, hwf,
    hpartition⟩, hrevision.symm, hnode.symm, ?_, by decide, ?_, hfresh⟩
  · rw [hid]
    decide +kernel
  · rintro ⟨c, hc, -⟩
    rw [hnone] at hc
    cases hc

/-- A request is answered, approved and granted. -/
theorem approvals_answered_granted :
    ∃ (w : World) (intent i : ApprovalIntent) (db₁ db₂ : DB), ApprovalsAnswered .plain w ∧
      createApprovalIntent .plain (.drawn 3) (proposalRequest 10) w.db = .ok (intent, db₁) ∧
      AwaitsDecision 0 intent db₁ ∧ Approves (.drawn 4) proposalDecision intent db₁ db₂ ∧
      ApplicationGrants .plain (.drawn 5) proposalApplication i db₂ := by
  have hrun : (World.moves? .plain 0 ownedScript (World.start 0)).any (fun r =>
      decide ((r.2.db.pendingIntent ⟨"w", "a", 0⟩).isNone ∧
        (r.2.db.workflows.get "w").map (·.state) = some .runnable) &&
      (createApprovalIntent .plain (.drawn 3) (proposalRequest 10) r.2.db).toOption.any (fun created =>
        decide (created.1.intentID = uuidOf 4 3 ∧ created.1.validUntil = 10) &&
        (recordApprovalDecision (.drawn 4) proposalDecision created.2).toOption.any (fun decided =>
          showsGrantable decided.2))) = true := by
    decide +kernel
  obtain ⟨⟨trace, w⟩, hmoves, hshown⟩ := (Option.any_eq_true _ _).mp hrun
  simp only [Bool.and_eq_true, Option.any_eq_true, decide_eq_true_eq, Option.isNone_iff_eq_none] at hshown
  obtain ⟨⟨hnone, hrunnable⟩, ⟨intent, db₁⟩, hcreate, ⟨hid, hvalid⟩, ⟨r, db₂⟩, hrecord, hgrantable⟩ := hshown
  have hanswered := approvals_answered (World.run_of_moves? hmoves)
  have hcreate := toOption_eq_some hcreate
  have hrecord := toOption_eq_some hrecord
  simp only at hid hvalid
  have happroves : Approves (.drawn 4) proposalDecision intent db₁ db₂ := by
    refine ⟨?_, rfl, ?_, r, hrecord⟩
    · rw [hid]
      decide +kernel
    · rw [hvalid]
      decide
  obtain ⟨wf, i, hi, hstatus, hwaiting, happlies⟩ := appliesIntent_of_shown hgrantable
  obtain ⟨i', hi', hgranted⟩ := hanswered.granted _ _ _ _ hcreate [] _ .refl _ _ _ happroves [] _ .refl
  rw [hid, hi] at hi'
  cases hi'
  refine ⟨w, intent, i, db₁, db₂, hanswered, hcreate, ?_, happroves, (hgranted _ _ _ happlies).mpr
    ⟨hwaiting, hstatus, ?_⟩⟩
  · refine (hanswered.created _ _ _ _ hcreate).mpr ?_
    rw [Answerable, show (proposalRequest 10).key = ⟨"w", "a", 0⟩ from rfl, hnone]
    exact .inl hrunnable
  · rw [hvalid]
    decide

/-- The workflow of two branches has a scheduler. -/
def forkedScript : List Move := [
  .call (.createDefinition forkDefinition), .call (.createWorkflow forkWorkflow),
  .call (.acquireLease 0 (uuidOf 8 0) 1000), .call (.advanceGraph forkAdvance)]

/-- A request for one of the branches. -/
def branchRequest (nodeID : String) (revision : Int) : ApprovalIntentInput :=
  ⟨soloLease, "w", nodeID, 0, revision, "r", .json (.obj []), "0", 10, "scheduler"⟩

/-- A request after the first one has expired, at the time 20. -/
def lateRequest : ApprovalIntentInput := { proposalRequest 30 with expectedRevision := 2 }

def lateAmbient : Ambient := { Ambient.drawn 4 with wallClock := 20 }

/-- A request gets the intent that has expired, and a request for a second branch gets one whose
    node goes on running. -/
theorem approvals_not_answered :
    (∃ trace w intent db', World.Run .plain (World.start 0) trace w ∧
      createApprovalIntent .plain lateAmbient lateRequest w.db = .ok (intent, db') ∧
      intent.validUntil = 10 ∧ ¬ AwaitsDecision lateAmbient.wallClock intent db') ∧
    ∃ trace w intent db', World.Run .plain (World.start 0) trace w ∧
      createApprovalIntent .plain (.drawn 5) (branchRequest "pure.echo" 3) w.db = .ok (intent, db') ∧
      NodeIn db' intent.node .runnable ∧ ¬ AwaitsDecision 0 intent db' := by
  have hrun : (World.moves? .plain 0 (ownedScript ++ [Move.call (.createApprovalIntent (proposalRequest 10))])
        (World.start 0)).any (fun r =>
      (createApprovalIntent .plain lateAmbient lateRequest r.2.db).toOption.any (fun late =>
        decide (late.1.validUntil = 10))) = true ∧
      (World.moves? .plain 0 (forkedScript ++
        [.call (.createApprovalIntent (branchRequest "pure.add" 2))]) (World.start 0)).any (fun r =>
      (createApprovalIntent .plain (.drawn 5) (branchRequest "pure.echo" 3) r.2.db).toOption.any (fun second =>
        decide ((second.2.nodes.get second.1.node).map (·.state) = some .runnable))) = true := by
    decide +kernel
  obtain ⟨hlate, hsecond⟩ := hrun
  constructor
  · obtain ⟨⟨trace, w⟩, hmoves, hshown⟩ := (Option.any_eq_true _ _).mp hlate
    obtain ⟨⟨intent, db'⟩, hcreate, hvalid⟩ := (Option.any_eq_true _ _).mp hshown
    have hvalid : intent.validUntil = 10 := of_decide_eq_true hvalid
    refine ⟨trace, w, intent, db', World.run_of_moves? hmoves, toOption_eq_some hcreate, hvalid,
      fun hawaits => ?_⟩
    have hfuture := hawaits.unexpired
    rw [hvalid] at hfuture
    exact absurd hfuture (by decide)
  · obtain ⟨⟨trace, w⟩, hmoves, hshown⟩ := (Option.any_eq_true _ _).mp hsecond
    obtain ⟨⟨intent, db'⟩, hcreate, hnode⟩ := (Option.any_eq_true _ _).mp hshown
    have hnode : NodeIn db' intent.node .runnable := by
      simpa only [decide_eq_true_eq, NodeIn] using hnode
    refine ⟨trace, w, intent, db', World.run_of_moves? hmoves, toOption_eq_some hcreate, hnode,
      fun hawaits => ?_⟩
    have hwaiting := hawaits.node
    rw [NodeIn, hnode] at hwaiting
    cases hwaiting

end DurableEngine.Services
