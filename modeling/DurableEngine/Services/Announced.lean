/-
  DurableEngine.Services.Announced

  The transactional outbox: a revision of a workflow is announced by an event
  that is written with its history row.

  `ApplyOwnerTransition` is the one operation that writes no event, and its
  caller names the reason.  The checker expects an event for certain reasons,
  so an owner transition under one of them leaves a row the checker rejects.
-/

import DurableEngine.Invariants.Checker
import DurableEngine.Services.Due

namespace DurableEngine.State

open Lib

-- ============================================================================
-- Operations of the store
-- ============================================================================

/-- The reason an owner transition is given. -/
def ownerReason? {α : Type} : Op α → Option String
  | .applyOwnerTransition input => some input.reason
  | _ => none

/-- The revision of a history row has an event, of a registered type and on its topic. -/
def Announces (db : DB) (key : RevisionKey) : Prop :=
  ∃ id event, db.outbox.get id = some event ∧ event.workflowID = key.workflowID ∧
    event.aggregateRevision = key.revision ∧ eventTopicFor event.eventType = some event.topic

/-- A committed operation writes no history, or one row at the revision that its workflow gets.
    The row goes with an event unless it is that of an owner transition. -/
theorem Change.announced_cases {db db' : DB} {α : Type} {op : Op α} (h : Change db op db') :
    (db'.history = db.history ∧ db'.outbox = db.outbox) ∨
      ∃ row w', Inserted db.history row db'.history ∧
        db'.workflows.get row.key.workflowID = some w' ∧ w'.revision = row.key.revision ∧
        (Emits db db' row.key.workflowID row.key.revision ∨
          db'.outbox = db.outbox ∧ ownerReason? op = some row.reason) := by
  have hadvances : ∀ {w newState}, Advances db db' w newState → ∃ row w',
      Inserted db.history row db'.history ∧ db'.workflows.get row.key.workflowID = some w' ∧
      w'.revision = row.key.revision ∧ Emits db db' row.key.workflowID row.key.revision := by
    intro w newState hadv
    obtain ⟨row, hm, -⟩ := hadv.moves
    refine ⟨row, { w with state := newState, revision := w.revision + 1 }, hm.history, ?_, ?_, ?_⟩
    · rw [hm.get_workflow, hm.key, if_pos rfl]
    · rw [hm.key]
    · rw [hm.key]
      exact hadv.emits
  cases h with
  | idle rows => exact .inl ⟨rows.history, rows.outbox⟩
  | claimed c => exact .inl ⟨c.history, c.outbox⟩
  | extended c => exact .inl ⟨c.history, c.outbox⟩
  | @created _ input w n row c =>
      refine .inr ⟨row, w, c.history, ?_, ?_, .inl ?_⟩
      · rw [c.key, ← c.workflow.1]
        exact Table.get_insert_self c.workflows
      · rw [c.key, c.workflow.2.2]
      · rw [c.key]
        exact c.emits
  | @owner _ input w row current timer c =>
      refine .inr ⟨row, { w with state := input.newState, revision := w.revision + 1 },
        c.moves.history, ?_, ?_, .inr ⟨c.outbox, ?_⟩⟩
      · rw [c.moves.get_workflow, c.moves.key, if_pos rfl]
      · rw [c.moves.key]
      · rw [c.reason]
        rfl
  | @recorded _ input w n a row document c =>
      refine .inr ⟨row, { w with state := w.state, revision := w.revision + 1 }, c.moves.history, ?_, ?_,
        .inl ?_⟩
      · rw [c.moves.get_workflow, c.moves.key, if_pos rfl]
      · rw [c.moves.key]
      · rw [c.moves.key]
        exact c.emits
  | consumed c | attemptCreated c | redispatched c | expired c | replaced c | timerScheduled c
  | canceled c | advanced c | approvalRequested c | approvalGranted c | approvalRejected c =>
      obtain ⟨row, w', hins, hw', hrev, hemits⟩ := hadvances c.advances
      exact .inr ⟨row, w', hins, hw', hrev, .inl hemits⟩

theorem Change.revision_pos {db db' : DB} {α : Type} {op : Op α} (h : Change db op db')
    (hpositive : ∀ id w, db.workflows.get id = some w → 1 ≤ w.revision) {id : String} {w' : Workflow}
    (hw' : db'.workflows.get id = some w') : 1 ≤ w'.revision := by
  obtain ⟨hsame, -⟩ | ⟨w, row, hins, -, ⟨-, hrev⟩, -⟩ | ⟨w, newState, row, hm⟩ := h.history_cases
  · exact hpositive id w' (hsame ▸ hw')
  · rw [Table.get_insert hins] at hw'
    split at hw'
    · cases hw'
      rw [hrev]
    · exact hpositive id w' hw'
  · rw [hm.get_workflow] at hw'
    split at hw'
    · cases hw'
      have := hpositive _ w hm.get
      exact Int.le_add_one this
    · exact hpositive id w' hw'

theorem Announces.change {db db' : DB} {α : Type} {op : Op α} {key : RevisionKey}
    (h : Announces db key) (hc : Change db op db') : Announces db' key := by
  obtain ⟨id, e, he, hevent⟩ := h
  refine ⟨id, e, ?_, hevent⟩
  obtain hsame | ⟨_, _, ⟨event, hins, -⟩, -⟩ := hc.outbox_cases
  · rw [hsame]
    exact he
  · exact Table.get_insert_of_get hins he

end DurableEngine.State

namespace DurableEngine.Services

open Lib State Invariants

-- ============================================================================
-- Steps
-- ============================================================================

/-- Workflows and history are untouched, and the outbox holds the same events. -/
structure EventsKept (db db' : DB) : Prop where
  workflows : db'.workflows = db.workflows
  history : db'.history = db.history
  kept : ∀ id o, db.outbox.get id = some o → ∃ o', db'.outbox.get id = some o' ∧ o.SameEvent o'
  origin : ∀ id o', db'.outbox.get id = some o' → ∃ o, db.outbox.get id = some o ∧ o.SameEvent o'

theorem EventsKept.of_eq {db db' : DB} (hw : db'.workflows = db.workflows)
    (hh : db'.history = db.history) (ho : db'.outbox = db.outbox) : EventsKept db db' where
  workflows := hw
  history := hh
  kept id o hget := ⟨o, by rw [ho]; exact hget, .refl o⟩
  origin id o hget := ⟨o, by rw [← ho]; exact hget, .refl o⟩

theorem Relays.Step.eventsKept {env : Env} {s s' : Relays} {events : List RelayEvent}
    (h : Relays.Step env s events s') : EventsKept s.db s'.db where
  workflows := by rw [h.frame]; rfl
  history := by rw [h.frame]; rfl
  kept id o ho := by
    obtain ⟨o', ho', hmove⟩ := h.row ho
    obtain rfl | hstep := hmove.step
    · exact ⟨o', ho', .refl o'⟩
    · exact ⟨o', ho', hstep.sameEvent⟩
  origin id o' ho' := by
    cases hold : s.db.outbox.get id with
    | none =>
        rw [h.absent hold] at ho'
        cases ho'
    | some o =>
        obtain ⟨o₁, ho₁, hmove⟩ := h.row hold
        rw [ho'] at ho₁
        cases ho₁
        obtain rfl | hstep := hmove.step
        · exact ⟨o', rfl, .refl o'⟩
        · exact ⟨o, rfl, hstep.sameEvent⟩

/-- A step of the world commits an operation of the store, or it keeps the events. -/
theorem World.Step.commits_or_keeps {env : Env} {w w' : World} {events : List Event}
    (h : World.Step env w events w') :
    (∃ (α : Type) (op : Op α) (amb : Ambient) (a : α), op.run env amb w.db = .ok (a, w'.db)) ∨
      EventsKept w.db w'.db := by
  cases h with
  | tick _ d => exact .inr (.of_eq rfl rfl rfl)
  | commit _ amb op a db' h _ => exact .inl ⟨_, op, amb, a, h⟩
  | relay _ events s' h => exact .inr h.eventsKept
  | consumer _ events db' h =>
      rw [h.frame]
      exact .inr (.of_eq rfl rfl rfl)
  | effect _ events s' h =>
      rw [h.frame]
      exact .inr (.of_eq rfl rfl rfl)

namespace Deployment

variable {env : Env} {s s' : Deployment} {calls : List Reconciled}

/-- So does a step of the deployment: the one call of a reconciler that matters is the timeout of
    the store. -/
theorem Step.commits_or_keeps (h : Step env s calls s') :
    (∃ (α : Type) (op : Op α) (amb : Ambient) (a : α), op.run env amb s.db = .ok (a, s'.db)) ∨
      EventsKept s.db s'.db := by
  cases h with
  | world _ events w' h => exact h.commits_or_keeps
  | begin | finish => exact .inr (.of_eq rfl rfl rfl)
  | refuse => exact .inr (.of_eq rfl rfl rfl)
  | commit _ before after amb oldestAge op k _ a db' h typed =>
      cases ReconcileOp.run_effect h with
      | timeout input r hrun => exact .inl ⟨_, .timeoutAttempt input, amb, r, hrun⟩
      | upsert input item hrun =>
          obtain ⟨_, _, -, rfl⟩ | ⟨_, _, -, -, rfl⟩ := upsertReconciliationItem_eq_ok hrun <;>
            exact .inr (.of_eq rfl rfl rfl)
      | quiet _ frame _ =>
          refine .inr (.of_eq ?_ ?_ ?_) <;> exact frame ▸ rfl

-- ============================================================================
-- Runs
-- ============================================================================

/-- An owner transition, given the reason of the history row, wrote it in a step of the run to `s`. -/
def WrittenByOwner (env : Env) (now : Int) (row : TransitionRecord) (s : Deployment) : Prop :=
  ∃ (before after : List Reconciled) (s₁ s₂ : Deployment) (amb : Ambient)
    (input : OwnerTransitionInput) (r : Unit), Run env (start now) before s₁ ∧
    (Op.applyOwnerTransition input).run env amb s₁.db = .ok (r, s₂.db) ∧
    input.reason = row.reason ∧ s₁.db.history.get row.key = none ∧
    s₂.db.history.get row.key = some row ∧ Run env s₂ after s

/-- What a run knows of its events: every history row goes with one unless an owner transition
    wrote it, and no event is ahead of its workflow. -/
structure Announced (env : Env) (now : Int) (s : Deployment) : Prop where
  rows : ∀ key row, s.db.history.get key = some row →
    Announces s.db key ∨ WrittenByOwner env now row s
  registered : ∀ id e, s.db.outbox.get id = some e → eventTopicFor e.eventType = some e.topic
  bounded : ∀ id e, s.db.outbox.get id = some e → 1 ≤ e.aggregateRevision ∧
    ∃ w, s.db.workflows.get e.workflowID = some w ∧ e.aggregateRevision ≤ w.revision
  positive : ∀ id w, s.db.workflows.get id = some w → 1 ≤ w.revision

theorem WrittenByOwner.step {now : Int} {row : TransitionRecord} (h : WrittenByOwner env now row s)
    (hs : Step env s calls s') : WrittenByOwner env now row s' := by
  obtain ⟨before, after, s₁, s₂, amb, input, r, hbefore, hop, hreason, hnone, hrow, hafter⟩ := h
  exact ⟨before, _, s₁, s₂, amb, input, r, hbefore, hop, hreason, hnone, hrow, hafter.tail hs⟩

theorem Announced.kept {now : Int} (h : Announced env now s) (hs : Step env s calls s')
    (hk : EventsKept s.db s'.db) : Announced env now s' where
  rows key row hrow := by
    rw [hk.history] at hrow
    obtain ⟨id, e, he, hid, hrev, htopic⟩ | howner := h.rows key row hrow
    · obtain ⟨e', he', hsame⟩ := hk.kept id e he
      refine .inl ⟨id, e', he', hsame.workflowID.trans hid, hsame.aggregateRevision.trans hrev, ?_⟩
      rw [hsame.eventType, hsame.topic]
      exact htopic
    · exact .inr (howner.step hs)
  registered id e' he' := by
    obtain ⟨e, he, hsame⟩ := hk.origin id e' he'
    rw [hsame.eventType, hsame.topic]
    exact h.registered id e he
  bounded id e' he' := by
    obtain ⟨e, he, hsame⟩ := hk.origin id e' he'
    rw [hsame.aggregateRevision, hsame.workflowID, hk.workflows]
    exact h.bounded id e he
  positive id w hw := h.positive id w (by rw [← hk.workflows]; exact hw)

/-- A committed operation announces the row it writes, or it is an owner transition. -/
theorem Announced.commit {now : Int} (h : Announced env now s) (hrun : ∃ calls, Run env (start now) calls s)
    (hs : Step env s calls s') {α : Type} {op : Op α} {amb : Ambient} {a : α}
    (hop : op.run env amb s.db = .ok (a, s'.db)) : Announced env now s' := by
  have hc := (Op.run_commit hop).change
  have hold : ∀ key row, s.db.history.get key = some row →
      Announces s'.db key ∨ WrittenByOwner env now row s' := fun key row hrow =>
    (h.rows key row hrow).imp (fun hann => hann.change hc) (fun howner => howner.step hs)
  have hpositive : ∀ id w, s'.db.workflows.get id = some w → 1 ≤ w.revision :=
    fun id w hw => hc.revision_pos h.positive hw
  have hbounded : ∀ id e, s.db.outbox.get id = some e → 1 ≤ e.aggregateRevision ∧
      ∃ w, s'.db.workflows.get e.workflowID = some w ∧ e.aggregateRevision ≤ w.revision := by
    intro id e he
    obtain ⟨hpos, w, hw, hle⟩ := h.bounded id e he
    obtain ⟨w', hw', hmono⟩ := hc.revision_mono hw
    exact ⟨hpos, w', hw', hle.trans hmono⟩
  obtain ⟨hhistory, houtbox⟩ | ⟨row, w', hins, hw', hrev, hcases⟩ := hc.announced_cases
  · exact ⟨fun key row hrow => hold key row (hhistory ▸ hrow),
      fun id e he => h.registered id e (houtbox ▸ he),
      fun id e he => hbounded id e (houtbox ▸ he), hpositive⟩
  · have hrows : (Announces s'.db row.key ∨ WrittenByOwner env now row s') →
        ∀ key r, s'.db.history.get key = some r → Announces s'.db key ∨ WrittenByOwner env now r s' := by
      intro hrow key r hr
      rw [Table.get_insert hins] at hr
      split at hr
      · rename_i hkey
        cases hr
        rw [hkey]
        exact hrow
      · exact hold key r hr
    obtain ⟨event, hevent, hid, hrevision, hnew⟩ | ⟨houtbox, howner⟩ := hcases
    · refine ⟨hrows (.inl ⟨event.eventID, event, Table.get_insert_self hevent, hid, hrevision, hnew.topic⟩),
        ?_, ?_, hpositive⟩
      · intro id e he
        rw [Table.get_insert hevent] at he
        split at he
        · cases he
          exact hnew.topic
        · exact h.registered id e he
      · intro id e he
        rw [Table.get_insert hevent] at he
        split at he
        · cases he
          rw [hid, hrevision, ← hrev]
          exact ⟨hpositive _ _ hw', w', hw', le_refl _⟩
        · exact hbounded id e he
    · refine ⟨hrows (.inr ?_), fun id e he => h.registered id e (houtbox ▸ he),
        fun id e he => hbounded id e (houtbox ▸ he), hpositive⟩
      obtain ⟨before, hbefore⟩ := hrun
      cases op with
      | applyOwnerTransition input =>
          exact ⟨before, [], s, s', amb, input, a, hbefore, hop, Option.some.inj howner,
            (Table.insert?_eq_some_iff.mp hins).1, Table.get_insert_self hins, .refl⟩
      | _ => cases howner

theorem Run.announced {now : Int} (h : Run env (start now) calls s) : Announced env now s := by
  induction h with
  | refl =>
      exact ⟨fun _ _ hrow => (nomatch hrow), fun _ _ he => (nomatch he), fun _ _ he => (nomatch he),
        fun _ _ hw => (nomatch hw)⟩
  | tail hrun hs ih =>
      obtain ⟨α, op, amb, a, hop⟩ | hkept := hs.commits_or_keeps
      · exact ih.commit ⟨_, hrun⟩ hs hop
      · exact ih.kept hs hkept

/-- In every state a run reaches, each history row whose reason calls for an event has one, of a
    registered type and on its topic, unless an owner transition wrote the row under that reason;
    every event has a registered type and is at a revision that its workflow has reached. -/
theorem outbox_complete {now : Int} (h : Run env (start now) calls s) :
    (∀ key row, s.db.history.get key = some row → requiresOutbox row.reason = true →
      Announces s.db key ∨ WrittenByOwner env now row s) ∧
    ∀ id e, s.db.outbox.get id = some e → eventTopicFor e.eventType = some e.topic ∧
      1 ≤ e.aggregateRevision ∧
      ∃ w, s.db.workflows.get e.workflowID = some w ∧ e.aggregateRevision ≤ w.revision :=
  ⟨fun key row hrow _ => h.announced.rows key row hrow,
    fun id e he => ⟨h.announced.registered id e he, h.announced.bounded id e he⟩⟩

/-- A scheduler moves the new workflow under the reason of an advanced graph. -/
def disguisedScript : List DeploymentMove := [
  .world (.call (.createDefinition soloDefinition)), .world (.call (.createWorkflow soloWorkflow)),
  .world (.call (.acquireLease 0 (uuidOf 8 0) 1000)),
  .world (.call (.applyOwnerTransition ⟨soloLease, "w", 1, .waitingActivity, "scheduler",
    "GRAPH_ADVANCED", "a", 0, some .waitingActivity, none⟩))]

/-- The outbox of the run holds nothing at the revision of the owner transition. -/
theorem outbox_incomplete : ¬ ∀ (env : Env) (s : Deployment), Reachable env s →
    ∀ key row, s.db.history.get key = some row → requiresOutbox row.reason = true →
      ∃ id event, s.db.outbox.get id = some event ∧ event.workflowID = key.workflowID ∧
        event.aggregateRevision = key.revision := by
  have hrun : (moves? .plain 0 disguisedScript (start 0)).any (fun r =>
      (r.2.db.history.get ⟨"w", 2⟩).any (fun row => requiresOutbox row.reason) &&
      r.2.db.outbox.rows.all (fun e => decide (e.aggregateRevision ≠ 2))) = true := by
    decide +kernel
  obtain ⟨⟨calls, s⟩, hmoves, hshown⟩ := (Option.any_eq_true _ _).mp hrun
  simp only [Bool.and_eq_true, Option.any_eq_true, List.all_eq_true, decide_eq_true_eq] at hshown
  obtain ⟨⟨row, hrow, hrequires⟩, hnone⟩ := hshown
  intro h
  obtain ⟨id, event, hevent, -, hrevision⟩ :=
    h .plain s ⟨0, calls, run_of_moves? hmoves⟩ ⟨"w", 2⟩ row hrow hrequires
  exact hnone event (Table.mem_of_get hevent) hrevision

/-- The two rows of that run: the creation is announced, the disguised transition is not. -/
theorem outbox_complete_disguised : ∃ calls s row row', Run .plain (start 0) calls s ∧
    s.db.history.get ⟨"w", 1⟩ = some row ∧ row.reason = "WORKFLOW_CREATED" ∧
    s.db.history.get ⟨"w", 2⟩ = some row' ∧ row'.reason = "GRAPH_ADVANCED" ∧
    (Announces s.db ⟨"w", 1⟩ ∨ WrittenByOwner .plain 0 row s) ∧
    (Announces s.db ⟨"w", 2⟩ ∨ WrittenByOwner .plain 0 row' s) := by
  have hrun : (moves? .plain 0 disguisedScript (start 0)).any (fun r =>
      (r.2.db.history.get ⟨"w", 1⟩).any (fun row => row.reason = "WORKFLOW_CREATED") &&
      (r.2.db.history.get ⟨"w", 2⟩).any (fun row => row.reason = "GRAPH_ADVANCED")) = true := by
    decide +kernel
  obtain ⟨⟨calls, s⟩, hmoves, hshown⟩ := (Option.any_eq_true _ _).mp hrun
  simp only [Bool.and_eq_true, Option.any_eq_true, decide_eq_true_eq] at hshown
  obtain ⟨⟨row, hrow, hreason⟩, row', hrow', hreason'⟩ := hshown
  have hcomplete := outbox_complete (run_of_moves? hmoves)
  exact ⟨calls, s, row, row', run_of_moves? hmoves, hrow, hreason, hrow', hreason',
    hcomplete.1 _ row hrow (by rw [hreason]; rfl), hcomplete.1 _ row' hrow' (by rw [hreason']; rfl)⟩

end Deployment

end DurableEngine.Services
