/-
  DurableEngine.State.History

  The transition history of a workflow is a chain: its rows carry the
  revisions 1, 2, ..., each row starts in the state the previous one ended in,
  the last row ends in the workflow's state, and nothing follows a terminal
  state.
-/

import DurableEngine.State.CommitGraph
import Mathlib

namespace DurableEngine.State

open Lib

-- ============================================================================
-- The chain
-- ============================================================================

/-- The history rows of a workflow, oldest first. -/
def DB.historyOf (db : DB) (workflowID : String) : List TransitionRecord :=
  db.history.select (fun row => row.key.workflowID = workflowID)

/-- A row may follow another one. -/
def TransitionRecord.follows (previous next : TransitionRecord) : Prop :=
  next.oldState = some previous.newState ∧ previous.newState.isTerminal = false

/-- The rows are the complete history of the workflow `w`. -/
structure HistoryChain (rows : List TransitionRecord) (w : Workflow) : Prop where
  revisions : rows.map (·.key.revision) = (List.range rows.length).map (fun i : Nat => (i : Int) + 1)
  revision : w.revision = rows.length
  first : ∃ row rest, rows = row :: rest ∧ row.oldState = none ∧ row.newState = .runnable
  linked : rows.IsChain TransitionRecord.follows
  last : rows.getLast?.map (·.newState) = some w.state

/-- The history of a workflow that was just created. -/
theorem HistoryChain.singleton {row : TransitionRecord} {w : Workflow}
    (hkey : row.key.revision = 1) (hold : row.oldState = none) (hnew : row.newState = .runnable)
    (hstate : w.state = .runnable) (hrev : w.revision = 1) : HistoryChain [row] w where
  revisions := by simp [hkey]
  revision := by simpa using hrev
  first := ⟨row, [], rfl, hold, hnew⟩
  linked := .singleton _
  last := by simp [hnew, hstate]

/-- One more row extends the chain to the workflow's next revision. -/
theorem HistoryChain.snoc {rows : List TransitionRecord} {w w' : Workflow} {row : TransitionRecord}
    (h : HistoryChain rows w) (hlive : w.state.isTerminal = false)
    (hkey : row.key.revision = w.revision + 1) (hold : row.oldState = some w.state)
    (hnew : row.newState = w'.state) (hrev : w'.revision = w.revision + 1) :
    HistoryChain (rows ++ [row]) w' where
  revisions := by
    rw [List.map_append, h.revisions, List.length_append, List.length_singleton, List.range_succ,
      List.map_append, List.map_singleton, List.map_singleton, hkey, h.revision]
  revision := by simp [hrev, h.revision]
  first := by
    obtain ⟨first, rest, hrows, hfirst⟩ := h.first
    exact ⟨first, rest ++ [row], by rw [hrows, List.cons_append], hfirst⟩
  linked := by
    rw [List.isChain_append]
    refine ⟨h.linked, .singleton _, fun previous hprevious next hnext => ?_⟩
    have hlast := h.last
    rw [Option.mem_def.mp hprevious, Option.map_some, Option.some.injEq] at hlast
    rw [List.head?_singleton, Option.mem_def, Option.some.injEq] at hnext
    rw [TransitionRecord.follows, ← hnext, hold, hlast]
    exact ⟨rfl, hlive⟩
  last := by simp [hnew]

-- ============================================================================
-- One step
-- ============================================================================

/-- What a committed operation does to workflows and history: nothing, a
    creation, or a move of one workflow. -/
theorem Change.history_cases {db db' : DB} {α : Type} {op : Op α} (h : Change db op db') :
    (db'.workflows = db.workflows ∧ db'.history = db.history) ∨
      (∃ w row, Inserted db.workflows w db'.workflows ∧ Inserted db.history row db'.history ∧
        (w.state = .runnable ∧ w.revision = 1) ∧ row.key = ⟨w.workflowID, 1⟩ ∧
        row.oldState = none ∧ row.newState = .runnable ∧ row.schedulerEpoch = none) ∨
      ∃ w newState row, Moves db db' w newState row := by
  cases h with
  | idle rows => exact .inl ⟨rows.workflows, rows.history⟩
  | created c =>
      exact .inr (.inl ⟨_, _, c.workflows, c.history, c.workflow.2, c.workflow.1 ▸ c.key, c.states⟩)
  | claimed c => exact .inl ⟨c.workflows, c.history⟩
  | extended c => exact .inl ⟨c.workflows, c.history⟩
  | owner c => exact .inr (.inr ⟨_, _, _, c.moves⟩)
  | recorded c => exact .inr (.inr ⟨_, _, _, c.moves⟩)
  | consumed c | attemptCreated c | redispatched c | expired c | replaced c | timerScheduled c
  | canceled c | advanced c | approvalRequested c | approvalGranted c | approvalRejected c =>
      obtain ⟨row, hmoves, -⟩ := c.advances.moves
      exact .inr (.inr ⟨_, _, row, hmoves⟩)

/-- Committed history rows stay. -/
theorem Change.history_persists {db db' : DB} {α : Type} {op : Op α} (h : Change db op db')
    {key : RevisionKey} {row : TransitionRecord} (hrow : db.history.get key = some row) :
    db'.history.get key = some row := by
  obtain ⟨-, hsame⟩ | ⟨_, _, -, hins, -⟩ | ⟨_, _, _, hm⟩ := h.history_cases
  · rw [hsame]
    exact hrow
  · exact Table.get_insert_of_get hins hrow
  · exact Table.get_insert_of_get hm.history hrow

theorem historyOf_insert {db db' : DB} {row : TransitionRecord}
    (h : Inserted db.history row db'.history) (workflowID : String) :
    db'.historyOf workflowID =
      if row.key.workflowID = workflowID then db.historyOf workflowID ++ [row]
      else db.historyOf workflowID := by
  rw [DB.historyOf, Table.select_insert h]
  simp only [decide_eq_true_eq]
  rfl

/-- Every workflow has its complete history, and no history is without its workflow. -/
structure HistoryComplete (db : DB) : Prop where
  chain : ∀ id w, db.workflows.get id = some w → HistoryChain (db.historyOf id) w
  orphan : ∀ id, db.workflows.get id = none → db.historyOf id = []

theorem HistoryComplete.created {db db' : DB} {w : Workflow} {row : TransitionRecord}
    (h : HistoryComplete db) (hw : Inserted db.workflows w db'.workflows)
    (hh : Inserted db.history row db'.history) (hkey : row.key = ⟨w.workflowID, 1⟩)
    (hchain : HistoryChain [row] w) : HistoryComplete db' where
  chain id w' hget := by
    rw [historyOf_insert hh, hkey]
    rw [Table.get_insert hw] at hget
    by_cases hid : id = w.workflowID
    · rw [if_pos hid, Option.some.injEq] at hget
      rw [if_pos hid.symm, hid, h.orphan _ (Table.insert?_eq_some_iff.mp hw).1, List.nil_append,
        ← hget]
      exact hchain
    · rw [if_neg hid] at hget
      rw [if_neg (Ne.symm hid)]
      exact h.chain id w' hget
  orphan id hget := by
    rw [Table.get_insert hw] at hget
    by_cases hid : id = w.workflowID
    · rw [if_pos hid] at hget
      cases hget
    · rw [if_neg hid] at hget
      rw [historyOf_insert hh, hkey, if_neg (Ne.symm hid)]
      exact h.orphan id hget

theorem HistoryComplete.moves {db db' : DB} {w : Workflow} {newState : WorkflowState}
    {row : TransitionRecord} (h : HistoryComplete db) (hm : Moves db db' w newState row) :
    HistoryComplete db' where
  chain id w' hget := by
    rw [historyOf_insert hm.history, hm.key]
    rw [hm.get_workflow] at hget
    by_cases hid : id = w.workflowID
    · rw [if_pos hid, Option.some.injEq] at hget
      rw [if_pos hid.symm, hid, ← hget]
      exact (h.chain _ w hm.get).snoc hm.live (by rw [hm.key]) hm.old hm.new rfl
    · rw [if_neg hid] at hget
      rw [if_neg (Ne.symm hid)]
      exact h.chain id w' hget
  orphan id hget := by
    rw [hm.get_workflow] at hget
    by_cases hid : id = w.workflowID
    · rw [if_pos hid] at hget
      cases hget
    · rw [if_neg hid] at hget
      rw [historyOf_insert hm.history, hm.key, if_neg (Ne.symm hid)]
      exact h.orphan id hget

theorem HistoryComplete.step {env : Env} {db db' : DB} (h : HistoryComplete db)
    (hs : Step env db db') : HistoryComplete db' := by
  cases hs with
  | tick d => exact ⟨h.chain, h.orphan⟩
  | commit amb op a hrun =>
      obtain ⟨hw, hh⟩ | ⟨w, row, hw, hh, hfresh, hkey, hold, hnew, -⟩ | ⟨w, newState, row, hm⟩ :=
        (Op.run_commit hrun).change.history_cases
      · exact ⟨fun id w hget => by rw [DB.historyOf, hh]; exact h.chain id w (hw ▸ hget),
          fun id hget => by rw [DB.historyOf, hh]; exact h.orphan id (hw ▸ hget)⟩
      · exact h.created hw hh hkey (.singleton (by rw [hkey]) hold hnew hfresh.1 hfresh.2)
      · exact h.moves hm

theorem Reachable.historyComplete {env : Env} {db : DB} (h : Reachable env db) :
    HistoryComplete db :=
  h.induction (fun _ => ⟨fun _ _ hget => (nomatch hget), fun _ _ => rfl⟩) (fun _ _ hi hs => hi.step hs)

/-- In every state the store can reach, the history of every workflow is the
    complete chain of its revisions. -/
theorem reachable_historyChain {env : Env} {db : DB} (h : Reachable env db) {w : Workflow}
    (hw : db.workflows.get w.workflowID = some w) : HistoryChain (db.historyOf w.workflowID) w :=
  h.historyComplete.chain _ w hw

/-- The history of the workflow of `soloScript`. -/
theorem reachable_historyChain_solo :
    ∃ db w, Reachable .plain db ∧ db.workflows.get w.workflowID = some w ∧ w.revision = 5 ∧
      HistoryChain (db.historyOf w.workflowID) w := by
  have hrun : (runScript? .plain 0 soloScript (DB.init 0)).any (fun db =>
      (db.workflows.get "w").any (fun w => w.revision = 5)) = true := by decide +kernel
  obtain ⟨db, hdb, hw⟩ := (Option.any_eq_true _ _).mp hrun
  obtain ⟨w, hget, hrev⟩ := (Option.any_eq_true _ _).mp hw
  have hreach : Reachable .plain db := reachable_of_runScript? hdb
  have hget' : db.workflows.get w.workflowID = some w := by rw [Table.key_of_get hget]; exact hget
  exact ⟨db, w, hreach, hget', by simpa using hrev, reachable_historyChain hreach hget'⟩

end DurableEngine.State
