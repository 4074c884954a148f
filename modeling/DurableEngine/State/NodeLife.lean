/-
  DurableEngine.State.NodeLife

  The life of one node row: what a committed operation writes to the node of a
  key, and the references between the rows (an attempt has its node, a node
  its workflow, and no operation deletes any of them).
-/

import DurableEngine.State.Generations
import DurableEngine.State.History

namespace DurableEngine.State

open Lib

-- ============================================================================
-- One node row
-- ============================================================================

/-- What one committed operation does to a node row. -/
inductive NodeStep : Option NodeInstance → Option NodeInstance → Prop where
  | same (o : Option NodeInstance) : NodeStep o o
  | created (n : NodeInstance) (fresh : n.isFresh) : NodeStep none (some n)
  | owned (n : NodeInstance) (input : OwnerTransitionInput) (state : WorkflowState)
      (current : Option Int) (purpose : Option TimerPurpose) :
      NodeStep (some n) (some (n.ownerMove input state current purpose))
  | consumed (n : NodeInstance) (state : WorkflowState) (result : Jsonb) (dueAt : Option Int) :
      NodeStep (some n) (some (n.consume state result dueAt))
  | pointed (n : NodeInstance) (number : Int) :
      NodeStep (some n) (some { n with currentAttempt := some number })
  | waiting (n : NodeInstance) (dueAt : Int) (runnable : n.state = .runnable) :
      NodeStep (some n) (some { n with
        state := .waitingTimer, deadlineAt := some dueAt, revision := n.revision + 1 })
  | settled (n : NodeInstance) (live : n.state.isTerminal = false) : NodeStep (some n) (some n.settle)
  | moved (n : NodeInstance) (state : WorkflowState) :
      NodeStep (some n) (some { n with state := state, revision := n.revision + 1 })

theorem NodeStep.of_modify {o : Option NodeInstance} {c : Prop} [Decidable c]
    {f : NodeInstance → NodeInstance}
    (h : ∀ n, o = some n → c → NodeStep (some n) (some (f n))) :
    NodeStep o (if c then o.map f else o) := by
  split
  · rename_i hc
    cases ho : o with
    | none => exact .same none
    | some n => exact h n ho hc
  · exact .same o

theorem Change.Advanced.nodeStep {db db' : DB} {input : AdvanceGraphInput} {w : Workflow}
    {n : NodeInstance} {definition : Definition} {graph : DefinitionGraph}
    {source : DefinitionGraphNode} (c : Change.Advanced db input w n definition graph source db')
    (k : NodeKey) : NodeStep (db.nodes.get k) (db'.nodes.get k) := by
  have hget := c.nodes k
  by_cases hk : k = input.key
  · rw [if_pos hk] at hget
    rw [hget, hk, c.node]
    exact .moved n input.nodeState
  · rw [if_neg hk] at hget
    cases hold : db.nodes.get k with
    | some m =>
        rw [hold, Option.some_or] at hget
        rw [hget]
        exact .same (some m)
    | none =>
        cases hnew : db'.nodes.get k with
        | none => exact .same none
        | some m => exact .created m (c.fresh k m hk hold hnew).1

/-- What a committed operation does to the node row of a key. -/
theorem Change.nodeStep {db db' : DB} {α : Type} {op : Op α} (h : Change db op db') (k : NodeKey) :
    NodeStep (db.nodes.get k) (db'.nodes.get k) := by
  cases h with
  | idle rows =>
      rw [rows.nodes]
      exact .same _
  | claimed c | extended c | recorded c | redispatched c | expired c =>
      rw [c.nodes]
      exact .same _
  | created c =>
      rw [Table.get_insert c.nodes]
      split
      · rename_i hk
        rw [hk, (Table.insert?_eq_some_iff.mp c.nodes).1]
        exact .created _ c.node.2
      · exact .same _
  | owner c =>
      rw [c.nodes, moveOwnedNode_nodes]
      exact .of_modify (fun n _ _ => .owned n _ _ _ _)
  | consumed c =>
      rw [c.nodes, DB.get_modifyNode]
      exact .of_modify (fun n _ _ => .consumed n _ _ _)
  | attemptCreated c | replaced c =>
      rw [c.nodes, DB.get_modifyNode]
      exact .of_modify (fun n _ _ => .pointed n _)
  | timerScheduled c =>
      rw [c.nodes, DB.get_modifyNode]
      refine .of_modify (fun n hn hk => .waiting n _ ?_)
      rw [hk, c.node, Option.some.injEq] at hn
      exact hn ▸ c.nodeRunnable
  | approvalRequested c | approvalGranted c | approvalRejected c =>
      rw [c.nodes, DB.get_modifyNode]
      exact .of_modify (fun n _ _ => .moved n _)
  | canceled c =>
      rw [c.nodes]
      cases db.nodes.get k with
      | none => exact .same none
      | some n =>
          rw [Option.map_some]
          split
          · rename_i hc
            simp only [NodeInstance.cancelable, Bool.and_eq_true, Bool.not_eq_true'] at hc
            exact .settled n hc.2
          · exact .same (some n)
  | advanced c => exact c.nodeStep k

theorem NodeStep.persists {o o' : Option NodeInstance} (h : NodeStep o o') {n : NodeInstance}
    (hn : o = some n) : ∃ n', o' = some n' := by
  cases h with
  | same => exact ⟨n, hn⟩
  | created => cases hn
  | owned | consumed | pointed | waiting | settled | moved => exact ⟨_, rfl⟩

theorem NodeStep.dependencies {o o' : Option NodeInstance} (h : NodeStep o o') {n n' : NodeInstance}
    (hn : o = some n) (hn' : o' = some n') : n'.dependencies = n.dependencies := by
  cases h with
  | same =>
      rw [hn] at hn'
      cases hn'
      rfl
  | created => cases hn
  | owned m input state current purpose =>
      cases hn
      cases hn'
      simp only [NodeInstance.ownerMove]
      split
      · rfl
      · cases input.target <;> rfl
  | consumed | pointed | waiting | settled | moved =>
      cases hn
      cases hn'
      rfl

theorem NodeStep.fresh_of_none {o o' : Option NodeInstance} (h : NodeStep o o') {n : NodeInstance}
    (ho : o = none) (hn : o' = some n) : n.isFresh := by
  cases h with
  | same =>
      rw [ho] at hn
      cases hn
  | created m fresh =>
      cases hn
      exact fresh
  | owned | consumed | pointed | waiting | settled | moved => cases ho

/-- A node row stays with its dependencies. -/
theorem node_lasts {env : Env} {db db' : DB}
    (h : Relation.ReflTransGen (Step env) db db') {k : NodeKey} {n : NodeInstance}
    (hn : db.nodes.get k = some n) :
    ∃ n', db'.nodes.get k = some n' ∧ n'.dependencies = n.dependencies := by
  induction h with
  | refl => exact ⟨n, hn, rfl⟩
  | tail _ hstep ih =>
      obtain ⟨m, hm, hdeps⟩ := ih
      cases hstep with
      | tick _ d => exact ⟨m, hm, hdeps⟩
      | commit amb op a hrun =>
          have hstep := (Op.run_commit hrun).change.nodeStep k
          obtain ⟨m', hm'⟩ := hstep.persists hm
          exact ⟨m', hm', (hstep.dependencies hm hm').trans hdeps⟩

-- ============================================================================
-- References
-- ============================================================================

/-- The workflow of a new node exists. -/
theorem Change.workflow_of_new {db db' : DB} {α : Type} {op : Op α} (h : Change db op db')
    {k : NodeKey} {n : NodeInstance} (hnone : db.nodes.get k = none)
    (hn : db'.nodes.get k = some n) :
    ∃ w, db'.workflows.get k.workflowID = some w := by
  have hmodify : ∀ {f : NodeInstance → NodeInstance} {hf key}, db'.nodes =
      (db.modifyNode key f hf).nodes → False := by
    intro f hf key hnodes
    rw [hnodes, DB.get_modifyNode, hnone] at hn
    split at hn <;> cases hn
  cases h with
  | idle rows =>
      rw [rows.nodes, hnone] at hn
      cases hn
  | claimed c | extended c | recorded c | redispatched c | expired c =>
      rw [c.nodes, hnone] at hn
      cases hn
  | created c =>
      rw [Table.get_insert c.nodes] at hn
      split at hn
      · rename_i hk
        rw [hk, c.node.1]
        exact ⟨_, c.workflow.1 ▸ Table.get_insert_self c.workflows⟩
      · rw [hnone] at hn
        cases hn
  | owner c =>
      rw [c.nodes, moveOwnedNode_nodes, hnone] at hn
      split at hn <;> cases hn
  | consumed c | attemptCreated c | replaced c | timerScheduled c | approvalRequested c
  | approvalGranted c | approvalRejected c => exact (hmodify c.nodes).elim
  | canceled c =>
      rw [c.nodes, hnone] at hn
      cases hn
  | @advanced _ input w _ _ _ _ c =>
      obtain ⟨row, hmoves, -⟩ := c.advances.moves
      by_cases hk : k = input.key
      · rw [hk, c.node] at hnone
        cases hnone
      · obtain ⟨-, ⟨item, -, rfl, -⟩, -⟩ := c.fresh k n hk hnone hn
        exact ⟨_, by rw [hmoves.get_workflow, if_pos c.workflow.symm]⟩

/-- A committed operation writes only nodes of the workflow it creates or moves. -/
theorem Change.node_frame {db db' : DB} {α : Type} {op : Op α} (h : Change db op db')
    (k : NodeKey) : db'.nodes.get k = db.nodes.get k ∨ db.workflows.get k.workflowID = none ∨
      ∃ w newState row, Moves db db' w newState row ∧ w.workflowID = k.workflowID := by
  have hmodify : ∀ {f : NodeInstance → NodeInstance} {hf key w newState}, db'.nodes =
      (db.modifyNode key f hf).nodes → Advances db db' w newState → w.workflowID = key.workflowID →
      db'.nodes.get k = db.nodes.get k ∨ db.workflows.get k.workflowID = none ∨
        ∃ w newState row, Moves db db' w newState row ∧ w.workflowID = k.workflowID := by
    intro f hf key w newState hnodes hadv hid
    obtain ⟨row, hm, -⟩ := hadv.moves
    rw [hnodes, DB.get_modifyNode]
    split
    · rename_i hk
      exact .inr (.inr ⟨w, newState, row, hm, by rw [hid, hk]⟩)
    · exact .inl rfl
  cases h with
  | idle rows => exact .inl (by rw [rows.nodes])
  | claimed c | extended c | recorded c | redispatched c | expired c => exact .inl (by rw [c.nodes])
  | created c =>
      rw [Table.get_insert c.nodes]
      split
      · rename_i hk
        refine .inr (.inl ?_)
        rw [hk, c.node.1, ← c.workflow.1]
        exact (Table.insert?_eq_some_iff.mp c.workflows).1
      · exact .inl rfl
  | owner c =>
      rw [c.nodes, moveOwnedNode_nodes]
      split
      · rename_i hk
        exact .inr (.inr ⟨_, _, _, c.moves, by rw [c.workflow, hk]; rfl⟩)
      · exact .inl rfl
  | consumed c | attemptCreated c | replaced c | timerScheduled c | approvalRequested c
  | approvalGranted c | approvalRejected c => exact hmodify c.nodes c.advances c.workflow
  | canceled c =>
      obtain ⟨row, hm, -⟩ := c.advances.moves
      rw [c.nodes]
      cases hn : db.nodes.get k with
      | none => exact .inl rfl
      | some n =>
          rw [Option.map_some]
          split
          · rename_i hc
            simp only [NodeInstance.cancelable, Bool.and_eq_true, decide_eq_true_eq] at hc
            exact .inr (.inr ⟨_, _, row, hm, by rw [← hc.1, Table.key_of_get hn]⟩)
          · exact .inl rfl
  | @advanced _ input w _ _ _ _ c =>
      obtain ⟨row, hm, -⟩ := c.advances.moves
      by_cases hk : k = input.key
      · exact .inr (.inr ⟨_, _, row, hm, by rw [c.workflow, hk]; rfl⟩)
      · have hget := c.nodes k
        rw [if_neg hk] at hget
        cases hold : db.nodes.get k with
        | some m =>
            rw [hold, Option.some_or] at hget
            exact .inl hget
        | none =>
            cases hnew : db'.nodes.get k with
            | none => exact .inl rfl
            | some m =>
                obtain ⟨-, ⟨item, -, rfl, -⟩, -⟩ := c.fresh k m hk hold hnew
                exact .inr (.inr ⟨_, _, row, hm, c.workflow⟩)

/-- The nodes of a terminal workflow stay as they are. -/
theorem Change.node_of_terminal {db db' : DB} {α : Type} {op : Op α} (h : Change db op db')
    {k : NodeKey} {w : Workflow} (hw : db.workflows.get k.workflowID = some w)
    (hterm : w.state.isTerminal = true) : db'.nodes.get k = db.nodes.get k := by
  obtain hsame | hnone | ⟨w', newState, row, hm, hid⟩ := h.node_frame k
  · exact hsame
  · rw [hw] at hnone
    cases hnone
  · rw [← hid, hm.get, Option.some.injEq] at hw
    rw [← hw, hm.live] at hterm
    cases hterm

theorem Change.workflow_persists {db db' : DB} {α : Type} {op : Op α} (h : Change db op db')
    {id : String} {w : Workflow} (hw : db.workflows.get id = some w) :
    ∃ w', db'.workflows.get id = some w' := by
  obtain ⟨hsame, -⟩ | ⟨w₀, row, hins, -⟩ | ⟨w₀, s, row, hm⟩ := h.history_cases
  · exact ⟨w, by rw [hsame]; exact hw⟩
  · rw [Table.get_insert hins]
    split
    · exact ⟨w₀, rfl⟩
    · exact ⟨w, hw⟩
  · rw [hm.get_workflow]
    split
    · exact ⟨_, rfl⟩
    · exact ⟨w, hw⟩

/-- An attempt has its node, and a node its workflow. -/
structure Linked (db : DB) : Prop where
  attempt : ∀ k a, db.attempts.get k = some a → ∃ n, db.nodes.get k.node = some n
  node : ∀ k n, db.nodes.get k = some n → ∃ w, db.workflows.get k.workflowID = some w

/-- The node of a new attempt exists and waits for it, or the attempt
    replaces a current one. -/
theorem Change.node_of_new {db db' : DB} {α : Type} {op : Op α} (h : Change db op db')
    {k : AttemptKey} {a : Attempt} (hnone : db.attempts.get k = none)
    (ha : db'.attempts.get k = some a) : ∃ n, db.nodes.get k.node = some n ∧
      (n.state = .waitingActivity ∨
        ∃ m b, db.attempts.get ⟨k.node, m⟩ = some b ∧ b.isCurrent = true) := by
  have hmodify : ∀ {f : Attempt → Attempt} {hf key}, db'.attempts =
      (db.modifyAttempt key f hf).attempts → False := by
    intro f hf key hattempts
    rw [hattempts, DB.get_modifyAttempt, hnone] at ha
    split at ha <;> cases ha
  cases h with
  | idle rows =>
      rw [rows.attempts, hnone] at ha
      cases ha
  | created c | consumed c | timerScheduled c | advanced c | approvalRequested c | approvalGranted c
  | approvalRejected c =>
      rw [c.attempts, hnone] at ha
      cases ha
  | claimed c | extended c | recorded c | redispatched c | expired c =>
      exact (hmodify c.attempts).elim
  | owner c =>
      rw [c.attempts, moveOwnedNode_attempts, hnone] at ha
      split at ha <;> cases ha
  | canceled c =>
      rw [c.attempts, hnone] at ha
      cases ha
  | attemptCreated c =>
      rw [Table.get_insert c.attempts] at ha
      split at ha
      · rename_i hk
        exact ⟨_, by rw [hk]; exact c.node, .inl c.nodeWaiting⟩
      · rw [hnone] at ha
        cases ha
  | replaced c =>
      rw [Table.get_insert c.attempts] at ha
      split at ha
      · rename_i hk
        rw [hk]
        exact ⟨_, c.node, .inr ⟨_, _, c.attempt, c.isClaimed.1⟩⟩
      · rw [DB.get_modifyAttempt, hnone] at ha
        split at ha <;> cases ha

theorem Linked.change {db db' : DB} {α : Type} {op : Op α} (h : Linked db) (hc : Change db op db') :
    Linked db' where
  attempt k a ha := by
    have hnode : ∃ n, db.nodes.get k.node = some n := by
      cases hold : db.attempts.get k with
      | none =>
          obtain ⟨n, hn, -⟩ := hc.node_of_new hold ha
          exact ⟨n, hn⟩
      | some b => exact h.attempt k b hold
    obtain ⟨n, hn⟩ := hnode
    exact (hc.nodeStep k.node).persists hn
  node k n hn := by
    cases hold : db.nodes.get k with
    | none => exact hc.workflow_of_new hold hn
    | some m =>
        obtain ⟨w, hw⟩ := h.node k m hold
        exact hc.workflow_persists hw

theorem Reachable.linked {env : Env} {db : DB} (h : Reachable env db) : Linked db := by
  refine h.induction (fun _ => ⟨fun _ _ ha => (nomatch ha), fun _ _ hn => (nomatch hn)⟩) ?_
  intro db db' hi hs
  cases hs with
  | tick d => exact ⟨hi.attempt, hi.node⟩
  | commit amb op r hrun => exact hi.change (Op.run_commit hrun).change

end DurableEngine.State
