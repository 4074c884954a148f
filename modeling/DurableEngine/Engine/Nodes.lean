/-
  DurableEngine.Engine.Nodes

  The life of a node in a disciplined run.

  The store alone would let a caller take a node from any state to any other.
  Scheduler passes do not: `NodeMove` lists what a disciplined operation does to
  a node row, and from it follow the shape of the rows and that a node in a
  terminal state is never written again.
-/

import DurableEngine.Engine.Discipline
import DurableEngine.State.Terminal

namespace DurableEngine.Engine

open Lib State

-- ============================================================================
-- Moves of one node
-- ============================================================================

/-- What one disciplined operation does to a node row. -/
inductive NodeMove : Option NodeInstance → Option NodeInstance → Prop where
  | same (o : Option NodeInstance) : NodeMove o o
  | created (n : NodeInstance) (fresh : n.isFresh) : NodeMove none (some n)
  | fired (n : NodeInstance) (purpose : Option TimerPurpose) (waiting : n.state = .waitingTimer) :
      NodeMove (some n) (some (n.transition .runnable purpose))
  | scheduled (n : NodeInstance) (purpose : Option TimerPurpose) (runnable : n.state = .runnable) :
      NodeMove (some n) (some (n.transition .waitingActivity purpose))
  | consumed (n : NodeInstance) (state : WorkflowState) (result : Jsonb) (dueAt : Option Int)
      (current : ∃ m, n.currentAttempt = some m) (outcome : state ≠ .runnable) :
      NodeMove (some n) (some (n.consume state result dueAt))
  | pointed (n : NodeInstance) (number : Int) (waiting : n.state = .waitingActivity) :
      NodeMove (some n) (some { n with currentAttempt := some number })
  | timed (n : NodeInstance) (dueAt : Int) (runnable : n.state = .runnable) :
      NodeMove (some n) (some { n with
        state := .waitingTimer, deadlineAt := some dueAt, revision := n.revision + 1 })
  | settled (n : NodeInstance) (live : n.state.isTerminal = false) : NodeMove (some n) (some n.settle)
  | ended (n : NodeInstance) (state : WorkflowState) (free : n.currentAttempt = none)
      (runnable : n.state = .runnable) (final : state.isTerminal = true) :
      NodeMove (some n) (some { n with state := state, revision := n.revision + 1 })
  | advanced (n : NodeInstance) (free : n.currentAttempt = none) (succeeded : n.state = .succeeded) :
      NodeMove (some n) (some { n with revision := n.revision + 1 })

/-- Only a node that waits for an activity points to an attempt, and only a
    succeeded one has a result. -/
structure NodeShape (n : NodeInstance) : Prop where
  waiting : ∀ m, n.currentAttempt = some m → n.state = .waitingActivity
  accepted : ∀ r, n.acceptedResult = some r → n.state = .succeeded

def NodesShaped (db : DB) : Prop := ∀ k n, db.nodes.get k = some n → NodeShape n

theorem NodeShape.of_free {n : NodeInstance} (hcur : n.currentAttempt = none)
    (hacc : n.acceptedResult = none) : NodeShape n where
  waiting m hm := by
    rw [hcur] at hm
    cases hm
  accepted r hr := by
    rw [hacc] at hr
    cases hr

/-- The result of a node in another state. -/
theorem NodeShape.unaccepted {n : NodeInstance} (h : NodeShape n) (hs : n.state ≠ .succeeded) :
    n.acceptedResult = none := by
  cases hacc : n.acceptedResult with
  | none => rfl
  | some r => exact absurd (h.accepted r hacc) hs

theorem NodeShape.free {n : NodeInstance} (h : NodeShape n) (hs : n.state ≠ .waitingActivity) :
    n.currentAttempt = none := by
  cases hcur : n.currentAttempt with
  | none => rfl
  | some m => exact absurd (h.waiting m hcur) hs

theorem NodeMove.shape {o o' : Option NodeInstance} (h : NodeMove o o')
    (hold : ∀ n, o = some n → NodeShape n) {n' : NodeInstance} (hn' : o' = some n') :
    NodeShape n' := by
  cases h with
  | same => exact hold n' hn'
  | created n fresh =>
      cases hn'
      exact .of_free fresh.2.2.1 fresh.2.1
  | fired n purpose waiting =>
      cases hn'
      have hshape := hold n rfl
      exact .of_free (hshape.free (by rw [waiting]; decide))
        (hshape.unaccepted (by rw [waiting]; decide))
  | scheduled n purpose runnable =>
      cases hn'
      have hshape := hold n rfl
      exact .of_free (hshape.free (by rw [runnable]; decide))
        (hshape.unaccepted (by rw [runnable]; decide))
  | consumed n state result dueAt current outcome =>
      cases hn'
      obtain ⟨m, hm⟩ := current
      have hshape := hold n rfl
      have hacc := hshape.unaccepted (by rw [hshape.waiting m hm]; decide)
      refine ⟨fun m hm => (nomatch hm), fun r hr => ?_⟩
      simp only [NodeInstance.consume] at hr ⊢
      split at hr
      · assumption
      · rw [hacc] at hr
        cases hr
  | pointed n number waiting =>
      cases hn'
      exact ⟨fun _ _ => waiting, (hold n rfl).accepted⟩
  | timed n dueAt runnable =>
      cases hn'
      have hshape := hold n rfl
      exact .of_free (hshape.free (by rw [runnable]; decide))
        (hshape.unaccepted (by rw [runnable]; decide))
  | settled n live =>
      cases hn'
      refine .of_free rfl ((hold n rfl).unaccepted fun hs => ?_)
      rw [hs] at live
      cases live
  | ended n state free runnable final =>
      cases hn'
      exact .of_free free ((hold n rfl).unaccepted (by rw [runnable]; decide))
  | advanced n free succeeded =>
      cases hn'
      exact ⟨(hold n rfl).waiting, (hold n rfl).accepted⟩

-- ============================================================================
-- The moves of disciplined operations
-- ============================================================================

theorem checkSource_activity {source : DefinitionGraphNode} {n : NodeInstance}
    (h : checkSource source n = .ok ()) (hkind : source.kind = "activity") :
    n.state = .succeeded ∧ ∃ r, n.acceptedResult = some r := by
  simp only [checkSource, bind_eq_ok, rejectIf_eq_ok, exists_const, if_pos hkind, not_or, ne_eq,
    not_not, Bool.not_eq_true, Option.isNone_eq_false_iff] at h
  exact ⟨h.2.1, Option.isSome_iff_exists.mp h.2.2⟩

theorem checkSource_control {source : DefinitionGraphNode} {n : NodeInstance}
    (h : checkSource source n = .ok ()) (hkind : source.kind ≠ "activity") :
    n.state = .runnable := by
  simp only [checkSource, bind_eq_ok, rejectIf_eq_ok, exists_const, if_neg hkind, ne_eq,
    not_not] at h
  exact h.2

/-- The store reads the source of an advancement as the interpreter does. -/
theorem source_eq_definition {db db' : DB} {input : AdvanceGraphInput} {w : Workflow}
    {n : NodeInstance} {definition : Definition} {graph : DefinitionGraph}
    {source : DefinitionGraphNode} (c : Change.Advanced db input w n definition graph source db')
    {g : Graph} {node : Node} (hg : GraphOf db input.workflowID g)
    (hd : g.find input.fromNodeID = some node) : source = node.definition := by
  obtain ⟨w', d, hw', hdef, hparse⟩ := hg
  obtain ⟨row, hm, -⟩ := c.advances.moves
  have hw : w = w' := by
    have hget := hm.get
    rw [c.workflow, hw', Option.some.injEq] at hget
    exact hget.symm
  have hd' : definition = d := by
    have hstored := c.stored
    rw [hw, hdef, Option.some.injEq] at hstored
    exact hstored.symm
  have hgraph := c.decoded
  rw [hd', decodeDefinitionGraph_of_parseGraph hparse, Except.ok.injEq] at hgraph
  have hfind := c.declared
  rw [← hgraph, find_definition, hd, Option.map_some, Option.some.injEq] at hfind
  exact hfind.symm

/-- The named node of a pass's owner transition. -/
theorem Moves.nodeMove {db : DB} {input : OwnerTransitionInput} (h : Moves db input)
    {n : NodeInstance} (hn : db.nodes.get input.key = some n) (state : WorkflowState)
    (current : Option Int) (purpose : Option TimerPurpose) :
    NodeMove (some n) (some (n.ownerMove input state current purpose)) := by
  have hmove : input.newState ≠ .canceled → ∀ target, input.target = target →
      n.ownerMove input state current purpose = (target.map (fun s => n.transition s purpose)).getD n := by
    intro hnew target htarget
    have hcancels : input.cancels state = false := by simp [OwnerTransitionInput.cancels, hnew]
    rw [NodeInstance.ownerMove, if_neg (by simp [hcancels]), htarget]
  cases h with
  | pause newState nodeID nodeState =>
      rw [hmove (by rw [newState]; decide) none (by simp [OwnerTransitionInput.target, nodeID, nodeState])]
      exact .same _
  | fire newState nodeState node =>
      obtain ⟨m, hm, hstate⟩ := node
      rw [hn, Option.some.injEq] at hm
      rw [hmove (by rw [newState]; decide) (some .runnable)
        (by simp [OwnerTransitionInput.target, nodeState])]
      exact .fired n purpose (by rw [hm]; exact hstate)
  | schedule newState nodeState node activity =>
      obtain ⟨m, hm, hstate⟩ := node
      rw [hn, Option.some.injEq] at hm
      rw [hmove (by rw [newState]; decide) (some .waitingActivity)
        (by simp [OwnerTransitionInput.target, nodeState])]
      exact .scheduled n purpose (by rw [hm]; exact hstate)

theorem NodeMove.of_modify {o : Option NodeInstance} {c : Prop} [Decidable c]
    {f : NodeInstance → NodeInstance}
    (h : ∀ n, o = some n → c → NodeMove (some n) (some (f n))) :
    NodeMove o (if c then o.map f else o) := by
  split
  · rename_i hc
    cases ho : o with
    | none => exact .same none
    | some n => exact h n ho hc
  · exact .same o

theorem consumedNodeState_ne_runnable {s : AttemptState} {newState nodeState : WorkflowState}
    {retryAfter : Option Int} (h : consumedNodeState s newState retryAfter = .ok nodeState) :
    nodeState ≠ .runnable := by
  rintro rfl
  unfold consumedNodeState at h
  split at h
  · split at h <;> cases h
  · split at h
    · cases h
    · split at h <;> cases h
  · split at h <;> cases h
  · cases h

/-- The nodes of an advancement. -/
theorem Advances.nodeMove {db db' : DB} {input : AdvanceGraphInput} {w : Workflow}
    {n : NodeInstance} {definition : Definition} {graph : DefinitionGraph}
    {source : DefinitionGraphNode} (h : Advances db input)
    (c : Change.Advanced db input w n definition graph source db') (k : NodeKey) :
    NodeMove (db.nodes.get k) (db'.nodes.get k) := by
  have hget := c.nodes k
  by_cases hk : k = input.key
  · rw [if_pos hk] at hget
    rw [hget, hk, c.node]
    have hfree := checkSource_free c.ready
    cases h with
    | activity g node m graphOf declared kind stored next missing final =>
        have hsource := source_eq_definition c graphOf declared
        have hsucceeded := (checkSource_activity c.ready (by rw [hsource]; exact kind)).1
        have hstate : input.nodeState = n.state := by
          rw [hsucceeded, AdvanceGraphInput.nodeState, final.2]
          rfl
        rw [hstate]
        exact .advanced n hfree hsucceeded
    | control g node m graphOf declared kind stored fired joined fanned final =>
        have hsource := source_eq_definition c graphOf declared
        refine .ended n _ hfree (checkSource_control c.ready (by rw [hsource]; exact kind)) ?_
        rcases final with hnone | hfailed
        · rw [AdvanceGraphInput.nodeState, hnone]
          rfl
        · rw [AdvanceGraphInput.nodeState, hfailed]
          rfl
  · rw [if_neg hk] at hget
    cases hold : db.nodes.get k with
    | some m =>
        rw [hold, Option.some_or] at hget
        rw [hget]
        exact .same (some m)
    | none =>
        cases hnew : db'.nodes.get k with
        | none => exact .same none
        | some m => exact .created m (c.fresh k m hk hold hnew).1

/-- What a disciplined operation does to the node row of a key. -/
theorem Allowed.nodeMove {db db' : DB} {α : Type} {op : Op α} (hok : Allowed α op db)
    (h : Change db op db') (hshaped : NodesShaped db) (hgen : ∀ k, ∃ N, Generation db k N)
    (k : NodeKey) : NodeMove (db.nodes.get k) (db'.nodes.get k) := by
  cases h with
  | idle rows =>
      rw [rows.nodes]
      exact .same _
  | claimed c | extended c | recorded c | redispatched c | expired c =>
      rw [c.nodes]
      exact .same _
  | created c =>
      rw [Table.get_insert c.nodes]
      split
      · rename_i hk
        rw [hk, (Table.insert?_eq_some_iff.mp c.nodes).1]
        exact .created _ c.node.2
      · exact .same _
  | owner c =>
      rw [c.nodes, moveOwnedNode_nodes]
      refine .of_modify (fun n hn hk => ?_)
      exact Moves.nodeMove hok (hk ▸ hn) _ _ _
  | @consumed _ input _ _ _ _ _ _ _ c =>
      rw [c.nodes, DB.get_modifyNode]
      refine .of_modify (fun n hn hk => .consumed n _ _ _ ⟨input.attemptNumber, ?_⟩
        (consumedNodeState_ne_runnable c.outcome))
      rw [hk, c.node, Option.some.injEq] at hn
      exact hn ▸ c.current
  | attemptCreated c =>
      rw [c.nodes, DB.get_modifyNode]
      refine .of_modify (fun n hn hk => .pointed n _ ?_)
      rw [hk, c.node, Option.some.injEq] at hn
      exact hn ▸ c.nodeWaiting
  | @replaced _ input w m a deadline c =>
      rw [c.nodes, DB.get_modifyNode]
      refine .of_modify (fun n hn hk => .pointed n _ ?_)
      -- the replaced attempt is current, so its node points to it
      obtain ⟨N, hN⟩ := hgen input.key.node
      have hptr := hN.current input.attemptNumber a c.attempt c.isClaimed.1
      rw [hk] at hn
      rw [pointer_of_get hn] at hptr
      exact (hshaped _ n hn).waiting _ hptr
  | timerScheduled c =>
      rw [c.nodes, DB.get_modifyNode]
      refine .of_modify (fun n hn hk => .timed n _ ?_)
      rw [hk, c.node, Option.some.injEq] at hn
      exact hn ▸ c.nodeRunnable
  | canceled c =>
      rw [c.nodes]
      cases db.nodes.get k with
      | none => exact .same none
      | some n =>
          rw [Option.map_some]
          split
          · rename_i hc
            simp only [NodeInstance.cancelable, Bool.and_eq_true, Bool.not_eq_true'] at hc
            exact .settled n hc.2
          · exact .same (some n)
  | advanced c => exact Advances.nodeMove hok c k
  | approvalRequested c | approvalGranted c | approvalRejected c => exact hok.elim

theorem reachable_nodesShaped {env : Env} {C : ∀ α : Type, Op α → DB → Prop} {db : DB}
    (h : State.ReachableIf env (Sys.Both C) db) : NodesShaped db := by
  refine h.induction (fun _ _ _ hn => (nomatch hn)) ?_
  intro db db' hreach hi hs
  cases hs with
  | tick _ d => exact hi
  | commit amb op a hrun hmeets =>
      intro k n hn
      have hmove := Allowed.nodeMove hmeets.1 (Op.run_commit hrun).change hi
        hreach.reachable.generation k
      exact hmove.shape (fun m hm => hi k m hm) hn

/-- What stays of a node in a terminal state. -/
structure NodeKept (n n' : NodeInstance) : Prop where
  state : n'.state = n.state
  accepted : n'.acceptedResult = n.acceptedResult
  free : n'.currentAttempt = n.currentAttempt

theorem NodeKept.trans {n n' n'' : NodeInstance} (h : NodeKept n n') (h' : NodeKept n' n'') :
    NodeKept n n'' :=
  ⟨h'.state.trans h.state, h'.accepted.trans h.accepted, h'.free.trans h.free⟩

/-- A node in a terminal state is not written again, except for its revision. -/
theorem NodeMove.kept {o' : Option NodeInstance} {n : NodeInstance} (h : NodeMove (some n) o')
    (hshape : NodeShape n) (hterm : n.state.isTerminal = true) :
    ∃ n', o' = some n' ∧ NodeKept n n' := by
  have hnot : ∀ s : WorkflowState, n.state = s → s.isTerminal = false → False := by
    rintro s rfl hs
    rw [hterm] at hs
    cases hs
  cases h with
  | same => exact ⟨n, rfl, rfl, rfl, rfl⟩
  | fired n purpose waiting => exact (hnot _ waiting rfl).elim
  | scheduled n purpose runnable => exact (hnot _ runnable rfl).elim
  | consumed n state result dueAt current outcome =>
      obtain ⟨m, hm⟩ := current
      exact (hnot _ (hshape.waiting m hm) rfl).elim
  | pointed n number waiting => exact (hnot _ waiting rfl).elim
  | timed n dueAt runnable => exact (hnot _ runnable rfl).elim
  | settled n live => exact (hnot _ rfl live).elim
  | ended n state free runnable final => exact (hnot _ runnable rfl).elim
  | advanced n free succeeded => exact ⟨_, rfl, rfl, rfl, rfl⟩

end DurableEngine.Engine
