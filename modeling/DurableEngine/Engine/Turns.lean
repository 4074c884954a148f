/-
  DurableEngine.Engine.Turns

  What a disciplined operation does to the state of one node, with the reason
  for it: the kind of node that is scheduled or timed, and what the pass had
  found out about a control node that it advances.
-/

import DurableEngine.Engine.Accepted
import DurableEngine.Engine.Successors
import DurableEngine.State.Ambiguity

namespace DurableEngine.Engine

open Lib State

-- ============================================================================
-- Kinds
-- ============================================================================

theorem KindOf.later {db db' : DB} {workflowID nodeID kind : String}
    (h : KindOf db workflowID nodeID kind) (hl : Later db db') : KindOf db' workflowID nodeID kind := by
  obtain ⟨graph, node, hgraph, hfind, hkind⟩ := h
  exact ⟨graph, node, hgraph.later hl, hfind, hkind⟩

/-- A fan-out that the store advances to its branches declares nothing in `next`. -/
theorem next_eq_nil_of_fanout {db db' : DB} {input : AdvanceGraphInput} {w : Workflow}
    {n m : NodeInstance} {definition : Definition} {graph : DefinitionGraph}
    {source : DefinitionGraphNode} (c : Change.Advanced db input w n definition graph source db')
    {d : Node} (hsource : source = d.definition) (hfan : isFanout d.kind = true)
    (hnext : input.next = fanoutNext m d) : d.next = [] := by
  have hvalid := c.valid
  simp only [validateGraphSuccessors, bind_eq_ok] at hvalid
  obtain ⟨u, hexpected, -⟩ := hvalid
  have hkind : ¬ (source.kind = "activity" ∧ 1 < (expectedSuccessors source).length) := by
    rintro ⟨hk, -⟩
    rw [hsource] at hk
    change d.kind = _ at hk
    rw [hk] at hfan
    cases hfan
  rw [checkExpected_ok_iff _ _ _ hkind, hnext, hsource] at hexpected
  have hlength := congrArg List.length hexpected
  refine List.length_eq_zero_iff.mp ?_
  by_cases hjoin : d.join = ""
  · simp [fanoutNext, expectedSuccessors, Node.definition, hfan, hjoin] at hlength
    simp [hlength]
  · simp [fanoutNext, expectedSuccessors, Node.definition, hfan, hjoin] at hlength
    simp [hlength]

-- ============================================================================
-- Turns of one node
-- ============================================================================

/-- The node's result is that of an attempt which succeeded. -/
def Backed (db : DB) (k : NodeKey) (n : NodeInstance) : Prop :=
  ∃ m a r, db.attempts.get ⟨k, m⟩ = some a ∧ a.isCurrent = false ∧ a.state = .succeeded ∧
    a.result = some r ∧ n.acceptedResult = some r

/-- How a disciplined operation changes the state of the node `n` of a key. -/
inductive Turn (db db' : DB) (k : NodeKey) (n n' : NodeInstance) : Prop where
  | kept (state : n'.state = n.state) (accepted : n'.acceptedResult = n.acceptedResult)
  | fired (waiting : n.state = .waitingTimer) (state : n'.state = .runnable)
  | scheduled (runnable : n.state = .runnable) (kind : KindOf db k.workflowID k.nodeID "activity")
      (state : n'.state = .waitingActivity)
  | consumed (waiting : n.state = .waitingActivity) (backed : n'.state = .succeeded → Backed db k n')
  | timed (runnable : n.state = .runnable) (kind : KindOf db k.workflowID k.nodeID "timer")
      (state : n'.state = .waitingTimer)
  | canceled (before : ∃ w, db.workflows.get k.workflowID = some w ∧ w.state.isTerminal = false)
      (after : ∃ w, db'.workflows.get k.workflowID = some w ∧ w.state = .canceled)
      (state : n'.state = .canceled)
  | advanced (graph : Graph) (d : Node) (graphOf : GraphOf db k.workflowID graph)
      (declared : graph.find k.nodeID = some d) (kind : d.kind ≠ "activity")
      (runnable : n.state = .runnable) (joined : d.kind = "join" → JoinReady db k n.dependencies)
      (fanned : isFanout d.kind = true → d.next = []) (state : n'.state.isTerminal = true)

/-- Only a success makes the node succeed. -/
theorem succeeded_of_consumed {s : AttemptState} {newState : WorkflowState} {retryAfter : Option Int}
    (h : consumedNodeState s newState retryAfter = .ok .succeeded) : s = .succeeded := by
  unfold consumedNodeState at h
  split at h
  · rfl
  · split at h
    · cases h
    · split at h <;> cases h
  · split at h <;> cases h
  · cases h

section Step

variable {env : Env} {db db' : DB} {α : Type} {op : Op α} {k : NodeKey} {n : NodeInstance}

/-- The source of an advancement. -/
theorem Advances.turn {input : AdvanceGraphInput} {w : Workflow} {m : NodeInstance}
    {definition : Definition} {graph : DefinitionGraph} {source : DefinitionGraphNode}
    (hok : Advances db input) (c : Change.Advanced db input w m definition graph source db') :
    Turn db db' input.key m { m with state := input.nodeState, revision := m.revision + 1 } := by
  cases hok with
  | activity g d m' graphOf declared kind stored next missing final =>
      have hsource := source_eq_definition c graphOf declared
      refine .kept ?_ rfl
      rw [(checkSource_activity c.ready (by rw [hsource]; exact kind)).1]
      simp [AdvanceGraphInput.nodeState, final.2]
  | control g d m' graphOf declared kind stored fired joined fanned final =>
      have hsource := source_eq_definition c graphOf declared
      have hrunnable := checkSource_control c.ready (by rw [hsource]; exact kind)
      cases c.node.symm.trans stored
      refine .advanced g d graphOf declared kind hrunnable (fun hjoin => joined hjoin hrunnable)
        (fun hfan => next_eq_nil_of_fanout c hsource hfan (fanned hfan hrunnable)) ?_
      rcases final with hnone | hfailed
      · simp only [AdvanceGraphInput.nodeState, hnone]
        rfl
      · simp only [AdvanceGraphInput.nodeState, hfailed]
        rfl

/-- The node that an owner transition names. -/
theorem Moves.turn {input : OwnerTransitionInput} (hok : Moves db input)
    (hn : db.nodes.get input.key = some n) (state : WorkflowState) (current : Option Int)
    (purpose : Option TimerPurpose) :
    Turn db db' input.key n (n.ownerMove input state current purpose) := by
  have hmove : input.newState ≠ .canceled → ∀ target, input.target = target →
      n.ownerMove input state current purpose = (target.map (fun s => n.transition s purpose)).getD n := by
    intro hnew target htarget
    have hcancels : input.cancels state = false := by simp [OwnerTransitionInput.cancels, hnew]
    rw [NodeInstance.ownerMove, if_neg (by simp [hcancels]), htarget]
  cases hok with
  | pause newState nodeID nodeState =>
      rw [hmove (by rw [newState]; decide) none
        (by simp [OwnerTransitionInput.target, nodeID, nodeState])]
      exact .kept rfl rfl
  | fire newState nodeState node =>
      obtain ⟨m, hm, hstate⟩ := node
      cases hn.symm.trans hm
      rw [hmove (by rw [newState]; decide) (some .runnable)
        (by simp [OwnerTransitionInput.target, nodeState])]
      exact .fired hstate rfl
  | schedule newState nodeState node activity =>
      obtain ⟨m, hm, hstate⟩ := node
      cases hn.symm.trans hm
      rw [hmove (by rw [newState]; decide) (some .waitingActivity)
        (by simp [OwnerTransitionInput.target, nodeState])]
      exact .scheduled hstate activity rfl

/-- What a disciplined operation does to the state of a node. -/
theorem Allowed.turn (hok : Allowed α op db) (hc : Change db op db') (hshaped : NodesShaped db)
    (hn : db.nodes.get k = some n) : ∃ n', db'.nodes.get k = some n' ∧ Turn db db' k n n' := by
  have hsame : db'.nodes.get k = db.nodes.get k →
      ∃ n', db'.nodes.get k = some n' ∧ Turn db db' k n n' :=
    fun heq => ⟨n, heq.trans hn, .kept rfl rfl⟩
  have hmodify : ∀ {f : NodeInstance → NodeInstance} {hf key},
      db'.nodes = (db.modifyNode key f hf).nodes → (k = key → Turn db db' k n (f n)) →
      ∃ n', db'.nodes.get k = some n' ∧ Turn db db' k n n' := by
    intro f hf key hnodes hturn
    by_cases hk : k = key
    · exact ⟨f n, by rw [hnodes, DB.get_modifyNode, if_pos hk, hn]; rfl, hturn hk⟩
    · exact hsame (by rw [hnodes, DB.get_modifyNode, if_neg hk])
  cases hc with
  | idle rows => exact hsame (by rw [rows.nodes])
  | claimed c | extended c | recorded c | redispatched c | expired c =>
      exact hsame (by rw [c.nodes])
  | created c => exact hsame ((Table.get_insert_of_get c.nodes hn).trans hn.symm)
  | @owner _ input w _ current timer c =>
      have hget := congrArg (Table.get · k) c.nodes
      simp only [moveOwnedNode_nodes] at hget
      by_cases hk : k = input.key
      · subst hk
        rw [if_pos rfl, hn] at hget
        exact ⟨_, hget, Moves.turn hok hn _ _ _⟩
      · rw [if_neg hk] at hget
        exact hsame hget
  | @consumed _ input _ m a result _ nodeState _ c =>
      refine hmodify c.nodes (fun hk => ?_)
      subst hk
      cases hn.symm.trans c.node
      refine .consumed ((hshaped _ n hn).waiting _ c.current) (fun hstate => ?_)
      have hnode := c.outcome
      rw [show nodeState = .succeeded from hstate] at hnode
      exact ⟨_, a, result, c.attempt, c.recorded.1, succeeded_of_consumed hnode, c.recorded.2.2,
        if_pos hstate⟩
  | attemptCreated c | replaced c => exact hmodify c.nodes (fun _ => .kept rfl rfl)
  | timerScheduled c =>
      refine hmodify c.nodes (fun hk => ?_)
      subst hk
      cases hn.symm.trans c.node
      exact .timed c.nodeRunnable hok.2.2 rfl
  | @canceled _ _ _ w c _ =>
      have hget := c.nodes k
      rw [hn, Option.map_some] at hget
      split at hget
      · rename_i hcancel
        simp only [NodeInstance.cancelable, Bool.and_eq_true, decide_eq_true_eq] at hcancel
        have hid : k.workflowID = w.workflowID := by rw [← hcancel.1, Table.key_of_get hn]
        obtain ⟨row, hm, -⟩ := c.advances.moves
        have hafter : db'.workflows.get k.workflowID =
            some { w with state := .canceled, revision := w.revision + 1 } := by
          rw [hm.get_workflow, if_pos hid]
        exact ⟨_, hget, .canceled ⟨w, by rw [hid]; exact hm.get, hm.live⟩ ⟨_, hafter, rfl⟩ rfl⟩
      · exact hsame (hget.trans hn.symm)
  | @advanced _ input w m definition graph source c =>
      have hget := c.nodes k
      by_cases hk : k = input.key
      · subst hk
        rw [if_pos rfl] at hget
        cases hn.symm.trans c.node
        exact ⟨_, hget, Advances.turn hok c⟩
      · rw [if_neg hk, hn, Option.some_or] at hget
        exact hsame (hget.trans hn.symm)
  | approvalRequested c | approvalGranted c | approvalRejected c => exact hok.elim

end Step

-- ============================================================================
-- What the state of a node says about its kind
-- ============================================================================

/-- Only an activity waits for one; a fan-out that has succeeded declares nothing in `next`, and
    an activity has the result of a success. -/
structure Origin (db : DB) (k : NodeKey) (n : NodeInstance) : Prop where
  waiting : n.state = .waitingActivity → KindOf db k.workflowID k.nodeID "activity"
  succeeded : n.state = .succeeded → ∃ graph d, GraphOf db k.workflowID graph ∧
    graph.find k.nodeID = some d ∧ (isFanout d.kind = true → d.next = []) ∧
    (d.kind = "activity" → Backed db k n)

theorem Origin.of_ne {db : DB} {k : NodeKey} {n : NodeInstance} (hw : n.state ≠ .waitingActivity)
    (hs : n.state ≠ .succeeded) : Origin db k n :=
  ⟨fun h => absurd h hw, fun h => absurd h hs⟩

theorem Origin.of_activity {db : DB} {k : NodeKey} {n : NodeInstance}
    (h : KindOf db k.workflowID k.nodeID "activity") (hs : n.state = .succeeded → Backed db k n) :
    Origin db k n := by
  refine ⟨fun _ => h, fun hstate => ?_⟩
  obtain ⟨graph, d, hgraph, hfind, hkind⟩ := h
  refine ⟨graph, d, hgraph, hfind, fun hfan => ?_, fun _ => hs hstate⟩
  rw [hkind] at hfan
  cases hfan

theorem Backed.step {db db' : DB} {k : NodeKey} {n n' : NodeInstance} (h : Backed db k n)
    (hs : ∀ key, AttemptStep (db.attempts.get key) (db'.attempts.get key))
    (hacc : n'.acceptedResult = n.acceptedResult) : Backed db' k n' := by
  obtain ⟨m, a, r, ha, hcur, hstate, hr, hn⟩ := h
  have hstep := hs ⟨k, m⟩
  rw [ha] at hstep
  obtain ⟨a', ha', hcur', hstate', hr', -⟩ := hstep.settled hcur (by rw [hstate]; decide)
  exact ⟨m, a', r, ha', hcur', hstate'.trans hstate, hr'.trans hr, hacc.trans hn⟩

theorem Turn.origin {db db' : DB} {k : NodeKey} {n n' : NodeInstance} (h : Turn db db' k n n')
    (hold : Origin db k n) (hl : Later db db')
    (hs : ∀ key, AttemptStep (db.attempts.get key) (db'.attempts.get key)) : Origin db' k n' := by
  cases h with
  | kept state accepted =>
      refine ⟨fun hw => (hold.waiting (state.symm.trans hw)).later hl, fun hsucceeded => ?_⟩
      obtain ⟨graph, d, hgraph, hfind, hfan, hback⟩ := hold.succeeded (state.symm.trans hsucceeded)
      exact ⟨graph, d, hgraph.later hl, hfind, hfan, fun hkind => (hback hkind).step hs accepted⟩
  | fired _ state | timed _ _ state | canceled _ _ state =>
      exact .of_ne (by rw [state]; decide) (by rw [state]; decide)
  | scheduled _ kind state =>
      refine .of_activity (kind.later hl) (fun hsucceeded => ?_)
      rw [state] at hsucceeded
      cases hsucceeded
  | consumed waiting backed =>
      exact .of_activity ((hold.waiting waiting).later hl) (fun hsucceeded =>
        (backed hsucceeded).step hs rfl)
  | advanced graph d graphOf declared kind runnable joined fanned state =>
      refine ⟨fun hw => ?_, fun _ => ⟨graph, d, graphOf.later hl, declared, fanned,
        fun hkind => absurd hkind kind⟩⟩
      rw [hw] at state
      cases state

theorem reachable_origin {env : Env} {C : ∀ α : Type, Op α → DB → Prop} {db : DB}
    (h : State.ReachableIf env (Sys.Both C) db) {k : NodeKey} {n : NodeInstance}
    (hn : db.nodes.get k = some n) : Origin db k n := by
  refine h.induction (I := fun db => ∀ k n, db.nodes.get k = some n → Origin db k n)
    (fun _ _ _ hn => (nomatch hn)) ?_ k n hn
  clear h hn
  intro db db' hreach hi hs k n' hn'
  cases hs with
  | tick _ d =>
      exact Turn.origin (.kept rfl rfl) (hi k n' hn') (.tick db d) (fun key => .same _)
  | commit amb op a hrun hmeets =>
      have hc := Op.run_commit hrun
      cases hold : db.nodes.get k with
      | none =>
          have hfresh := (hc.change.nodeStep k).fresh_of_none hold hn'
          exact .of_ne (by rw [hfresh.1]; decide) (by rw [hfresh.1]; decide)
      | some n =>
          obtain ⟨m, hm, hturn⟩ :=
            Allowed.turn hmeets.1 hc.change (reachable_nodesShaped hreach) hold
          cases hn'.symm.trans hm
          exact hturn.origin (hi k n hold) (.of_commit hc) hc.change.attemptStep

end DurableEngine.Engine
