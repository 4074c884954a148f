/-
  DurableEngine.Engine.Accepted

  The result of a node is accepted once.

  Passes may stop after any store call and others take over from whatever they
  find, so the same result may be offered and the same node advanced again.
  A node whose advancement has committed is `Spent`: its workflow has ended,
  or it is in a terminal state with its successors in place.  No disciplined
  operation advances a spent node, and none makes it unspent.
-/

import DurableEngine.Engine.Nodes

namespace DurableEngine

open Lib State

namespace Engine

-- ============================================================================
-- Spent nodes
-- ============================================================================

/-- The successors that the node's result selects are in place. -/
def SuccessorsExist (db : DB) (k : NodeKey) (graph : Graph) (node : Node) (n : NodeInstance) :
    Prop :=
  ∃ next, nextInputsForResult k node graph n.acceptedResult = .ok next ∧ next ≠ [] ∧
    ∀ item ∈ next, ∃ m, db.nodes.get ⟨k.workflowID, item.nodeID, item.iteration⟩ = some m

/-- The node was advanced: its workflow has ended, or it has ended itself and,
    if it is an activity, its successors are in place. -/
inductive Spent (db : DB) (k : NodeKey) : Prop where
  | workflow (w : Workflow) (get : db.workflows.get k.workflowID = some w)
      (ended : w.state.isTerminal = true)
  | node (graph : Graph) (node : Node) (n : NodeInstance) (graphOf : GraphOf db k.workflowID graph)
      (declared : graph.find k.nodeID = some node) (get : db.nodes.get k = some n)
      (ended : n.state.isTerminal = true)
      (successors : node.kind = "activity" → SuccessorsExist db k graph node n)

/-- The interpreter's reading of a workflow's graph is unique. -/
theorem GraphOf.unique {db : DB} {workflowID : String} {g g' : Graph} (h : GraphOf db workflowID g)
    (h' : GraphOf db workflowID g') : g = g' := by
  obtain ⟨w, d, hw, hd, hg⟩ := h
  obtain ⟨w', d', hw', hd', hg'⟩ := h'
  rw [hw, Option.some.injEq] at hw'
  subst hw'
  rw [hd, Option.some.injEq] at hd'
  subst hd'
  rw [hg, Except.ok.injEq] at hg'
  exact hg'

theorem terminal_stays {db db' : DB} {α : Type} {op : Op α} (h : Change db op db') {id : String}
    {w : Workflow} (hw : db.workflows.get id = some w) (hend : w.state.isTerminal = true) :
    db'.workflows.get id = some w := by
  obtain ⟨hsame, -⟩ | ⟨w₀, row, hins, -⟩ | ⟨w₀, s, row, hm⟩ := h.history_cases
  · rw [hsame]
    exact hw
  · exact Table.get_insert_of_get hins hw
  · rw [hm.get_workflow, if_neg]
    · exact hw
    · rintro rfl
      rw [hm.get, Option.some.injEq] at hw
      rw [← hw, hm.live] at hend
      cases hend

/-- A disciplined operation leaves a spent node spent. -/
theorem Spent.commit {env : Env} {db db' : DB} {α : Type} {op : Op α} {k : NodeKey} (h : Spent db k)
    (hok : Allowed α op db) (hc : Commit env db op db') (hshaped : NodesShaped db)
    (hgen : ∀ k, ∃ N, Generation db k N) : Spent db' k := by
  cases h with
  | workflow w get ended => exact .workflow w (terminal_stays hc.change get ended) ended
  | node graph node n graphOf declared get ended successors =>
      have hmove := Allowed.nodeMove hok hc.change hshaped hgen k
      rw [get] at hmove
      obtain ⟨n', hn', hkept⟩ := hmove.kept (hshaped k n get) ended
      refine .node graph node n' (graphOf.later (.of_commit hc)) declared hn'
        (by rw [hkept.state]; exact ended) (fun hkind => ?_)
      obtain ⟨next, hnext, hne, hall⟩ := successors hkind
      refine ⟨next, by rw [hkept.accepted]; exact hnext, hne, fun item hitem => ?_⟩
      obtain ⟨m, hm⟩ := hall item hitem
      exact (hc.change.nodeStep _).persists hm

/-- No disciplined operation advances a spent node. -/
theorem Spent.not_advanced {db db' : DB} {input : AdvanceGraphInput} (h : Spent db input.key)
    (hok : Allowed _ (.advanceGraph input) db) {w : Workflow} {n : NodeInstance}
    {definition : Definition} {graph : DefinitionGraph} {source : DefinitionGraphNode}
    (c : Change.Advanced db input w n definition graph source db') : False := by
  cases h with
  | workflow w' get ended =>
      obtain ⟨row, hm, -⟩ := c.advances.moves
      have hget := hm.get
      rw [c.workflow, show input.workflowID = input.key.workflowID from rfl, get,
        Option.some.injEq] at hget
      rw [hget, hm.live] at ended
      cases ended
  | node g node n' graphOf declared get ended successors =>
      rw [c.node, Option.some.injEq] at get
      subst get
      cases hok with
      | activity g' node' m graphOf' declared' kind stored next missing final =>
          cases graphOf.unique graphOf'
          cases Option.some.inj (declared.symm.trans declared')
          cases Option.some.inj (c.node.symm.trans stored)
          obtain ⟨next', hnext', hne, hall⟩ := successors kind
          rw [next, Except.ok.injEq] at hnext'
          subst hnext'
          rcases missing with hempty | ⟨key, hkey, hnone⟩
          · exact hne hempty
          · obtain ⟨item, hitem, rfl⟩ := List.mem_map.mp hkey
            obtain ⟨m, hm⟩ := hall item hitem
            rw [show input.key.workflowID = input.workflowID from rfl, hnone] at hm
            cases hm
      | control g' node' m graphOf' declared' kind stored fired joined fanned final =>
          have hsource := source_eq_definition c graphOf' declared'
          rw [checkSource_control c.ready (by rw [hsource]; exact kind)] at ended
          cases ended

/-- An advanced node is spent. -/
theorem spent_of_advanced {db db' : DB} {input : AdvanceGraphInput}
    (hok : Allowed _ (.advanceGraph input) db) (hl : Later db db') {w : Workflow} {n : NodeInstance}
    {definition : Definition} {graph : DefinitionGraph} {source : DefinitionGraphNode}
    (c : Change.Advanced db input w n definition graph source db') : Spent db' input.key := by
  have hget := c.nodes input.key
  rw [if_pos rfl] at hget
  cases hok with
  | activity g node m graphOf declared kind stored next missing final =>
      have hsource := source_eq_definition c graphOf declared
      have hsucceeded := (checkSource_activity c.ready (by rw [hsource]; exact kind)).1
      rw [c.node, Option.some.injEq] at stored
      subst stored
      by_cases hempty : input.next = []
      · -- an activity without successors ends the workflow
        obtain ⟨row, hm, -⟩ := c.advances.moves
        refine .workflow { w with state := input.workflowState, revision := w.revision + 1 } ?_ ?_
        · exact (hm.get_workflow _).trans (if_pos c.workflow.symm)
        · simp only [AdvanceGraphInput.workflowState, final.1, hempty]
          rfl
      · refine .node g node _ (graphOf.later hl) declared hget ?_ (fun _ => ?_)
        · rw [AdvanceGraphInput.nodeState, final.2]
          rfl
        · refine ⟨input.next, next, hempty, fun item hitem => ?_⟩
          exact c.complete _ (List.mem_map_of_mem hitem)
  | control g node m graphOf declared kind stored fired joined fanned final =>
      refine .node g node _ (graphOf.later hl) declared hget ?_ (fun hkind => absurd hkind kind)
      rcases final with hnone | hfailed
      · rw [AdvanceGraphInput.nodeState, hnone]
        rfl
      · rw [AdvanceGraphInput.nodeState, hfailed]
        rfl

end Engine

-- ============================================================================
-- Runs
-- ============================================================================

/-- The committed operation advances the node. -/
def advancesFrom (k : NodeKey) : Committed → Bool
  | ⟨_, .advanceGraph input⟩ => input.key = k
  | _ => false

section Runs

open Engine

variable {env : Env} {C : ∀ α : Type, Op α → DB → Prop} {db db' : DB} {trace : List Committed}

theorem advancesFrom_eq_true {k : NodeKey} {c : Committed} (h : advancesFrom k c = true) :
    ∃ input, c = ⟨_, .advanceGraph input⟩ ∧ input.key = k := by
  unfold advancesFrom at h
  split at h
  · rename_i input
    exact ⟨input, rfl, by simpa using h⟩
  · cases h

/-- What a disciplined run keeps of a node in a terminal state. -/
theorem State.Trace.kept (hreach : State.ReachableIf env (Sys.Both C) db)
    (h : Trace env (Sys.Both C) db trace db') {k : NodeKey} {n : NodeInstance}
    (hn : db.nodes.get k = some n) (hend : n.state.isTerminal = true) :
    ∃ n', db'.nodes.get k = some n' ∧ NodeKept n n' := by
  induction h with
  | refl => exact ⟨n, hn, rfl, rfl, rfl⟩
  | tick _ d ih => exact ih
  | commit hrun amb op a hop hmeets ih =>
      obtain ⟨n₁, hn₁, hkept⟩ := ih
      have hreach₁ := hreach.run hrun.steps
      have hshaped := reachable_nodesShaped hreach₁
      have hmove := Allowed.nodeMove hmeets.1 (Op.run_commit hop).change hshaped
        hreach₁.reachable.generation k
      rw [hn₁] at hmove
      obtain ⟨n₂, hn₂, hkept₂⟩ := hmove.kept (hshaped k n₁ hn₁) (by rw [hkept.state]; exact hend)
      exact ⟨n₂, hn₂, hkept.trans hkept₂⟩

/-- A node that does not wait for an activity gets no attempt. -/
theorem State.Trace.attempts (hreach : State.ReachableIf env (Sys.Both C) db)
    (h : Trace env (Sys.Both C) db trace db') {k : NodeKey} {n : NodeInstance}
    (hn : db.nodes.get k = some n) (hend : n.state.isTerminal = true) {key : AttemptKey}
    (hkey : key.node = k) {a : Attempt} (ha : db'.attempts.get key = some a) :
    ∃ b, db.attempts.get key = some b := by
  induction h generalizing a with
  | refl => exact ⟨a, ha⟩
  | tick _ d ih => exact ih ha
  | @commit _ _ db₁ _ hrun amb op r hop hmeets ih =>
      cases hold : db₁.attempts.get key with
      | some b => exact ih hold
      | none =>
          have hreach₁ := hreach.run hrun.steps
          obtain ⟨n₁, hn₁, hkept⟩ := hrun.kept hreach hn hend
          have hshape := reachable_nodesShaped hreach₁ k n₁ hn₁
          -- its node waits, or has a current attempt and so waits as well
          have hwaiting : n₁.state = .waitingActivity := by
            obtain ⟨n₂, hn₂, hwait | ⟨m, b, hb, hcur⟩⟩ :=
              (Op.run_commit hop).change.node_of_new hold ha
            · rw [hkey, hn₁, Option.some.injEq] at hn₂
              rw [hn₂]
              exact hwait
            · obtain ⟨N, hN⟩ := hreach₁.reachable.generation k
              have hptr := hN.current m b (hkey ▸ hb) hcur
              rw [pointer_of_get hn₁] at hptr
              exact hshape.waiting m hptr
          rw [hkept.state] at hwaiting
          rw [hwaiting] at hend
          cases hend

/-- A disciplined run advances a node at most once, and leaves it spent. -/
theorem State.Trace.advances (hreach : State.ReachableIf env (Sys.Both C) db)
    (h : Trace env (Sys.Both C) db trace db') (k : NodeKey) :
    trace.countP (advancesFrom k) = 0 ∨ trace.countP (advancesFrom k) = 1 ∧ Spent db' k := by
  induction h with
  | refl => exact .inl rfl
  | tick _ d ih =>
      refine ih.imp id (fun hone => ⟨hone.1, ?_⟩)
      cases hone.2 with
      | workflow w get ended => exact .workflow w get ended
      | node graph node n graphOf declared get ended successors =>
          exact .node graph node n (graphOf.later (.tick _ d)) declared get ended successors
  | @commit _ _ db₁ db₂ hrun amb op r hop hmeets ih =>
      have hreach₁ := hreach.run hrun.steps
      have hc := Op.run_commit hop
      rw [List.countP_append, List.countP_singleton]
      split
      · rename_i hadv
        obtain ⟨input, heq, rfl⟩ := advancesFrom_eq_true hadv
        cases heq
        obtain ⟨⟨w, n, definition, graph, source, c⟩, -⟩ := advanceGraph_eq_ok hop
        rcases ih with hzero | ⟨-, hspent⟩
        · exact .inr ⟨by rw [hzero], spent_of_advanced hmeets.1 (.of_commit hc) c⟩
        · exact (hspent.not_advanced hmeets.1 c).elim
      · refine ih.imp id (fun hone => ⟨hone.1, ?_⟩)
        exact hone.2.commit hmeets.1 hc (reachable_nodesShaped hreach₁) hreach₁.reachable.generation

end Runs

-- ============================================================================
-- Results are accepted once
-- ============================================================================

/-- What a run from `s` to `s'` with the commits `trace` since the start keeps of results. -/
structure AcceptedOnce (s s' : Sys) (trace : List Committed) : Prop where
  accepted : ∀ k n r, s.db.nodes.get k = some n → n.acceptedResult = some r →
    ∃ n', s'.db.nodes.get k = some n' ∧ n'.acceptedResult = some r
  succeeded : ∀ k n, s.db.nodes.get k = some n → n.state = .succeeded →
    ∃ n', s'.db.nodes.get k = some n' ∧ n'.state = .succeeded
  attempts : ∀ k n, s.db.nodes.get k = some n → n.state = .succeeded → ∀ key : AttemptKey,
    key.node = k → ∀ a, s'.db.attempts.get key = some a → ∃ b, s.db.attempts.get key = some b
  advanced : ∀ k, trace.countP (advancesFrom k) ≤ 1

/-- However passes, workers and operators interleave, and wherever passes stop:
    a node's result is accepted once, a succeeded node is final, and it is
    advanced at most once. -/
theorem accepted_once {env : Env} {now : Int} {s s' : Sys} {before after : List Committed}
    (h : Sys.Run env Sys.Any (Sys.init now) before s) (h' : Sys.Run env Sys.Any s after s') :
    AcceptedOnce s s' (before ++ after) := by
  have hstart : State.ReachableIf env (Sys.Both Sys.Any) (DB.init now) := ⟨now, .refl⟩
  have hreach := Sys.ReachableIf.store ⟨now, before, h⟩
  obtain ⟨-, hfirst⟩ := h.disciplined (Sys.disciplined_init now)
  obtain ⟨-, hrun⟩ := h'.disciplined (Sys.ReachableIf.disciplined ⟨now, before, h⟩)
  have hkept : ∀ k n, s.db.nodes.get k = some n → n.state = .succeeded →
      ∃ n', s'.db.nodes.get k = some n' ∧ Engine.NodeKept n n' :=
    fun k n hn hs => hrun.kept hreach hn (by rw [hs]; rfl)
  refine ⟨fun k n r hn hr => ?_, fun k n hn hs => ?_, fun k n hn hs key hkey a ha => ?_, fun k => ?_⟩
  · have hs := (Engine.reachable_nodesShaped hreach k n hn).accepted r hr
    obtain ⟨n', hn', hkeep⟩ := hkept k n hn hs
    exact ⟨n', hn', hkeep.accepted.trans hr⟩
  · obtain ⟨n', hn', hkeep⟩ := hkept k n hn hs
    exact ⟨n', hn', hkeep.state.trans hs⟩
  · exact hrun.attempts hreach hn (by rw [hs]; rfl) hkey ha
  · rcases (hfirst.trans hrun).advances hstart k with hzero | hone
    · omega
    · omega

/-- An engine that runs activities itself, each to an empty result, for some steps. -/
def soloEngine (steps : Int) : Engine where
  env := .plain
  driver := fun _ => .done (.ok ⟨none, .json (.obj []), 0⟩)
  externalActivities := false
  ownerID := ""
  workerID := ""
  actorID := ""
  leaseTTL := 0
  attemptLease := 0
  retryBackoff := 25000000
  maxSteps := steps

/-- The first pass stops once the result is consumed. -/
def consumedScript : List Sys.Action :=
  [.client (.createDefinition soloDefinition), .client (.createWorkflow soloWorkflow),
    .pass (soloEngine 1) "w"]

/-- A second pass takes over after the first one has stopped and ends the workflow. -/
theorem accepted_once_resumed : ∃ before after s s',
    Sys.Run .plain Sys.Any (Sys.init 0) before s ∧ Sys.Run .plain Sys.Any s after s' ∧
    (s.db.nodes.get ⟨"w", "a", 0⟩).any
      (fun n => n.state = .succeeded && n.acceptedResult.isSome) = true ∧
    (s'.db.workflows.get "w").any (fun w => w.state = .succeeded) = true ∧
    AcceptedOnce s s' (before ++ after) := by
  obtain ⟨before, hbefore⟩ := @Sys.run_of_runScript .plain consumedScript
    (by simp [consumedScript, Sys.Action.valid, Op.isClient, soloEngine]) 0 (DB.init 0)
  obtain ⟨after, hafter⟩ := @Sys.run_of_runScript .plain
    [.pass (soloEngine 0) "w"] (by simp [Sys.Action.valid, soloEngine]) 100
    (Sys.runScript .plain 0 consumedScript (DB.init 0))
  exact ⟨before, after, _, _, hbefore, hafter, by decide +kernel, by decide +kernel,
    accepted_once hbefore hafter⟩

end DurableEngine
