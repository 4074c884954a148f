/-
  DurableEngine.State.Terminal

  When a workflow has ended, nothing of it is left: its nodes are in terminal
  states, none of them points to an attempt, and no attempt is current.

  `AdvanceGraph` and `ConsumeResult` check the other nodes before they end a
  workflow, and a cancellation settles them.  `ApplyOwnerTransition` and the
  rejection of an approval do neither: `SettlesNodes` is what their caller
  has to see to.
-/

import DurableEngine.State.NodeLife

namespace DurableEngine.State

open Lib

-- ============================================================================
-- The property
-- ============================================================================

/-- Nothing of the workflow is left to do. -/
structure WorkflowSettled (db : DB) (workflowID : String) : Prop where
  nodes : ∀ k n, db.nodes.get k = some n → k.workflowID = workflowID →
    n.state.isTerminal = true ∧ n.currentAttempt = none
  attempts : ∀ k a, db.attempts.get k = some a → k.node.workflowID = workflowID →
    a.isCurrent = false

/-- The transition cancels the named node's work with the workflow. -/
def OwnerTransitionInput.cancelsWork (input : OwnerTransitionInput) (db : DB) : Prop :=
  input.nodeID ≠ "" ∧ ∃ w, db.workflows.get input.workflowID = some w ∧
    input.cancels w.state = true

/-- An owner transition takes no attempt's node to a terminal state, and ends
    the workflow only when its other nodes are settled and the named one ends. -/
structure OwnerTransitionInput.Settles (input : OwnerTransitionInput) (db : DB) : Prop where
  node : ∀ n s, db.nodes.get input.key = some n → input.target = some s → s.isTerminal = true →
    n.currentAttempt = none ∨ input.cancelsWork db
  siblings : input.newState.isTerminal = true → db.liveSiblings input.key = []
  final : input.newState.isTerminal = true → ∀ n, db.nodes.get input.key = some n →
    (input.target.getD n.state).isTerminal = true

/-- The rejection of an approval ends the workflow only when its other nodes
    are settled and the named one has no attempt. -/
def ApplyApprovalInput.settles (input : ApplyApprovalInput) (db : DB) : Prop :=
  ∀ id intent, uuidText input.intentID = some id → db.intents.get id = some intent →
    intent.decision = .rejected → db.liveSiblings input.key = [] ∧
      ∀ n, db.nodes.get input.key = some n → n.currentAttempt = none

/-- The operations that end a workflow unchecked are called when its nodes are settled. -/
def SettlesNodes (α : Type) (op : Op α) (db : DB) : Prop :=
  match op with
  | .applyOwnerTransition input => input.Settles db
  | .applyApproval input => input.settles db
  | _ => True

-- ============================================================================
-- Nodes in terminal states have no attempt
-- ============================================================================

/-- A node in a terminal state points to no attempt. -/
def NodesTidy (db : DB) : Prop :=
  ∀ k n, db.nodes.get k = some n → n.state.isTerminal = true → n.currentAttempt = none

theorem mem_liveSiblings {db : DB} {k k' : NodeKey} {n : NodeInstance}
    (hn : db.nodes.get k' = some n) (hid : k'.workflowID = k.workflowID) (hne : k' ≠ k)
    (hlive : n.live = true) : n ∈ db.liveSiblings k := by
  have hkey := Table.key_of_get hn
  exact Table.mem_select.mpr ⟨Table.mem_of_get hn, by simp [hkey, hid, hne, hlive]⟩

theorem not_live_iff {n : NodeInstance} :
    n.live = false ↔ n.state.isTerminal = true ∧ n.currentAttempt = none := by
  simp [NodeInstance.live]

/-- The named node after an owner transition of a caller that settles. -/
theorem Change.Owner.tidy {db db' : DB} {input : OwnerTransitionInput} {w : Workflow}
    {row : TransitionRecord} {current : Option Int} {timer : Option Timer}
    (c : Change.Owner db input w row current timer db') (hok : input.Settles db)
    {n : NodeInstance} {purpose : Option TimerPurpose} (hn : db.nodes.get input.key = some n)
    (htidy : n.state.isTerminal = true → n.currentAttempt = none)
    (hterm : (n.ownerMove input w.state current purpose).state.isTerminal = true) :
    (n.ownerMove input w.state current purpose).currentAttempt = none := by
  unfold NodeInstance.ownerMove at hterm ⊢
  split
  · rfl
  · rename_i hcancels
    rw [if_neg hcancels] at hterm
    cases htarget : input.target with
    | none =>
        rw [htarget] at hterm
        exact htidy hterm
    | some s =>
        rw [htarget] at hterm
        rcases hok.node n s hn htarget hterm with hnone | ⟨hnamed, w', hw', hc⟩
        · exact hnone
        · -- the caller relies on the cancellation, so there is no attempt to cancel
          rw [← c.workflow, c.moves.get, Option.some.injEq] at hw'
          obtain ⟨m, hm, hcur⟩ := c.node hnamed
          rw [hn, Option.some.injEq] at hm
          rw [hw', not_and, Bool.not_eq_true, Option.isSome_eq_false_iff, Option.isNone_iff_eq_none]
            at hcancels
          show n.currentAttempt = none
          rw [hm, hcur]
          exact hcancels hc

theorem checkSource_free {source : DefinitionGraphNode} {n : NodeInstance}
    (h : checkSource source n = .ok ()) : n.currentAttempt = none := by
  simp only [checkSource, bind_eq_ok, rejectIf_eq_ok, exists_const] at h
  simpa using h.1

theorem Change.ApprovalRejected.settles {db db' : DB} {input : ApplyApprovalInput} {w : Workflow}
    {intent : ApprovalIntent} {id : String}
    (c : Change.ApprovalRejected db input w intent id db') (hok : input.settles db) :
    db.liveSiblings input.key = [] ∧
      ∀ n, db.nodes.get input.key = some n → n.currentAttempt = none :=
  hok id intent c.named c.stored c.rejected

theorem NodesTidy.change {db db' : DB} {α : Type} {op : Op α} (h : NodesTidy db)
    (hc : Change db op db') (hok : SettlesNodes α op db)
    (hgen : ∀ k, ∃ N, Generation db k N) : NodesTidy db' := by
  intro k n' hn' hterm
  have hmodify : ∀ {f : NodeInstance → NodeInstance} {hf key}, db'.nodes =
      (db.modifyNode key f hf).nodes →
      (∀ n, db.nodes.get key = some n → (f n).state.isTerminal = true → (f n).currentAttempt = none) →
      n'.currentAttempt = none := by
    intro f hf key hnodes hf'
    rw [hnodes, DB.get_modifyNode] at hn'
    split at hn'
    · rename_i hk
      obtain ⟨n, hn, rfl⟩ := Option.map_eq_some_iff.mp hn'
      exact hf' n (hk ▸ hn) hterm
    · exact h k n' hn' hterm
  cases hc with
  | idle rows =>
      rw [rows.nodes] at hn'
      exact h k n' hn' hterm
  | claimed c | extended c | recorded c | redispatched c | expired c =>
      rw [c.nodes] at hn'
      exact h k n' hn' hterm
  | created c =>
      rw [Table.get_insert c.nodes] at hn'
      split at hn'
      · cases hn'
        exact c.node.2.2.2.1
      · exact h k n' hn' hterm
  | owner c =>
      rw [c.nodes, moveOwnedNode_nodes] at hn'
      split at hn'
      · rename_i hk
        obtain ⟨n, hn, rfl⟩ := Option.map_eq_some_iff.mp hn'
        exact c.tidy hok (hk ▸ hn) (h k n hn) hterm
      · exact h k n' hn' hterm
  | consumed c => exact hmodify c.nodes (fun n hn _ => rfl)
  | attemptCreated c =>
      refine hmodify c.nodes (fun n hn hterm => ?_)
      rw [c.node, Option.some.injEq] at hn
      rw [← hn] at hterm
      simp only [c.nodeWaiting] at hterm
      cases hterm
  | @replaced _ input w m a deadline c =>
      refine hmodify c.nodes (fun n hn hterm => ?_)
      -- the replaced attempt is current, so its node points to it and is not terminal
      obtain ⟨N, hN⟩ := hgen input.key.node
      have hptr := hN.current input.attemptNumber a c.attempt c.isClaimed.1
      rw [pointer_of_get hn, h _ n hn hterm] at hptr
      cases hptr
  | timerScheduled c | approvalRequested c | approvalGranted c =>
      refine hmodify c.nodes (fun n hn hterm => ?_)
      cases hterm
  | approvalRejected c => exact hmodify c.nodes (fun n hn _ => (c.settles hok).2 n hn)
  | canceled c =>
      rw [c.nodes] at hn'
      obtain ⟨n, hn, rfl⟩ := Option.map_eq_some_iff.mp hn'
      split at hterm
      · rename_i hcancel
        rw [if_pos hcancel]
        rfl
      · rename_i hcancel
        rw [if_neg hcancel]
        exact h k n hn hterm
  | @advanced _ input _ n _ _ _ c =>
      have hget := c.nodes k
      by_cases hk : k = input.key
      · rw [if_pos hk, hn', Option.some.injEq] at hget
        have hfree : n.currentAttempt = none := checkSource_free c.ready
        rw [hget]
        exact hfree
      · rw [if_neg hk] at hget
        cases hold : db.nodes.get k with
        | some m =>
            rw [hold, Option.some_or, hn', Option.some.injEq] at hget
            rw [hget] at hterm ⊢
            exact h k m hold hterm
        | none => exact (c.fresh k n' hk hold hn').1.2.2.1

-- ============================================================================
-- Ended workflows are settled
-- ============================================================================

/-- The nodes of ended workflows are settled. -/
def EndedSettled (db : DB) : Prop :=
  ∀ k n w, db.nodes.get k = some n → db.workflows.get k.workflowID = some w →
    w.state.isTerminal = true → n.live = false

/-- A result that ends the workflow ends its node. -/
theorem consumedNodeState_terminal {s : AttemptState} {newState nodeState : WorkflowState}
    {retryAfter : Option Int} (h : consumedNodeState s newState retryAfter = .ok nodeState)
    (hterm : newState.isTerminal = true) : nodeState.isTerminal = true := by
  unfold consumedNodeState at h
  split at h
  · split at h <;> cases h
    rfl
  · split at h
    · cases h
      rfl
    · split at h
      · cases h
      · rename_i hwait
        simp only [not_or, not_not, ne_eq] at hwait
        rw [hwait.1] at hterm
        cases hterm
  · split at h <;> cases h
    rfl
  · cases h

/-- Where every sibling of `key` is settled, a live node is `key` itself. -/
theorem live_eq_false_of_siblings {db : DB} {key k : NodeKey} {n : NodeInstance}
    (h : db.liveSiblings key = []) (hn : db.nodes.get k = some n)
    (hid : k.workflowID = key.workflowID) (hne : k ≠ key) : n.live = false := by
  by_contra hlive
  rw [Bool.not_eq_false] at hlive
  have hmem := mem_liveSiblings hn hid hne hlive
  rw [h] at hmem
  cases hmem

/-- The node named by an owner transition that ends the workflow. -/
theorem OwnerTransitionInput.Settles.final_ownerMove {input : OwnerTransitionInput} {db : DB}
    (h : input.Settles db) (hend : input.newState.isTerminal = true) {n : NodeInstance}
    (hn : db.nodes.get input.key = some n) (state : WorkflowState) (current : Option Int)
    (purpose : Option TimerPurpose) :
    (n.ownerMove input state current purpose).state.isTerminal = true := by
  have hfinal := h.final hend n hn
  unfold NodeInstance.ownerMove
  split
  · rfl
  · cases htarget : input.target with
    | none =>
        rw [htarget] at hfinal
        exact hfinal
    | some s =>
        rw [htarget] at hfinal
        exact hfinal

/-- A step that ends a workflow leaves no live node of it. -/
theorem Change.settles {db db' : DB} {α : Type} {op : Op α} (h : Change db op db')
    (hok : SettlesNodes α op db) (htidy' : NodesTidy db') {k : NodeKey} {n' : NodeInstance}
    {w' : Workflow} (hn' : db'.nodes.get k = some n')
    (hw' : db'.workflows.get k.workflowID = some w') (hend : w'.state.isTerminal = true)
    (hlive : ∀ w, db.workflows.get k.workflowID = some w → w.state.isTerminal = false) :
    n'.live = false := by
  have hsame : db'.workflows = db.workflows → n'.live = false := by
    intro heq
    rw [heq] at hw'
    rw [hlive w' hw'] at hend
    cases hend
  have hmoved : ∀ {w newState row}, Moves db db' w newState row →
      k.workflowID = w.workflowID ∧ newState.isTerminal = true := by
    intro w newState row hm
    rw [hm.get_workflow] at hw'
    split at hw'
    · rename_i hid
      cases hw'
      exact ⟨hid, hend⟩
    · rw [hlive w' hw'] at hend
      cases hend
  have hadv : ∀ {w newState}, Advances db db' w newState →
      k.workflowID = w.workflowID ∧ newState.isTerminal = true := by
    intro w newState hadv
    obtain ⟨row, hm, -⟩ := hadv.moves
    exact hmoved hm
  have hstay : ∀ {w}, Advances db db' w w.state → n'.live = false := by
    intro w hstay
    obtain ⟨row, hm, -⟩ := hstay.moves
    have hterm := (hmoved hm).2
    rw [hm.live] at hterm
    cases hterm
  have hfinal : ∀ {key : NodeKey} {w : Workflow}, k.workflowID = w.workflowID →
      w.workflowID = key.workflowID → db.liveSiblings key = [] →
      (k ≠ key → db'.nodes.get k = db.nodes.get k) →
      (k = key → n'.state.isTerminal = true) → n'.live = false := by
    intro key w hid hkey hsib hother hself
    by_cases hk : k = key
    · exact not_live_iff.mpr ⟨hself hk, htidy' k n' hn' (hself hk)⟩
    · exact live_eq_false_of_siblings hsib (hother hk ▸ hn') (hid.trans hkey) hk
  have hmodify : ∀ {f : NodeInstance → NodeInstance} {hf key w}, db'.nodes =
      (db.modifyNode key f hf).nodes → k.workflowID = w.workflowID →
      Workflow.workflowID w = key.workflowID → db.liveSiblings key = [] →
      (∀ n, (f n).state.isTerminal = true) → n'.live = false := by
    intro f hf key w hnodes hid hkey hsib hterm
    refine hfinal hid hkey hsib (fun hk => ?_) (fun hk => ?_)
    · rw [hnodes, DB.get_modifyNode, if_neg hk]
    · rw [hnodes, DB.get_modifyNode, if_pos hk] at hn'
      obtain ⟨n, -, rfl⟩ := Option.map_eq_some_iff.mp hn'
      exact hterm n
  cases h with
  | idle rows => exact hsame rows.workflows
  | claimed c | extended c => exact hsame c.workflows
  | created c =>
      rw [Table.get_insert c.workflows] at hw'
      split at hw'
      · cases hw'
        rw [c.workflow.2.1] at hend
        cases hend
      · rw [hlive w' hw'] at hend
        cases hend
  | recorded c =>
      have hterm := (hmoved c.moves).2
      rw [c.moves.live] at hterm
      cases hterm
  | attemptCreated c | redispatched c | replaced c => exact hstay c.advances
  | expired c | timerScheduled c | approvalRequested c | approvalGranted c =>
      cases (hadv c.advances).2
  | owner c =>
      obtain ⟨hid, hterm⟩ := hmoved c.moves
      refine hfinal hid c.workflow (hok.siblings hterm) (fun hk => ?_) (fun hk => ?_)
      · rw [c.nodes, moveOwnedNode_nodes, if_neg hk]
      · rw [c.nodes, moveOwnedNode_nodes, if_pos hk] at hn'
        obtain ⟨n, hn, rfl⟩ := Option.map_eq_some_iff.mp hn'
        exact hok.final_ownerMove hterm (hk ▸ hn) _ _ _
  | consumed c =>
      obtain ⟨hid, hterm⟩ := hadv c.advances
      exact hmodify c.nodes hid c.workflow (c.settled hterm)
        (fun _ => consumedNodeState_terminal c.outcome hterm)
  | @canceled _ _ _ w c =>
      obtain ⟨hid, -⟩ := hadv c.advances
      have hget := c.nodes k
      cases hn : db.nodes.get k with
      | none =>
          rw [hn, hn'] at hget
          cases hget
      | some n =>
          rw [hn, hn', Option.map_some, Option.some.injEq] at hget
          by_cases hcancel : n.cancelable w.workflowID = true
          · rw [hget, if_pos hcancel]
            rfl
          · rw [if_neg hcancel] at hget
            have hterm : n'.state.isTerminal = true := by
              rw [hget]
              simpa [NodeInstance.cancelable, Table.key_of_get hn, hid] using hcancel
            exact not_live_iff.mpr ⟨hterm, htidy' k n' hn' hterm⟩
  | @advanced _ input w n _ _ _ c =>
      obtain ⟨hid, hterm⟩ := hadv c.advances
      obtain ⟨hnode, hsib⟩ := c.settled hterm
      have hnext : input.next = [] := c.growing (fun hrun => by rw [hrun] at hterm; cases hterm)
      have hget := c.nodes k
      refine hfinal hid c.workflow hsib (fun hk => ?_) (fun hk => ?_)
      · rw [if_neg hk] at hget
        cases hold : db.nodes.get k with
        | some m => rw [hget, hold, Option.some_or]
        | none =>
            -- the advancement ends the workflow, so it creates no node
            obtain ⟨item, hmem, -⟩ := (c.fresh k n' hk hold hn').2.1
            rw [hnext] at hmem
            cases hmem
      · rw [if_pos hk, hn', Option.some.injEq] at hget
        rw [hget]
        exact hnode
  | approvalRejected c =>
      obtain ⟨hid, -⟩ := hadv c.advances
      exact hmodify c.nodes hid c.workflow (c.settles hok).1 (fun _ => rfl)

theorem EndedSettled.change {db db' : DB} {α : Type} {op : Op α} (h : EndedSettled db)
    (hc : Change db op db') (hok : SettlesNodes α op db) (htidy' : NodesTidy db') :
    EndedSettled db' := by
  intro k n' w' hn' hw' hend
  by_cases hold : ∃ w, db.workflows.get k.workflowID = some w ∧ w.state.isTerminal = true
  · obtain ⟨w, hw, hterm⟩ := hold
    rw [hc.node_of_terminal hw hterm] at hn'
    exact h k n' w hn' hw hterm
  · refine hc.settles hok htidy' hn' hw' hend (fun w hw => ?_)
    rw [← Bool.not_eq_true]
    exact fun hterm => hold ⟨w, hw, hterm⟩

theorem ReachableIf.settled {env : Env} {db : DB} (h : ReachableIf env SettlesNodes db) :
    NodesTidy db ∧ EndedSettled db := by
  refine h.induction (I := fun db => NodesTidy db ∧ EndedSettled db)
    (fun _ => ⟨fun _ _ hn => (nomatch hn), fun _ _ _ hn => (nomatch hn)⟩) ?_
  intro db db' hreach hi hs
  cases hs with
  | tick _ d => exact hi
  | commit amb op r hrun hok =>
      have hc := (Op.run_commit hrun).change
      have htidy' := hi.1.change hc hok hreach.reachable.generation
      exact ⟨htidy', hi.2.change hc hok htidy'⟩

/-- Every ended workflow is settled, in every run in which the owner
    transitions and rejections that end a workflow find its nodes settled. -/
theorem terminal_settled {env : Env} {db : DB} (h : ReachableIf env SettlesNodes db) {w : Workflow}
    (hw : db.workflows.get w.workflowID = some w) (hend : w.state.isTerminal = true) :
    WorkflowSettled db w.workflowID := by
  have hnodes : ∀ k n, db.nodes.get k = some n → k.workflowID = w.workflowID →
      n.state.isTerminal = true ∧ n.currentAttempt = none := by
    intro k n hn hid
    exact not_live_iff.mp (h.settled.2 k n w hn (hid ▸ hw) hend)
  refine ⟨hnodes, fun k a ha hid => ?_⟩
  by_contra hcur
  rw [Bool.not_eq_false] at hcur
  obtain ⟨N, hN⟩ := h.reachable.generation k.node
  obtain ⟨n, hn, hptr⟩ := pointer_eq_some.mp (hN.current k.number a ha hcur)
  rw [(hnodes k.node n hn hid).2] at hptr
  cases hptr

/-- A check that gives `SettlesNodes` where owner transitions and approvals end
    no workflow and no node. -/
def endsNothing (α : Type) (op : Op α) (_ : DB) : Bool :=
  match op with
  | .applyOwnerTransition input =>
      !input.newState.isTerminal && (input.target.all (fun s => !s.isTerminal))
  | .applyApproval _ => false
  | _ => true

theorem settlesNodes_of_endsNothing (α : Type) (op : Op α) (db : DB)
    (h : endsNothing α op db = true) : SettlesNodes α op db := by
  unfold SettlesNodes
  split
  · rename_i input
    simp only [endsNothing, Bool.and_eq_true, Bool.not_eq_true'] at h
    refine ⟨fun n s _ hs hterm => ?_, fun hend => ?_, fun hend => ?_⟩
    · rw [hs, Option.all_some, hterm] at h
      cases h.2
    · rw [h.1] at hend
      cases hend
    · rw [h.1] at hend
      cases hend
  · cases h
  · trivial

/-- The branches of `forkScript` are canceled with their workflow. -/
theorem terminal_settled_canceled :
    ∃ db w, ReachableIf .plain SettlesNodes db ∧ db.workflows.get w.workflowID = some w ∧
      w.state = .canceled ∧ WorkflowSettled db w.workflowID := by
  have hrun : (runScriptIf? .plain endsNothing 0
      (forkScript ++ [Action.call (.cancelWorkflow ⟨soloLease, "w", 2, "scheduler"⟩)]) (DB.init 0)).any
      (fun db => (db.workflows.get "w").any (fun w => w.state = .canceled)) = true := by
    decide +kernel
  obtain ⟨db, hdb, hw⟩ := (Option.any_eq_true _ _).mp hrun
  obtain ⟨w, hget, hstate⟩ := (Option.any_eq_true _ _).mp hw
  have hreach : ReachableIf .plain SettlesNodes db :=
    ⟨0, run_of_runScriptIf? settlesNodes_of_endsNothing hdb⟩
  have hstate' : w.state = .canceled := by simpa using hstate
  have hget' : db.workflows.get w.workflowID = some w := by rw [Table.key_of_get hget]; exact hget
  exact ⟨db, w, hreach, hget', hstate', terminal_settled hreach hget' (by rw [hstate']; rfl)⟩

/-- An approval of one branch of `forkScript` is requested, rejected and applied. -/
def rejectionScript : List Action := forkScript ++ ([
  .call (.createApprovalIntent ⟨soloLease, "w", "pure.add", 0, 2, "target", .json (.obj []), "", 1,
    "scheduler"⟩),
  .call (.recordApprovalDecision ⟨uuidOf 4 4, "approver",
    (proposalHash "target" (.json (.obj [])) "").toOption.getD "", .rejected, ""⟩),
  .call (.applyApproval ⟨soloLease, "w", "pure.add", 0, uuidOf 4 4, "", 3, "scheduler"⟩)] : List Action)

/-- The rejection of one branch ends the workflow and leaves its sibling runnable. -/
theorem rejection_leaves_sibling :
    ∃ db w n, Reachable .plain db ∧ db.workflows.get w.workflowID = some w ∧
      w.state = .rejected ∧ db.nodes.get ⟨w.workflowID, "pure.echo", 0⟩ = some n ∧
      n.state = .runnable ∧ ¬ WorkflowSettled db w.workflowID := by
  have hrun : (runScript? .plain 0 rejectionScript (DB.init 0)).any (fun db =>
      (db.workflows.get "w").any (fun w => w.state = .rejected &&
        (db.nodes.get ⟨"w", "pure.echo", 0⟩).any (fun n => n.state = .runnable))) = true := by
    decide +kernel
  obtain ⟨db, hdb, hw⟩ := (Option.any_eq_true _ _).mp hrun
  obtain ⟨w, hget, hw⟩ := (Option.any_eq_true _ _).mp hw
  simp only [Bool.and_eq_true, decide_eq_true_eq] at hw
  obtain ⟨n, hn, hstate⟩ := (Option.any_eq_true _ _).mp hw.2
  have hid := Table.key_of_get hget
  rw [decide_eq_true_eq] at hstate
  refine ⟨db, w, n, reachable_of_runScript? hdb, by rw [hid]; exact hget, hw.1,
    by rw [hid]; exact hn, hstate, fun hsettled => ?_⟩
  have hterm := (hsettled.nodes _ n hn hid.symm).1
  rw [hstate] at hterm
  cases hterm

end DurableEngine.State
