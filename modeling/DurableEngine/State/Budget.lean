/-
  DurableEngine.State.Budget

  The retry budget of a node: every retry that a consumed result schedules is
  counted by the node and paid for by its policy.

  A run is logged with the retries its operations schedule, so that they can be
  counted.  A policy that nobody has stored reads as the default one, so the
  budget of a node is defined from the start.
-/

import DurableEngine.Lib.Trace
import DurableEngine.State.NodeLife

namespace DurableEngine.State

open Lib

-- ============================================================================
-- Retries
-- ============================================================================

/-- The retries a node counts, none before it exists. -/
def DB.retriesOf (db : DB) (k : NodeKey) : Int := ((db.nodes.get k).map (·.retryCount)).getD 0

/-- The nodes for which a committed operation scheduled a retry: it consumed a result and left the
    node waiting for a timer. -/
def Op.retries {α : Type} (op : Op α) (db' : DB) : List NodeKey :=
  match op with
  | .consumeResult input =>
      if (db'.nodes.get input.key).any (·.state = .waitingTimer) then [input.key] else []
  | _ => []

/-- A step of the store with the retries it scheduled. -/
inductive RetryStep (env : Env) : DB → List NodeKey → DB → Prop where
  | tick (db : DB) (d : Nat) : RetryStep env db [] (db.tick d)
  | commit {α : Type} (db : DB) (amb : Ambient) (op : Op α) (a : α) (db' : DB)
      (h : op.run env amb db = .ok (a, db')) : RetryStep env db (op.retries db') db'

/-- A run of the store with the retries scheduled in it. -/
abbrev RetryRun (env : Env) : DB → List NodeKey → DB → Prop := Lib.Trace (RetryStep env)

/-- Every run of the store has such a log. -/
theorem exists_retryRun {env : Env} {db db' : DB} (h : Relation.ReflTransGen (Step env) db db') :
    ∃ retries, RetryRun env db retries db' := by
  induction h with
  | refl => exact ⟨[], .refl⟩
  | tail _ hlast ih =>
      obtain ⟨retries, hrun⟩ := ih
      cases hlast with
      | tick _ d => exact ⟨_, hrun.tail (.tick _ d)⟩
      | commit amb op a hop => exact ⟨_, hrun.tail (.commit _ amb op a _ hop)⟩

-- ============================================================================
-- One step
-- ============================================================================

variable {env : Env} {db db' : DB} {k : NodeKey}

theorem retriesOf_of_nodes (h : db'.nodes.get k = db.nodes.get k) :
    db'.retriesOf k = db.retriesOf k := by
  rw [DB.retriesOf, h]
  rfl

theorem retriesOf_of_get {n : NodeInstance} (h : db.nodes.get k = some n) :
    db.retriesOf k = n.retryCount := by
  rw [DB.retriesOf, h]
  rfl

theorem retriesOf_of_modify {key : NodeKey} {f : NodeInstance → NodeInstance}
    {hf : ∀ n, (f n).key = n.key} (h : db'.nodes = (db.modifyNode key f hf).nodes)
    (hcount : ∀ n, (f n).retryCount = n.retryCount) : db'.retriesOf k = db.retriesOf k := by
  rw [DB.retriesOf, DB.retriesOf, h, DB.get_modifyNode]
  split
  · rw [Option.map_map, show NodeInstance.retryCount ∘ f = NodeInstance.retryCount from funext hcount]
  · rfl

theorem NodeInstance.ownerMove_retryCount (n : NodeInstance) (input : OwnerTransitionInput)
    (state : WorkflowState) (current : Option Int) (purpose : Option TimerPurpose) :
    (n.ownerMove input state current purpose).retryCount = n.retryCount := by
  unfold NodeInstance.ownerMove
  split
  · rfl
  · cases input.target <;> rfl

def Op.consumesResult {α : Type} : Op α → Bool
  | .consumeResult _ => true
  | _ => false

/-- Only the consumption of a result counts a retry. -/
theorem Change.retriesOf_eq {α : Type} {op : Op α} (h : Change db op db')
    (hop : op.consumesResult = false) : db'.retriesOf k = db.retriesOf k := by
  cases h with
  | idle rows => exact retriesOf_of_nodes (by rw [rows.nodes])
  | claimed c | extended c | recorded c | redispatched c | expired c =>
      exact retriesOf_of_nodes (by rw [c.nodes])
  | created c =>
      rw [DB.retriesOf, DB.retriesOf, Table.get_insert c.nodes]
      split
      · rename_i hk
        rw [hk, (Table.insert?_eq_some_iff.mp c.nodes).1]
        exact c.node.2.2.2.2.2
      · rfl
  | owner c =>
      rw [DB.retriesOf, DB.retriesOf, c.nodes, moveOwnedNode_nodes]
      split
      · rw [Option.map_map]
        congr 2
        exact funext (fun n => n.ownerMove_retryCount _ _ _ _)
      · rfl
  | consumed => cases hop
  | attemptCreated c | replaced c | timerScheduled c | approvalRequested c | approvalGranted c
  | approvalRejected c => exact retriesOf_of_modify c.nodes (fun _ => rfl)
  | canceled c =>
      rw [DB.retriesOf, DB.retriesOf, c.nodes, Option.map_map]
      congr 2
      funext n
      simp only [Function.comp_apply]
      split <;> rfl
  | @advanced _ input n _ _ _ _ c =>
      have hget := c.nodes k
      by_cases hk : k = input.key
      · rw [if_pos hk] at hget
        rw [retriesOf_of_get hget, retriesOf_of_get (hk ▸ c.node)]
      · rw [if_neg hk] at hget
        cases hold : db.nodes.get k with
        | some n =>
            rw [hold, Option.some_or] at hget
            exact retriesOf_of_nodes (hget.trans hold.symm)
        | none =>
            cases hnew : db'.nodes.get k with
            | none => exact retriesOf_of_nodes (hnew.trans hold.symm)
            | some n =>
                rw [retriesOf_of_get hnew, DB.retriesOf, hold]
                exact (c.fresh k n hk hold hnew).1.2.2.2.2

section Consumed

variable {input : ConsumeResultInput} {w : Workflow} {n : NodeInstance} {a : Attempt} {result : Jsonb}
  {newState nodeState : WorkflowState} {retryAfter : Option Int}

theorem Change.Consumed.get_node
    (c : Change.Consumed db input w n a result newState nodeState retryAfter db') :
    db'.nodes.get input.key =
      some (n.consume nodeState result (retryAfter.map (fun delay => db.now + delay))) := by
  rw [c.nodes, DB.get_modifyNode, if_pos rfl, c.node, Option.map_some]

/-- The consumption schedules a retry exactly when it leaves the node waiting for a timer. -/
theorem Change.Consumed.retries_eq
    (c : Change.Consumed db input w n a result newState nodeState retryAfter db') :
    (Op.consumeResult input).retries db' =
      if nodeState = .waitingTimer then [input.key] else [] := by
  simp only [Op.retries, c.get_node, Option.any_some, NodeInstance.consume, decide_eq_true_eq]

/-- The node counts the retry that the consumption schedules. -/
theorem Change.Consumed.retriesOf
    (c : Change.Consumed db input w n a result newState nodeState retryAfter db') :
    db'.retriesOf k = db.retriesOf k +
      (((Op.consumeResult input).retries db').count k : Int) := by
  rw [c.retries_eq]
  by_cases hk : k = input.key
  · subst hk
    rw [retriesOf_of_get c.get_node, retriesOf_of_get c.node]
    by_cases hwait : nodeState = .waitingTimer
    · simp [NodeInstance.consume, hwait]
    · simp [NodeInstance.consume, hwait]
  · have hother : db'.nodes.get k = db.nodes.get k := by
      rw [c.nodes, DB.get_modifyNode, if_neg hk]
    rw [retriesOf_of_nodes hother]
    split <;> simp [Ne.symm hk]

end Consumed

-- ============================================================================
-- The budget
-- ============================================================================

theorem retryPolicyOf_of_get {policy : RetryPolicy} (h : db.retryPolicies.get k = some policy) :
    db.retryPolicyOf k = policy := by
  rw [DB.retryPolicyOf, h]
  rfl

/-- The retries of a node were scheduled in the run and paid for by its policy. -/
structure Budgeted (retries : List NodeKey) (db : DB) (k : NodeKey) : Prop where
  counted : (retries.count k : Int) = db.retriesOf k
  paid : db.retriesOf k ≤ (db.retryPolicyOf k).retriesUsed
  budget : (db.retryPolicyOf k).retriesUsed ≤ (db.retryPolicyOf k).maxRetries

theorem Budgeted.init (now : Int) (k : NodeKey) : Budgeted [] (DB.init now) k :=
  ⟨rfl, Int.le_refl _, show (0 : Int) ≤ defaultRetryBudget by decide⟩

/-- The policy of the node reads the same, or it is set anew over what is used, or it pays for a
    retry. -/
theorem PolicyChange.read {α : Type} {op : Op α} (h : PolicyChange db op db')
    (hop : op.consumesResult = false) : db'.retryPolicyOf k = db.retryPolicyOf k ∨
      ((db'.retryPolicyOf k).retriesUsed = (db.retryPolicyOf k).retriesUsed ∧
        (db'.retryPolicyOf k).retriesUsed ≤ (db'.retryPolicyOf k).maxRetries) := by
  cases h with
  | kept policies => exact .inl (policies.read k)
  | set input enough write =>
      by_cases hk : k = input.key
      · subst hk
        rw [retryPolicyOf_of_get write.after]
        exact .inr ⟨rfl, enough.2⟩
      · exact .inl (write.others k hk)
  | spent => cases hop

/-- A consumed result pays for the retry it schedules. -/
theorem Budgeted.consumed {retries : List NodeKey} (h : Budgeted retries db k)
    {input : ConsumeResultInput} {w : Workflow} {n : NodeInstance} {a : Attempt} {result : Jsonb}
    {newState nodeState : WorkflowState} {retryAfter : Option Int}
    (c : Change.Consumed db input w n a result newState nodeState retryAfter db') :
    Budgeted (retries ++ (Op.consumeResult input).retries db') db' k := by
  obtain ⟨db₁, hspent, hpolicies⟩ := c.spent
  have hread : db'.retryPolicyOf k = db₁.retryPolicyOf k := by
    rw [DB.retryPolicyOf, DB.retryPolicyOf, hpolicies]
  have hcounted : ((retries ++ (Op.consumeResult input).retries db').count k : Int) =
      db'.retriesOf k := by
    rw [List.count_append, c.retriesOf, Int.natCast_add, h.counted]
  -- without a payment the policy reads the same, and the node does not wait for a timer
  have hunpaid : db'.retryPolicyOf k = db.retryPolicyOf k → nodeState ≠ .waitingTimer →
      Budgeted (retries ++ (Op.consumeResult input).retries db') db' k := by
    intro hsame hwait
    have hretries : db'.retriesOf k = db.retriesOf k := by
      rw [c.retriesOf, c.retries_eq, if_neg hwait]
      exact Int.add_zero _
    exact ⟨hcounted, by rw [hretries, hsame]; exact h.paid, by rw [hsame]; exact h.budget⟩
  have hwaits := consumedNodeState_waitingTimer c.outcome
  have hspends := (spendRetry_eq_ok hspent).2
  generalize a.state = state at hspends hwaits
  cases hspends with
  | exhausted used verdict kept =>
      refine hunpaid (hread.trans (kept.read k)) (fun hwait => ?_)
      have hstate := (hwaits.mp hwait).2.1
      rw [verdict.1] at hstate
      cases hstate
  | none other verdict => exact hunpaid hread (fun hwait => other (hwaits.mp hwait).1)
  | spent left verdict write =>
      by_cases hk : k = input.key
      · subst hk
        have hafter : db'.retryPolicyOf input.key = { db.retryPolicyOf input.key with
            retriesUsed := (db.retryPolicyOf input.key).retriesUsed + 1 } :=
          hread.trans (retryPolicyOf_of_get write.after)
        have hone : db'.retriesOf input.key ≤ db.retriesOf input.key + 1 := by
          rw [c.retriesOf, c.retries_eq]
          split
          · simp
          · rw [List.count_nil]
            omega
        have hpaid := h.paid
        simp only [RetryPolicy.exhausted, Bool.or_eq_false_iff, decide_eq_false_iff_not] at left
        refine ⟨hcounted, ?_, ?_⟩ <;> rw [hafter] <;> dsimp only <;> omega
      · have hretries : db'.retriesOf k = db.retriesOf k := retriesOf_of_nodes (by
          rw [c.nodes, DB.get_modifyNode, if_neg hk])
        have hsame := hread.trans (write.others k hk)
        exact ⟨hcounted, by rw [hretries, hsame]; exact h.paid, by rw [hsame]; exact h.budget⟩

theorem Op.retries_of_other {α : Type} {op : Op α} (hop : op.consumesResult = false) :
    op.retries db' = [] := by
  cases op with
  | consumeResult => cases hop
  | _ => rfl

theorem Budgeted.step {retries events : List NodeKey} (h : Budgeted retries db k)
    (hs : RetryStep env db events db') : Budgeted (retries ++ events) db' k := by
  cases hs with
  | tick _ d =>
      rw [List.append_nil]
      exact ⟨h.counted, h.paid, h.budget⟩
  | commit _ amb op a _ hrun =>
      have hcommit := Op.run_commit hrun
      have hother : op.consumesResult = false → Budgeted (retries ++ op.retries db') db' k := by
        intro hop
        rw [Op.retries_of_other hop, List.append_nil]
        have hretries := hcommit.change.retriesOf_eq (k := k) hop
        refine ⟨h.counted.trans hretries.symm, ?_, ?_⟩ <;>
          obtain hsame | ⟨hused, hbudget⟩ := hcommit.policies.read (k := k) hop
        · rw [hretries, hsame]
          exact h.paid
        · rw [hretries, hused]
          exact h.paid
        · rw [hsame]
          exact h.budget
        · exact hbudget
      cases op with
      | consumeResult input =>
          obtain ⟨⟨w, n, a', result, newState, retryAfter, c⟩, -⟩ := consumeResult_consumed hrun
          exact h.consumed c
      | _ => exact hother rfl

/-- In every run, the retries of a node are counted and paid for. -/
theorem RetryRun.budgeted {now : Int} {retries : List NodeKey}
    (h : RetryRun env (DB.init now) retries db) (k : NodeKey) : Budgeted retries db k :=
  h.invariant (I := fun retries db => Budgeted retries db k) (.init now k)
    (fun _ _ _ _ hi hs => hi.step hs)

/-- What is used of a budget is never taken back. -/
theorem RetryStep.used_mono {events : List NodeKey} (h : RetryStep env db events db') (k : NodeKey) :
    (db.retryPolicyOf k).retriesUsed ≤ (db'.retryPolicyOf k).retriesUsed := by
  cases h with
  | tick _ d => exact Int.le_refl _
  | commit _ amb op a _ hrun =>
      cases (Op.run_commit hrun).policies with
      | kept policies => rw [policies.read k]
      | set input enough write =>
          by_cases hk : k = input.key
          · rw [hk, retryPolicyOf_of_get write.after]
            exact Int.le_refl _
          · rw [write.others k hk]
      | spent input left write =>
          by_cases hk : k = input.key
          · rw [hk, retryPolicyOf_of_get write.after]
            exact Int.le_add_one (Int.le_refl _)
          · rw [write.others k hk]

theorem RetryRun.used_mono {retries : List NodeKey} (h : RetryRun env db retries db') (k : NodeKey) :
    (db.retryPolicyOf k).retriesUsed ≤ (db'.retryPolicyOf k).retriesUsed :=
  h.relates (R := fun db db' => (db.retryPolicyOf k).retriesUsed ≤ (db'.retryPolicyOf k).retriesUsed)
    (fun _ => Int.le_refl _) (fun _ _ _ => Int.le_trans) (fun _ _ _ hs => hs.used_mono k)

-- ============================================================================
-- The retry budget
-- ============================================================================

/-- The consumption of a retryable failure schedules no retry: it fails the node and the workflow. -/
structure NoRetry (db db' : DB) (k : NodeKey) : Prop where
  node : ∃ n', db'.nodes.get k = some n' ∧ n'.state = .failed
  workflow : ∃ w', db'.workflows.get k.workflowID = some w' ∧ w'.state = .failed
  timers : db'.timers = db.timers
  retries : db'.retriesOf k = db.retriesOf k

/-- The retry budget of a node after a run that scheduled `retries`. -/
structure RetryBudget (env : Env) (retries : List NodeKey) (db : DB) (k : NodeKey) : Prop where
  bounds : ∀ n, db.nodes.get k = some n → 0 ≤ n.retryCount ∧
    n.retryCount ≤ (db.retryPolicyOf k).retriesUsed ∧
    (db.retryPolicyOf k).retriesUsed ≤ (db.retryPolicyOf k).maxRetries
  counted : ∀ n, db.nodes.get k = some n → n.retryCount = retries.count k
  exhausted : ∀ amb input r db', input.key = k →
    (Op.consumeResult input).run env amb db = .ok (r, db') →
    ∀ a, db.attempts.get ⟨k, input.attemptNumber⟩ = some a → a.state = .failedRetryable →
    (db.retryPolicyOf k).exhausted db.now = true → NoRetry db db' k
  kept : ∀ retries' db', RetryRun env db retries' db' →
    (db.retryPolicyOf k).retriesUsed ≤ (db'.retryPolicyOf k).retriesUsed

/-- A retryable failure consumed with a used up budget or after the total deadline is not retried. -/
theorem consumeResult_noRetry {amb : Ambient} {input : ConsumeResultInput} {r : ConsumeResult}
    (h : consumeResult env amb input db = .ok (r, db')) {a : Attempt}
    (ha : db.attempts.get ⟨input.key, input.attemptNumber⟩ = some a)
    (hstate : a.state = .failedRetryable)
    (hused : (db.retryPolicyOf input.key).exhausted db.now = true) : NoRetry db db' input.key := by
  obtain ⟨⟨w, n, a', result, newState, retryAfter, c⟩, -⟩ := consumeResult_consumed h
  have heq : a' = a := by
    have hget := c.attempt
    rw [ha, Option.some.injEq] at hget
    exact hget.symm
  subst heq
  obtain ⟨db₁, hspent, -⟩ := c.spent
  have hspends := (spendRetry_eq_ok hspent).2
  rw [hstate] at hspends
  have hfailed : newState = .failed := by
    cases hspends with
    | exhausted _ verdict _ => exact verdict.1
    | spent left _ _ =>
        rw [hused] at left
        cases left
    | none other _ => exact absurd rfl other
  have hnode : r.nodeState = .failed := by
    have houtcome := c.outcome
    rw [hstate, hfailed] at houtcome
    exact (Except.ok.inj houtcome).symm
  refine ⟨⟨_, c.get_node, hnode⟩, ?_, ?_, ?_⟩
  · obtain ⟨row, hm, -⟩ := c.advances.moves
    refine ⟨_, (hm.get_workflow input.workflowID).trans (if_pos c.workflow.symm), hfailed⟩
  · obtain ⟨-, htimers⟩ | ⟨_, _, hwait, -⟩ := c.timers
    · exact htimers
    · rw [hnode] at hwait
      cases hwait
  · rw [c.retriesOf, c.retries_eq, hnode]
    exact Int.add_zero _

/-- In every state a run reaches, each node keeps to its retry budget. -/
theorem retry_budget {now : Int} {retries : List NodeKey} (h : RetryRun env (DB.init now) retries db)
    (k : NodeKey) : RetryBudget env retries db k := by
  have hb := h.budgeted k
  refine ⟨fun n hn => ?_, fun n hn => ?_, fun amb input r db' hkey hrun a ha hstate hused => ?_,
    fun retries' db' hrun => hrun.used_mono k⟩
  · have hcounted := hb.counted
    have hpaid := hb.paid
    rw [retriesOf_of_get hn] at hcounted hpaid
    exact ⟨by omega, hpaid, hb.budget⟩
  · have hcounted := hb.counted
    rw [retriesOf_of_get hn] at hcounted
    exact hcounted.symm
  · subst hkey
    exact consumeResult_noRetry hrun ha hstate hused

/-- The activity fails once and waits for its retry. -/
def retriedScript : List Action := soloScript.take 6 ++ ([
  .call (.recordResultReceipt
    ⟨"w", "a", 0, 1, uuidOf 3 5, .failedRetryable, .json (.obj []), "", ""⟩),
  .call (.consumeResult ⟨soloLease, "w", "a", 0, 1, 4, .waitingTimer, some 5, "scheduler"⟩)] : List Action)

/-- The node counts one retry. -/
theorem retry_budget_retried : ∃ retries db n, RetryRun .plain (DB.init 0) retries db ∧
    db.nodes.get ⟨"w", "a", 0⟩ = some n ∧ n.retryCount = 1 ∧
    RetryBudget .plain retries db ⟨"w", "a", 0⟩ := by
  have hrun : (runScript? .plain 0 retriedScript (DB.init 0)).any (fun db =>
      (db.nodes.get ⟨"w", "a", 0⟩).any (fun n => n.retryCount = 1)) = true := by
    decide +kernel
  obtain ⟨db, hdb, hcheck⟩ := (Option.any_eq_true _ _).mp hrun
  obtain ⟨n, hn, hcount⟩ := (Option.any_eq_true _ _).mp hcheck
  obtain ⟨retries, hretries⟩ := exists_retryRun (run_of_runScript? hdb)
  exact ⟨retries, db, n, hretries, hn, of_decide_eq_true hcount, retry_budget hretries _⟩

end DurableEngine.State
