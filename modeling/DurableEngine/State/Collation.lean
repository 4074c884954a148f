/-
  DurableEngine.State.Collation

  What depends on the order of the node names.

  The store and the scheduler compare node names for equality and nothing
  else, except where the repository lists the nodes of a workflow `ORDER BY
  iteration, node_id`.  Another order of the names lists the same nodes
  differently; the operations of the store write the same rows under it, and
  fail where they failed, possibly naming another node in the error.
-/

import DurableEngine.Lib.Alone
import DurableEngine.State.Store

namespace DurableEngine.State

open Lib

-- ============================================================================
-- Folds in another order
-- ============================================================================

/-- A fold whose steps commute does not depend on the order of the list. -/
theorem foldlM_perm {ε α σ : Type} {f : σ → α → Except ε σ} {l l' : List α} (h : l.Perm l')
    (hcomm : ∀ a ∈ l, ∀ b ∈ l, ∀ s, (f s a >>= fun t => f t b) = (f s b >>= fun t => f t a)) (s : σ) :
    l.foldlM f s = l'.foldlM f s := by
  induction h generalizing s with
  | nil => rfl
  | cons a _ ih =>
      rw [List.foldlM_cons, List.foldlM_cons]
      refine bind_congr (fun t => ih (fun x hx y hy => ?_) t)
      exact hcomm x (List.mem_cons_of_mem a hx) y (List.mem_cons_of_mem a hy)
  | swap a b l =>
      have hswap := hcomm b (List.mem_cons_self) a (by simp) s
      simp only [List.foldlM_cons, ← bind_assoc]
      rw [hswap]
  | trans hfirst _ ih ih' =>
      rw [ih hcomm s]
      exact ih' (fun a ha b hb => hcomm a (hfirst.mem_iff.mpr ha) b (hfirst.mem_iff.mpr hb)) s

/-- Updates of rows with different keys commute. -/
theorem modify_comm {ρ κ : Type} [DecidableEq κ] {key : ρ → κ} (t : Table key) {k k' : κ} (hne : k ≠ k')
    {f g : ρ → ρ} (hf : ∀ r, key (f r) = key r) (hg : ∀ r, key (g r) = key r) :
    (t.modify k f hf).modify k' g hg = (t.modify k' g hg).modify k f hf := by
  refine Table.ext ?_
  simp only [Table.modify, Table.update, List.map_map]
  refine List.map_congr_left (fun r _ => ?_)
  simp only [Function.comp, decide_eq_true_eq]
  by_cases hk : key r = k
  · have hk' : key r ≠ k' := fun heq => hne (hk.symm.trans heq)
    simp only [hk, hf, hne, if_true, if_false]
  · by_cases hk' : key r = k'
    · simp only [hk', hg, hne.symm, if_true, if_false]
    · simp only [hk, hk', if_false]

-- ============================================================================
-- Another order
-- ============================================================================

/-- The deployment over a database that orders texts in another way. -/
def Env.withCollation (env : Env) (c : String → String → Bool) : Env := { env with collation := c }

theorem listNodes_perm (env : Env) (c : String → String → Bool) (workflowID : String) (db : DB) :
    (listNodes env workflowID db).Perm (listNodes (env.withCollation c) workflowID db) :=
  (List.perm_insertionSort _ _).trans (List.perm_insertionSort _ _).symm

-- ============================================================================
-- Other names
-- ============================================================================

/-- The deployment as it treats nodes that have other names: it lists them in the order of the new ones. -/
def Env.renamed (env : Env) (rename : String → String) : Env :=
  env.withCollation (fun a b => env.collation (rename a) (rename b))

def NodeInstance.renamed (rename : String → String) (n : NodeInstance) : NodeInstance :=
  { n with key := { n.key with nodeID := rename n.key.nodeID } }

/-- The nodes under their new names. -/
def DB.renameNodes (db : DB) (rename : String → String) (h : Function.Injective rename) : DB :=
  { db with nodes :=
    { rows := db.nodes.rows.map (NodeInstance.renamed rename)
      nodup := by
        have hinj : Function.Injective (fun k : NodeKey => { k with nodeID := rename k.nodeID }) := by
          rintro ⟨w, id, i⟩ ⟨w', id', i'⟩ heq
          simp only [NodeKey.mk.injEq] at heq ⊢
          exact ⟨heq.1, h heq.2.1, heq.2.2⟩
        have hmap := db.nodes.nodup.map hinj
        rwa [List.map_map] at hmap ⊢ } }

/-- The renamed nodes are listed in the order in which the nodes are listed for their new names. -/
theorem listNodes_renameNodes (env : Env) (db : DB) {rename : String → String}
    (h : Function.Injective rename) (workflowID : String) :
    listNodes env workflowID (db.renameNodes rename h) =
      (listNodes (env.renamed rename) workflowID db).map (NodeInstance.renamed rename) := by
  have hsort := List.map_insertionSort (nodeBefore (env.renamed rename)) (nodeBefore env)
    (NodeInstance.renamed rename) (db.nodes.select (fun n => n.key.workflowID = workflowID)) (fun _ _ _ _ => Iff.rfl)
  rw [listNodes, listNodes, hsort]
  simp only [DB.renameNodes, Table.select, List.filter_map]
  rfl

-- ============================================================================
-- Cancellations
-- ============================================================================

/-- Whether the current attempt of a node is there. -/
def NodeInstance.cancels (db : DB) (n : NodeInstance) : Bool :=
  n.state.isTerminal || n.currentAttempt.all (fun m => (db.attempts.get ⟨n.key, m⟩).isSome)

def settleNodes (n : NodeInstance) (t : Table NodeInstance.key) : Table NodeInstance.key :=
  if n.state.isTerminal then t else t.modify n.key NodeInstance.settle NodeInstance.settle_key

def settleAttempts (n : NodeInstance) (t : Table Attempt.key) : Table Attempt.key :=
  if n.state.isTerminal then t
  else n.currentAttempt.elim t (fun m => t.modify ⟨n.key, m⟩ Attempt.cancel Attempt.cancel_key)

/-- The rows once a node is canceled. -/
def cancelRows (db : DB) (n : NodeInstance) : DB :=
  { db with nodes := settleNodes n db.nodes, attempts := settleAttempts n db.attempts }

theorem cancelNode_eq (context : String) (db : DB) (n : NodeInstance) :
    cancelNode context db n = if n.cancels db then .ok (cancelRows db n) else .error (.noRows context) := by
  unfold cancelNode cancelAttemptOf NodeInstance.cancels cancelRows settleNodes settleAttempts
  cases hterm : n.state.isTerminal with
  | true => rfl
  | false =>
      cases hcurrent : n.currentAttempt with
      | none => rfl
      | some m =>
          cases hget : db.attempts.get ⟨n.key, m⟩ with
          | none => simp [hget]; rfl
          | some a => simp [hget]; rfl

section Commute

variable {n m : NodeInstance} (hne : n.key ≠ m.key)

include hne

theorem settleNodes_comm (t : Table NodeInstance.key) :
    settleNodes m (settleNodes n t) = settleNodes n (settleNodes m t) := by
  unfold settleNodes
  cases n.state.isTerminal with
  | true => rfl
  | false =>
      cases m.state.isTerminal with
      | true => rfl
      | false => exact modify_comm t hne NodeInstance.settle_key NodeInstance.settle_key

theorem settleAttempts_comm (t : Table Attempt.key) :
    settleAttempts m (settleAttempts n t) = settleAttempts n (settleAttempts m t) := by
  unfold settleAttempts
  cases n.state.isTerminal with
  | true => rfl
  | false =>
      cases m.state.isTerminal with
      | true => rfl
      | false =>
          cases n.currentAttempt with
          | none => rfl
          | some i =>
              cases m.currentAttempt with
              | none => rfl
              | some j =>
                  have hkeys : (⟨n.key, i⟩ : AttemptKey) ≠ ⟨m.key, j⟩ := fun heq => hne (AttemptKey.mk.inj heq).1
                  exact modify_comm t hkeys Attempt.cancel_key Attempt.cancel_key

theorem cancels_cancelRows (db : DB) : m.cancels (cancelRows db n) = m.cancels db := by
  have hget : ∀ number, (cancelRows db n).attempts.get ⟨m.key, number⟩ = db.attempts.get ⟨m.key, number⟩ := by
    intro number
    simp only [cancelRows, settleAttempts]
    split
    · rfl
    · cases n.currentAttempt with
      | none => rfl
      | some current =>
          exact Table.get_modify_ne _ _ Attempt.cancel_key (fun heq => hne (AttemptKey.mk.inj heq).1.symm)
  simp only [NodeInstance.cancels, hget]

theorem cancelRows_comm (db : DB) : cancelRows (cancelRows db n) m = cancelRows (cancelRows db m) n := by
  simp only [cancelRows, settleNodes_comm hne, settleAttempts_comm hne]

end Commute

/-- Nodes are canceled in any order. -/
theorem cancelNode_comm (context : String) {n m : NodeInstance} (h : n = m ∨ n.key ≠ m.key) (db : DB) :
    (cancelNode context db n >>= fun t => cancelNode context t m) =
      (cancelNode context db m >>= fun t => cancelNode context t n) := by
  rcases h with rfl | hne
  · rfl
  · simp only [cancelNode_eq]
    by_cases hn : n.cancels db = true
    · by_cases hm : m.cancels db = true
      · simp only [hn, hm, if_true, ok_bind, cancels_cancelRows hne, cancels_cancelRows hne.symm,
          cancelRows_comm hne]
      · simp only [hn, hm, if_true, ok_bind, cancels_cancelRows hne]
        rfl
    · by_cases hm : m.cancels db = true
      · simp only [hn, hm, if_true, ok_bind, cancels_cancelRows hne.symm]
        rfl
      · simp only [hn, hm]
        rfl

theorem cancelWorkflowTx_withCollation (env : Env) (c : String → String → Bool) (amb : Ambient) (db : DB)
    (lease : LeaseRef) (workflow : Workflow) (actorID context : String) :
    cancelWorkflowTx (env.withCollation c) amb db lease workflow actorID context =
      cancelWorkflowTx env amb db lease workflow actorID context := by
  have hfold : (listNodes (env.withCollation c) workflow.workflowID db).foldlM (cancelNode context) db =
      (listNodes env workflow.workflowID db).foldlM (cancelNode context) db := by
    refine (foldlM_perm (listNodes_perm env c workflow.workflowID db) (fun n hn m hm s => ?_) db).symm
    refine cancelNode_comm context ?_ s
    by_cases heq : n.key = m.key
    · exact .inl (Option.some.inj ((mem_listNodes.mp hn).1.symm.trans (heq ▸ (mem_listNodes.mp hm).1)))
    · exact .inr heq
  unfold cancelWorkflowTx
  rw [hfold]
  rfl

-- ============================================================================
-- Operations
-- ============================================================================

/-- A workflow has live nodes in every order, though another one may come first. -/
theorem checkSettled_withCollation (env : Env) (c : String → String → Bool) (db : DB) (key : NodeKey)
    (workflowState nodeState : WorkflowState) :
    SameReply (checkSettled env db key workflowState nodeState)
      (checkSettled (env.withCollation c) db key workflowState nodeState) := by
  have hperm := listNodes_perm env c key.workflowID db
  unfold checkSettled
  split
  · cases hfind : (listNodes env key.workflowID db).find? (blocksEnd key nodeState) with
    | none =>
        have hnone : (listNodes (env.withCollation c) key.workflowID db).find? (blocksEnd key nodeState) = none :=
          List.find?_eq_none.mpr (fun n hn => List.find?_eq_none.mp hfind n (hperm.mem_iff.mpr hn))
        rw [hnone]
        exact .replied ()
    | some n =>
        cases hfind' : (listNodes (env.withCollation c) key.workflowID db).find? (blocksEnd key nodeState) with
        | none =>
            have hmem := hperm.mem_iff.mp (List.mem_of_find?_eq_some hfind)
            exact absurd (List.find?_some hfind) (List.find?_eq_none.mp hfind' n hmem)
        | some m => exact .failed _ _
  · exact .replied ()

theorem advanceGraph_withCollation (env : Env) (c : String → String → Bool) (amb : Ambient)
    (input : AdvanceGraphInput) (db : DB) :
    SameReply (advanceGraph env amb input db) (advanceGraph (env.withCollation c) amb input db) := by
  unfold advanceGraph
  refine .bind (.refl _) (fun _ => .bind (.refl _) (fun _ => .bind (.refl _) (fun workflow => ?_)))
  refine .bind (.refl _) (fun _ => .bind (.refl _) (fun _ => .bind (.refl _) (fun definition => ?_)))
  refine .bind (.refl _) (fun graph => .bind (.refl _) (fun source => .bind (.refl _) (fun node => ?_)))
  refine .bind (.refl _) (fun _ => .bind (.refl _) (fun _ => ?_))
  exact .bind (checkSettled_withCollation env c db _ _ _) (fun _ => .refl _)

theorem applyPendingRequest_withCollation (env : Env) (c : String → String → Bool) (amb : Ambient)
    (lease : LeaseRef) (actorID : String) (request : CancellationRequest) (db : DB) :
    SameReply (applyPendingRequest env amb lease actorID request db)
      (applyPendingRequest (env.withCollation c) amb lease actorID request db) := by
  unfold applyPendingRequest
  refine .bind (.refl _) (fun workflow => .bind (.refl _) (fun _ => ?_))
  rw [cancelWorkflowTx_withCollation]
  exact .refl _

namespace Op

variable {α : Type}

/-- The operation replies with the nodes of a workflow in their order. -/
def lists : Op α → Bool
  | .listNodes _ => true
  | _ => false

/-- Any other operation ends in the same way. -/
theorem run_withCollation (env : Env) (c : String → String → Bool) (amb : Ambient) (op : Op α) (db : DB)
    (hop : op.lists = false) : SameReply (op.run env amb db) (op.run (env.withCollation c) amb db) := by
  cases op with
  | listNodes id => cases hop
  | advanceGraph input => exact advanceGraph_withCollation env c amb input db
  | cancelWorkflow input =>
      refine .bind (.refl _) (fun _ => .bind (.refl _) (fun workflow => .bind (.refl _) (fun _ => ?_)))
      rw [cancelWorkflowTx_withCollation]
      exact .refl _
  | applyCancellationRequest lease requestID actorID =>
      refine .bind (.refl _) (fun _ => .bind (.refl _) (fun _ => .bind (.refl _) (fun id => ?_)))
      refine .bind (.refl _) (fun request => ?_)
      split
      · exact .refl _
      · exact applyPendingRequest_withCollation env c amb lease actorID request db
  | _ => exact .refl _

theorem exec_withCollation (env : Env) (c : String → String → Bool) (amb : Ambient) (op : Op α) (db : DB)
    (hop : op.lists = false) :
    SameReply (op.exec env amb db).1 (op.exec (env.withCollation c) amb db).1 ∧
      (op.exec (env.withCollation c) amb db).2 = (op.exec env amb db).2 := by
  have hrun := run_withCollation env c amb op db hop
  unfold exec
  generalize op.run env amb db = outcome, op.run (env.withCollation c) amb db = outcome' at hrun
  cases hrun with
  | failed e e' => exact ⟨.failed e e', rfl⟩
  | replied r => exact ⟨.replied r.1, rfl⟩

/-- Every operation writes the same. -/
theorem exec_withCollation_snd (env : Env) (c : String → String → Bool) (amb : Ambient) (op : Op α) (db : DB) :
    (op.exec (env.withCollation c) amb db).2 = (op.exec env amb db).2 := by
  cases hop : op.lists with
  | false => exact (exec_withCollation env c amb op db hop).2
  | true =>
      cases op with
      | listNodes id => rfl
      | _ => cases hop

end Op

end DurableEngine.State
