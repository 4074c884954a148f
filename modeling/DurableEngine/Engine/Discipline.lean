/-
  DurableEngine.Engine.Discipline

  The discipline under which scheduler passes use the store.

  The store would accept far more than a pass ever asks for: any legal owner
  transition of any node, any advancement of an activity.  `Allowed` says in
  which states a pass issues which operation.  It is proved of the programs of
  `Engine.Run` by rely/guarantee reasoning: other parties may act between the
  reads of a pass and its writes, but a write commits only at the revision the
  pass has read, and until that revision is gone the nodes of the workflow
  are as they were read.  Every run of the system is then a disciplined run
  of the store (`Sys.Run.disciplined`).
-/

import DurableEngine.Engine.System
import DurableEngine.State.NodeLife
import DurableEngine.State.Results

namespace DurableEngine

open Lib State

-- ============================================================================
-- What lasts
-- ============================================================================

/-- A workflow keeps its definition, its revision does not go back, and as
    long as the revision stays, so do the workflow and its nodes. -/
structure WorkflowLater (db db' : DB) (w w' : Workflow) : Prop where
  revision : w.revision ≤ w'.revision
  definition : w'.definitionID = w.definitionID ∧ w'.definitionVersion = w.definitionVersion
  same : w'.revision = w.revision → w' = w
  nodes : w'.revision = w.revision → ∀ k : NodeKey, k.workflowID = w.workflowID →
    db'.nodes.get k = db.nodes.get k

/-- What any party's steps leave of the rows a pass has read. -/
structure Later (db db' : DB) : Prop where
  workflow : ∀ id w, db.workflows.get id = some w →
    ∃ w', db'.workflows.get id = some w' ∧ WorkflowLater db db' w w'
  definitions : ∀ k d, db.definitions.get k = some d → db'.definitions.get k = some d

theorem Later.refl (db : DB) : Later db db :=
  ⟨fun _ w hw => ⟨w, hw, le_refl _, ⟨rfl, rfl⟩, fun _ => rfl, fun _ _ _ => rfl⟩, fun _ _ hd => hd⟩

theorem Later.trans {db db' db'' : DB} (h : Later db db') (h' : Later db' db'') : Later db db'' where
  workflow id w hw := by
    obtain ⟨w', hw', hl⟩ := h.workflow id w hw
    obtain ⟨w'', hw'', hl'⟩ := h'.workflow id w' hw'
    have hid : w'.workflowID = w.workflowID := (Table.key_of_get hw').trans (Table.key_of_get hw).symm
    have hmid : w''.revision = w.revision → w'.revision = w.revision ∧ w''.revision = w'.revision := by
      intro heq
      have h₁ := hl.revision
      have h₂ := hl'.revision
      omega
    refine ⟨w'', hw'', hl.revision.trans hl'.revision,
      ⟨hl'.definition.1.trans hl.definition.1, hl'.definition.2.trans hl.definition.2⟩,
      fun heq => ?_, fun heq k hk => ?_⟩
    · exact (hl'.same (hmid heq).2).trans (hl.same (hmid heq).1)
    · rw [hl'.nodes (hmid heq).2 k (hk.trans hid.symm), hl.nodes (hmid heq).1 k hk]
  definitions k d hd := h'.definitions k d (h.definitions k d hd)

theorem Later.tick (db : DB) (d : Nat) : Later db (db.tick d) :=
  ⟨fun _ w hw => ⟨w, hw, le_refl _, ⟨rfl, rfl⟩, fun _ => rfl, fun _ _ _ => rfl⟩, fun _ _ hd => hd⟩

theorem Later.of_commit {env : Env} {db db' : DB} {α : Type} {op : Op α} (h : Commit env db op db') :
    Later db db' where
  workflow id w hw := by
    have hid := Table.key_of_get hw
    have hnodes : ∀ w', db'.workflows.get id = some w' → w'.revision = w.revision →
        ∀ k : NodeKey, k.workflowID = w.workflowID → db'.nodes.get k = db.nodes.get k := by
      intro w' hw' heq k hk
      obtain hsame | hnone | ⟨w₀, s, row, hm, hw₀⟩ := h.change.node_frame k
      · exact hsame
      · rw [hk, hid, hw] at hnone
        cases hnone
      · -- a move of the workflow raises its revision
        have hw₀' : w₀ = w := by
          have hget := hm.get
          rw [hw₀, hk, hid, hw] at hget
          exact (Option.some.inj hget).symm
        rw [hm.get_workflow, if_pos (by rw [hw₀', hid]), Option.some.injEq] at hw'
        rw [← hw', hw₀'] at heq
        simp only at heq
        omega
    obtain ⟨hsame, -⟩ | ⟨w₀, row, hins, -⟩ | ⟨w₀, s, row, hm⟩ := h.change.history_cases
    · have hw' : db'.workflows.get id = some w := by rw [hsame]; exact hw
      exact ⟨w, hw', le_refl _, ⟨rfl, rfl⟩, fun _ => rfl, hnodes w hw'⟩
    · have hw' := Table.get_insert_of_get hins hw
      exact ⟨w, hw', le_refl _, ⟨rfl, rfl⟩, fun _ => rfl, hnodes w hw'⟩
    · by_cases hmoved : id = w₀.workflowID
      · have hw₀ : w₀ = w := by
          rw [hmoved, hm.get] at hw
          exact Option.some.inj hw
        have hw' : db'.workflows.get id =
            some { w with state := s, revision := w.revision + 1 } := by
          rw [hm.get_workflow, if_pos hmoved, hw₀]
        refine ⟨_, hw', Int.le_add_one (le_refl _), ⟨rfl, rfl⟩, fun heq => ?_, hnodes _ hw'⟩
        simp only at heq
        omega
      · have hw' : db'.workflows.get id = some w := by
          rw [hm.get_workflow, if_neg hmoved]
          exact hw
        exact ⟨w, hw', le_refl _, ⟨rfl, rfl⟩, fun _ => rfl, hnodes w hw'⟩
  definitions := h.definitions

theorem Later.of_exec {env : Env} {amb : Ambient} {α : Type} (op : Op α) (db : DB) :
    Later db (op.exec env amb db).2 := by
  unfold Op.exec
  split
  · rename_i hrun
    exact .of_commit (Op.run_commit hrun)
  · exact .refl db

-- ============================================================================
-- The discipline
-- ============================================================================

namespace Engine

/-- The graph of a workflow's definition, as the interpreter reads it. -/
def GraphOf (db : DB) (workflowID : String) (graph : Graph) : Prop :=
  ∃ w d, db.workflows.get workflowID = some w ∧
    db.definitions.get ⟨w.definitionID, w.definitionVersion⟩ = some d ∧
    parseGraph d.graph.doc = .ok graph

theorem GraphOf.later {db db' : DB} {workflowID : String} {graph : Graph}
    (h : GraphOf db workflowID graph) (hl : Later db db') : GraphOf db' workflowID graph := by
  obtain ⟨w, d, hw, hd, hgraph⟩ := h
  obtain ⟨w', hw', hlw⟩ := hl.workflow _ w hw
  refine ⟨w', d, hw', ?_, hgraph⟩
  rw [hlw.definition.1, hlw.definition.2]
  exact hl.definitions _ d hd

/-- The workflow's graph declares the node with this kind. -/
def KindOf (db : DB) (workflowID nodeID kind : String) : Prop :=
  ∃ graph node, GraphOf db workflowID graph ∧ graph.find nodeID = some node ∧ node.kind = kind

/-- The nodes that a join waits for have succeeded, and it waits for some. -/
def JoinReady (db : DB) (key : NodeKey) (dependencies : List String) : Prop :=
  dependencies ≠ [] ∧ ∀ dependency ∈ dependencies,
    ∃ n, db.nodes.get ⟨key.workflowID, dependency, key.iteration⟩ = some n ∧ n.state = .succeeded

/-- A pass parks a workflow, fires the timer of a waiting node, or schedules a
    runnable activity. -/
inductive Moves (db : DB) (input : OwnerTransitionInput) : Prop where
  | pause (newState : input.newState = .pausedUnsupportedVersion) (nodeID : input.nodeID = "")
      (nodeState : input.nodeState = none)
  | fire (newState : input.newState = .runnable) (nodeState : input.nodeState = some .runnable)
      (node : ∃ n, db.nodes.get input.key = some n ∧ n.state = .waitingTimer)
  | schedule (newState : input.newState = .waitingActivity)
      (nodeState : input.nodeState = some .waitingActivity)
      (node : ∃ n, db.nodes.get input.key = some n ∧ n.state = .runnable)
      (activity : KindOf db input.workflowID input.nodeID "activity")

/-- A pass advances an activity to the successors its result selects, when one
    of them is missing or there are none, a timer after it fired, a join after
    its dependencies and a fan-out to its branches; it ends a failure node as
    failed. -/
inductive Advances (db : DB) (input : AdvanceGraphInput) : Prop where
  | activity (graph : Graph) (node : Node) (n : NodeInstance)
      (graphOf : GraphOf db input.workflowID graph)
      (declared : graph.find input.fromNodeID = some node) (kind : node.kind = "activity")
      (stored : db.nodes.get input.key = some n)
      (next : nextInputsForResult input.key node graph n.acceptedResult = .ok input.next)
      (missing : input.next = [] ∨ ∃ k ∈ input.nextKeys, db.nodes.get k = none)
      (final : input.finalWorkflowState = none ∧ input.finalNodeState = none)
  | control (graph : Graph) (node : Node) (n : NodeInstance)
      (graphOf : GraphOf db input.workflowID graph)
      (declared : graph.find input.fromNodeID = some node) (kind : node.kind ≠ "activity")
      (stored : db.nodes.get input.key = some n)
      (fired : node.kind = "timer" → n.state = .runnable → n.timerFired = true)
      (joined : node.kind = "join" → n.state = .runnable → JoinReady db input.key n.dependencies)
      (fanned : isFanout node.kind = true → n.state = .runnable → input.next = fanoutNext n node)
      (final : input.finalNodeState = none ∨ input.finalNodeState = some .failed)

/-- The operations of a scheduler pass and of the parties around it. -/
def Allowed (α : Type) (op : Op α) (db : DB) : Prop :=
  match op with
  | .applyOwnerTransition input => Moves db input
  | .advanceGraph input => Advances db input
  | .scheduleTimer input => input.purpose = "WORKFLOW_TIMER" ∧
      (∃ n, db.nodes.get input.key = some n ∧ n.timerFired = false) ∧
      KindOf db input.workflowID input.nodeID "timer"
  | .createApprovalIntent _ | .applyApproval _ => False
  | _ => True

theorem allowed_of_isClient {α : Type} {op : Op α} (h : op.isClient = true) (db : DB) :
    Allowed α op db := by
  unfold Allowed
  split <;> trivial

-- ============================================================================
-- The world of a pass
-- ============================================================================

/-- A call replies with what its operation does. -/
def execs (env : Env) : ∀ {β : Type}, Call β → DB → β → DB → Prop
  | _, .store op, db, b, db' => ∃ amb, op.exec env amb db = (b, db')

/-- A call is disciplined if its operation commits only where it is allowed. -/
def disciplined (env : Env) : ∀ {β : Type}, Call β → DB → Prop
  | _, .store op, db => ∀ amb r, op.run env amb db = .ok r → Allowed _ op db

/-- The world of a scheduler pass. -/
def world (env : Env) : Prog.World Call DB where
  exec := execs env
  rely := Later
  ok := disciplined env
  refl := Later.refl
  trans := Later.trans
  rely_of_exec := by
    intro β op db db' b h
    cases op with
    | store op =>
        obtain ⟨amb, hexec⟩ := h
        have hlater := @Later.of_exec env amb _ op db
        rw [hexec] at hlater
        exact hlater

section Rules

variable {env : Env} {α : Type} {op : Op α} {db : DB}

/-- A call whose operation commits only where it is allowed. -/
theorem safe_store {Q : α → DB → Prop}
    (hok : ∀ db' amb r, Later db db' → op.run env amb db' = .ok r → Allowed α op db')
    (hq : ∀ db' amb a db'' t, Later db db' → op.run env amb db' = .ok (a, db'') → Later db'' t →
      Q a t) : SafeM (world env) (store op) db Q := by
  refine Prog.Safe.ofCall (fun db' hl amb r hr => hok db' amb r hl hr) ?_
  rintro db' b db'' t hl ⟨amb, hexec⟩ ht a rfl
  unfold Op.exec at hexec
  split at hexec
  · rename_i hrun
    cases hexec
    exact hq db' amb a db'' t hl hrun ht
  · cases hexec

/-- A call whose operation is always allowed. -/
theorem safe_call (h : ∀ db, Allowed α op db) :
    SafeM (world env) (store op) db (fun _ _ => True) :=
  safe_store (fun db' _ _ _ _ => h db') (fun _ _ _ _ _ _ _ _ => trivial)

theorem safe_tryStore (h : ∀ db, Allowed α op db) :
    SafeM (world env) (tryStore op) db (fun _ _ => True) :=
  SafeM.lift (Prog.Safe.ofCall (fun db' _ _ _ _ => h db') (fun _ _ _ _ _ _ _ => trivial))

/-- A read returns what it finds at some moment since. -/
theorem safe_query {f : DB → Except Err α} (hrun : ∀ amb db, op.run env amb db = query f db)
    (h : ∀ db, Allowed α op db) :
    SafeM (world env) (store op) db
      (fun a t => ∃ db', Later db db' ∧ Later db' t ∧ f db' = .ok a) := by
  refine safe_store (fun db' _ _ _ _ => h db') ?_
  intro db' amb a db'' t hl hr ht
  rw [hrun] at hr
  simp only [query, bind_eq_ok, pure_eq_ok, Prod.mk.injEq] at hr
  obtain ⟨a', hf, rfl, rfl⟩ := hr
  exact ⟨db', hl, ht, hf⟩

/-- A read whose error is kept. -/
theorem safe_tryQuery {f : DB → Except Err α} (hrun : ∀ amb db, op.run env amb db = query f db)
    (h : ∀ db, Allowed α op db) :
    SafeM (world env) (tryStore op) db
      (fun r t => ∃ db', Later db db' ∧ Later db' t ∧ ∀ a, r = .ok a → f db' = .ok a) := by
  refine SafeM.lift (Prog.Safe.ofCall (fun db' _ _ _ _ => h db') ?_)
  rintro db' r db'' t hl ⟨amb, hexec⟩ ht
  simp only [Op.exec, hrun, query] at hexec
  cases hf : f db' with
  | ok a =>
      rw [hf] at hexec
      cases hexec
      exact ⟨db', hl, ht, fun a' ha' => by rw [hf, ha']⟩
  | error e =>
      rw [hf] at hexec
      cases hexec
      refine ⟨db', hl, ht, fun a' ha' => ?_⟩
      cases ha'

/-- A program that calls only operations that are always allowed. -/
theorem safe_local {x : Except String α} :
    SafeM (world env) (localCheck x) db (fun a _ => x = .ok a) := by
  unfold localCheck
  split
  · exact .pure (fun _ _ => rfl)
  · exact .throw

end Rules

-- ============================================================================
-- Programs without obligations
-- ============================================================================

section Free

variable (e : Engine) {db : DB}

theorem safe_driverCalls {α : Type} (activity : Activity) (p : Prog SinkCall α) :
    Prog.Safe (world e.env) (driverCalls activity p) db (fun _ _ => True) := by
  induction p generalizing db with
  | done a => exact fun _ _ => trivial
  | call op k ih =>
      cases op with
      | save sequence schemaVersion payload =>
          exact fun db' _ => ⟨fun _ _ _ => trivial, fun r db'' _ => ih _⟩
      | load => exact fun db' _ => ⟨fun _ _ _ => trivial, fun r db'' _ => ih _⟩

theorem safe_consumeRecordedResult (key : NodeKey) (attemptNumber : Int)
    (attemptState : AttemptState) (retryAfter : Int) (lease : LeaseRef) :
    SafeM (world e.env) (e.consumeRecordedResult key attemptNumber attemptState retryAfter lease) db
      (fun _ _ => True) := by
  refine .bind (safe_call (fun _ => trivial)) (fun w db₁ _ _ => ?_)
  exact .bind (safe_call (fun _ => trivial)) (fun _ _ _ _ => .pure (fun _ _ => trivial))

theorem safe_executeAttempt (node : NodeInstance) (definitionNode : Node) (attempt : Attempt)
    (lease : LeaseRef) :
    SafeM (world e.env) (e.executeAttempt node definitionNode attempt lease) db
      (fun _ _ => True) := by
  refine .bind (Q := fun _ _ => True) ?_ (fun claim db₁ _ _ => ?_)
  · unfold claimFor
    split
    · exact safe_call (fun _ => trivial)
    · exact .pure (fun _ _ => trivial)
  · split
    · exact .throw
    · refine .bind (.lift (safe_driverCalls e _ _)) (fun returned db₂ _ _ => ?_)
      refine .bind (safe_call (fun _ => trivial)) (fun _ _ _ _ => ?_)
      exact safe_consumeRecordedResult e _ _ _ _ _

theorem safe_startActivity (workflow : Workflow) (node : NodeInstance) (definitionNode : Node)
    (lease : LeaseRef) :
    SafeM (world e.env) (e.startActivity workflow node definitionNode lease) db
      (fun _ _ => True) := by
  unfold startActivity
  refine .bind (Q := fun _ _ => True) ?_ (fun effect db₁ _ _ => ?_)
  · exact .bind (safe_tryStore (fun _ => trivial)) (fun _ _ _ _ => .pure (fun _ _ => trivial))
  · split
    · exact .throw
    · refine .bind (safe_call (fun _ => trivial)) (fun attempt _ _ _ => ?_)
      split
      · exact .pure (fun _ _ => trivial)
      · exact safe_executeAttempt e _ _ _ _

theorem safe_recoverActivity (workflow : Workflow) (node : NodeInstance) (definitionNode : Node)
    (lease : LeaseRef) :
    SafeM (world e.env) (e.recoverActivity workflow node definitionNode lease) db
      (fun _ _ => True) := by
  have hdone : ∀ {db : DB} (b : Bool), SafeM (world e.env) (pure b : EngineM Bool) db
      (fun _ _ => True) := fun b => .pure (fun _ _ => trivial)
  unfold recoverActivity
  split
  · exact .bind (safe_startActivity e _ _ _ _) (fun _ _ _ _ => hdone true)
  · refine .bind (safe_call (fun _ => trivial)) (fun attempt _ _ _ => ?_)
    split
    · exact .bind (safe_consumeRecordedResult e _ _ _ _ _) (fun _ _ _ _ => hdone true)
    · refine .bind (safe_call (fun _ => trivial)) (fun databaseNow _ _ _ => ?_)
      split
      · split
        · split
          · exact hdone false
          · exact .bind (safe_call (fun _ => trivial)) (fun _ _ _ _ => hdone true)
        · exact .bind (safe_executeAttempt e _ _ _ _) (fun _ _ _ _ => hdone true)
      · split
        · exact .bind (safe_call (fun _ => trivial)) (fun _ _ _ _ => hdone true)
        · exact hdone false

theorem safe_applyRuntimeCancellations (lease : LeaseRef) (workflowID : String) :
    SafeM (world e.env) (e.applyRuntimeCancellations lease workflowID) db (fun _ _ => True) := by
  refine .bind (safe_call (fun _ => trivial)) (fun ids db₁ _ _ => ?_)
  clear * -
  induction ids generalizing db₁ with
  | nil => exact .pure (fun _ _ => trivial)
  | cons id ids ih =>
      refine .bind (Q := fun _ _ => True) ?_ (fun _ db₂ _ _ => ih db₂)
      exact .bind (safe_call (fun _ => trivial)) (fun _ _ _ _ => .pure (fun _ _ => trivial))

theorem safe_finish (workflowID : String) (lease : LeaseRef) (outcome : Except Err RunResult) :
    SafeM (world e.env) (e.finish workflowID lease outcome) db (fun _ _ => True) := by
  refine .bind (Q := fun _ _ => True) ?_ (fun outcome db₁ _ _ => ?_)
  · unfold acknowledge
    split
    · split
      · exact .bind (safe_tryStore (fun _ => trivial)) (fun _ _ _ _ => .pure (fun _ _ => trivial))
      · exact .pure (fun _ _ => trivial)
    · exact .pure (fun _ _ => trivial)
  · refine .bind (safe_tryStore (fun _ => trivial)) (fun _ db₂ _ _ => ?_)
    exact fun _ _ _ _ => trivial

end Free

-- ============================================================================
-- What a pass knows
-- ============================================================================

/-- `P` holds for as long as the workflow is at the revision that was read. -/
def Promises (db : DB) (w : Workflow) (P : DB → Prop) : Prop :=
  ∀ db', Later db db' →
    (∃ w', db'.workflows.get w.workflowID = some w' ∧ w'.revision = w.revision) → P db'

theorem Promises.later {db db' : DB} {w : Workflow} {P : DB → Prop} (h : Promises db w P)
    (hl : Later db db') : Promises db' w P :=
  fun db'' hl' hw => h db'' (hl.trans hl') hw

/-- The workflow row was read at some moment. -/
def Seen (db : DB) (w : Workflow) : Prop :=
  ∃ db₀, db₀.workflows.get w.workflowID = some w ∧ Later db₀ db

theorem Seen.later {db db' : DB} {w : Workflow} (h : Seen db w) (hl : Later db db') :
    Seen db' w := by
  obtain ⟨db₀, hw, hl₀⟩ := h
  exact ⟨db₀, hw, hl₀.trans hl⟩

/-- Between the read of the workflow and a write at its revision, its nodes
    are those that were read in between. -/
theorem Seen.promises {db₁ db₂ : DB} {w : Workflow} (h : Seen db₁ w) (h₂ : Later db₁ db₂)
    {k : NodeKey} (hk : k.workflowID = w.workflowID) :
    Promises db₂ w (fun db => db.nodes.get k = db₁.nodes.get k) := by
  obtain ⟨db₀, hw, h₁⟩ := h
  rintro db₃ h₃ ⟨w₃, hw₃, hrev⟩
  obtain ⟨w₁, hw₁, hl₁⟩ := h₁.workflow _ w hw
  obtain ⟨w₃', hw₃', hl₃⟩ := (h₂.trans h₃).workflow _ w₁ hw₁
  rw [hw₃, Option.some.injEq] at hw₃'
  subst hw₃'
  have hid : w₁.workflowID = w.workflowID := Table.key_of_get hw₁
  have hle₁ := hl₁.revision
  have hle₃ := hl₃.revision
  exact hl₃.nodes (by omega) k (hk.trans hid.symm)

/-- A node of the pass: as it was listed, under the graph of its workflow. -/
structure Visits (db : DB) (w : Workflow) (graph : Graph) (n : NodeInstance) (d : Node) : Prop where
  seen : Seen db w
  graphOf : GraphOf db w.workflowID graph
  declared : graph.find n.key.nodeID = some d
  owner : n.key.workflowID = w.workflowID
  stored : Promises db w (fun db => db.nodes.get n.key = some n)

theorem Visits.later {db db' : DB} {w : Workflow} {graph : Graph} {n : NodeInstance} {d : Node}
    (h : Visits db w graph n d) (hl : Later db db') : Visits db' w graph n d :=
  ⟨h.seen.later hl, h.graphOf.later hl, h.declared, h.owner, h.stored.later hl⟩

theorem key_of_owner {n : NodeInstance} {w : Workflow} (h : n.key.workflowID = w.workflowID) :
    (⟨w.workflowID, n.key.nodeID, n.key.iteration⟩ : NodeKey) = n.key := by
  rw [← h]

/-- The committed writes of a pass find the workflow at the revision it read. -/
theorem revision_of_applyOwnerTransition {env : Env} {input : OwnerTransitionInput} {db : DB}
    {r : Unit × DB} (h : applyOwnerTransition env input db = .ok r) :
    ∃ w, db.workflows.get input.workflowID = some w ∧ w.revision = input.expectedRevision := by
  simp only [applyOwnerTransition, bind_eq_ok] at h
  obtain ⟨-, -, w, hw, -⟩ := h
  exact ⟨w, (lockOwnedWorkflow_eq_ok hw).1.get, (lockOwnedWorkflow_eq_ok hw).2⟩

theorem revision_of_advanceGraph {env : Env} {amb : Ambient} {input : AdvanceGraphInput} {db : DB}
    {r : AdvanceGraphResult × DB} (h : advanceGraph env amb input db = .ok r) :
    ∃ w, db.workflows.get input.workflowID = some w ∧ w.revision = input.expectedRevision := by
  simp only [advanceGraph, bind_eq_ok] at h
  obtain ⟨-, -, -, -, w, hw, -⟩ := h
  exact ⟨w, (lockOwnedWorkflow_eq_ok hw).1.get, (lockOwnedWorkflow_eq_ok hw).2⟩

theorem revision_of_scheduleTimer {env : Env} {amb : Ambient} {input : ScheduleTimerInput} {db : DB}
    {r : String × DB} (h : scheduleTimer env amb input db = .ok r) :
    ∃ w, db.workflows.get input.workflowID = some w ∧ w.revision = input.expectedRevision := by
  simp only [scheduleTimer, bind_eq_ok] at h
  obtain ⟨-, -, -, -, w, hw, -⟩ := h
  exact ⟨w, (lockOwnedWorkflow_eq_ok hw).1.get, (lockOwnedWorkflow_eq_ok hw).2⟩

-- ============================================================================
-- Programs with obligations
-- ============================================================================

section Obliged

variable (e : Engine) {db : DB}

theorem safe_advanceDueTimer {w : Workflow} (lease : LeaseRef) {nodes : List NodeInstance}
    (h : ∀ n ∈ nodes, n.key.workflowID = w.workflowID ∧
      Promises db w (fun db => db.nodes.get n.key = some n)) :
    SafeM (world e.env) (e.advanceDueTimer w lease nodes) db (fun _ _ => True) := by
  induction nodes generalizing db with
  | nil => exact .pure (fun _ _ => trivial)
  | cons n nodes ih =>
      have hrest : ∀ {db' : DB}, Later db db' →
          SafeM (world e.env) (e.advanceDueTimer w lease nodes) db' (fun _ _ => True) := by
        intro db' hl
        exact ih (fun m hm => ⟨(h m (List.mem_cons_of_mem _ hm)).1,
          (h m (List.mem_cons_of_mem _ hm)).2.later hl⟩)
      obtain ⟨howner, hstored⟩ := h n List.mem_cons_self
      unfold advanceDueTimer
      split
      · exact hrest (.refl db)
      · rename_i hstate
        refine .bind (safe_call (fun _ => trivial)) (fun timer db₁ hl₁ _ => ?_)
        refine .bind (safe_call (fun _ => trivial)) (fun databaseNow db₂ hl₂ _ => ?_)
        split
        · refine .bind (safe_store (Q := fun _ _ => True) ?_ (fun _ _ _ _ _ _ _ _ => trivial))
            (fun _ _ _ _ => .pure (fun _ _ => trivial))
          intro db₃ amb r hl₃ hrun
          have hget := hstored db₃ ((hl₁.trans hl₂).trans hl₃) (revision_of_applyOwnerTransition hrun)
          refine .fire rfl rfl ⟨n, ?_, by simpa using hstate⟩
          rw [dueInput, OwnerTransitionInput.key, key_of_owner howner]
          exact hget
        · exact hrest (hl₁.trans hl₂)

/-- What `joinReady` has read lasts as long as the workflow's revision. -/
theorem safe_joinReady {w : Workflow} (key : NodeKey) (ready : Bool) (dependencies : List String)
    (hseen : Seen db w) (howner : key.workflowID = w.workflowID) :
    SafeM (world e.env) (joinReady w.workflowID key.iteration ready dependencies) db
      (fun reply t => reply = true → (ready = false → dependencies ≠ []) ∧
        Promises t w (fun db => ∀ dependency ∈ dependencies, ∃ n,
          db.nodes.get ⟨key.workflowID, dependency, key.iteration⟩ = some n ∧
            n.state = .succeeded)) := by
  induction dependencies generalizing db ready with
  | nil =>
      refine .pure (fun t _ hready => ⟨fun hno => ?_, fun _ _ _ _ hd => absurd hd List.not_mem_nil⟩)
      rw [hready] at hno
      cases hno
  | cons dependency dependencies ih =>
      refine .bind (safe_tryQuery (fun _ _ => rfl) (fun _ => trivial)) (fun reply db₁ hl₁ hread => ?_)
      obtain ⟨db', hl, hl', hreply⟩ := hread
      cases reply with
      | error err => exact .pure (fun _ _ hno => absurd hno Bool.false_ne_true)
      | ok n =>
          simp only
          split
          · rename_i hstate
            have hget := getOr_eq_ok.mp (hreply n rfl)
            have hkept := ((hseen.later hl).promises hl'
              (k := ⟨w.workflowID, dependency, key.iteration⟩) rfl)
            refine Prog.Safe.weaken (Prog.Safe.later (ih true (hseen.later hl₁)) (Later.refl db₁)) ?_
            rintro r t ⟨hl₂, hr⟩ reply rfl htrue
            obtain ⟨-, hrest⟩ := hr reply rfl htrue
            refine ⟨fun _ => List.cons_ne_nil _ _, fun db₃ hl₃ hrev d hd => ?_⟩
            rcases List.mem_cons.mp hd with rfl | hd
            · exact ⟨n, by rw [howner, hkept db₃ (hl₂.trans hl₃) hrev]; exact hget, hstate⟩
            · exact hrest db₃ hl₃ hrev d hd
          · exact .pure (fun _ _ hno => absurd hno Bool.false_ne_true)

theorem safe_runActivity {w : Workflow} {graph : Graph} {n : NodeInstance} {d : Node}
    (lease : LeaseRef) (h : Visits db w graph n d) (hstate : n.state = .runnable)
    (hkind : d.kind = "activity") :
    SafeM (world e.env) (e.runActivity w n d lease) db (fun _ _ => True) := by
  refine .bind (safe_store (Q := fun _ _ => True) ?_ (fun _ _ _ _ _ _ _ _ => trivial))
    (fun _ db₁ _ _ => ?_)
  · intro db₁ amb r hl hrun
    have hget := h.stored db₁ hl (revision_of_applyOwnerTransition hrun)
    refine .schedule rfl rfl ⟨n, ?_, hstate⟩ ⟨graph, d, h.graphOf.later hl, h.declared, hkind⟩
    rw [scheduleInput, OwnerTransitionInput.key, key_of_owner h.owner]
    exact hget
  · exact .bind (safe_call (fun _ => trivial)) (fun _ _ _ _ => safe_startActivity e _ _ _ _)

/-- A control node that a pass may advance: a timer that has fired, a join whose
    dependencies have succeeded. -/
structure Due (db : DB) (w : Workflow) (n : NodeInstance) (d : Node) : Prop where
  fired : d.kind = "timer" → n.state = .runnable → n.timerFired = true
  joined : d.kind = "join" → n.state = .runnable →
    Promises db w (fun db => JoinReady db n.key n.dependencies)

theorem Due.later {db db' : DB} {w : Workflow} {n : NodeInstance} {d : Node} (h : Due db w n d)
    (hl : Later db db') : Due db' w n d :=
  ⟨h.fired, fun hkind hstate => (h.joined hkind hstate).later hl⟩

theorem Due.of_kind {db : DB} {w : Workflow} {n : NodeInstance} {d : Node}
    (htimer : d.kind ≠ "timer") (hjoin : d.kind ≠ "join") : Due db w n d :=
  ⟨fun h => absurd h htimer, fun h => absurd h hjoin⟩

/-- An advancement of a control node. -/
theorem safe_advanceControl {w : Workflow} {graph : Graph} {n : NodeInstance} {d : Node}
    (h : Visits db w graph n d) (hkind : d.kind ≠ "activity") (hdue : Due db w n d)
    {input : AdvanceGraphInput} (hkey : input.key = n.key)
    (hrev : input.workflowID = w.workflowID ∧ input.expectedRevision = w.revision)
    (hfan : isFanout d.kind = true → n.state = .runnable → input.next = fanoutNext n d)
    (hfinal : input.finalNodeState = none ∨ input.finalNodeState = some .failed) :
    SafeM (world e.env) (store (.advanceGraph input)) db (fun _ _ => True) := by
  refine safe_store ?_ (fun _ _ _ _ _ _ _ _ => trivial)
  intro db₁ amb r hl hrun
  obtain ⟨w', hw', hrev'⟩ := revision_of_advanceGraph hrun
  have hsame : ∃ w', db₁.workflows.get w.workflowID = some w' ∧ w'.revision = w.revision :=
    ⟨w', by rw [← hrev.1]; exact hw', hrev'.trans hrev.2⟩
  have hget := h.stored db₁ hl hsame
  refine .control graph d n ?_ ?_ hkind (by rw [hkey]; exact hget) hdue.fired ?_ hfan hfinal
  · rw [hrev.1]
    exact h.graphOf.later hl
  · have hid : input.fromNodeID = n.key.nodeID := congrArg NodeKey.nodeID hkey
    rw [hid]
    exact h.declared
  · intro hjoin hstate
    rw [hkey]
    exact hdue.joined hjoin hstate db₁ hl hsame

theorem safe_advanceFromControl {w : Workflow} {graph : Graph} {n : NodeInstance} {d : Node}
    (lease : LeaseRef) (h : Visits db w graph n d) (hkind : d.kind ≠ "activity")
    (hdue : Due db w n d) (hfan : isFanout d.kind = false) :
    SafeM (world e.env) (e.advanceFromControl w n d graph lease) db (fun _ _ => True) := by
  refine .bind safe_local (fun next db₁ hl _ => ?_)
  refine .bind (safe_advanceControl e (h.later hl) hkind (hdue.later hl) (key_of_owner h.owner)
    ⟨rfl, rfl⟩ (fun hyes => absurd hyes (by simp [hfan])) (.inl rfl)) (fun _ _ _ _ => .pure (fun _ _ => trivial))

theorem safe_runNode {w : Workflow} {graph : Graph} {n : NodeInstance} {d : Node} (lease : LeaseRef)
    (h : Visits db w graph n d) (hstate : n.state = .runnable)
    (hready : d.kind = "join" → Promises db w (fun db => JoinReady db n.key n.dependencies)) :
    SafeM (world e.env) (e.runNode w n d graph lease) db (fun _ _ => True) := by
  have hdone : ∀ {α : Type} {p : EngineM α} {db : DB},
      SafeM (world e.env) p db (fun _ _ => True) →
      SafeM (world e.env) (do let _ ← p; pure ()) db (fun _ _ => True) :=
    fun hp => .bind hp (fun _ _ _ _ => .pure (fun _ _ => trivial))
  have hkey := key_of_owner h.owner
  unfold runNode
  split
  · rename_i hactivity
    exact safe_runActivity e lease h hstate hactivity
  · rename_i hactivity
    split
    · rename_i hfan
      have hother : ∀ kind, d.kind = kind → isFanout kind = true := fun kind hk => hk ▸ hfan
      refine hdone (safe_advanceControl e h hactivity (.of_kind (fun ht => ?_) (fun ht => ?_)) hkey
        ⟨rfl, rfl⟩ (fun _ _ => rfl) (.inl rfl))
      · exact absurd (hother _ ht) (by decide)
      · exact absurd (hother _ ht) (by decide)
    · rename_i hfan
      have hnofan : isFanout d.kind = false := by simpa using hfan
      split
      · rename_i hjoin
        exact safe_advanceFromControl e lease h hactivity
          ⟨fun ht => absurd (hjoin.symm.trans ht) (by decide), fun hk _ => hready hk⟩ hnofan
      · rename_i hjoin
        split
        · rename_i htimer
          split
          · rename_i hfired
            refine hdone (safe_store ?_ (fun _ _ _ _ _ _ _ _ => trivial))
            intro db₁ amb r hl hrun
            have hget := h.stored db₁ hl (revision_of_scheduleTimer hrun)
            refine ⟨rfl, ⟨n, ?_, hfired⟩, graph, d, h.graphOf.later hl, h.declared, htimer⟩
            rw [timerInput, ScheduleTimerInput.key, hkey]
            exact hget
          · rename_i hfired
            exact safe_advanceFromControl e lease h hactivity
              ⟨fun _ _ => by simpa using hfired, fun hk => absurd hk hjoin⟩ hnofan
        · rename_i htimer
          split
          · exact hdone (safe_advanceControl e h hactivity (.of_kind htimer hjoin) hkey
              ⟨rfl, rfl⟩ (fun hyes => absurd hyes hfan) (.inl rfl))
          · split
            · exact hdone (safe_advanceControl e h hactivity (.of_kind htimer hjoin) hkey
                ⟨rfl, rfl⟩ (fun hyes => absurd hyes hfan) (.inr rfl))
            · exact .throw

/-- A successor that is not listed is not stored. -/
theorem exists_missing {env : Env} {workflowID : String} {next : List GraphNodeInput}
    (h : successorMissing (listNodes env workflowID db) next = true) :
    ∃ item ∈ next, db.nodes.get ⟨workflowID, item.nodeID, item.iteration⟩ = none := by
  obtain ⟨item, hitem, hnone⟩ := List.any_eq_true.mp h
  refine ⟨item, hitem, ?_⟩
  cases hget : db.nodes.get ⟨workflowID, item.nodeID, item.iteration⟩ with
  | none => rfl
  | some n =>
      have hkey := Table.key_of_get hget
      have hmem : n ∈ listNodes env workflowID db :=
        mem_listNodes.mpr ⟨by rw [hkey]; exact hget, by rw [hkey]⟩
      simp only [Bool.not_eq_true', List.any_eq_false, Bool.and_eq_true, decide_eq_true_eq,
        not_and] at hnone
      exact absurd (by rw [hkey]) (hnone n hmem (by rw [hkey]))

theorem safe_recoverSucceeded {w : Workflow} {graph : Graph} {n : NodeInstance} {d : Node}
    (lease : LeaseRef) (h : Visits db w graph n d) (hstate : n.state = .succeeded) :
    SafeM (world e.env) (e.recoverSucceeded w n d graph lease) db (fun _ _ => True) := by
  refine .bind safe_local (fun next db₁ hl₁ hnext => ?_)
  refine .bind (safe_query (fun _ _ => rfl) (fun _ => trivial)) (fun nodes db₂ hl₂ hlist => ?_)
  obtain ⟨db', hl', hl'', hlisted⟩ := hlist
  cases hlisted
  split
  · exact .pure (fun _ _ => trivial)
  · rename_i hgo
    refine .bind (Q := fun _ _ => True) ?_ (fun _ _ _ _ => .pure (fun _ _ => trivial))
    have hv := h.later (hl₁.trans hl₂)
    have hkey : (e.advanceInput w n.key lease next).key = n.key := key_of_owner h.owner
    by_cases hkind : d.kind = "activity"
    · rw [if_pos hkind] at hnext
      refine safe_store ?_ (fun _ _ _ _ _ _ _ _ => trivial)
      intro db₃ amb r hl₃ hrun
      have hrev := revision_of_advanceGraph hrun
      have hget := hv.stored db₃ hl₃ hrev
      refine .activity graph d n (hv.graphOf.later hl₃) h.declared hkind (by rw [hkey]; exact hget)
        (by rw [hkey]; exact hnext) ?_ ⟨rfl, rfl⟩
      -- a successor that was missing in the list is missing at the same revision
      by_cases hempty : next = []
      · exact .inl hempty
      · simp only [hempty, ne_eq, not_false_eq_true, and_true, Bool.not_eq_true,
          Bool.not_eq_false'] at hgo
        obtain ⟨item, hitem, hnone⟩ := exists_missing hgo
        refine .inr ⟨_, List.mem_map_of_mem hitem, ?_⟩
        have hsame := (h.seen.later (hl₁.trans hl')).promises hl'' (k := ⟨w.workflowID, item.nodeID,
          item.iteration⟩) rfl db₃ hl₃ hrev
        exact hsame.trans hnone
    · -- a node that has succeeded is not runnable
      have hnot : n.state ≠ .runnable := by
        rw [hstate]
        decide
      exact safe_advanceControl e hv hkind
        ⟨fun _ hrun => absurd hrun hnot, fun _ hrun => absurd hrun hnot⟩ hkey ⟨rfl, rfl⟩
        (fun _ hrun => absurd hrun hnot) (.inl rfl)

theorem safe_nodeReady {w : Workflow} {graph : Graph} {n : NodeInstance} {d : Node}
    (h : Visits db w graph n d) :
    SafeM (world e.env) (nodeReady w n d) db (fun reply t => reply = true → d.kind = "join" →
      Promises t w (fun db => JoinReady db n.key n.dependencies)) := by
  unfold nodeReady
  split
  · refine Prog.Safe.weaken (safe_joinReady e n.key false n.dependencies h.seen h.owner) ?_
    rintro r t hr reply rfl htrue -
    obtain ⟨hne, hdeps⟩ := hr reply rfl htrue
    exact fun db₃ hl₃ hrev => ⟨hne rfl, hdeps db₃ hl₃ hrev⟩
  · rename_i hkind
    exact .pure (fun _ _ _ hjoin => absurd hjoin hkind)

theorem safe_visitNode {w : Workflow} {graph : Graph} {n : NodeInstance} {d : Node}
    (lease : LeaseRef) (h : Visits db w graph n d) :
    SafeM (world e.env) (e.visitNode w graph lease n d) db (fun _ _ => True) := by
  unfold visitNode
  split
  · rename_i hstate
    refine .bind (safe_nodeReady e h) (fun ready db₁ hl hready => ?_)
    · split
      · rename_i htrue
        exact .bind (safe_runNode e lease (h.later hl) hstate (hready htrue))
          (fun _ _ _ _ => .pure (fun _ _ => trivial))
      · exact .pure (fun _ _ => trivial)
  · exact safe_recoverActivity e _ _ _ _
  · rename_i hstate
    exact safe_recoverSucceeded e lease h hstate
  · exact .pure (fun _ _ => trivial)

theorem safe_visitNodes {w : Workflow} {graph : Graph} (lease : LeaseRef)
    {nodes : List NodeInstance} (hseen : Seen db w) (hgraph : GraphOf db w.workflowID graph)
    (h : ∀ n ∈ nodes, n.key.workflowID = w.workflowID ∧
      Promises db w (fun db => db.nodes.get n.key = some n)) :
    SafeM (world e.env) (e.visitNodes w graph lease nodes) db (fun _ _ => True) := by
  induction nodes generalizing db with
  | nil => exact .pure (fun _ _ => trivial)
  | cons n nodes ih =>
      obtain ⟨howner, hstored⟩ := h n List.mem_cons_self
      unfold visitNodes
      split
      · exact .throw
      · rename_i d hd
        refine .bind (safe_visitNode e lease ⟨hseen, hgraph, hd, howner, hstored⟩)
          (fun progressed db₁ hl _ => ?_)
        split
        · exact .pure (fun _ _ => trivial)
        · exact ih (hseen.later hl) (hgraph.later hl)
            (fun m hm => ⟨(h m (List.mem_cons_of_mem _ hm)).1,
              (h m (List.mem_cons_of_mem _ hm)).2.later hl⟩)

/-- A workflow row that `GetWorkflow` returned. -/
theorem safe_getWorkflow {env : Env} (workflowID : String) :
    SafeM (world env) (store (.getWorkflow workflowID)) db
      (fun w t => w.workflowID = workflowID ∧ Seen t w) := by
  refine Prog.Safe.weaken (safe_query (fun _ _ => rfl) (fun _ => trivial)) ?_
  rintro r t hr w rfl
  obtain ⟨db', -, hl', hget⟩ := hr w rfl
  have hw : db'.workflows.get workflowID = some w := getOr_eq_ok.mp hget
  have hid := Table.key_of_get hw
  exact ⟨hid, db', by rw [hid]; exact hw, hl'⟩

/-- The nodes that `ListNodes` returned after the workflow was read. -/
theorem safe_listNodes {env : Env} {w : Workflow} (hseen : Seen db w) :
    SafeM (world env) (store (.listNodes w.workflowID)) db
      (fun nodes t => ∀ n ∈ nodes, n.key.workflowID = w.workflowID ∧
        Promises t w (fun db => db.nodes.get n.key = some n)) := by
  refine Prog.Safe.weaken (safe_query (fun _ _ => rfl) (fun _ => trivial)) ?_
  rintro r t hr nodes rfl n hn
  obtain ⟨db', hl, hl', hlisted⟩ := hr nodes rfl
  cases hlisted
  obtain ⟨hget, hid⟩ := mem_listNodes.mp hn
  refine ⟨hid, fun db₃ hl₃ hrev => ?_⟩
  exact ((hseen.later hl).promises hl' hid db₃ hl₃ hrev).trans hget

theorem safe_loop {workflowID : String} {graph : Graph} (lease : LeaseRef) (fuel steps : Nat)
    (hgraph : GraphOf db workflowID graph) :
    SafeM (world e.env) (e.loop workflowID graph lease fuel steps) db (fun _ _ => True) := by
  induction fuel generalizing db lease steps with
  | zero => exact .bind (safe_call (fun _ => trivial)) (fun _ _ _ _ => .pure (fun _ _ => trivial))
  | succ fuel ih =>
      refine .bind (safe_call (fun _ => trivial)) (fun renewed db₁ hl₁ _ => ?_)
      refine .bind (safe_getWorkflow workflowID) (fun w db₂ hl₂ hw => ?_)
      obtain ⟨hid, hseen⟩ := hw
      subst hid
      have hgraph₂ := hgraph.later (hl₁.trans hl₂)
      split
      · exact .pure (fun _ _ => trivial)
      · refine .bind (safe_listNodes hseen) (fun nodes db₃ hl₃ hnodes => ?_)
        refine .bind (safe_advanceDueTimer e _ hnodes) (fun fired db₄ hl₄ _ => ?_)
        have hgraph₄ := hgraph₂.later (hl₃.trans hl₄)
        split
        · exact ih _ _ hgraph₄
        · refine .bind (safe_visitNodes e _ (hseen.later (hl₃.trans hl₄)) hgraph₄
            (fun n hn => ⟨(hnodes n hn).1, (hnodes n hn).2.later hl₄⟩))
            (fun progressed db₅ hl₅ _ => ?_)
          split
          · refine .bind (safe_call (fun _ => trivial)) (fun w' db₆ hl₆ _ => ?_)
            split
            · exact .pure (fun _ _ => trivial)
            · exact ih _ _ (hgraph₄.later (hl₅.trans hl₆))
          · exact .pure (fun _ _ => trivial)

theorem safe_externalPrelude (workflowID : String) (definition : DefinitionView) (graph : Graph)
    (lease : LeaseRef) :
    SafeM (world e.env) (e.externalPrelude workflowID definition graph lease) db
      (fun _ _ => True) := by
  refine .bind (safe_applyRuntimeCancellations e _ _) (fun _ _ _ _ => ?_)
  refine .bind (safe_call (fun _ => trivial)) (fun w _ _ _ => ?_)
  split
  · exact .pure (fun _ _ => trivial)
  · split
    · exact .pure (fun _ _ => trivial)
    · refine .bind (safe_call (fun _ => .pause rfl rfl rfl)) (fun _ _ _ _ => ?_)
      exact .bind (safe_call (fun _ => trivial)) (fun _ _ _ _ => .pure (fun _ _ => trivial))

theorem safe_body {workflowID : String} (definition : DefinitionView) {graph : Graph}
    (lease : LeaseRef) (hgraph : GraphOf db workflowID graph) :
    SafeM (world e.env) (e.body workflowID definition graph lease) db (fun _ _ => True) := by
  unfold body
  split
  · refine .bind (safe_externalPrelude e _ _ _ _) (fun early db₁ hl _ => ?_)
    split
    · exact .pure (fun _ _ => trivial)
    · exact safe_loop e _ _ _ (hgraph.later hl)
  · exact safe_loop e _ _ _ hgraph

/-- Every call of a scheduler pass is disciplined, whatever happens between its calls. -/
theorem safe_run (newID workflowID : String) :
    SafeM (world e.env) (e.run newID workflowID) db (fun _ _ => True) := by
  refine .bind (safe_getWorkflow workflowID) (fun w db₁ hl₁ hw => ?_)
  obtain ⟨hid, db₀, hw₀, hl₀⟩ := hw
  subst hid
  refine .bind (safe_query (fun _ _ => rfl) (fun _ => trivial)) (fun definition db₂ hl₂ hdef => ?_)
  obtain ⟨db', hl', hl'', hget⟩ := hdef
  simp only [getDefinition, bind_eq_ok, getOr_eq_ok, pure_eq_ok] at hget
  obtain ⟨row, hrow, classes, -, rfl⟩ := hget
  refine .bind safe_local (fun graph db₃ hl₃ hgraph => ?_)
  have hgraphOf : GraphOf db₃ w.workflowID graph := by
    obtain ⟨w', hw', hlw⟩ := (hl₀.trans hl').workflow _ w hw₀
    have hhere : GraphOf db' w.workflowID graph :=
      ⟨w', row, hw', by rw [hlw.definition.1, hlw.definition.2]; exact hrow, hgraph⟩
    exact hhere.later (hl''.trans hl₃)
  refine .bind (safe_call (fun _ => trivial)) (fun leased db₄ hl₄ _ => ?_)
  obtain ⟨lease, acquired⟩ := leased
  simp only
  split
  · refine .bind (.lift (safe_body e _ _ (hgraphOf.later hl₄))) (fun outcome _ _ _ => ?_)
    exact safe_finish e _ _ _
  · exact .throw

end Obliged

end Engine

-- ============================================================================
-- Runs of the system
-- ============================================================================

namespace Sys

open Engine

variable {env : Env} {C : ∀ α : Type, Op α → DB → Prop} {s s' : Sys}

/-- Every pass in progress is disciplined from here on. -/
def Disciplined (env : Env) (s : Sys) : Prop :=
  ∀ p ∈ s.passes, Prog.Safe (world env) p s.db (fun _ _ => True)

/-- The operations of a disciplined run: allowed, under a condition of the run. -/
def Both (C : ∀ α : Type, Op α → DB → Prop) (α : Type) (op : Op α) (db : DB) : Prop :=
  Allowed α op db ∧ C α op db

theorem Disciplined.later {db : DB} {passes : List Pass} {db' : DB}
    (h : Disciplined env ⟨db, passes⟩) (hl : Later db db') : Disciplined env ⟨db', passes⟩ :=
  fun p hp => (h p hp).mono hl

/-- One step of the system is a piece of a disciplined run of the store. -/
theorem Step.disciplined {ops : List Committed} (h : Disciplined env s) (hs : Step env C s ops s') :
    Disciplined env s' ∧ Trace env (Both C) s.db ops s'.db := by
  cases hs with
  | tick _ d => exact ⟨h.later (.tick s.db d), .tick .refl d⟩
  | client _ amb op isClient meets =>
      exact ⟨h.later (.of_exec op s.db),
        .of_exec (fun r hr => ⟨allowed_of_isClient isClient s.db, meets r hr⟩)⟩
  | start _ e newID workflowID deployed =>
      refine ⟨?_, .refl⟩
      subst deployed
      intro p hp
      rcases List.mem_cons.mp hp with rfl | hold
      · exact (safe_run e newID workflowID).weaken (fun _ _ _ => trivial)
      · exact h p hold
  | call _ before after amb op k passes meets =>
      have hcall : Prog.Safe (world env) (.call (.store op) k) s.db (fun _ _ => True) :=
        h _ (by rw [passes]; exact List.mem_append_right _ List.mem_cons_self)
      obtain ⟨hallowed, hrest⟩ := hcall s.db (Later.refl s.db)
      refine ⟨fun p hp => ?_, .of_exec (fun r hr => ⟨hallowed amb r hr, meets r hr⟩)⟩
      rcases List.mem_append.mp hp with hbefore | hcons
      · exact (h p (by rw [passes]; exact List.mem_append_left _ hbefore)).mono (.of_exec op s.db)
      · rcases List.mem_cons.mp hcons with rfl | hafter
        · exact hrest _ _ ⟨amb, rfl⟩
        · exact (h p (by
            rw [passes]
            exact List.mem_append_right _ (List.mem_cons_of_mem _ hafter))).mono (.of_exec op s.db)
  | stop _ before after p passes =>
      refine ⟨fun q hq => h q ?_, .refl⟩
      rw [passes]
      rcases List.mem_append.mp hq with hbefore | hafter
      · exact List.mem_append_left _ hbefore
      · exact List.mem_append_right _ (List.mem_cons_of_mem _ hafter)

/-- Every run of the system is a disciplined run of the store with the same commits. -/
theorem Run.disciplined {trace : List Committed} (h : Disciplined env s)
    (hrun : Run env C s trace s') :
    Disciplined env s' ∧ Trace env (Both C) s.db trace s'.db := by
  induction hrun with
  | refl => exact ⟨h, .refl⟩
  | tail _ hstep ih =>
      obtain ⟨hdisciplined, htrace⟩ := ih
      obtain ⟨hnext, hlast⟩ := hstep.disciplined hdisciplined
      exact ⟨hnext, htrace.trans hlast⟩

theorem disciplined_init (now : Int) : Disciplined env (init now) := fun _ hp => nomatch hp

theorem ReachableIf.disciplined (h : Sys.ReachableIf env C s) : Disciplined env s := by
  obtain ⟨now, trace, hrun⟩ := h
  exact (hrun.disciplined (disciplined_init now)).1

/-- The databases of the system are those of disciplined runs of the store. -/
theorem ReachableIf.store (h : Sys.ReachableIf env C s) : State.ReachableIf env (Both C) s.db := by
  obtain ⟨now, trace, hrun⟩ := h
  exact ⟨now, (hrun.disciplined (disciplined_init now)).2.steps⟩

end Sys

end DurableEngine
