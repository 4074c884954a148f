/-
  DurableEngine.Engine.Joins

  Joins wait for their branches.

  A pass reads the dependencies of a join before the transaction that advances
  it, and other parties act in between.  What it read still holds there: the
  transaction commits only at the revision the pass has read, and until that
  revision is gone no node of the workflow changes.  The discipline of
  `Engine.Discipline` carries this fact to every committed advancement.
-/

import DurableEngine.Engine.Branches
import DurableEngine.Engine.Turns

namespace DurableEngine

open Lib State Engine

-- ============================================================================
-- Instances of declared nodes
-- ============================================================================

namespace Engine

/-- The node of the workflow's graph that the key is an instance of, as the store reads it. -/
def Instantiates (db : DB) (k : NodeKey) (node : DefinitionGraphNode) : Prop :=
  ∃ w definition graph, db.workflows.get k.workflowID = some w ∧
    db.definitions.get ⟨w.definitionID, w.definitionVersion⟩ = some definition ∧
    decodeDefinitionGraph definition.graph.doc = .ok graph ∧ graph.find k.nodeID = some node

/-- The interpreter reads the same kind. -/
theorem KindOf.eq {db : DB} {k : NodeKey} {kind : String} {node : DefinitionGraphNode}
    (h : KindOf db k.workflowID k.nodeID kind) (hnode : Instantiates db k node) :
    node.kind = kind := by
  obtain ⟨graph, declared, ⟨w, d, hw, hd, hparse⟩, hfind, hkind⟩ := h
  obtain ⟨w', d', stored, hw', hd', hdecode, hstored⟩ := hnode
  cases hw.symm.trans hw'
  cases hd.symm.trans hd'
  rw [decodeDefinitionGraph_of_parseGraph hparse, Except.ok.injEq] at hdecode
  rw [← hdecode, find_definition, hfind, Option.map_some, Option.some.injEq] at hstored
  rw [← hstored]
  exact hkind

/-- The source of an advancement is the node its key is an instance of. -/
theorem Instantiates.source {db db' : DB} {input : AdvanceGraphInput} {w : Workflow}
    {n : NodeInstance} {definition : Definition} {graph : DefinitionGraph}
    {source node : DefinitionGraphNode} (h : Instantiates db input.key node)
    (c : Change.Advanced db input w n definition graph source db') : node = source := by
  obtain ⟨w', d', stored, hw', hd', hdecode, hfind⟩ := h
  obtain ⟨row, hm, -⟩ := c.advances.moves
  have hget := hm.get
  rw [c.workflow] at hget
  cases hw'.symm.trans hget
  cases hd'.symm.trans c.stored
  cases hdecode.symm.trans c.decoded
  exact Option.some.inj (hfind.symm.trans c.declared)

theorem Instantiates.later {db db' : DB} {k : NodeKey} {node : DefinitionGraphNode}
    (h : Instantiates db k node) (hl : Later db db') : Instantiates db' k node := by
  obtain ⟨w, d, graph, hw, hd, hdecode, hfind⟩ := h
  obtain ⟨w', hw', hlw⟩ := hl.workflow _ w hw
  refine ⟨w', d, graph, hw', ?_, hdecode, hfind⟩
  rw [hlw.definition.1, hlw.definition.2]
  exact hl.definitions _ d hd

theorem Instantiates.run {env : Env} {C : ∀ α : Type, Op α → DB → Prop} {db db' : DB} {k : NodeKey}
    {node : DefinitionGraphNode} (h : Instantiates db k node)
    (hrun : Relation.ReflTransGen (StepIf env C) db db') : Instantiates db' k node := by
  induction hrun with
  | refl => exact h
  | tail _ hstep ih =>
      cases hstep with
      | tick _ d => exact ih.later (.tick _ d)
      | commit amb op a hop _ => exact ih.later (.of_commit (Op.run_commit hop))

-- ============================================================================
-- How a join leaves RUNNABLE
-- ============================================================================

/-- The step takes the node out of `RUNNABLE`. -/
structure Leaves (db db' : DB) (k : NodeKey) (n : NodeInstance) : Prop where
  stored : db.nodes.get k = some n
  runnable : n.state = .runnable
  left : ∀ n', db'.nodes.get k = some n' → n'.state ≠ .runnable

/-- The step cancels the workflow, and the node with it. -/
structure CanceledWith (db db' : DB) (k : NodeKey) : Prop where
  workflow : ∃ w w', db.workflows.get k.workflowID = some w ∧ w.state.isTerminal = false ∧
    db'.workflows.get k.workflowID = some w' ∧ w'.state = .canceled
  node : ∃ n', db'.nodes.get k = some n' ∧ n'.state = .canceled

section Step

variable {db db' : DB} {α : Type} {op : Op α} {k : NodeKey} {n : NodeInstance}
  {node : DefinitionGraphNode}

theorem Leaves.absurd_of_kept (h : Leaves db db' k n) {n' : NodeInstance}
    (hget : db'.nodes.get k = some n') (hstate : n'.state = n.state) : False :=
  h.left n' hget (hstate.trans h.runnable)

/-- A disciplined operation takes a join out of `RUNNABLE` when its dependencies have succeeded,
    or with its whole workflow. -/
theorem Allowed.leaves (hok : Allowed α op db) (hc : Change db op db') (hshaped : NodesShaped db)
    (hnode : Instantiates db k node) (hjoin : node.kind = "join") (h : Leaves db db' k n) :
    CanceledWith db db' k ∨ JoinReady db k n.dependencies := by
  have hkind : ∀ {kind : String}, KindOf db k.workflowID k.nodeID kind → kind = "join" :=
    fun hk => (hk.eq hnode).symm.trans hjoin
  have hnot : ∀ s : WorkflowState, n.state = s → s ≠ .runnable → False :=
    fun s hs hne => hne (hs.symm.trans h.runnable)
  obtain ⟨n', hn', hturn⟩ := Allowed.turn hok hc hshaped h.stored
  cases hturn with
  | kept state => exact (h.absurd_of_kept hn' state).elim
  | fired waiting => exact (hnot _ waiting (by decide)).elim
  | scheduled _ kind => exact absurd (hkind kind) (by decide)
  | consumed waiting => exact (hnot _ waiting (by decide)).elim
  | timed _ kind => exact absurd (hkind kind) (by decide)
  | canceled before after state =>
      obtain ⟨w, hw, hlive⟩ := before
      obtain ⟨w', hw', hcanceled⟩ := after
      exact .inl ⟨⟨w, w', hw, hlive, hw', hcanceled⟩, n', hn', state⟩
  | advanced graph d graphOf declared kind runnable joined =>
      exact .inr (joined (hkind ⟨graph, d, graphOf, declared, rfl⟩))

end Step

-- ============================================================================
-- The dependencies of a join
-- ============================================================================

/-- A join that a fan-out creates depends on the branches. -/
theorem dependencies_of_fanout {db db' : DB} {input : AdvanceGraphInput} {w : Workflow}
    {m n : NodeInstance} {definition : Definition} {graph : DefinitionGraph} {k : NodeKey}
    {source : DefinitionGraphNode} (c : Change.Advanced db input w m definition graph source db')
    (hfan : isFanout source.kind = true) (hjoin : source.join = k.nodeID)
    (hnone : db.nodes.get k = none) (hn : db'.nodes.get k = some n) :
    n.dependencies = source.branches := by
  have hk : k ≠ input.key := by
    rintro rfl
    rw [c.node] at hnone
    cases hnone
  obtain ⟨-, ⟨item, hitem, hkey, hdeps⟩, -⟩ := c.fresh k n hk hnone hn
  have hvalid := c.valid
  simp only [validateGraphSuccessors, bind_eq_ok, rejectIf_eq_ok, not_and, not_exists,
    not_not, ne_eq] at hvalid
  obtain ⟨-, -, -, -, hbranches⟩ := hvalid
  rw [hdeps]
  refine hbranches hfan item hitem ?_
  rw [hjoin, hkey]

/-- A node that has succeeded stays so in a disciplined run. -/
theorem succeeded_lasts {env : Env} {C : ∀ α : Type, Op α → DB → Prop} {db db' : DB}
    (hreach : State.ReachableIf env (Sys.Both C) db)
    (h : Relation.ReflTransGen (StepIf env (Sys.Both C)) db db') {k : NodeKey} {n : NodeInstance}
    (hn : db.nodes.get k = some n) (hs : n.state = .succeeded) :
    ∃ n', db'.nodes.get k = some n' ∧ n'.state = .succeeded := by
  induction h with
  | refl => exact ⟨n, hn, hs⟩
  | tail hrun hstep ih =>
      obtain ⟨m, hm, hstate⟩ := ih
      cases hstep with
      | tick _ d => exact ⟨m, hm, hstate⟩
      | commit amb op a hop hmeets =>
          have hreach' := hreach.run hrun
          have hshaped := reachable_nodesShaped hreach'
          have hmove := Allowed.nodeMove hmeets.1 (Op.run_commit hop).change hshaped
            hreach'.reachable.generation k
          rw [hm] at hmove
          obtain ⟨m', hm', hkept⟩ := hmove.kept (hshaped k m hm) (by rw [hstate]; rfl)
          exact ⟨m', hm', hkept.state.trans hstate⟩

end Engine

-- ============================================================================
-- Steps and runs of the system
-- ============================================================================

namespace Sys

variable {env : Env} {C : ∀ α : Type, Op α → DB → Prop} {s s' : Sys}

/-- What one step commits: nothing, or one disciplined operation. -/
inductive Commits (env : Env) (C : ∀ α : Type, Op α → DB → Prop) (db : DB) :
    List Committed → DB → Prop where
  | none {db' : DB} (d : Nat) (clock : db' = db.tick d) : Commits env C db [] db'
  | one {α : Type} {db' : DB} (amb : Ambient) (op : Op α) (a : α)
      (run : op.run env amb db = .ok (a, db')) (meets : Both C α op db) :
      Commits env C db [⟨α, op⟩] db'

theorem Commits.of_exec {α : Type} {op : Op α} {amb : Ambient} {db : DB}
    (h : ∀ r, op.run env amb db = .ok r → Both C α op db) :
    Commits env C db (op.committed env amb db) (op.exec env amb db).2 := by
  unfold Op.committed Op.exec
  cases hrun : op.run env amb db with
  | ok r => exact .one amb op r.1 hrun (h r hrun)
  | error e => exact .none 0 (by simp [DB.tick])

theorem Step.commits {ops : List Committed} (h : Disciplined env s) (hs : Step env C s ops s') :
    Commits env C s.db ops s'.db := by
  have hidle : Commits env C s.db [] s.db := .none 0 (by simp [DB.tick])
  cases hs with
  | tick _ d => exact .none d rfl
  | client _ amb op isClient meets =>
      exact .of_exec (fun r hr => ⟨allowed_of_isClient isClient s.db, meets r hr⟩)
  | start => exact hidle
  | call _ before after amb op k passes meets =>
      have hcall : Prog.Safe (world env) (.call (.store op) k) s.db (fun _ _ => True) :=
        h _ (by rw [passes]; exact List.mem_append_right _ List.mem_cons_self)
      obtain ⟨hallowed, -⟩ := hcall s.db (Later.refl s.db)
      exact .of_exec (fun r hr => ⟨hallowed amb r hr, meets r hr⟩)
  | stop => exact hidle

theorem Run.steps {trace : List Committed} (h : Reachable env s) (hrun : Run env Any s trace s') :
    Relation.ReflTransGen (StepIf env (Both Any)) s.db s'.db :=
  (hrun.disciplined h.disciplined).2.steps

theorem Run.storeSteps {trace : List Committed} (h : Reachable env s)
    (hrun : Run env Any s trace s') : Relation.ReflTransGen (State.Step env) s.db s'.db :=
  (hrun.steps h).lift id (fun _ _ => StepIf.step)

/-- What a step does to the joins of all workflows, and what stays so. -/
structure JoinsSynchronized (env : Env) (s : Sys) (ops : List Committed) (s' : Sys) : Prop where
  leaves : ∀ k node n, Instantiates s.db k node → node.kind = "join" → Leaves s.db s'.db k n →
    JoinReady s.db k n.dependencies ∨ CanceledWith s.db s'.db k
  branches : ∀ k input fanout, (⟨_, .advanceGraph input⟩ : Committed) ∈ ops →
    Instantiates s.db input.key fanout → isFanout fanout.kind = true → fanout.join = k.nodeID →
    s.db.nodes.get k = none → (∃ n, s'.db.nodes.get k = some n) →
    ∀ trace t, Run env Any s' trace t →
      ∃ n, t.db.nodes.get k = some n ∧ n.dependencies = fanout.branches
  once : ∀ k, (∃ n, s'.db.nodes.get k = some n) ∨
      (∃ input, (⟨_, .advanceGraph input⟩ : Committed) ∈ ops ∧ k ∈ input.nextKeys) →
    ∀ trace t, Run env Any s' trace t → (t.db.nodes.select (fun n => n.key = k)).length = 1

/-- In every run of the system a join leaves `RUNNABLE` only when the nodes it depends on have
    succeeded, or canceled with its workflow; a join that its fan-out created depends on the
    branches; and a join has one instance in an iteration, whoever proposes it. -/
theorem joins_synchronized {ops : List Committed} (h : Reachable env s)
    (hs : Step env Any s ops s') : JoinsSynchronized env s ops s' := by
  have hreach' : Reachable env s' := h.run ((Run.refl s).tail hs)
  have hcommits := hs.commits h.disciplined
  refine ⟨fun k node n hnode hjoin hleaves => ?_,
    fun k input fanout hop hinst hfan hjoin hnone hsome trace t hrun => ?_,
    fun k hk trace t hrun => ?_⟩
  · cases hcommits with
    | none d clock =>
        rw [clock] at hleaves
        exact (hleaves.absurd_of_kept hleaves.stored rfl).elim
    | one amb op a run meets =>
        exact (Allowed.leaves meets.1 (Op.run_commit run).change
          (reachable_nodesShaped h.store) hnode hjoin hleaves).symm
  · obtain ⟨n, hn⟩ := hsome
    have hdeps : n.dependencies = fanout.branches := by
      cases hcommits with
      | none d clock => cases hop
      | one amb op a run meets =>
          cases List.mem_singleton.mp hop
          obtain ⟨⟨w, m, definition, graph, source, c⟩, -⟩ := advanceGraph_eq_ok run
          cases hinst.source c
          exact dependencies_of_fanout c hfan hjoin hnone hn
    obtain ⟨n', hn', hkept⟩ := node_lasts (hrun.storeSteps hreach') hn
    exact ⟨n', hn', hkept.trans hdeps⟩
  · have hsome : ∃ n, s'.db.nodes.get k = some n := by
      rcases hk with hsome | ⟨input, hop, hmem⟩
      · exact hsome
      · cases hcommits with
        | none d clock => cases hop
        | one amb op a run meets =>
            cases List.mem_singleton.mp hop
            obtain ⟨⟨w, m, definition, graph, source, c⟩, -⟩ := advanceGraph_eq_ok run
            exact c.complete k hmem
    obtain ⟨n, hn⟩ := hsome
    obtain ⟨n', hn', -⟩ := node_lasts (hrun.storeSteps hreach') hn
    exact Table.length_select_of_get hn' (by simp [Table.key_of_get hn'])
      (fun m hm => by simpa using hm)

-- ============================================================================
-- Canceled joins
-- ============================================================================

/-- A join leaves `RUNNABLE` when its dependencies have succeeded, and in no other way. -/
def LeavesReady (env : Env) : Prop :=
  ∀ s ops s', Reachable env s → Step env Any s ops s' → ∀ k node n, Instantiates s.db k node →
    node.kind = "join" → Leaves s.db s'.db k n → JoinReady s.db k n.dependencies

/-- If joins left in no other way, the dependencies of a join that has left would have succeeded. -/
theorem LeavesReady.succeeded (hclaim : LeavesReady env) {trace : List Committed}
    (h : Reachable env s) (hrun : Run env Any s trace s') {k : NodeKey} {n : NodeInstance}
    {node : DefinitionGraphNode} (hnode : Instantiates s.db k node) (hjoin : node.kind = "join")
    (hn : s.db.nodes.get k = some n) (hs : n.state = .runnable) {n' : NodeInstance}
    (hn' : s'.db.nodes.get k = some n') (hs' : n'.state ≠ .runnable) :
    JoinReady s'.db k n.dependencies := by
  induction hrun generalizing n' with
  | refl =>
      cases hn.symm.trans hn'
      exact absurd hs hs'
  | @tail s₁ s₂ trace ops run step ih =>
      have hreach₁ := h.run run
      have hsteps : Relation.ReflTransGen (StepIf env (Both Any)) s₁.db s₂.db :=
        ((Run.refl s₁).tail step).steps hreach₁
      obtain ⟨m, hm, hdeps⟩ := node_lasts (run.storeSteps h) hn
      -- the step leaves the state, or one before it did
      have hready : JoinReady s₁.db k n.dependencies := by
        by_cases hstate : m.state = .runnable
        · have hleaves : Leaves s₁.db s₂.db k m :=
            ⟨hm, hstate, fun x hx => by cases hn'.symm.trans hx; exact hs'⟩
          rw [← hdeps]
          exact hclaim s₁ _ _ hreach₁ step k node m
            (hnode.run (run.steps h)) hjoin hleaves
        · exact ih hm hstate
      refine ⟨hready.1, fun dependency hd => ?_⟩
      obtain ⟨d, hget, hsucceeded⟩ := hready.2 dependency hd
      exact succeeded_lasts hreach₁.store hsteps hget hsucceeded

end Sys

/-- Both branches of the fork are dispatched, and a client asks for the cancellation of the
    workflow. -/
def canceledBranchScript : List Sys.Action := branchScript ++ ([
  .client (.requestCancellation ⟨"w", "cancel", 0⟩)] : List Sys.Action)

theorem scriptSys_eq (script : List Sys.Action) : scriptSys script = ⟨(scriptSys script).db, []⟩ :=
  rfl

/-- The join of the fork in this state, with its two dependencies. -/
def forkJoinIs (db : DB) (state : WorkflowState) : Bool :=
  (db.nodes.get ⟨"w", "join", 0⟩).any (fun n => n.state = state &&
    n.dependencies = ["pure.add", "pure.echo"])

/-- The workflow's graph declares the join as one. -/
def forkJoinDeclared (db : DB) : Bool :=
  (db.workflows.get "w").any (fun w =>
    (db.definitions.get ⟨w.definitionID, w.definitionVersion⟩).any (fun d =>
      match decodeDefinitionGraph d.graph.doc with
      | .ok graph => (graph.find "join").any (fun node => node.kind = "join")
      | .error _ => false))

theorem forkJoinDeclared_spec {db : DB} (h : forkJoinDeclared db = true) :
    ∃ node, Instantiates db ⟨"w", "join", 0⟩ node ∧ node.kind = "join" := by
  simp only [forkJoinDeclared, Option.any_eq_true] at h
  obtain ⟨w, hw, d, hd, hgraph⟩ := h
  split at hgraph
  · rename_i graph hdecode
    simp only [Option.any_eq_true, decide_eq_true_eq] at hgraph
    obtain ⟨node, hfind, hkind⟩ := hgraph
    exact ⟨node, ⟨w, d, graph, hw, hd, hdecode, hfind⟩, hkind⟩
  · cases hgraph

theorem forkJoinIs_spec {db : DB} {state : WorkflowState} (h : forkJoinIs db state = true) :
    ∃ n, db.nodes.get ⟨"w", "join", 0⟩ = some n ∧ n.state = state ∧
      n.dependencies = ["pure.add", "pure.echo"] := by
  simpa only [forkJoinIs, Option.any_eq_true, Bool.and_eq_true, decide_eq_true_eq] using h

/-- The join of the fork waits for its branches while a worker claims one of them. -/
theorem joins_synchronized_fork :
    ∃ s ops s' n, Sys.Reachable .plain s ∧ Sys.Step .plain Sys.Any s ops s' ∧
      s.db.nodes.get ⟨"w", "join", 0⟩ = some n ∧ n.state = .runnable ∧
      n.dependencies = ["pure.add", "pure.echo"] ∧ Sys.JoinsSynchronized .plain s ops s' := by
  have hjoin : forkJoinIs (scriptSys branchScript).db .runnable = true := by decide +kernel
  obtain ⟨n, hn, hstate, hdeps⟩ := forkJoinIs_spec hjoin
  have hstep : Sys.Step .plain Sys.Any (scriptSys branchScript) _ _ :=
    .client _ (.drawn 99) (.claimAttempt secondClaim) rfl (fun _ _ => trivial)
  exact ⟨_, _, _, n, reachable_branches.1, hstep, hn, hstate, hdeps,
    Sys.joins_synchronized reachable_branches.1 hstep⟩

/-- A pass that finds the request cancels the join while its branches are still at work. -/
theorem join_leaves_canceled : ¬ Sys.LeavesReady .plain := by
  intro hclaim
  have hbefore : forkJoinIs (scriptSys canceledBranchScript).db .runnable = true ∧
      forkJoinDeclared (scriptSys canceledBranchScript).db = true := by
    decide +kernel
  have hafter : forkJoinIs (Sys.runScript .plain 99 [.pass externalEngine "w"]
        (scriptSys canceledBranchScript).db) .canceled = true ∧
      ((Sys.runScript .plain 99 [.pass externalEngine "w"]
        (scriptSys canceledBranchScript).db).nodes.get ⟨"w", "pure.add", 0⟩).any
          (fun n => n.state = .canceled) = true := by
    decide +kernel
  have hreach : Sys.Reachable .plain (scriptSys canceledBranchScript) := by
    refine Sys.reachable_of_runScript 0 ?_
    simp [canceledBranchScript, branchScript, Sys.Action.valid, Op.isClient, externalEngine,
      soloEngine]
  have hvalid : ∀ action ∈ [Sys.Action.pass externalEngine "w"], action.valid .plain := by
    simp [Sys.Action.valid, externalEngine, soloEngine]
  rw [scriptSys_eq] at hreach
  generalize (scriptSys canceledBranchScript).db = db at hbefore hafter hreach
  obtain ⟨trace, hrun⟩ := Sys.run_of_runScript hvalid 99 db
  obtain ⟨node, hnode, hkind⟩ := forkJoinDeclared_spec hbefore.2
  obtain ⟨n, hn, hstate, hdeps⟩ := forkJoinIs_spec hbefore.1
  obtain ⟨n', hn', hstate', -⟩ := forkJoinIs_spec hafter.1
  have hready := hclaim.succeeded hreach hrun hnode hkind hn hstate hn' (by rw [hstate']; decide)
  obtain ⟨b, hb, hcanceled⟩ := (Option.any_eq_true _ _).mp hafter.2
  obtain ⟨b', hb', hsucceeded⟩ := hready.2 "pure.add" (by rw [hdeps]; decide)
  cases hb.symm.trans hb'
  rw [hsucceeded] at hcanceled
  exact absurd hcanceled (by decide)

end DurableEngine
