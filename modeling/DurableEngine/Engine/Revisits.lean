/-
  DurableEngine.Engine.Revisits

  Passes that come back to a node which they have advanced before.

  Each scan of `Engine.Run` visits the nodes of the workflow in the order of
  their names and asks `recoverSucceeded` about those that have succeeded.  It
  computes the successors again and advances the node when one is missing or
  there is none.  For a fan-out it computes them from `next`, although it was
  advanced to `branches` and `join`: the list is empty, and the pass fails on
  the attempt to advance the node a second time, unless a node with a smaller
  name makes progress first.
-/

import DurableEngine.Engine.Joins

namespace DurableEngine.Engine

open Lib State

theorem Later.of_steps {env : Env} {db db' : DB}
    (h : Relation.ReflTransGen (State.Step env) db db') : Later db db' := by
  induction h with
  | refl => exact .refl db
  | tail _ hstep ih =>
      cases hstep with
      | tick _ d => exact ih.trans (.tick _ d)
      | commit amb op a hrun => exact ih.trans (.of_commit (Op.run_commit hrun))

/-- The interpreter and the store read the graph of a workflow from one document. -/
theorem GraphOf.accepted {db : DB} {workflowID : String} {graph : Graph}
    (h : GraphOf db workflowID graph) : ∃ raw stored, Accepted raw graph stored := by
  obtain ⟨w, d, -, -, hparse⟩ := h
  exact ⟨d.graph.doc, _, hparse, decodeDefinitionGraph_of_parseGraph hparse⟩

-- ============================================================================
-- Watching a program
-- ============================================================================

/-- The call leaves the database as it is. -/
def unchanged (env : Env) : ∀ {β : Type}, Call β → DB → Prop
  | _, .store op, db => ∀ amb, (op.exec env amb db).2 = db

theorem steps_of_exec {env : Env} {amb : Ambient} {α : Type} (op : Op α) (db : DB) :
    Relation.ReflTransGen (State.Step env) db (op.exec env amb db).2 := by
  unfold Op.exec
  split
  · rename_i a db' hrun
    exact .single (.commit amb op a hrun)
  · exact .refl

/-- Programs among parties that use the store in any way, with calls that read. -/
def reading (env : Env) : Prog.World Call DB where
  exec := execs env
  rely := Relation.ReflTransGen (State.Step env)
  ok := unchanged env
  refl _ := .refl
  trans h h' := h.trans h'
  rely_of_exec := by
    intro β op db db' b h
    cases op with
    | store op =>
        obtain ⟨amb, hexec⟩ := h
        have hsteps := @steps_of_exec env amb _ op db
        rw [hexec] at hsteps
        exact hsteps

-- ============================================================================
-- Nodes that have been advanced
-- ============================================================================

/-- The successors that a pass creates for a node of its kind. -/
def successorsOf (n : NodeInstance) (d : Node) (graph : Graph) :
    Except String (List GraphNodeInput) :=
  if isFanout d.kind then .ok (fanoutNext n d) else recoverBuilds n d graph

/-- All proposed successors exist. -/
def InPlace (db : DB) (workflowID : String) (next : List GraphNodeInput) : Prop :=
  ∀ item ∈ next, ∃ m, db.nodes.get ⟨workflowID, item.nodeID, item.iteration⟩ = some m

theorem InPlace.run {env : Env} {db db' : DB} {workflowID : String} {next : List GraphNodeInput}
    (h : InPlace db workflowID next) (hrun : Relation.ReflTransGen (State.Step env) db db') :
    InPlace db' workflowID next := by
  intro item hitem
  obtain ⟨m, hm⟩ := h item hitem
  obtain ⟨m', hm', -⟩ := node_lasts hrun hm
  exact ⟨m', hm'⟩

/-- The node has created its successors. -/
def Created (db : DB) (n : NodeInstance) (d : Node) (graph : Graph) : Prop :=
  ∃ next, successorsOf n d graph = .ok next ∧ next ≠ [] ∧ InPlace db n.key.workflowID next

/-- A node of the workflow that has succeeded and created its successors, and is visited again. -/
structure Revisited (db : DB) (w : Workflow) (graph : Graph) (n : NodeInstance) (d : Node) : Prop where
  stored : db.nodes.get n.key = some n
  owner : n.key.workflowID = w.workflowID
  graphOf : GraphOf db w.workflowID graph
  declared : graph.find n.key.nodeID = some d
  succeeded : n.state = .succeeded
  created : Created db n d graph

/-- No successor is missing among the nodes of the workflow. -/
theorem successorMissing_eq_false {env : Env} {db : DB} {workflowID : String}
    {next : List GraphNodeInput} (h : InPlace db workflowID next) :
    successorMissing (listNodes env workflowID db) next = false := by
  refine List.any_eq_false.mpr (fun item hitem => ?_)
  obtain ⟨m, hm⟩ := h item hitem
  have hkey := Table.key_of_get hm
  have hmem : m ∈ listNodes env workflowID db :=
    mem_listNodes.mpr ⟨by rw [hkey]; exact hm, by rw [hkey]⟩
  simp only [Bool.not_eq_true', Bool.not_eq_false, List.any_eq_true, Bool.and_eq_true,
    decide_eq_true_eq]
  exact ⟨m, hmem, by rw [hkey], by rw [hkey]⟩

-- ============================================================================
-- recoverSucceeded
-- ============================================================================

section Recovery

variable (e : Engine) (lease : LeaseRef) {db : DB} {w : Workflow} {graph : Graph}
  {n : NodeInstance} {d : Node} {next : List GraphNodeInput}

/-- `recoverSucceeded` once the successors are computed. -/
def recoverNext (w : Workflow) (n : NodeInstance) (next : List GraphNodeInput)
    (nodes : List NodeInstance) : EngineM Bool :=
  if !successorMissing nodes next ∧ next ≠ [] then pure false
  else do
    let _ ← store (.advanceGraph (e.advanceInput w n.key lease next))
    pure true

theorem recoverSucceeded_eq (h : recoverBuilds n d graph = .ok next) :
    e.recoverSucceeded w n d graph lease =
      store (.listNodes w.workflowID) >>= recoverNext e lease w n next := by
  have hbuilt : (if d.kind = "activity" then
      nextInputsForResult n.key d graph n.acceptedResult else nextInputs n d graph) = .ok next := h
  unfold recoverSucceeded
  rw [hbuilt]
  rfl

theorem recoverNext_in_place (hne : next ≠ []) (h : InPlace db w.workflowID next) :
    recoverNext e lease w n next (listNodes e.env w.workflowID db) = pure false := by
  have hmissing : successorMissing (listNodes e.env w.workflowID db) next = false :=
    successorMissing_eq_false h
  rw [recoverNext, if_pos ⟨by rw [hmissing]; rfl, hne⟩]

/-- A node whose successors are in place is left alone, whatever the other parties do. -/
theorem recoverSucceeded_returns (hbuilt : recoverBuilds n d graph = .ok next) (hne : next ≠ [])
    (h : InPlace db w.workflowID next) :
    Prog.Safe (reading e.env) (e.recoverSucceeded w n d graph lease).run db
      (fun r _ => r = .ok false) := by
  rw [recoverSucceeded_eq e lease hbuilt]
  intro db₁ hrely
  refine ⟨fun amb => rfl, ?_⟩
  rintro reply db₂ ⟨amb, hexec⟩
  cases hexec
  change Prog.Safe _ (recoverNext e lease w n next (listNodes e.env w.workflowID db₁)).run db₁ _
  rw [recoverNext_in_place e lease hne (h.run hrely)]
  exact fun _ _ => rfl

theorem recoverSucceeded_ends (hbuilt : recoverBuilds n d graph = .ok next) (hne : next ≠ [])
    (h : InPlace db w.workflowID next) :
    Prog.Ends (reading e.env) (e.recoverSucceeded w n d graph lease).run db (.ok false) db := by
  rw [recoverSucceeded_eq e lease hbuilt]
  refine ⟨db, .ok (listNodes e.env w.workflowID db), db, .refl, ⟨.drawn 0, rfl⟩, ?_⟩
  change Prog.Ends _ (recoverNext e lease w n next (listNodes e.env w.workflowID db)).run db _ db
  rw [recoverNext_in_place e lease hne h]
  exact ⟨rfl, .refl⟩

/-- The store refuses to advance a fan-out to nothing. -/
theorem advanceGraph_refused (hgraph : GraphOf db w.workflowID graph)
    (hd : graph.find n.key.nodeID = some d) (hfan : isFanout d.kind = true)
    (hne : fanoutNext n d ≠ []) (amb : Ambient) (r : AdvanceGraphResult × DB) :
    advanceGraph e.env amb (e.advanceInput w n.key lease []) db ≠ .ok r := by
  intro hrun
  obtain ⟨⟨w', m, definition, stored, source, c⟩, -⟩ := advanceGraph_eq_ok hrun
  have hsource := source_eq_definition c hgraph hd
  have hvalid := c.valid
  simp only [validateGraphSuccessors, bind_eq_ok] at hvalid
  obtain ⟨u, hexpected, -⟩ := hvalid
  have hkind : ¬ (source.kind = "activity" ∧ 1 < (expectedSuccessors source).length) := by
    rintro ⟨hk, -⟩
    rw [hsource] at hk
    change d.kind = _ at hk
    rw [hk] at hfan
    cases hfan
  rw [checkExpected_ok_iff _ _ _ hkind, hsource] at hexpected
  simp [advanceInput, expectedSuccessors, Node.definition, hfan] at hexpected
  obtain ⟨-, hbranches, hjoin⟩ := hexpected
  refine hne ?_
  by_cases hj : d.join = ""
  · simp [fanoutNext, hbranches, hj]
  · simp [hj] at hjoin

/-- The recovery of a fan-out fails: it is advanced once more, to nothing. -/
theorem recoverSucceeded_fails (hgraph : GraphOf db w.workflowID graph)
    (hd : graph.find n.key.nodeID = some d) (hfan : isFanout d.kind = true)
    (hne : fanoutNext n d ≠ []) (hbuilt : recoverBuilds n d graph = .ok []) {r : Except Err Bool}
    {db' : DB} (h : Prog.Ends (reading e.env) (e.recoverSucceeded w n d graph lease).run db r db') :
    ∃ err, r = .error err := by
  rw [recoverSucceeded_eq e lease hbuilt] at h
  obtain ⟨db₁, reply, db₂, hrely₁, ⟨amb₁, hlisted⟩, h⟩ := h
  cases hlisted
  change Prog.Ends _ (recoverNext e lease w n [] (listNodes e.env w.workflowID db₁)).run db₁ r db' at h
  rw [recoverNext, if_neg (fun hno => hno.2 rfl)] at h
  obtain ⟨db₃, reply, db₄, hrely₂, ⟨amb₂, hadvanced⟩, h⟩ := h
  cases reply with
  | error err =>
      obtain ⟨rfl, -⟩ := h
      exact ⟨err, rfl⟩
  | ok a =>
      have hlater : Later db db₃ := Later.of_steps (Relation.ReflTransGen.trans hrely₁ hrely₂)
      refine (advanceGraph_refused e lease (hgraph.later hlater) hd hfan hne amb₂ (a, db₄) ?_).elim
      simp only [Op.exec] at hadvanced
      split at hadvanced
      · rename_i hrun
        cases hadvanced
        exact hrun
      · cases hadvanced

-- ============================================================================
-- The scan
-- ============================================================================

theorem visitNodes_cons {m : NodeInstance} {nodes : List NodeInstance}
    (h : graph.find m.key.nodeID = some d) :
    e.visitNodes w graph lease (m :: nodes) = (do
      if ← e.visitNode w graph lease m d then pure true
      else e.visitNodes w graph lease nodes) := by
  rw [visitNodes, h]

/-- The outcomes of a scan do not depend on where the order puts a node whose successors are in
    place, or whether it is there at all. -/
theorem visitNodes_ends_iff (hbuilt : recoverBuilds n d graph = .ok next) (hne : next ≠ [])
    (h : InPlace db w.workflowID next) (hd : graph.find n.key.nodeID = some d)
    (hs : n.state = .succeeded) (before after : List NodeInstance) (r : Except Err Bool) (db' : DB) :
    Prog.Ends (reading e.env) (e.visitNodes w graph lease (before ++ n :: after)).run db r db' ↔
      Prog.Ends (reading e.env) (e.visitNodes w graph lease (before ++ after)).run db r db' := by
  induction before generalizing db with
  | nil =>
      have hvisit : e.visitNode w graph lease n d = e.recoverSucceeded w n d graph lease := by
        rw [visitNode, hs]
      rw [List.nil_append, List.nil_append, visitNodes_cons e lease hd, hvisit, SafeM.ends_bind_iff]
      have hreturns := recoverSucceeded_returns e lease hbuilt hne h
      constructor
      · rintro (⟨err, hends, -⟩ | ⟨b, t, hends, hrest⟩)
        · exact absurd (hreturns.ends hends) (by simp)
        · cases hreturns.ends hends
          exact hrest.mono hends.rely
      · intro hends
        exact .inr ⟨false, db, recoverSucceeded_ends e lease hbuilt hne h, hends⟩
  | cons m before ih =>
      rw [List.cons_append, List.cons_append]
      cases hm : graph.find m.key.nodeID with
      | none => rw [visitNodes, visitNodes, hm]
      | some d' =>
          rw [visitNodes_cons e lease hm, visitNodes_cons e lease hm, SafeM.ends_bind_iff, SafeM.ends_bind_iff]
          refine or_congr Iff.rfl (exists_congr fun b => exists_congr fun t => and_congr_right fun hends => ?_)
          cases b with
          | true => exact Iff.rfl
          | false => exact ih (h.run hends.rely)

/-- A visit to the node does nothing: the recovery returns `false` and only reads, and the scan
    ends in the same ways wherever the order of the names puts the node. -/
structure Inert (db : DB) (w : Workflow) (graph : Graph) (n : NodeInstance) (d : Node) : Prop where
  returns : Prog.Safe (reading e.env) (e.recoverSucceeded w n d graph lease).run db
    (fun r _ => r = .ok false)
  anywhere : ∀ before after r db',
    Prog.Ends (reading e.env) (e.visitNodes w graph lease (before ++ n :: after)).run db r db' ↔
      Prog.Ends (reading e.env) (e.visitNodes w graph lease (before ++ after)).run db r db'

/-- A node of any other kind is inert. -/
theorem inert_of_revisited (h : Revisited db w graph n d) (hfan : isFanout d.kind = false) :
    Inert e lease db w graph n d := by
  obtain ⟨next, hnext, hne, hplace⟩ := h.created
  rw [successorsOf, if_neg (by simp [hfan])] at hnext
  rw [h.owner] at hplace
  exact ⟨recoverSucceeded_returns e lease hnext hne hplace, fun before after r db' =>
    visitNodes_ends_iff e lease hnext hne hplace h.declared h.succeeded before after r db'⟩

/-- A fan-out that has created its branches is not. -/
theorem not_inert_of_fanout (h : Revisited db w graph n d) (horigin : Origin db n.key n)
    (hfan : isFanout d.kind = true) : ¬ Inert e lease db w graph n d := by
  intro hinert
  obtain ⟨next, hnext, hne, hplace⟩ := h.created
  rw [successorsOf, if_pos hfan] at hnext
  cases hnext
  -- the store has accepted the fan-out, so its `next` is empty
  obtain ⟨graph', d', hgraph', hd', hnil, -⟩ := horigin.succeeded h.succeeded
  rw [h.owner] at hgraph'
  cases h.graphOf.unique hgraph'
  cases h.declared.symm.trans hd'
  have hkind : d.kind ≠ "activity" := by
    intro hk
    rw [hk] at hfan
    cases hfan
  have hbuilt : recoverBuilds n d graph = .ok [] := by
    rw [recoverBuilds, if_neg hkind, nextInputs, hnil hfan]
    rfl
  have hanswered : ∀ {β : Type} (op : Call β) (db : DB), ∃ b db', (reading e.env).exec op db b db' := by
    intro β op db
    cases op with
    | store op => exact ⟨_, _, .drawn 0, rfl⟩
  obtain ⟨r, db', hends⟩ :=
    Prog.exists_ends hanswered (e.recoverSucceeded w n d graph lease).run db
  obtain ⟨err, rfl⟩ := recoverSucceeded_fails e lease h.graphOf h.declared hfan hne hbuilt hends
  cases hinert.returns.ends hends

end Recovery

end DurableEngine.Engine
