/-
  DurableEngine.Engine.Linear

  Graphs without branches that run side by side.

  In a linear graph no node is a fan-out, and a join, a timer or an ending
  declares one successor at most; an activity may declare several and chooses
  one.  While a workflow with such a graph goes on, all of its nodes but one
  are done: they have handed on to a successor that exists.
-/

import DurableEngine.Engine.Scans

namespace DurableEngine.Engine

open Lib State

-- ============================================================================
-- Nodes that are done
-- ============================================================================

/-- No node of the graph starts several others. -/
def Graph.Linear (graph : Graph) : Prop :=
  ∀ id d, graph.find id = some d → isFanout d.kind = false ∧ (d.kind ≠ "activity" → d.next.length ≤ 1)

/-- The successors of the node are in place. -/
def HandedOn (db : DB) (graph : Graph) (n : NodeInstance) (d : Node) : Prop :=
  ∃ next, recoverBuilds n d graph = .ok next ∧ next ≠ [] ∧ InPlace db n.key.workflowID next

/-- The node has ended, and a node that has succeeded has handed on. -/
structure Done (db : DB) (graph : Graph) (n : NodeInstance) (d : Node) : Prop where
  declared : graph.find n.key.nodeID = some d
  ended : n.state.isTerminal = true
  handedOn : n.state = .succeeded → HandedOn db graph n d

section Done

variable {db db' : DB} {graph : Graph} {n n' : NodeInstance} {d : Node}

/-- A visit of a node that is done finds nothing to do. -/
theorem Done.idle (h : Done db graph n d) (external : Bool) : Idle external db graph n := by
  by_cases hs : n.state = .succeeded
  · obtain ⟨next, hbuilt, hne, hplace⟩ := h.handedOn hs
    exact .advanced d h.declared hs next hbuilt hne hplace
  · refine .settled d h.declared ⟨fun hr => ?_, fun hw => ?_, hs⟩
    · have hend := h.ended
      rw [hr] at hend
      cases hend
    · have hend := h.ended
      rw [hw] at hend
      cases hend

theorem Done.not_due (h : Done db graph n d) : ¬ TimerDue db n := by
  rintro ⟨hw, -⟩
  have hend := h.ended
  rw [hw] at hend
  cases hend

/-- What the node hands on depends on its place, its result and the graph. -/
theorem HandedOn.of_kept {raw : Json} {stored : DefinitionGraph} (haccepted : Accepted raw graph stored)
    (hd : graph.find n.key.nodeID = some d) (h : HandedOn db graph n d) (hkey : n'.key = n.key)
    (hacc : n'.acceptedResult = n.acceptedResult)
    (hplace : ∀ k m, db.nodes.get k = some m → ∃ m', db'.nodes.get k = some m') : HandedOn db' graph n' d := by
  obtain ⟨next, hbuilt, hne, hall⟩ := h
  have hkeep : ∀ items : List GraphNodeInput, InPlace db n.key.workflowID items →
      InPlace db' n'.key.workflowID items := by
    intro items hitems item hmem
    obtain ⟨m, hm⟩ := hitems item hmem
    rw [hkey]
    exact hplace _ m hm
  by_cases hkind : d.kind = "activity"
  · refine ⟨next, ?_, hne, hkeep next hall⟩
    rw [recoverBuilds, if_pos hkind] at hbuilt ⊢
    rw [hkey, hacc]
    exact hbuilt
  · rw [recoverBuilds, if_neg hkind, haccepted.nextInputs hd] at hbuilt
    cases hbuilt
    have hbuilt' : recoverBuilds n' d graph =
        .ok (d.next.map (fun id => ⟨id, n'.key.iteration, [], .json n'.input.doc⟩)) := by
      rw [recoverBuilds, if_neg hkind]
      exact haccepted.nextInputs (by rw [hkey]; exact hd)
    refine ⟨_, hbuilt', by simpa using hne, fun item hmem => ?_⟩
    obtain ⟨id, hid, rfl⟩ := List.mem_map.mp hmem
    obtain ⟨m, hm⟩ := hall _ (List.mem_map_of_mem hid)
    rw [hkey]
    exact hplace _ m hm

/-- A node that is done stays so. -/
theorem Done.commit {env : Env} {α : Type} {op : Op α} {raw : Json} {stored : DefinitionGraph}
    (haccepted : Accepted raw graph stored) (h : Done db graph n d) (hn : db.nodes.get n.key = some n)
    (hok : Allowed α op db) (hc : Commit env db op db') (hshaped : NodesShaped db)
    (hgen : ∀ k, ∃ N, Generation db k N) : ∃ n', db'.nodes.get n.key = some n' ∧ Done db' graph n' d := by
  have hmove := Allowed.nodeMove hok hc.change hshaped hgen n.key
  rw [hn] at hmove
  obtain ⟨n', hn', hkept⟩ := hmove.kept (hshaped n.key n hn) h.ended
  have hkey := Table.key_of_get hn'
  refine ⟨n', hn', by rw [hkey]; exact h.declared, by rw [hkept.state]; exact h.ended, fun hs => ?_⟩
  exact (h.handedOn (hkept.state.symm.trans hs)).of_kept haccepted h.declared hkey hkept.accepted
    (fun k m hm => (hc.change.nodeStep k).persists hm)

end Done

-- ============================================================================
-- New nodes
-- ============================================================================

/-- A new node is the first one of a new workflow, or a successor. -/
theorem new_node {db db' : DB} {α : Type} {op : Op α} (h : Change db op db') {k : NodeKey} {n : NodeInstance}
    (hnone : db.nodes.get k = none) (hn : db'.nodes.get k = some n) :
    (∃ input : CreateWorkflowInput, (⟨α, op⟩ : Committed) = ⟨_, .createWorkflow input⟩ ∧ k = input.rootKey ∧
      db.workflows.get input.workflowID = none) ∨
    ∃ input w m definition graph source, (⟨α, op⟩ : Committed) = ⟨_, .advanceGraph input⟩ ∧
      Change.Advanced db input w m definition graph source db' := by
  have hsame : ∀ {o : Option NodeInstance} {f : NodeInstance → NodeInstance} {c : Prop}
      [Decidable c], o = none → (if c then o.map f else o) = some n → False := by
    intro o f c _ ho hsome
    rw [ho] at hsome
    split at hsome <;> cases hsome
  cases h with
  | idle rows =>
      rw [rows.nodes, hnone] at hn
      cases hn
  | claimed c | extended c | recorded c | redispatched c | expired c =>
      rw [c.nodes, hnone] at hn
      cases hn
  | created c =>
      rw [Table.get_insert c.nodes] at hn
      split at hn
      · rename_i hk
        refine .inl ⟨_, rfl, hk.trans c.node.1, ?_⟩
        rw [← c.workflow.1]
        exact (Table.insert?_eq_some_iff.mp c.workflows).1
      · rw [hnone] at hn
        cases hn
  | owner c =>
      rw [c.nodes, moveOwnedNode_nodes] at hn
      exact (hsame hnone hn).elim
  | consumed c | attemptCreated c | replaced c | timerScheduled c | approvalRequested c
  | approvalGranted c | approvalRejected c =>
      rw [c.nodes, DB.get_modifyNode] at hn
      exact (hsame hnone hn).elim
  | canceled c =>
      rw [c.nodes, hnone] at hn
      cases hn
  | advanced c => exact .inr ⟨_, _, _, _, _, _, rfl, c⟩

-- ============================================================================
-- Advancements
-- ============================================================================

theorem iteration_of_checkSuccessors {graph : DefinitionGraph} {iteration : Int} {seen : List String}
    {next : List GraphNodeInput} (h : checkSuccessors graph iteration seen next = .ok ()) :
    ∀ item ∈ next, item.iteration = iteration := by
  induction next generalizing seen with
  | nil => exact fun item hitem => absurd hitem List.not_mem_nil
  | cons first rest ih =>
      simp only [checkSuccessors, bind_eq_ok, rejectIf_eq_ok, exists_const] at h
      obtain ⟨hiter, -, -, -, hrest⟩ := h
      intro item hitem
      rcases List.mem_cons.mp hitem with rfl | hitem
      · by_contra hne
        exact hiter (.inr hne)
      · exact ih hrest item hitem

section Advance

variable {db db' : DB} {input : AdvanceGraphInput} {w : Workflow} {m : NodeInstance} {definition : Definition}
  {stored : DefinitionGraph} {source : DefinitionGraphNode} {graph : Graph} {d : Node}

/-- A control node of a linear graph is advanced to the successor it declares. -/
theorem next_of_control (c : Change.Advanced db input w m definition stored source db')
    (hgraph : GraphOf db input.workflowID graph) (hd : graph.find input.fromNodeID = some d)
    (hlinear : graph.Linear) (hkind : d.kind ≠ "activity") :
    input.next.map (·.nodeID) = d.next ∧ ∀ item ∈ input.next, item.iteration = input.iteration := by
  have hsource := source_eq_definition c hgraph hd
  have hvalid := c.valid
  simp only [validateGraphSuccessors, bind_eq_ok] at hvalid
  obtain ⟨_, hexpected, _, hsuccessors, -⟩ := hvalid
  have hnot : ¬ (source.kind = "activity" ∧ 1 < (expectedSuccessors source).length) := by
    rintro ⟨hk, -⟩
    rw [hsource] at hk
    exact hkind hk
  rw [checkExpected_ok_iff _ _ _ hnot, hsource] at hexpected
  refine ⟨?_, iteration_of_checkSuccessors hsuccessors⟩
  rw [hexpected]
  simp [expectedSuccessors, Node.definition, (hlinear _ d hd).1]

/-- An advancement starts from a node that is not done, and hands on to one successor at most. -/
structure Handing (db db' : DB) (graph : Graph) (input : AdvanceGraphInput) (m : NodeInstance) : Prop where
  opened : ∀ d, ¬ Done db graph m d
  few : input.next.length ≤ 1
  done : input.next ≠ [] →
    ∃ d, Done db' graph { m with state := input.nodeState, revision := m.revision + 1 } d

theorem handing_of_advanced (hok : Allowed _ (.advanceGraph input) db)
    (c : Change.Advanced db input w m definition stored source db')
    (hgraph : GraphOf db input.workflowID graph) (hlinear : graph.Linear) : Handing db db' graph input m := by
  have hkey : m.key = input.key := Table.key_of_get c.node
  cases hok with
  | activity g d n graphOf declared kind hstored next missing final =>
      cases hgraph.unique graphOf
      cases c.node.symm.trans hstored
      have hsource := source_eq_definition c hgraph declared
      have hsucceeded := (checkSource_activity c.ready (by rw [hsource]; exact kind)).1
      have hbuilds : ∀ n' : NodeInstance, n'.key = m.key → n'.acceptedResult = m.acceptedResult →
          recoverBuilds n' d graph = .ok input.next := by
        intro n' hk hacc
        rw [recoverBuilds, if_pos kind, hk, hacc, hkey]
        exact next
      refine ⟨fun d' hdone => ?_, ?_, fun hne => ⟨d, by rw [hkey]; exact declared, ?_, fun _ => ?_⟩⟩
      · have hdeclared := hdone.declared
        rw [hkey, show input.key.nodeID = input.fromNodeID from rfl, declared] at hdeclared
        cases hdeclared
        obtain ⟨next', hbuilt, hne, hplace⟩ := hdone.handedOn hsucceeded
        cases (hbuilds m rfl rfl).symm.trans hbuilt
        rcases missing with hempty | ⟨k, hk, hnone⟩
        · exact hne hempty
        · obtain ⟨item, hitem, rfl⟩ := List.mem_map.mp hk
          obtain ⟨m', hm'⟩ := hplace item hitem
          rw [hkey, show input.key.workflowID = input.workflowID from rfl, hnone] at hm'
          cases hm'
      · obtain ⟨ids, hselect, hnext, -⟩ := nextInputsForResult_ok next
        rw [hnext, List.length_map]
        unfold selectNext at hselect
        split at hselect
        · split at hselect
          · split at hselect
            · cases hselect
            · cases hselect
              exact le_refl 1
          · cases hselect
        · rename_i hone
          cases hselect
          exact Nat.le_of_not_lt hone
      · rw [AdvanceGraphInput.nodeState, final.2]
        rfl
      · refine ⟨input.next, hbuilds _ rfl rfl, hne, fun item hitem => ?_⟩
        rw [hkey]
        exact c.complete _ (List.mem_map_of_mem hitem)
  | control g d n graphOf declared kind hstored fired joined fanned final =>
      cases hgraph.unique graphOf
      have hsource := source_eq_definition c hgraph declared
      have hrunnable := checkSource_control c.ready (by rw [hsource]; exact kind)
      obtain ⟨hids, hiter⟩ := next_of_control c hgraph declared hlinear kind
      obtain ⟨raw, decoded, haccepted⟩ := hgraph.accepted
      refine ⟨fun d' hdone => ?_, ?_, fun hne => ⟨d, by rw [hkey]; exact declared, ?_, fun _ => ?_⟩⟩
      · have hend := hdone.ended
        rw [hrunnable] at hend
        cases hend
      · rw [← List.length_map (f := (·.nodeID)), hids]
        exact (hlinear _ d declared).2 kind
      · rcases final with hnone | hfailed
        · rw [AdvanceGraphInput.nodeState, hnone]
          rfl
        · rw [AdvanceGraphInput.nodeState, hfailed]
          rfl
      · have hbuilt : recoverBuilds { m with state := input.nodeState, revision := m.revision + 1 } d graph =
            .ok (d.next.map (fun id => ⟨id, m.key.iteration, [], .json m.input.doc⟩)) := by
          rw [recoverBuilds, if_neg kind]
          exact haccepted.nextInputs (by rw [hkey]; exact declared)
        refine ⟨_, hbuilt, ?_, fun item hitem => ?_⟩
        · rw [← hids]
          simpa using hne
        · obtain ⟨id, hid, rfl⟩ := List.mem_map.mp hitem
          rw [← hids] at hid
          obtain ⟨proposed, hin, rfl⟩ := List.mem_map.mp hid
          have hcomplete := c.complete _ (List.mem_map_of_mem hin)
          rw [hiter proposed hin] at hcomplete
          rw [hkey]
          exact hcomplete

end Advance

-- ============================================================================
-- One open node
-- ============================================================================

/-- While a workflow with a linear graph goes on, all of its nodes but one are done.  The graph may be
    read at any later time, since a definition does not change. -/
def Lone (db : DB) : Prop :=
  ∀ id w graph later, db.workflows.get id = some w → w.state.isTerminal = false → Later db later →
    GraphOf later id graph → graph.Linear → ∀ n m, NodeOf db id n → NodeOf db id m →
      (∀ d, ¬ Done db graph n d) → (∀ d, ¬ Done db graph m d) → n = m

theorem Lone.commit {env : Env} {db db' : DB} {α : Type} {op : Op α} (h : Lone db) (hok : Allowed α op db)
    (hc : Commit env db op db') (hlinked : Linked db) (hshaped : NodesShaped db)
    (hgen : ∀ k, ∃ N, Generation db k N) : Lone db' := by
  intro id w' graph later hw' hlive hl hgraph hlinear n' m' hn' hm' hopen hopen'
  have hlater : Later db later := (Later.of_commit hc).trans hl
  obtain ⟨raw, decoded, haccepted⟩ := hgraph.accepted
  have hsame : ∀ {a b : NodeInstance}, NodeOf db' id a → NodeOf db' id b → a.key = b.key → a = b :=
    fun ha hb hkey => Option.some.inj (ha.1.symm.trans ((congrArg db'.nodes.get hkey).trans hb.1))
  rcases hc.change.workflow_origin hw' with ⟨w, hw, -, hwas⟩ | ⟨input, hop, rfl, hnone⟩
  · -- a node that is not done is new, or was not done before
    have hbefore : ∀ a, NodeOf db' id a → (∀ d, ¬ Done db' graph a d) →
        db.nodes.get a.key = none ∨ ∃ b, b.key = a.key ∧ NodeOf db id b ∧ ∀ d, ¬ Done db graph b d := by
      intro a ha hopena
      cases hold : db.nodes.get a.key with
      | none => exact .inl rfl
      | some b =>
          have hkey := Table.key_of_get hold
          refine .inr ⟨b, hkey, ⟨by rw [hkey]; exact hold, by rw [hkey]; exact ha.2⟩, fun d hdone => ?_⟩
          obtain ⟨b', hb', hdone'⟩ := hdone.commit haccepted (by rw [hkey]; exact hold) hok hc hshaped hgen
          rw [hkey, ha.1] at hb'
          cases hb'
          exact hopena d hdone'
    have hold : ∀ a b, NodeOf db id a → NodeOf db id b → (∀ d, ¬ Done db graph a d) →
        (∀ d, ¬ Done db graph b d) → a = b := h id w graph later hw (hwas hlive) hlater hgraph hlinear
    by_cases hnew : ∃ k a, k.workflowID = id ∧ db.nodes.get k = none ∧ db'.nodes.get k = some a
    · obtain ⟨k, a, hid, hnone, ha⟩ := hnew
      rcases new_node hc.change hnone ha with ⟨input, hop, rfl, hmissing⟩ |
        ⟨input, w₀, m, definition, stored, source, hop, c⟩
      · -- a new workflow is not an old one
        rw [show input.workflowID = id from hid, hw] at hmissing
        cases hmissing
      · cases hop
        have hk : k ≠ input.key := by
          rintro rfl
          rw [c.node] at hnone
          cases hnone
        obtain ⟨-, ⟨item, hitem, hkey, -⟩, -⟩ := c.fresh k a hk hnone ha
        have hid : input.workflowID = id := by rw [← hid, hkey]
        subst hid
        have hsource : GraphOf db input.workflowID graph := by
          cases hok with
          | activity g _ _ graphOf => exact hgraph.unique (graphOf.later hlater) ▸ graphOf
          | control g _ _ graphOf => exact hgraph.unique (graphOf.later hlater) ▸ graphOf
        have hand := handing_of_advanced hok c hsource hlinear
        have hmkey : m.key = input.key := Table.key_of_get c.node
        have hm : NodeOf db input.workflowID m := ⟨by rw [hmkey]; exact c.node, by rw [hmkey]; rfl⟩
        -- the source was the open node and is done now, so the open nodes are the new ones
        have hfresh : ∀ a, NodeOf db' input.workflowID a → (∀ d, ¬ Done db' graph a d) →
            ∃ item ∈ input.next, a.key = ⟨input.workflowID, item.nodeID, item.iteration⟩ := by
          intro a ha hopena
          have hne : a.key ≠ input.key := by
            intro heq
            have hget := c.nodes input.key
            rw [if_pos rfl, ← heq, ha.1] at hget
            cases hget
            obtain ⟨d, hdone⟩ := hand.done (List.ne_nil_of_mem hitem)
            exact hopena d hdone
          rcases hbefore a ha hopena with habsent | ⟨b, hbkey, hb, hopenb⟩
          · obtain ⟨-, ⟨item, hin, hkey, -⟩, -⟩ := c.fresh a.key a hne habsent ha.1
            exact ⟨item, hin, hkey⟩
          · rw [hold b m hb hm hopenb hand.opened, hmkey] at hbkey
            exact absurd hbkey.symm hne
        obtain ⟨item₁, hin₁, hkey₁⟩ := hfresh n' hn' hopen
        obtain ⟨item₂, hin₂, hkey₂⟩ := hfresh m' hm' hopen'
        have hone : item₁ = item₂ := by
          obtain ⟨only, honly⟩ := List.length_eq_one_iff.mp
            (le_antisymm hand.few (List.length_pos_of_mem hin₁))
          rw [honly] at hin₁ hin₂
          rw [List.mem_singleton.mp hin₁, List.mem_singleton.mp hin₂]
        exact hsame hn' hm' (by rw [hkey₁, hkey₂, hone])
    · have hall : ∀ a, NodeOf db' id a → db.nodes.get a.key ≠ none :=
        fun a ha hnone => hnew ⟨a.key, a, ha.2, hnone, ha.1⟩
      obtain ⟨n, hkey, hn, hopenn⟩ := (hbefore n' hn' hopen).resolve_left (hall n' hn')
      obtain ⟨m, hkey', hm, hopenm⟩ := (hbefore m' hm' hopen').resolve_left (hall m' hm')
      exact hsame hn' hm' (by rw [← hkey, ← hkey', hold n m hn hm hopenn hopenm])
  · -- a new workflow has its first node
    have hroot : ∀ a, NodeOf db' input.workflowID a → a.key = input.rootKey := by
      intro a ha
      have habsent : db.nodes.get a.key = none := by
        cases hold : db.nodes.get a.key with
        | none => rfl
        | some b =>
            obtain ⟨w, hw⟩ := hlinked.node _ _ hold
            rw [ha.2, hnone] at hw
            cases hw
      rcases new_node hc.change habsent ha.1 with ⟨input', hop', hkey, -⟩ | ⟨input', _, _, _, _, _, hop', -⟩
      · cases hop.symm.trans hop'
        exact hkey
      · have hadvances := congrArg (advancesFrom input'.key) (hop.symm.trans hop')
        simp [advancesFrom] at hadvances
    exact hsame hn' hm' ((hroot n' hn').trans (hroot m' hm').symm)

/-- In every reachable state of the system. -/
theorem reachable_lone {env : Env} {C : ∀ α : Type, Op α → DB → Prop} {db : DB}
    (h : State.ReachableIf env (Sys.Both C) db) : Lone db := by
  refine h.induction (fun _ _ _ _ _ hw => (nomatch hw)) ?_
  intro db db' hreach hi hs
  cases hs with
  | tick _ d =>
      intro id w graph later hw hlive hl hgraph hlinear n m hn hm hopen hopen'
      exact hi id w graph later hw hlive ((Later.tick db d).trans hl) hgraph hlinear n m hn hm
        (fun d' hd => hopen d' ⟨hd.declared, hd.ended, hd.handedOn⟩)
        (fun d' hd => hopen' d' ⟨hd.declared, hd.ended, hd.handedOn⟩)
  | commit amb op a hrun hmeets =>
      exact hi.commit hmeets.1 (Op.run_commit hrun) hreach.reachable.linked (reachable_nodesShaped hreach)
        hreach.reachable.generation

/-- At most one node of a workflow with a linear graph has something to do. -/
theorem oneMoves_of_linear {env : Env} {s : Sys} (h : Sys.Reachable env s) {workflowID : String} {graph : Graph}
    {w : Workflow} (hw : s.db.workflows.get workflowID = some w) (hlive : w.state.isTerminal = false)
    (hgraph : GraphOf s.db workflowID graph) (hlinear : graph.Linear) (external : Bool) :
    OneMoves external s.db workflowID := by
  have hlone := reachable_lone h.store workflowID w graph s.db hw hlive (.refl s.db) hgraph hlinear
  refine ⟨fun n m hn hm hdue hdue' => hlone n m hn hm (fun d hd => hd.not_due hdue) (fun d hd => hd.not_due hdue'),
    fun _ graph' hgraph' n m hn hm hbusy hbusy' => ?_⟩
  cases hgraph.unique hgraph'
  exact hlone n m hn hm (fun d hd => hbusy (hd.idle external)) (fun d hd => hbusy' (hd.idle external))

end DurableEngine.Engine
