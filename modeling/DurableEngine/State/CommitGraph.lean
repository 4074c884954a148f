/-
  DurableEngine.State.CommitGraph

  The commits of the graph operations, the approvals and the cancellations,
  and with them `Op.run_commit`: every committed operation is a `Commit`.

  The two operations that loop over nodes (`cancelWorkflowTx` and
  `AdvanceGraph`) are described by what the loop does to the row of a key.
-/

import DurableEngine.State.Commit

namespace DurableEngine.State

open Lib

variable {env : Env}

-- ============================================================================
-- Timers
-- ============================================================================

theorem scheduleTimer_commit {env : Env} {amb : Ambient} {input : ScheduleTimerInput} {db db' : DB}
    {r : String} (h : scheduleTimer env amb input db = .ok (r, db')) :
    Commit env db (.scheduleTimer input) db' := by
  simp only [scheduleTimer, bind_eq_ok, getOr_eq_ok, rejectIf_eq_ok, exists_const, pure_eq_ok,
    Prod.mk.injEq] at h
  obtain ⟨-, purpose, hpurpose, w, hw, hstate, n, hn, hnstate, timers, hins, db₁, hhist, db₂, hout, -,
    rfl⟩ := h
  obtain ⟨hown, -⟩ := lockOwnedWorkflow_eq_ok hw
  have hrunnable : w.state = .runnable := by simpa using hstate
  obtain ⟨⟨history, outbox, rfl⟩, hadv⟩ := Advances.of_tail hhist hout hown
    (by rw [hrunnable]; rfl) rfl rfl rfl (by simp [resultReason])
  exact .of_change rfl rfl rfl rfl (hadv.slotStep rfl rfl) (.of_eq rfl)
    (fenced_of_valid rfl hown.valid) (.timerScheduled ⟨hown.workflowID, hrunnable, hadv, hn, by simpa using hnstate, hins,
      ⟨rfl, rfl, rfl⟩, hpurpose, rfl, rfl⟩)

-- ============================================================================
-- Cancellation
-- ============================================================================

/-- The row of a key after the node `n` was settled. -/
theorem cancelNode_eq_ok {context : String} {db db' : DB} {n : NodeInstance}
    (h : cancelNode context db n = .ok db') :
    ∃ nodes attempts, db' = { db with nodes := nodes, attempts := attempts } ∧
      (∀ k, nodes.get k = if (n.key = k && !n.state.isTerminal) = true then
        (db.nodes.get k).map NodeInstance.settle else db.nodes.get k) ∧
      (∀ k, attempts.get k =
        if (n.key = k.node && !n.state.isTerminal && n.currentAttempt = some k.number) = true then
          (db.attempts.get k).map Attempt.cancel else db.attempts.get k) := by
  unfold cancelNode at h
  split at h
  · rename_i hterm
    cases h
    exact ⟨db.nodes, db.attempts, rfl, by simp [hterm], by simp [hterm]⟩
  · rename_i hlive
    simp only [bind_eq_ok, pure_eq_ok] at h
    obtain ⟨db₁, hattempt, rfl⟩ := h
    have hnodes : ∀ k, (db.modifyNode n.key NodeInstance.settle NodeInstance.settle_key).nodes.get k =
        if (n.key = k && !n.state.isTerminal) = true then
          (db.nodes.get k).map NodeInstance.settle else db.nodes.get k := by
      intro k
      rw [DB.get_modifyNode]
      simp [hlive, eq_comm]
    unfold cancelAttemptOf at hattempt
    split at hattempt
    · rename_i hnone
      cases hattempt
      exact ⟨_, db.attempts, rfl, hnodes, by simp [hnone]⟩
    · rename_i number hsome
      simp only [bind_eq_ok, getOr_eq_ok, pure_eq_ok] at hattempt
      obtain ⟨a, -, rfl⟩ := hattempt
      refine ⟨_, _, rfl, hnodes, fun k => ?_⟩
      have hkey : (k = ⟨n.key, number⟩) ↔ (n.key = k.node ∧ number = k.number) := by
        cases k
        simp [eq_comm]
      rw [DB.get_modifyAttempt]
      simp [hlive, hsome, hkey]

/-- Two rounds of an update of one row are one, when at most one of them hits. -/
theorem map_if_any {α β : Type} {f : α → α} {p : β → Bool} {x : β} {l : List β} {o : Option α}
    (hone : p x = true → l.any p = false) :
    (if p x = true then o.map f else o).map (fun a => if l.any p then f a else a) =
      o.map (fun a => if (x :: l).any p then f a else a) := by
  cases hp : p x with
  | false => simp only [hp, Bool.false_eq_true, if_false, List.any_cons, Bool.false_or]
  | true => simp only [hone hp, hp, if_true, Bool.false_eq_true, if_false, List.any_cons,
      Bool.true_or, Option.map_id']

/-- The rows of a key after all nodes of a list were settled: a node is
    settled once, since its key occurs once. -/
theorem cancelNodes_eq_ok {context : String} {l : List NodeInstance} {db db' : DB}
    (hnd : (l.map NodeInstance.key).Nodup) (h : l.foldlM (cancelNode context) db = .ok db') :
    ∃ nodes attempts, db' = { db with nodes := nodes, attempts := attempts } ∧
      (∀ k, nodes.get k = (db.nodes.get k).map (fun m =>
        if l.any (fun n => n.key = k && !n.state.isTerminal) then m.settle else m)) ∧
      (∀ k, attempts.get k = (db.attempts.get k).map (fun a =>
        if l.any (fun n => n.key = k.node && !n.state.isTerminal &&
          n.currentAttempt = some k.number) then a.cancel else a)) := by
  induction l generalizing db with
  | nil =>
      cases h
      exact ⟨db'.nodes, db'.attempts, rfl, by simp, by simp⟩
  | cons n l ih =>
      rw [List.map_cons, List.nodup_cons] at hnd
      simp only [List.foldlM_cons, bind_eq_ok] at h
      obtain ⟨db₁, hnode, hrest⟩ := h
      obtain ⟨nodes, attempts, rfl, hn, ha⟩ := cancelNode_eq_ok hnode
      obtain ⟨nodes', attempts', rfl, hn', ha'⟩ := ih hnd.2 hrest
      have hfresh : ∀ m ∈ l, m.key ≠ n.key := fun m hm he => hnd.1 (he ▸ List.mem_map_of_mem hm)
      refine ⟨nodes', attempts', rfl, fun k => ?_, fun k => ?_⟩
      · rw [hn' k, hn k, map_if_any]
        intro hk
        simp only [Bool.and_eq_true, decide_eq_true_eq] at hk
        simp only [List.any_eq_false]
        intro m hm
        simp [← hk.1, hfresh m hm]
      · rw [ha' k, ha k, map_if_any]
        intro hk
        simp only [Bool.and_eq_true, decide_eq_true_eq] at hk
        simp only [List.any_eq_false]
        intro m hm
        simp [← hk.1.1, hfresh m hm]

/-- The listed node of a key is its row. -/
theorem any_listNodes {env : Env} {workflowID : String} {db : DB} (p : NodeInstance → Bool)
    (k : NodeKey) :
    (listNodes env workflowID db).any (fun n => n.key = k && p n) =
      (db.nodes.get k).any (fun n => n.key.workflowID = workflowID && p n) := by
  rw [Bool.eq_iff_iff, List.any_eq_true, Option.any_eq_true]
  constructor
  · rintro ⟨n, hn, hp⟩
    obtain ⟨hget, hid⟩ := mem_listNodes.mp hn
    simp only [Bool.and_eq_true, decide_eq_true_eq] at hp
    exact ⟨n, hp.1 ▸ hget, by simp [hid, hp.2]⟩
  · rintro ⟨n, hget, hp⟩
    simp only [Bool.and_eq_true, decide_eq_true_eq] at hp
    have hkey := Table.key_of_get hget
    exact ⟨n, mem_listNodes.mpr ⟨hkey ▸ hget, hp.1⟩, by simp [hkey, hp.2]⟩

/-- A cancellation settles every node that is not terminal, with its current attempt. -/
theorem cancelWorkflowTx_eq_ok {env : Env} {amb : Ambient} {lease : LeaseRef} {w : Workflow}
    {actorID context : String} {db db' : DB} {r : Workflow}
    (hown : Owned db lease w.workflowID w) (hlive : w.state.isTerminal = false)
    (h : cancelWorkflowTx env amb db lease w actorID context = .ok (r, db')) :
    Advances db db' w .canceled ∧
      (∀ k, db'.nodes.get k = (db.nodes.get k).map (fun n =>
        if n.cancelable w.workflowID then n.settle else n)) ∧
      (∀ k, db'.attempts.get k = (db.attempts.get k).map (fun a =>
        if db.cancelsAttempt w.workflowID k then a.cancel else a)) ∧
      db'.timers = db.timers ∧ SlotStep env db db' ∧
      db' = { db with
        workflows := db'.workflows
        nodes := db'.nodes
        attempts := db'.attempts
        history := db'.history
        outbox := db'.outbox
        admissionSlots := db'.admissionSlots } := by
  simp only [cancelWorkflowTx, bind_eq_ok, pure_eq_ok, Prod.mk.injEq] at h
  obtain ⟨db₁, hfold, db₂, hslot, db₃, hhist, db₄, hout, -, rfl⟩ := h
  obtain ⟨nodes, attempts, rfl, hn, ha⟩ := cancelNodes_eq_ok (nodup_listNodes _ _ _) hfold
  obtain ⟨slots, rfl, hreleased⟩ := releaseAdmissionSlotTx_eq_ok hslot
  obtain ⟨⟨history, outbox, rfl⟩, hadv⟩ := Advances.of_tail hhist hout hown hlive rfl rfl rfl
    (by simp [resultReason])
  obtain ⟨row, hmoves, -⟩ := hadv.moves
  refine ⟨hadv, fun k => (hn k).trans ?_, fun k => (ha k).trans ?_, rfl, hmoves.slotStep hreleased,
    rfl⟩
  · rw [any_listNodes (fun n => !n.state.isTerminal)]
    cases hk : db.nodes.get k with
    | none => rfl
    | some n => rfl
  · simp only [Bool.and_assoc]
    rw [any_listNodes (fun n => !n.state.isTerminal && n.currentAttempt = some k.number)]
    simp only [DB.cancelsAttempt, NodeInstance.cancelable, Bool.and_assoc]

theorem cancelWorkflow_commit {env : Env} {amb : Ambient} {input : CancelWorkflowInput}
    {db db' : DB} {r : Workflow} (h : cancelWorkflow env amb input db = .ok (r, db')) :
    Commit env db (.cancelWorkflow input) db' := by
  simp only [cancelWorkflow, bind_eq_ok, rejectIf_eq_ok, exists_const] at h
  obtain ⟨-, w, hw, hlive, h⟩ := h
  obtain ⟨hown, -⟩ := lockOwnedWorkflow_eq_ok hw
  obtain ⟨hadv, hnodes, hattempts, htimers, hslots, hrest⟩ :=
    cancelWorkflowTx_eq_ok (hown.workflowID.symm ▸ hown) (by simpa using hlive) h
  exact .of_change (by rw [hrest]) (by rw [hrest])
    (by rw [hrest]) (by rw [hrest]; rfl) hslots
    (.of_eq (by rw [hrest])) (fenced_of_valid rfl hown.valid)
    (.canceled ⟨hadv, hnodes, hattempts, htimers⟩ hown.workflowID)

theorem applyCancellationRequest_commit {env : Env} {amb : Ambient} {lease : LeaseRef}
    {requestID actorID : String} {db db' : DB} {r : Workflow}
    (h : applyCancellationRequest env amb lease requestID actorID db = .ok (r, db')) :
    Commit env db (.applyCancellationRequest lease requestID actorID) db' := by
  simp only [applyCancellationRequest, bind_eq_ok, getOr_eq_ok, rejectIf_eq_ok, exists_const] at h
  obtain ⟨-, lease', hlock, id, hrequestID, request, hrequest, h⟩ := h
  have hvalid := (lockLease_eq_ok hlock).1
  split at h
  · simp only [bind_eq_ok, getOr_eq_ok, pure_eq_ok, Prod.mk.injEq] at h
    obtain ⟨w, -, -, rfl⟩ := h
    exact .refl db _ (fenced_of_valid rfl hvalid)
  · simp only [applyPendingRequest, bind_eq_ok, getOr_eq_ok, rejectIf_eq_ok, exists_const] at h
    obtain ⟨w, hw, hpart, h⟩ := h
    have hid : w.workflowID = request.workflowID := Table.key_of_get hw
    split at h
    · cases h
      exact .of_sameRows rfl rfl rfl rfl rfl (.of_eq rfl) (fenced_of_valid rfl hvalid)
        ⟨rfl, rfl, rfl, rfl, rfl, rfl⟩
    · split at h
      · cases h
        exact .of_sameRows rfl rfl rfl rfl rfl (.of_eq rfl) (fenced_of_valid rfl hvalid)
          ⟨rfl, rfl, rfl, rfl, rfl, rfl⟩
      · rename_i hlive
        simp only [bind_eq_ok, pure_eq_ok, Prod.mk.injEq] at h
        obtain ⟨⟨w', db₁⟩, htx, -, rfl⟩ := h
        have hown : Owned db lease w.workflowID w := ⟨hvalid, hid.symm ▸ hw, by simpa using hpart⟩
        obtain ⟨hadv, hnodes, hattempts, htimers, hslots, hrest⟩ :=
          cancelWorkflowTx_eq_ok hown (by simpa using hlive) htx
        have hslots' : SlotStep env db (db₁.applyRequest request.requestID .applied) :=
          ⟨hslots.kept, hslots.unchanged, hslots.ended, hslots.fresh, hslots.admitted, hslots.bounded⟩
        exact .of_change (by rw [hrest]; rfl) (by rw [hrest]; rfl) (by rw [hrest]; rfl)
          (by rw [hrest]; rfl) hslots' (.of_eq (by rw [hrest]; rfl)) (fenced_of_valid rfl hvalid)
          (.canceled ⟨hadv.congr _ rfl rfl rfl, hnodes, hattempts, htimers⟩
            ⟨id, request, hrequestID, hrequest, hid⟩)

-- ============================================================================
-- Graph advancement
-- ============================================================================

/-- The nodes `next` are created where they are missing; no other row changes. -/
structure Grows (workflowID : String) (next : List GraphNodeInput)
    (nodes nodes' : Table NodeInstance.key) : Prop where
  keep : ∀ k n, nodes.get k = some n → nodes'.get k = some n
  fresh : ∀ k n, nodes.get k = none → nodes'.get k = some n →
    n.isFresh ∧ (∃ item ∈ next, k = ⟨workflowID, item.nodeID, item.iteration⟩ ∧
      n.dependencies = item.dependencies) ∧ k.nodeID ≠ "" ∧ 0 ≤ k.iteration
  complete : ∀ item ∈ next, ∃ n, nodes'.get ⟨workflowID, item.nodeID, item.iteration⟩ = some n

theorem Grows.refl (workflowID : String) (nodes : Table NodeInstance.key) :
    Grows workflowID [] nodes nodes where
  keep _ _ h := h
  fresh k n hnone hsome := by rw [hnone] at hsome; cases hsome
  complete _ h := absurd h List.not_mem_nil

theorem Grows.cons {workflowID : String} {item : GraphNodeInput} {next : List GraphNodeInput}
    {nodes nodes₁ nodes' : Table NodeInstance.key} (h : Grows workflowID [item] nodes nodes₁)
    (h' : Grows workflowID next nodes₁ nodes') : Grows workflowID (item :: next) nodes nodes' where
  keep k n hn := h'.keep k n (h.keep k n hn)
  fresh k' n hnone hsome := by
    cases hmid : nodes₁.get k' with
    | none =>
        obtain ⟨hfresh, ⟨other, hmem, hother⟩, hid⟩ := h'.fresh k' n hmid hsome
        exact ⟨hfresh, ⟨other, List.mem_cons_of_mem _ hmem, hother⟩, hid⟩
    | some m =>
        obtain ⟨hfresh, ⟨other, hmem, hother⟩, hid⟩ := h.fresh k' m hnone hmid
        have hm : n = m := Option.some.inj (hsome.symm.trans (h'.keep k' m hmid))
        exact ⟨hm ▸ hfresh, ⟨other, List.mem_cons.mpr (.inl (List.mem_singleton.mp hmem)),
          hm ▸ hother⟩, hid⟩
  complete other hother := by
    rcases List.mem_cons.mp hother with rfl | hother
    · obtain ⟨n, hn⟩ := h.complete other (List.mem_singleton.mpr rfl)
      exact ⟨n, h'.keep _ n hn⟩
    · exact h'.complete other hother

theorem createNext_eq_ok {workflowID : String} {acc acc' : List NodeInstance × DB}
    {next : GraphNodeInput} (h : createNext workflowID acc next = .ok acc') :
    ∃ nodes policies, acc'.2 = { acc.2 with nodes := nodes, retryPolicies := policies } ∧
      PoliciesKept acc.2 acc'.2 ∧
      Grows workflowID [next] acc.2.nodes nodes := by
  simp only [createNext, bind_eq_ok, getOr_eq_ok, rejectIf_eq_ok, exists_const] at h
  obtain ⟨hargs, input, -, h⟩ := h
  split at h
  · rename_i nodes hins
    cases h
    obtain ⟨policies, hpol, hkept, -⟩ := ensureRetryPolicyTx_eq { acc.2 with nodes := nodes }
      ⟨workflowID, next.nodeID, next.iteration⟩
    refine ⟨nodes, policies, hpol, ⟨hkept.stored, hkept.read⟩, fun k n hn => ?_, fun k n hnone hsome => ?_,
      fun k hk => ?_⟩
    · exact Table.get_insert_of_get hins hn
    · rw [Table.get_insert hins] at hsome
      split at hsome
      · rename_i hk
        cases hsome
        exact ⟨⟨rfl, rfl, rfl, rfl, rfl⟩, ⟨next, List.mem_singleton.mpr rfl, hk, rfl⟩,
          hk ▸ fun he => hargs (.inl he), hk ▸ Int.not_lt.mp (fun hlt => hargs (.inr hlt))⟩
      · rw [hnone] at hsome
        cases hsome
    · rw [List.mem_singleton.mp hk]
      exact ⟨_, Table.get_insert_self hins⟩
  · rename_i hins
    cases h
    refine ⟨acc.2.nodes, acc.2.retryPolicies, rfl, .of_eq rfl, fun _ _ hn => hn,
      fun k n hnone hsome => ?_, fun k hk => ?_⟩
    · rw [hnone] at hsome
      cases hsome
    · rw [List.mem_singleton.mp hk]
      exact Table.get_of_insert?_none hins

theorem createNexts_eq_ok {workflowID : String} {l : List GraphNodeInput}
    {acc acc' : List NodeInstance × DB} (h : l.foldlM (createNext workflowID) acc = .ok acc') :
    ∃ nodes policies, acc'.2 = { acc.2 with nodes := nodes, retryPolicies := policies } ∧
      PoliciesKept acc.2 acc'.2 ∧
      Grows workflowID l acc.2.nodes nodes := by
  induction l generalizing acc with
  | nil =>
      cases h
      exact ⟨acc'.2.nodes, acc'.2.retryPolicies, rfl, .of_eq rfl, .refl _ _⟩
  | cons next l ih =>
      simp only [List.foldlM_cons, bind_eq_ok] at h
      obtain ⟨acc₁, hnext, hrest⟩ := h
      obtain ⟨nodes, policies, hacc₁, hkept, hgrows⟩ := createNext_eq_ok hnext
      obtain ⟨nodes', policies', hacc', hkept', hgrows'⟩ := ih hrest
      rw [hacc₁] at hacc' hgrows'
      exact ⟨nodes', policies', hacc', hkept.trans hkept', hgrows.cons hgrows'⟩

/-- A terminal advancement passed the check for live nodes. -/
theorem checkSettled_eq_ok {env : Env} {db : DB} {key : NodeKey} {final nodeState : WorkflowState}
    {n : NodeInstance} (hn : db.nodes.get key = some n)
    (h : checkSettled env db key final nodeState = .ok ()) (hterm : final.isTerminal = true) :
    nodeState.isTerminal = true ∧ db.liveSiblings key = [] := by
  simp only [checkSettled, hterm, if_true] at h
  split at h
  · cases h
  · rename_i hfind
    rw [List.find?_eq_none] at hfind
    have hkey := Table.key_of_get hn
    refine ⟨?_, List.filter_eq_nil_iff.mpr fun m hm => ?_⟩
    · simpa [blocksEnd, hkey] using hfind n (mem_listNodes.mpr ⟨hkey.symm ▸ hn, by rw [hkey]⟩)
    · simp only [Bool.and_eq_true, decide_eq_true_eq, ne_eq, decide_not, Bool.not_eq_true',
        decide_eq_false_iff_not, not_and, Bool.not_eq_true, and_imp]
      intro hid hne
      simpa [blocksEnd, hne] using hfind m (mem_listNodes.mpr ⟨Table.get_of_mem hm, hid⟩)

/-- A committed advancement, and the tables it leaves alone. -/
theorem advanceGraph_eq_ok {env : Env} {amb : Ambient} {input : AdvanceGraphInput} {db db' : DB}
    {r : AdvanceGraphResult} (h : advanceGraph env amb input db = .ok (r, db')) :
    (∃ w n definition graph source, Change.Advanced db input w n definition graph source db') ∧
      db.leaseValid input.lease ∧ SlotStep env db db' ∧ PoliciesKept db db' ∧
      db' = { db with
        workflows := db'.workflows
        nodes := db'.nodes
        retryPolicies := db'.retryPolicies
        history := db'.history
        outbox := db'.outbox
        admissionSlots := db'.admissionSlots } := by
  simp only [advanceGraph, bind_eq_ok, getOr_eq_ok, rejectIf_eq_ok, exists_const, pure_eq_ok,
    Prod.mk.injEq] at h
  obtain ⟨-, hgrowing, w, hw, hlive, hlegal, definition, hdef, graph, hgraph, source, hsource, n, hn, u,
    hready, u', hvalid, u'', hsettled, ⟨created, db₁⟩, hfold, db₂, hslot, db₃, hhist, db₄, hout, -,
    rfl⟩ := h
  obtain ⟨hown, -⟩ := lockOwnedWorkflow_eq_ok hw
  obtain ⟨nodes, policies, hdb₁, hkept, hgrows⟩ := createNexts_eq_ok hfold
  simp only at hdb₁ hslot hkept
  obtain ⟨slots, hdb₂, hreleased⟩ := releaseAdmissionSlotTx_eq_ok hslot
  obtain ⟨⟨history, outbox, hdb₄⟩, hadv⟩ := Advances.of_tail hhist hout hown (by simpa using hlive)
    (by rw [hdb₂, hdb₁]; rfl) (by rw [hdb₂, hdb₁]; rfl) (by rw [hdb₂, hdb₁]; rfl)
    (by simp [resultReason])
  have hnodes : db₄.nodes = nodes := by rw [hdb₄, hdb₂, hdb₁]; rfl
  have hmoved : ∀ k, (db.modifyNode input.key (fun n => { n with
      state := input.nodeState, revision := n.revision + 1 })).nodes.get k =
      if k = input.key then some { n with state := input.nodeState, revision := n.revision + 1 }
      else db.nodes.get k := by
    intro k
    rw [DB.get_modifyNode]
    split
    · rename_i hk
      rw [hk, hn]
      rfl
    · rfl
  have hslots : SlotStep env db db₄ := by
    obtain ⟨row, hmoves, -⟩ := hadv.moves
    refine hmoves.slotStep ?_
    rw [hdb₄, hdb₂, hown.workflowID]
    rw [hdb₁] at hreleased
    exact hreleased
  have hpolicies : PoliciesKept db db₄ :=
    (show PoliciesKept db db₁ from ⟨hkept.stored, hkept.read⟩).trans
      (.of_eq (by rw [hdb₄, hdb₂]; rfl))
  refine ⟨⟨w, n, definition, graph, source, ?_⟩, hown.valid, hslots, hpolicies,
    by rw [hdb₄, hdb₂, hdb₁]; rfl⟩
  refine ⟨hown.workflowID, by simpa using hlegal, hadv, hdef, ?_, ?_, hn,
    hready, hvalid, ?_, checkSettled_eq_ok hn hsettled, ?_, ?_, ?_, by rw [hdb₄, hdb₂, hdb₁]; rfl,
    by rw [hdb₄, hdb₂, hdb₁]; rfl⟩
  · cases hd : decodeDefinitionGraph definition.graph.doc with
    | error e => rw [hd] at hgraph; cases hgraph
    | ok g => rw [hd] at hgraph; cases hgraph; rfl
  · simpa only [DefinitionGraph.node, getOr_eq_ok] using hsource
  · intro hne
    by_contra hnext
    exact hgrowing ⟨hne, by simpa using hnext⟩
  · intro k
    rw [hnodes]
    by_cases hk : k = input.key
    · rw [if_pos hk]
      exact hgrows.keep k _ ((hmoved k).trans (if_pos hk))
    · rw [if_neg hk]
      cases hget : db.nodes.get k with
      | none => rfl
      | some m => exact hgrows.keep k m ((hmoved k).trans ((if_neg hk).trans hget))
  · intro k m hk hnone hsome
    rw [hnodes] at hsome
    obtain ⟨hfresh, hitem, hid⟩ := hgrows.fresh k m ((hmoved k).trans ((if_neg hk).trans hnone)) hsome
    exact ⟨hfresh, hitem, (Table.key_of_get hsome).symm ▸ hid⟩
  · rw [hnodes]
    exact List.forall_mem_map.mpr hgrows.complete

theorem advanceGraph_commit {env : Env} {amb : Ambient} {input : AdvanceGraphInput} {db db' : DB}
    {r : AdvanceGraphResult} (h : advanceGraph env amb input db = .ok (r, db')) :
    Commit env db (.advanceGraph input) db' := by
  obtain ⟨⟨w, n, definition, graph, source, c⟩, hvalid, hslots, hpolicies, hrest⟩ :=
    advanceGraph_eq_ok h
  exact .of_change (by rw [hrest]) (by rw [hrest])
    (by rw [hrest]) (by rw [hrest]; rfl) hslots (.kept hpolicies) (fenced_of_valid rfl hvalid)
    (.advanced c)

-- ============================================================================
-- Retry policies, checkpoints, approvals and wake-ups
-- ============================================================================

theorem setRetryPolicy_commit {input : RetryPolicyInput} {db db' : DB} {r : Unit}
    (h : setRetryPolicy input db = .ok (r, db')) : Commit env db (.setRetryPolicy input) db' := by
  simp only [setRetryPolicy, bind_eq_ok, getOr_eq_ok, rejectIf_eq_ok, exists_const] at h
  obtain ⟨hargs, w, hw, n, -, -, h⟩ := h
  simp only [not_or, Int.not_lt] at hargs
  obtain ⟨hown, -⟩ := lockOwnedWorkflow_eq_ok hw
  split at h
  · rename_i policies hins
    cases h
    have hread : db.retryPolicyOf input.key = ⟨input.key, defaultRetryBudget, 0, none, 1⟩ := by
      rw [DB.retryPolicyOf, (Table.insert?_eq_some_iff.mp hins).1]
      rfl
    refine .of_sameRows rfl rfl rfl rfl rfl (.set input ⟨hargs.2.2.2, ?_⟩ ⟨?_, ?_, ?_⟩)
      (fenced_of_valid rfl hown.valid) ⟨rfl, rfl, rfl, rfl, rfl, rfl⟩
    · rw [hread]
      exact hargs.2.2.2
    · rw [hread]
      exact Table.get_insert_self hins
    · exact fun k' old _ hold => Table.get_insert_of_get hins hold
    · intro k' hk
      rw [DB.retryPolicyOf, Table.get_insert_ne hins hk]
      rfl
  · rename_i hins
    simp only [bind_eq_ok, rejectIf_eq_ok, exists_const, pure_eq_ok, Prod.mk.injEq] at h
    obtain ⟨henough, -, rfl⟩ := h
    obtain ⟨policy, hget⟩ := Table.get_of_insert?_none hins
    have hpolicy : db.retryPolicyOf input.key = policy := by
      have hget' : db.retryPolicies.get input.key = some policy := hget
      rw [DB.retryPolicyOf, hget']
      rfl
    have hread : db.retryPolicies.get input.key = some (db.retryPolicyOf input.key) := by
      rw [hpolicy]
      exact hget
    let set (p : RetryPolicy) : RetryPolicy := { p with
      maxRetries := input.maxRetries
      totalDeadlineAt := input.totalDeadlineAt
      checkpointSchemaVersion :=
        if input.checkpointSchemaVersion ≤ 0 then 1 else input.checkpointSchemaVersion }
    have hset : set (db.retryPolicyOf input.key) =
        input.policy (db.retryPolicyOf input.key).retriesUsed := by
      simp only [set, RetryPolicyInput.policy, show (db.retryPolicyOf input.key).key = input.key from
        Table.key_of_get hread]
    refine .of_sameRows rfl rfl rfl rfl rfl (.set input ⟨hargs.2.2.2, ?_⟩
      (.of_modify (f := set) (fun _ => rfl) (.of_eq rfl) hread rfl hset))
      (fenced_of_valid rfl hown.valid) ⟨rfl, rfl, rfl, rfl, rfl, rfl⟩
    rw [hread] at henough
    simpa using henough

theorem appendCheckpoint_eq_ok {input : CheckpointInput} {payloadHash : String} {db : DB}
    {r : Checkpoint × DB} (h : appendCheckpoint input payloadHash db = .ok r) :
    ∃ checkpoints, r.2 = { db with checkpoints := checkpoints } := by
  unfold appendCheckpoint at h
  split at h
  · simp only [bind_eq_ok, getOr_eq_ok, rejectIf_eq_ok, exists_const, pure_eq_ok] at h
    obtain ⟨-, document, -, checkpoints, -, rfl⟩ := h
    exact ⟨checkpoints, rfl⟩
  · simp only [bind_eq_ok, rejectIf_eq_ok, exists_const] at h
    obtain ⟨-, h⟩ := h
    split at h
    · simp only [bind_eq_ok, rejectIf_eq_ok, exists_const, pure_eq_ok] at h
      obtain ⟨-, rfl⟩ := h
      exact ⟨db.checkpoints, rfl⟩
    · simp only [bind_eq_ok, getOr_eq_ok, pure_eq_ok] at h
      obtain ⟨document, -, checkpoints, -, rfl⟩ := h
      exact ⟨checkpoints, rfl⟩

theorem recordCheckpoint_commit {input : CheckpointInput} {db db' : DB} {r : Checkpoint}
    (h : recordCheckpoint input db = .ok (r, db')) : Commit env db (.recordCheckpoint input) db' := by
  simp only [recordCheckpoint, bind_eq_ok, getOr_eq_ok, rejectIf_eq_ok, exists_const] at h
  obtain ⟨-, -, hash, -, w, -, -, n, -, -, token, -, a, -, -, ⟨policy, db₁⟩, hpol, -, happend⟩ := h
  obtain ⟨-, policies, hdb₁, hkept, -⟩ := retryPolicyTx_eq_ok hpol
  obtain ⟨checkpoints, hdb'⟩ := appendCheckpoint_eq_ok happend
  simp only at hdb₁ hdb' hkept
  subst hdb₁ hdb'
  exact .of_sameRows rfl rfl rfl rfl rfl (.kept (hkept.trans (.of_eq rfl))) (fenced_of_none rfl)
    ⟨rfl, rfl, rfl, rfl, rfl, rfl⟩

theorem createApprovalIntent_commit {env : Env} {amb : Ambient} {input : ApprovalIntentInput}
    {db db' : DB} {r : ApprovalIntent} (h : createApprovalIntent env amb input db = .ok (r, db')) :
    Commit env db (.createApprovalIntent input) db' := by
  simp only [createApprovalIntent, bind_eq_ok, getOr_eq_ok, rejectIf_eq_ok, exists_const] at h
  obtain ⟨-, hash, -, w, hw, -, n, hn, hready, h⟩ := h
  obtain ⟨hown, -⟩ := lockApprovalWorkflow_eq_ok hw
  split at h
  · simp only [bind_eq_ok, rejectIf_eq_ok, exists_const, pure_eq_ok, Prod.mk.injEq] at h
    obtain ⟨-, -, rfl⟩ := h
    exact .refl db _ (fenced_of_valid rfl hown.valid)
  · simp only [insertIntent, bind_eq_ok, getOr_eq_ok] at h
    obtain ⟨arguments, -, intents, -, h⟩ := h
    split at h
    · rename_i hrunnable
      simp only [bind_eq_ok, pure_eq_ok, Prod.mk.injEq] at h
      obtain ⟨db₁, hhist, db₂, hout, -, rfl⟩ := h
      obtain ⟨⟨history, outbox, rfl⟩, hadv⟩ := Advances.of_tail hhist hout hown
        (by rw [hrunnable]; rfl) rfl rfl rfl (by simp [resultReason])
      have hready' : n.state = .runnable ∨ n.state = .waitingApproval := by
        by_contra hno
        exact hready (not_or.mp hno)
      exact .of_change rfl rfl rfl rfl (hadv.slotStep rfl rfl) (.of_eq rfl)
        (fenced_of_valid rfl hown.valid) (.approvalRequested ⟨hown.workflowID, hrunnable, hadv, hn, hready', rfl, rfl, rfl⟩)
    · simp only [pure_eq_ok, Prod.mk.injEq] at h
      obtain ⟨-, rfl⟩ := h
      exact .of_sameRows rfl rfl rfl rfl rfl (.of_eq rfl) (fenced_of_valid rfl hown.valid)
        ⟨rfl, rfl, rfl, rfl, rfl, rfl⟩

theorem recordApprovalDecision_commit {amb : Ambient} {input : ApprovalDecisionInput} {db db' : DB}
    {r : ApprovalIntent} (h : recordApprovalDecision amb input db = .ok (r, db')) :
    Commit env db (.recordApprovalDecision input) db' := by
  simp only [recordApprovalDecision, bind_eq_ok, getOr_eq_ok, rejectIf_eq_ok, exists_const] at h
  obtain ⟨-, id, -, intent, -, -, h⟩ := h
  split at h
  · simp only [bind_eq_ok, rejectIf_eq_ok, exists_const, pure_eq_ok, Prod.mk.injEq] at h
    obtain ⟨-, -, rfl⟩ := h
    exact .refl db _ (fenced_of_none rfl)
  · simp only [bind_eq_ok, rejectIf_eq_ok, exists_const, pure_eq_ok, Prod.mk.injEq] at h
    obtain ⟨-, -, rfl⟩ := h
    exact .of_sameRows rfl rfl rfl rfl rfl (.of_eq rfl) (fenced_of_none rfl)
      ⟨rfl, rfl, rfl, rfl, rfl, rfl⟩

theorem applyApproval_commit {env : Env} {amb : Ambient} {input : ApplyApprovalInput} {db db' : DB}
    {r : ApprovalGrant} (h : applyApproval env amb input db = .ok (r, db')) :
    Commit env db (.applyApproval input) db' := by
  simp only [applyApproval, bind_eq_ok, getOr_eq_ok, rejectIf_eq_ok, exists_const,
    Option.filter_eq_some_iff] at h
  obtain ⟨-, w, hw, hstate, id, hid, intent, ⟨hintent, -⟩, -, -, h⟩ := h
  obtain ⟨hown, -⟩ := lockApprovalWorkflow_eq_ok hw
  have hwaiting : w.state = .waitingApproval := by simpa using hstate
  have hlive : w.state.isTerminal = false := by rw [hwaiting]; rfl
  split at h
  · rename_i hrejected
    simp only [rejectApproval, bind_eq_ok, pure_eq_ok, Prod.mk.injEq] at h
    obtain ⟨db₁, hslot, db₂, hhist, db₃, hout, -, rfl⟩ := h
    obtain ⟨slots, rfl, hreleased⟩ := releaseAdmissionSlotTx_eq_ok hslot
    obtain ⟨⟨history, outbox, rfl⟩, hadv⟩ := Advances.of_tail hhist hout hown hlive rfl rfl rfl
      (by simp [resultReason])
    obtain ⟨row, hmoves, -⟩ := hadv.moves
    exact .of_change rfl rfl rfl rfl (hmoves.slotStep (by rw [hown.workflowID]; exact hreleased))
      (.of_eq rfl) (fenced_of_valid rfl hown.valid)
      (.approvalRejected ⟨hid, hintent, hrejected, hown.workflowID, hwaiting, hadv, rfl, rfl, rfl⟩)
  · simp only [grantApproval, bind_eq_ok, rejectIf_eq_ok, exists_const, pure_eq_ok,
      Prod.mk.injEq] at h
    obtain ⟨-, -, db₁, hhist, db₂, hout, -, rfl⟩ := h
    obtain ⟨⟨history, outbox, rfl⟩, hadv⟩ := Advances.of_tail hhist hout hown hlive rfl rfl rfl
      (by simp [resultReason])
    exact .of_change rfl rfl rfl rfl (hadv.slotStep rfl rfl) (.of_eq rfl)
      (fenced_of_valid rfl hown.valid) (.approvalGranted ⟨hown.workflowID, hwaiting, hadv, rfl, rfl, rfl⟩)

theorem requestCancellation_commit {amb : Ambient} {input : CancellationRequestInput} {db db' : DB}
    {r : CancellationRequest} (h : requestCancellation amb input db = .ok (r, db')) :
    Commit env db (.requestCancellation input) db' := by
  simp only [requestCancellation, bind_eq_ok, rejectIf_eq_ok, exists_const] at h
  obtain ⟨-, -, h⟩ := h
  split at h
  · cases h
    exact .refl db _ (fenced_of_none rfl)
  · simp only [bind_eq_ok, getOr_eq_ok, pure_eq_ok, Prod.mk.injEq] at h
    obtain ⟨cancellations, -, -, rfl⟩ := h
    exact .of_sameRows rfl rfl rfl rfl rfl (.of_eq rfl) (fenced_of_none rfl)
      ⟨rfl, rfl, rfl, rfl, rfl, rfl⟩

theorem acknowledgeWorkflowWakeups_commit {lease : LeaseRef} {workflowID : String} {revision : Int}
    {db db' : DB} {r : Unit}
    (h : acknowledgeWorkflowWakeups lease workflowID revision db = .ok (r, db')) :
    Commit env db (.acknowledgeWorkflowWakeups lease workflowID revision) db' := by
  simp only [acknowledgeWorkflowWakeups, bind_eq_ok, pure_eq_ok, Prod.mk.injEq] at h
  obtain ⟨lease', hlock, -, rfl⟩ := h
  exact .of_sameRows rfl rfl rfl rfl rfl (.of_eq rfl) (fenced_of_valid rfl (lockLease_eq_ok hlock).1)
    ⟨rfl, rfl, rfl, rfl, rfl, rfl⟩

-- ============================================================================
-- Every operation
-- ============================================================================

theorem query_eq_ok {α : Type} {f : DB → Except Err α} {db db' : DB} {a : α}
    (h : query f db = .ok (a, db')) : f db = .ok a ∧ db' = db := by
  simp only [query, bind_eq_ok, pure_eq_ok, Prod.mk.injEq] at h
  obtain ⟨a', ha, rfl, rfl⟩ := h
  exact ⟨ha, rfl⟩

/-- A query commits nothing. -/
theorem query_commit {α : Type} {op : Op α} {f : DB → Except Err α} {db db' : DB} {a : α}
    (hlease : op.leaseRef = none) (h : query f db = .ok (a, db')) : Commit env db op db' := by
  rw [(query_eq_ok h).2]
  exact .refl db op (fenced_of_none hlease)

/-- What a committed operation does. -/
theorem Op.run_commit {env : Env} {amb : Ambient} {α : Type} {op : Op α} {db db' : DB} {a : α}
    (h : op.run env amb db = .ok (a, db')) : Commit env db op db' := by
  cases op with
  | createDefinition input => exact createDefinition_commit h
  | getDefinition id version => exact query_commit rfl h
  | createWorkflow input => exact createWorkflow_commit h
  | getWorkflow id => exact query_commit rfl h
  | acquireLease p owner ttl => exact acquireLease_commit h
  | renewLease ref ttl => exact renewLease_commit h
  | releaseLease ref => exact releaseLease_commit h
  | applyOwnerTransition input => exact applyOwnerTransition_commit h
  | consumeResult input => exact consumeResult_commit h
  | createAttempt input => exact createAttempt_commit h
  | getAttempt key => exact query_commit rfl h
  | claimAttempt input => exact claimAttempt_commit h
  | heartbeatAttempt input => exact heartbeatAttempt_commit h
  | recordResultReceipt input => exact recordResultReceipt_commit h
  | recordLateEvidence input => exact recordLateEvidence_commit h
  | timeoutAttempt input => exact timeoutAttempt_commit h
  | listNodes id =>
      exact query_commit (f := fun db => .ok (State.listNodes env id db)) rfl h
  | getNode key => exact query_commit rfl h
  | pendingTimer key =>
      exact query_commit (f := fun db => .ok (db.pendingTimer key)) rfl h
  | databaseTime =>
      exact query_commit (f := fun db => .ok db.now) rfl h
  | scheduleTimer input => exact scheduleTimer_commit h
  | cancelWorkflow input => exact cancelWorkflow_commit h
  | advanceGraph input => exact advanceGraph_commit h
  | setRetryPolicy input => exact setRetryPolicy_commit h
  | recordCheckpoint input => exact recordCheckpoint_commit h
  | getLatestCheckpoint key =>
      exact query_commit (f := fun db => getOr (db.latestCheckpoint key) (.noRows "")) rfl h
  | createApprovalIntent input => exact createApprovalIntent_commit h
  | recordApprovalDecision input => exact recordApprovalDecision_commit h
  | applyApproval input => exact applyApproval_commit h
  | requestCancellation input => exact requestCancellation_commit h
  | applyCancellationRequest lease requestID actorID => exact applyCancellationRequest_commit h
  | pendingCancellations id =>
      exact query_commit (f := fun db => .ok (State.pendingCancellations id db)) rfl h
  | acknowledgeWorkflowWakeups lease id revision => exact acknowledgeWorkflowWakeups_commit h

end DurableEngine.State
