/-
  DurableEngine.Engine.Routing

  The successor that the result of an activity selects, in both activity
  modes.

  In process, `executeAttempt` checks the choice in the payload before it
  records the result, and records a final failure if the choice is not
  declared.  The worker API records any document as a success.  The choice is
  read again from the stored document, in `recoverSucceeded`, and there an
  undeclared one is an error of the pass, and one that exists is left alone.
-/

import DurableEngine.Engine.Consumption
import DurableEngine.Engine.Repeats
import DurableEngine.Engine.Revisits

namespace DurableEngine

open Lib State

namespace State

-- ============================================================================
-- AdvanceGraph
-- ============================================================================

theorem jsonbOK_member {ms : List (String × Json)} (h : Json.jsonbOK (.obj ms) = true) {m : String × Json}
    (hm : m ∈ ms) : Json.jsonbOK m.2 = true :=
  (JsonTree.allMembers_iff.mp h m hm).2

/-- The event of an advancement to one successor is a document. -/
theorem advancedPayload_of_one {input : AdvanceGraphInput} {id : String} {iteration : Int} {j : Jsonb}
    (hnext : input.next = [⟨id, iteration, [], .json j.doc⟩]) (hid : Json.textOK id = true)
    (hfrom : Json.textOK input.fromNodeID = true) (hworkflow : Json.textOK input.workflowID = true) :
    ∃ document, advancedPayload input = some document := by
  have hitem : Json.jsonbOK (.obj [("NodeID", .str id), ("Iteration", .num (.ofInt64 iteration)),
      ("Dependencies", .null), ("Input", j.doc)]) = true := by
    refine JsonTree.allMembers_iff.mpr ?_
    simp only [List.forall_mem_cons, List.not_mem_nil, false_imp_iff, implies_true, and_true]
    exact ⟨⟨by decide, hid⟩, ⟨by decide, JsonNumber.numericOK_ofInt64 _⟩, ⟨by decide, rfl⟩, by decide, j.ok⟩
  have hdocument : Json.jsonbOK (.obj [("from_node_id", .str input.fromNodeID), ("next", .arr [.obj
      [("NodeID", .str id), ("Iteration", .num (.ofInt64 iteration)), ("Dependencies", .null),
        ("Input", j.doc)]]), ("workflow_id", .str input.workflowID)]) = true := by
    refine JsonTree.allMembers_iff.mpr ?_
    simp only [List.forall_mem_cons, List.not_mem_nil, false_imp_iff, implies_true, and_true]
    exact ⟨⟨by decide, hfrom⟩, ⟨by decide, by simpa [Json.jsonbOK, JsonTree.all, JsonTree.allList] using hitem⟩,
      by decide, hworkflow⟩
  exact ⟨_, by simp only [advancedPayload, hnext]; exact Jsonb.ofJson?_of_ok hdocument⟩

/-- The owner of a workflow advances a node that is ready to one successor, which it may go on to. -/
theorem advanceGraph_succeeds {env : Env} {amb : Ambient} {input : AdvanceGraphInput} {db : DB} {w : Workflow}
    {n : NodeInstance} {definition : Definition} {graph : DefinitionGraph} {source : DefinitionGraphNode}
    {id : String} {iteration : Int} {j : Jsonb} (howned : Owned db input.lease input.workflowID w)
    (hrevision : w.revision = input.expectedRevision) (hactor : input.actorID ≠ "")
    (hlegal : w.state.legalTransition .runnable = true)
    (hdef : db.definitions.get ⟨w.definitionID, w.definitionVersion⟩ = some definition)
    (hgraph : decodeDefinitionGraph definition.graph.doc = .ok graph)
    (hsource : graph.node input.fromNodeID = .ok source) (hn : db.nodes.get input.key = some n)
    (hready : checkSource source n = .ok ())
    (hvalid : validateGraphSuccessors graph source input.iteration input.next = .ok ())
    (hnext : input.next = [⟨id, iteration, [], .json j.doc⟩]) (hid : id ≠ "" ∧ Json.textOK id = true)
    (hiteration : 0 ≤ iteration) (hstate : input.finalWorkflowState = none)
    (hp : Provides env amb db w input.key) :
    Succeeds (fun _ => True) (advanceGraph env amb input db) := by
  have hwid := howned.workflowID
  have hrunnable : input.workflowState = .runnable := by
    simp [AdvanceGraphInput.workflowState, hstate, hnext]
  have hlive := WorkflowState.isTerminal_of_legalTransition hlegal
  obtain ⟨⟨created, db₁⟩, hcreated⟩ : ∃ acc, createNext input.workflowID
      ([], db.modifyNode input.key (fun n => { n with state := input.nodeState, revision := n.revision + 1 }))
      ⟨id, iteration, [], .json j.doc⟩ = .ok acc := by
    have hdoc : (RawMessage.json j.doc).orEmptyObject.toJsonb = some j := Jsonb.ofJson?_doc j
    have hargs : ¬ (id = "" ∨ iteration < 0) := by
      rintro (he | hlt)
      · exact hid.1 he
      · omega
    simp only [createNext, rejectIf_of_not _ hargs, hdoc, getOr_some, ok_bind]
    split
    · exact ⟨_, rfl⟩
    · exact ⟨_, rfl⟩
  obtain ⟨nodes, policies, rfl, -, -⟩ := createNext_eq_ok hcreated
  unfold advanceGraph
  refine .unless ?_ (.unless (by simp [hrunnable]) ?_)
  · rw [← hwid]
    simp only [not_or]
    exact ⟨hp.workflow.1, hp.node.1, hactor⟩
  rw [← hrevision, lockOwnedWorkflow_of_owned howned]
  refine .unless (by simp [hlive]) (.unless (by simp [hrunnable, hlegal]) (.found hdef ?_))
  simp only [hgraph, Except.mapError, ok_bind, hsource, hn, getOr_some, hready, hvalid, hrunnable, checkSettled]
  rw [if_neg (by decide)]
  simp only [ok_bind, hnext, List.foldlM_cons, List.foldlM_nil, hcreated]
  rw [pure_bind]
  refine .bind (releaseAdmissionSlotTx_succeeds ?_) ?_
  · rw [← hwid]
    exact hp.slot
  rintro db₂ ⟨slots, rfl⟩
  refine .bind (insertHistory_succeeds hactor (by rw [← hwid]; exact hp.history)) ?_
  rintro db₃ ⟨history, rfl⟩
  obtain ⟨document, hdocument⟩ := advancedPayload_of_one hnext hid.2 (textOK_of_quotable hp.node.2)
    (by rw [← hwid]; exact textOK_of_quotable hp.workflow.2)
  refine .bind (insertOutbox_succeeds rfl hdocument hp.fresh.event) ?_
  rintro db₄ ⟨outbox, rfl⟩
  exact .ok trivial

end State

namespace Engine

-- ============================================================================
-- The choice in a document
-- ============================================================================

section Choice

variable (e : Engine) {raw : Json} {graph : Graph} {stored : DefinitionGraph} {n : NodeInstance}
  {d : Node} {j : Jsonb}

/-- What the recovery of an activity with several successors makes of its stored result. -/
theorem recoverBuilds_choice_iff (h : Accepted raw graph stored)
    (hd : graph.find n.key.nodeID = some d) (hkind : d.kind = "activity") (hmany : 1 < d.next.length)
    (hacc : n.acceptedResult = some j) (next : List GraphNodeInput) :
    recoverBuilds n d graph = .ok next ↔ ∃ id ∈ d.next, branchChoice j.doc = some id ∧
      next = [⟨id, n.key.iteration, [], .json j.doc⟩] := by
  rw [recoverBuilds, if_pos hkind, hacc]
  constructor
  · intro hbuilt
    obtain ⟨ids, hselect, rfl, hall⟩ := nextInputsForResult_ok hbuilt
    rw [selectNext, if_pos hmany, Option.bind_some] at hselect
    split at hselect
    · rename_i id hid
      split at hselect
      · cases hselect
      · cases hselect
        refine ⟨id, ?_, hid, rfl⟩
        refine ((hall id List.mem_cons_self).2).resolve_left (fun hnil => ?_)
        rw [hnil] at hmany
        cases hmany
    · cases hselect
  · rintro ⟨id, hin, hid, rfl⟩
    have hne : id ≠ "" := by
      rintro rfl
      exact (h.named hd).2 hin
    obtain ⟨m, hm⟩ := h.declared hd (by simp [hin]) hne
    simp [nextInputsForResult, selectNext, hmany, hid, hne, hm, hin, rejectIf, rawOf]

/-- The string that several values leave in a field is one of them. -/
theorem mem_of_storeString {vs : List Json} {old id : String} (h : vs.foldlM storeString old = some id) :
    id = old ∨ .str id ∈ vs := by
  induction vs generalizing old with
  | nil =>
      cases h
      exact .inl rfl
  | cons v vs ih =>
      rw [List.foldlM_cons, Option.bind_eq_bind, Option.bind_eq_some_iff] at h
      obtain ⟨mid, hmid, h⟩ := h
      rcases ih h with rfl | hin
      · cases v with
        | str t =>
            cases hmid
            exact .inr List.mem_cons_self
        | null =>
            cases hmid
            exact .inl rfl
        | bool b => cases hmid
        | num x => cases hmid
        | arr xs => cases hmid
        | obj ms => cases hmid
      · exact .inr (List.mem_cons_of_mem _ hin)

/-- A choice in a stored document has no NUL. -/
theorem textOK_of_branchChoice {id : String} (h : branchChoice j.doc = some id) (hne : id ≠ "") :
    Json.textOK id = true := by
  unfold branchChoice at h
  split at h
  · obtain ⟨ms, hms, hid⟩ := Option.bind_eq_some_iff.mp h
    rcases mem_of_storeString hid with rfl | hin
    · exact absurd rfl hne
    · obtain ⟨m, hm, heq⟩ := List.mem_map.mp hin
      have hmember := (List.mem_filter.mp hm).1
      have hok := j.ok
      cases hdoc : j.doc with
      | obj ms' =>
          rw [hdoc] at hms hok
          cases hms
          have hm2 := jsonbOK_member hok hmember
          rw [heq] at hm2
          exact hm2
      | null =>
          rw [hdoc] at hms
          cases hms
          cases hmember
      | str t => rw [hdoc] at hms; cases hms
      | bool b => rw [hdoc] at hms; cases hms
      | num x => rw [hdoc] at hms; cases hms
      | arr xs => rw [hdoc] at hms; cases hms
  · cases h

/-- A success that a driver returns is recorded as one exactly if it names a declared successor. -/
theorem driverOutcome_choice_iff (h : Accepted raw graph stored)
    (hd : graph.find n.key.nodeID = some d) (hmany : 1 < d.next.length) (p : Json)
    (retryAfter : Int) :
    (e.driverOutcome d (.ok ⟨some .succeeded, .json p, retryAfter⟩)).1 = .succeeded ↔
      ∃ id ∈ d.next, branchChoice p = some id := by
  have hvalid : validateActivityResult d (.json p) = .ok () ↔
      ∃ id ∈ d.next, branchChoice p = some id := by
    rw [validateActivityResult, if_neg (by omega)]
    cases hchoice : branchChoice p with
    | none => simp
    | some id =>
        have hnamed := (h.named hd).2
        simp only [rejectIf_eq_ok, Option.some.injEq]
        constructor
        · intro hok
          exact ⟨id, by tauto, rfl⟩
        · rintro ⟨_, hin, rfl⟩
          rintro (rfl | hout)
          · exact hnamed hin
          · exact hout hin
  rw [← hvalid, driverOutcome]
  simp only [Option.getD_some, RawMessage.orEmptyObject]
  cases hcheck : validateActivityResult d (.json p) with
  | error message => simp
  | ok u => simp

end Choice

-- ============================================================================
-- Results that were delivered
-- ============================================================================

/-- An activity with several successors has succeeded with the result `p`, a valid payload that was
    recorded as the document `j`. -/
structure Delivered (db : DB) (w : Workflow) (graph : Graph) (n : NodeInstance) (d : Node) (p : Json)
    (j : Jsonb) : Prop where
  stored : db.nodes.get n.key = some n
  owner : n.key.workflowID = w.workflowID
  graphOf : GraphOf db w.workflowID graph
  declared : graph.find n.key.nodeID = some d
  activity : d.kind = "activity"
  several : 1 < d.next.length
  succeeded : n.state = .succeeded
  recorded : ∃ m a, db.attempts.get ⟨n.key, m⟩ = some a ∧ a.state = .succeeded ∧ a.result = some j
  valid : (RawMessage.json p).valid = true
  document : Jsonb.ofJson? p = some j

section Delivered

variable {env : Env} {C : ∀ α : Type, Op α → DB → Prop} {db : DB} {w : Workflow} {graph : Graph}
  {n : NodeInstance} {d : Node} {p : Json} {j : Jsonb}

/-- The node has accepted the recorded result. -/
theorem Delivered.accepted (h : Delivered db w graph n d p j)
    (hreach : State.ReachableIf env (Sys.Both C) db) : n.acceptedResult = some j := by
  obtain ⟨graph', d', hgraph', hd', -, hback⟩ := (reachable_origin hreach h.stored).succeeded h.succeeded
  rw [h.owner] at hgraph'
  cases h.graphOf.unique hgraph'
  cases h.declared.symm.trans hd'
  obtain ⟨m, a, r, ha, -, hs, hr, hacc⟩ := hback h.activity
  obtain ⟨m', a', ha', hs', hr'⟩ := h.recorded
  -- a node has one attempt that succeeded
  have hlast := (reachable_successLast hreach n.key).last
  have hm : m = m' := by
    rcases Int.lt_trichotomy m m' with hlt | heq | hgt
    · exact absurd hs (hlast m m' a a' ha ha' hlt)
    · exact heq
    · exact absurd hs' (hlast m' m a' a ha' ha hgt)
  subst hm
  cases ha.symm.trans ha'
  cases hr.symm.trans hr'
  exact hacc

/-- The advancements that a run commits for the node are those that its result selects. -/
theorem Delivered.advances {trace : List Committed} {db' : DB} (h : Delivered db w graph n d p j)
    (hreach : State.ReachableIf env (Sys.Both C) db) (hrun : Trace env (Sys.Both C) db trace db')
    {input : AdvanceGraphInput} (hin : (⟨_, .advanceGraph input⟩ : Committed) ∈ trace)
    (hkey : input.key = n.key) : recoverBuilds n d graph = .ok input.next := by
  induction hrun with
  | refl => cases hin
  | tick _ _ ih => exact ih hin
  | commit hrun amb op a hop hmeets ih =>
      rcases List.mem_append.mp hin with hin | hin
      · exact ih hin
      · cases List.mem_singleton.mp hin
        obtain ⟨n₁, hn₁, hkept⟩ := hrun.kept hreach h.stored (by rw [h.succeeded]; rfl)
        have hgraph := h.graphOf.later (Later.of_steps (hrun.steps.lift id (fun _ _ => StepIf.step)))
        have hid : input.workflowID = w.workflowID := (congrArg NodeKey.workflowID hkey).trans h.owner
        have hname : input.fromNodeID = n.key.nodeID := congrArg NodeKey.nodeID hkey
        cases hmeets.1 with
        | activity g node m graphOf declared kind stored next missing final =>
            rw [hid] at graphOf
            cases hgraph.unique graphOf
            rw [hname] at declared
            cases h.declared.symm.trans declared
            rw [hkey] at stored
            cases hn₁.symm.trans stored
            rw [hkey, hkept.accepted] at next
            rw [recoverBuilds, if_pos h.activity]
            exact next
        | control g node m graphOf declared kind =>
            rw [hid] at graphOf
            cases hgraph.unique graphOf
            rw [hname] at declared
            cases h.declared.symm.trans declared
            exact absurd h.activity kind

end Delivered

-- ============================================================================
-- The two modes
-- ============================================================================

/-- What becomes of the result of an activity: it creates one successor, it fails the workflow,
    or its node stays where it is. -/
inductive Fate where
  | successor (id : String)
  | failed
  | stranded

section Modes

variable (e : Engine) (lease : LeaseRef) (s : Sys) (w : Workflow) (graph : Graph) (n : NodeInstance)
  (d : Node)

/-- The outcome of a program that nobody interferes with, and the database it leaves; `amb i`
    surrounds its `i`-th call. -/
def undisturbed {α : Type} (env : Env) (amb : Nat → Ambient) (p : EngineM α) (db : DB) : Except Err α × DB :=
  let ended := p.run.eval (fun i _ => Call.exec env (amb i)) 0 db
  (ended.1, ended.2.2)

/-- The owner of the workflow has read it, in a state in which it can go on. -/
structure GoesOn (db : DB) (w : Workflow) (lease : LeaseRef) : Prop where
  owned : Owned db lease w.workflowID w
  legal : w.state.legalTransition .runnable = true

/-- The instance of a successor of the node. -/
def instanceOf (n : NodeInstance) (id : String) : NodeKey := ⟨n.key.workflowID, id, n.key.iteration⟩

/-- The step creates the instance of the successor and no other. -/
structure CreatesOnly (db db' : DB) (n : NodeInstance) (id : String) : Prop where
  absent : db.nodes.get (instanceOf n id) = none
  created : ∃ m, db'.nodes.get (instanceOf n id) = some m ∧ m.state = .runnable
  others : ∀ k, k ≠ n.key → k ≠ instanceOf n id → db'.nodes.get k = db.nodes.get k

/-- The result leads to the successor.  The visit of a pass that nobody disturbs creates it and no
    other.  Whatever the other parties do, a visit that does not fail leaves it in place, and every
    advancement of the node that a run commits is one to it. -/
structure LeadsTo (amb : Nat → Ambient) (id : String) : Prop where
  progress : (undisturbed e.env amb (e.recoverSucceeded w n d graph lease) s.db).1 = .ok true
  creates : CreatesOnly s.db (undisturbed e.env amb (e.recoverSucceeded w n d graph lease) s.db).2 n id
  visits : ∀ b db', Prog.Ends (reading e.env) (e.recoverSucceeded w n d graph lease).run s.db (.ok b) db' →
    ∃ m, db'.nodes.get (instanceOf n id) = some m
  commits : ∀ trace t input, Sys.Run e.env Sys.Any s trace t →
    (⟨_, .advanceGraph input⟩ : Committed) ∈ trace → input.key = n.key →
    input.next = [⟨id, n.key.iteration, [], rawOf n.acceptedResult⟩]

/-- Every pass that comes to the node fails. -/
def FailsAlways : Prop :=
  ∀ db r db', Prog.Ends (reading e.env) (e.recoverSucceeded w n d graph lease).run db r db' →
    ∃ err, r = .error err

/-- What later passes make of a result that was recorded as a success. -/
inductive Recovered (amb : Nat → Ambient) : Fate → Prop where
  | successor (id : String) (leads : LeadsTo e lease s w graph n d amb id) : Recovered amb (.successor id)
  | stranded (fails : FailsAlways e lease w graph n d) : Recovered amb .stranded

/-- A worker returns the result, and it is consumed as it was recorded. -/
inductive External (amb : Nat → Ambient) : Fate → Prop where
  | failed (attemptNumber : Int) (consumed : (e.consumeInput w n.key attemptNumber .succeeded
      e.retryBackoff lease).newWorkflowState = .failed) : External amb .failed
  | recovered (fate : Fate) (later : Recovered e lease s w graph n d amb fate) : External amb fate

/-- The driver of the pass returns the result `p`, which is consumed as it was recorded. -/
inductive InProcess (amb : Nat → Ambient) (p : Json) : Fate → Prop where
  | failed (attemptNumber retryAfter : Int) (consumed : (e.consumeInput w n.key attemptNumber
      (e.driverOutcome d (.ok ⟨some .succeeded, .json p, retryAfter⟩)).1 retryAfter lease).newWorkflowState =
        .failed) : InProcess amb p .failed
  | recovered (retryAfter : Int) (fate : Fate)
      (outcome : (e.driverOutcome d (.ok ⟨some .succeeded, .json p, retryAfter⟩)).1 = .succeeded)
      (later : Recovered e lease s w graph n d amb fate) : InProcess amb p fate

/-- Both modes create the declared successor that the stored result names, or both fail the workflow. -/
def RoutingAgrees (amb : Nat → Ambient) (p : Json) : Prop :=
  ∃ fate, InProcess e lease s w graph n d amb p fate ∧ External e lease s w graph n d amb fate ∧
    (fate = .failed ∨ ∃ id ∈ d.next, n.acceptedResult.bind (fun j => branchChoice j.doc) = some id ∧
      fate = .successor id)

end Modes

section Agreement

variable {e : Engine} {lease : LeaseRef} {s : Sys} {w : Workflow} {graph : Graph} {n : NodeInstance}
  {d : Node} {p : Json} {j : Jsonb} {amb : Nat → Ambient} {next : List GraphNodeInput}

theorem undisturbed_recoverSucceeded (hbuilt : recoverBuilds n d graph = .ok next) (hne : next ≠ []) (db : DB) :
    undisturbed e.env amb (e.recoverSucceeded w n d graph lease) db =
      if successorMissing (listNodes e.env w.workflowID db) next = true then
        (((Op.advanceGraph (e.advanceInput w n.key lease next)).exec e.env (amb 1) db).1.map (fun _ => true),
          ((Op.advanceGraph (e.advanceInput w n.key lease next)).exec e.env (amb 1) db).2)
      else (.ok false, db) := by
  have hlisted : (Op.listNodes w.workflowID).exec e.env (amb 0) db =
      (.ok (listNodes e.env w.workflowID db), db) := rfl
  rw [recoverSucceeded_eq e lease hbuilt]
  unfold undisturbed
  simp only [store, bind, ExceptT.bind, ExceptT.mk, ExceptT.run, Prog.bind, Prog.ofCall, Prog.eval,
    Call.exec, ExceptT.bindCont, hlisted, recoverNext]
  cases hmissing : successorMissing (listNodes e.env w.workflowID db) next with
  | false =>
      rw [if_pos ⟨by rfl, hne⟩, if_neg Bool.false_ne_true]
      rfl
  | true =>
      rw [if_neg (fun h => absurd h.1 (by decide)), if_pos rfl]
      simp only [Prog.eval, Call.exec]
      cases ((Op.advanceGraph (e.advanceInput w n.key lease next)).exec e.env (amb 1) db).1 with
      | ok r => rfl
      | error err => rfl

/-- The owner can advance the node to the successor that its stored result names. -/
theorem Delivered.advances_succeeds (h : Sys.Reachable e.env s) (hd : Delivered s.db w graph n d p j)
    (hg : GoesOn s.db w lease) (hfresh : (amb 1).Fresh s.db) {id : String} (hin : id ∈ d.next)
    (hid : branchChoice j.doc = some id) : ∃ r db', advanceGraph e.env (amb 1) (e.advanceInput w n.key lease
      [⟨id, n.key.iteration, [], .json j.doc⟩]) s.db = .ok (r, db') := by
  obtain ⟨w', definition, hw', hdef, hparse⟩ := hd.graphOf
  cases hg.owned.get.symm.trans hw'
  have haccepted : Accepted definition.graph.doc graph _ := ⟨hparse, decodeDefinitionGraph_of_parseGraph hparse⟩
  have hacc := hd.accepted h.store
  have hne : id ≠ "" := by
    rintro rfl
    exact (haccepted.named hd.declared).2 hin
  have hreach := h.store.reachable
  have hnamed := hreach.provided.node _ n hd.stored
  have hkey : (e.advanceInput w n.key lease [⟨id, n.key.iteration, [], .json j.doc⟩]).key = n.key := by
    rw [AdvanceGraphInput.key, advanceInput, ← hd.owner]
  have hquotable : quotable e.env n.key.nodeID = true := by
    obtain ⟨m, a, ha, -⟩ := hd.recorded
    exact hreach.provided.attempt _ a ha
  have hcurrent : n.currentAttempt = none := by
    cases hcur : n.currentAttempt with
    | none => rfl
    | some m =>
        have hwaiting := (reachable_nodesShaped h.store _ n hd.stored).waiting m hcur
        rw [hd.succeeded] at hwaiting
        cases hwaiting
  have hready : checkSource d.definition n = .ok () := by
    have hkind : d.definition.kind = "activity" := hd.activity
    simp [checkSource, hkind, hcurrent, hd.succeeded, hacc, rejectIf]
  have hexpected : expectedSuccessors d.definition = d.next := by
    simp [expectedSuccessors, Node.definition, hd.activity, isFanout]
  have hvalid : validateGraphSuccessors ⟨graph.entry, graph.nodes.map Node.definition⟩ d.definition n.key.iteration
      [⟨id, n.key.iteration, [], .json j.doc⟩] = .ok () := by
    obtain ⟨m, hm⟩ := haccepted.declared hd.declared (by simp [hin]) hne
    have hmany := hd.several
    have hkind : d.definition.kind = "activity" := hd.activity
    rw [validateGraphSuccessors_ok_iff _ _ _ _ (by simp) hnamed.2, hexpected, checkExpected, if_pos ⟨hkind, hmany⟩]
    refine ⟨rejectIf_of_not _ (not_not.mpr ⟨rfl, fun item hitem => ?_⟩), List.nodup_singleton _, fun item hitem => ?_,
      fun hfan => ?_⟩
    · cases List.mem_singleton.mp hitem
      exact hin
    · cases List.mem_singleton.mp hitem
      exact (haccepted.find_stored id).mpr ⟨m, hm⟩
    · rw [hkind] at hfan
      cases hfan
  have hsource : DefinitionGraph.node ⟨graph.entry, graph.nodes.map Node.definition⟩ n.key.nodeID =
      .ok d.definition := by
    rw [DefinitionGraph.node, find_definition, hd.declared]
    rfl
  have hprovides : Provides e.env (amb 1) s.db w n.key :=
    hreach.provides hfresh hg.owned.get hd.stored hquotable
  obtain ⟨⟨r, db'⟩, hrun, -⟩ := advanceGraph_succeeds hg.owned rfl e.actor_ne hg.legal hdef
    (decodeDefinitionGraph_of_parseGraph hparse) hsource (by rw [hkey]; exact hd.stored) hready hvalid rfl
    ⟨hne, textOK_of_branchChoice hid hne⟩ hnamed.2 rfl (by rw [hkey]; exact hprovides)
  exact ⟨r, db', hrun⟩

/-- A committed advancement to a successor that did not exist creates its instance and no other. -/
theorem createsOnly_of_advanceGraph {db db' : DB} {amb : Ambient} {id : String} {r : AdvanceGraphResult}
    (howner : n.key.workflowID = w.workflowID) (hstored : db.nodes.get n.key = some n)
    (habsent : db.nodes.get (instanceOf n id) = none)
    (h : advanceGraph e.env amb (e.advanceInput w n.key lease [⟨id, n.key.iteration, [], .json j.doc⟩]) db =
      .ok (r, db')) : CreatesOnly db db' n id := by
  have hkey : (e.advanceInput w n.key lease [⟨id, n.key.iteration, [], .json j.doc⟩]).key = n.key := by
    rw [AdvanceGraphInput.key, advanceInput, ← howner]
  obtain ⟨⟨w', n', definition, graph', source, c⟩, -⟩ := advanceGraph_eq_ok h
  have hinstance : ∀ item ∈ (e.advanceInput w n.key lease [⟨id, n.key.iteration, [], .json j.doc⟩]).next,
      (⟨w.workflowID, item.nodeID, item.iteration⟩ : NodeKey) = instanceOf n id := by
    intro item hitem
    cases List.mem_singleton.mp hitem
    rw [instanceOf, howner]
  have hother : instanceOf n id ≠ n.key := by
    intro heq
    rw [heq, hstored] at habsent
    cases habsent
  refine ⟨habsent, ?_, fun k hk hne => ?_⟩
  · obtain ⟨m, hm⟩ := c.complete (instanceOf n id) (by
      rw [← hinstance _ List.mem_cons_self]
      exact List.mem_singleton.mpr rfl)
    exact ⟨m, hm, (c.fresh _ m (by rw [hkey]; exact hother) habsent hm).1.1⟩
  · have hnodes := c.nodes k
    rw [if_neg (by rw [hkey]; exact hk)] at hnodes
    cases hold : db.nodes.get k with
    | some m =>
        rw [hnodes, hold]
        rfl
    | none =>
        cases hnew : db'.nodes.get k with
        | none => rfl
        | some m =>
            obtain ⟨-, ⟨item, hitem, hitemKey, -⟩, -⟩ := c.fresh k m (by rw [hkey]; exact hk) hold hnew
            exact absurd (hitemKey.trans (hinstance item hitem)) hne

/-- One proposed successor is missing exactly if its instance does not exist. -/
theorem successorMissing_one_iff {db : DB} {id : String} {input : RawMessage}
    (howner : n.key.workflowID = w.workflowID) :
    successorMissing (listNodes e.env w.workflowID db) [⟨id, n.key.iteration, [], input⟩] = true ↔
      db.nodes.get (instanceOf n id) = none := by
  constructor
  · intro hmissing
    by_contra hsome
    obtain ⟨m, hm⟩ := Option.ne_none_iff_exists'.mp hsome
    rw [successorMissing_eq_false (fun item hitem => ?_)] at hmissing
    · cases hmissing
    · cases List.mem_singleton.mp hitem
      exact ⟨m, by rw [← howner]; exact hm⟩
  · intro hnone
    simp only [successorMissing, List.any_cons, List.any_nil, Bool.or_false, Bool.not_eq_true', List.any_eq_false,
      Bool.and_eq_true, decide_eq_true_eq, not_and]
    intro m hm hid hiteration
    obtain ⟨hget, howned⟩ := mem_listNodes.mp hm
    have hkey : m.key = instanceOf n id := by
      rw [instanceOf, howner, ← howned, ← hid, ← hiteration]
    rw [hkey, hnone] at hget
    cases hget

/-- A visit that does not fail leaves the successor in place, whatever the other parties do. -/
theorem inPlace_of_recoverSucceeded (hbuilt : recoverBuilds n d graph = .ok next) {db db' : DB} {b : Bool}
    (h : Prog.Ends (reading e.env) (e.recoverSucceeded w n d graph lease).run db (.ok b) db') :
    InPlace db' w.workflowID next := by
  rw [recoverSucceeded_eq e lease hbuilt] at h
  obtain ⟨db₁, reply, db₂, hrely₁, ⟨amb₁, hlisted⟩, h⟩ := h
  cases hlisted
  change Prog.Ends _ (recoverNext e lease w n next (listNodes e.env w.workflowID db₁)).run db₁ _ db' at h
  unfold recoverNext at h
  split at h
  · rename_i hplace
    intro item hitem
    have hfound : successorMissing (listNodes e.env w.workflowID db₁) next = false := by simpa using hplace.1
    have hin := List.any_eq_false.mp hfound item hitem
    simp only [Bool.not_eq_true', Bool.not_eq_false, List.any_eq_true, Bool.and_eq_true, decide_eq_true_eq] at hin
    obtain ⟨m, hm, hid, hiteration⟩ := hin
    obtain ⟨hget, howned⟩ := mem_listNodes.mp hm
    obtain ⟨m', hm', -⟩ := node_lasts h.2 hget
    exact ⟨m', by rw [← hid, ← hiteration, ← howned]; exact hm'⟩
  · obtain ⟨db₃, reply, db₄, hrely₂, ⟨amb₂, hadvanced⟩, h⟩ := h
    cases reply with
    | error err => cases h.1
    | ok r =>
        obtain ⟨-, hrely₃⟩ := h
        simp only [Op.exec] at hadvanced
        split at hadvanced
        · rename_i hrun
          cases hadvanced
          obtain ⟨⟨w', n', definition, graph', source, c⟩, -⟩ := advanceGraph_eq_ok hrun
          intro item hitem
          obtain ⟨m, hm⟩ := c.complete ⟨w.workflowID, item.nodeID, item.iteration⟩
            (List.mem_map.mpr ⟨item, hitem, rfl⟩)
          obtain ⟨m', hm', -⟩ := node_lasts hrely₃ hm
          exact ⟨m', hm'⟩
        · cases hadvanced

theorem leadsTo_of_choice (h : Sys.Reachable e.env s) (hd : Delivered s.db w graph n d p j)
    (hg : GoesOn s.db w lease) (hfresh : (amb 1).Fresh s.db) {id : String} (hin : id ∈ d.next)
    (hid : branchChoice j.doc = some id) (habsent : s.db.nodes.get (instanceOf n id) = none) :
    LeadsTo e lease s w graph n d amb id := by
  obtain ⟨raw, stored, haccepted⟩ := hd.graphOf.accepted
  have hacc := hd.accepted h.store
  have hbuilds := recoverBuilds_choice_iff haccepted hd.declared hd.activity hd.several hacc
  have hbuilt : recoverBuilds n d graph = .ok [⟨id, n.key.iteration, [], .json j.doc⟩] :=
    (hbuilds _).mpr ⟨id, hin, hid, rfl⟩
  obtain ⟨r, db', hrun⟩ := hd.advances_succeeds h hg hfresh hin hid
  have hvisit : undisturbed e.env amb (e.recoverSucceeded w n d graph lease) s.db = (.ok true, db') := by
    rw [undisturbed_recoverSucceeded hbuilt (by simp), if_pos ((successorMissing_one_iff hd.owner).mpr habsent)]
    simp only [Op.exec, Op.run, hrun]
    rfl
  refine ⟨by rw [hvisit], ?_, fun b db'' hends => ?_, fun trace t input hrun hop hkey => ?_⟩
  · rw [hvisit]
    exact createsOnly_of_advanceGraph hd.owner hd.stored habsent hrun
  · have hplace := inPlace_of_recoverSucceeded hbuilt hends
    rw [instanceOf, hd.owner]
    exact hplace _ List.mem_cons_self
  · obtain ⟨id', -, hid', hnext⟩ :=
      (hbuilds _).mp (hd.advances h.store (hrun.disciplined h.disciplined).2 hop hkey)
    cases hid.symm.trans hid'
    rw [hnext, hacc]
    rfl

/-- A result from which the recovery reads no declared successor fails every pass. -/
theorem failsAlways_of_no_choice (h : Sys.Reachable e.env s) (hd : Delivered s.db w graph n d p j)
    (hno : ∀ id ∈ d.next, branchChoice j.doc ≠ some id) : FailsAlways e lease w graph n d := by
  obtain ⟨raw, stored, haccepted⟩ := hd.graphOf.accepted
  have hbuilt := recoverBuilds_choice_iff haccepted hd.declared hd.activity hd.several
    (hd.accepted h.store)
  intro db r db' hends
  cases herr : recoverBuilds n d graph with
  | ok next =>
      obtain ⟨id, hin, hid, -⟩ := (hbuilt next).mp herr
      exact absurd hid (hno id hin)
  | error err =>
      have hprog : e.recoverSucceeded w n d graph lease = throw (.text err) := by
        have hif : (if d.kind = "activity" then
            nextInputsForResult n.key d graph n.acceptedResult else nextInputs n d graph) =
            .error err := herr
        unfold recoverSucceeded
        rw [hif]
        rfl
      rw [hprog] at hends
      exact ⟨_, hends.1⟩

end Agreement

-- ============================================================================
-- A choice between two successors
-- ============================================================================

/-- The definition of a workflow whose only activity chooses between two ends. -/
def choiceDefinition : DefinitionInput := { forkDefinition with
  graph := .json (.obj [("entry", .str "pure.add"), ("nodes", .arr [
    graphNode "pure.add" "activity" [("next", .arr [.str "left", .str "right"])],
    graphNode "left" "success" [], graphNode "right" "success" []])])
  activityVersions := .json (.obj [("pure.add", .str "v1")])
  effectClasses := .json (.obj [("pure.add", .str "PURE_ACTIVITY")]) }

/-- A worker claims the activity and returns the payload, a pass of one step consumes it, and an owner
    takes the lease. -/
def choiceScript (payload : Json) : List Sys.Action := [
  .client (.createDefinition choiceDefinition),
  .client (.createWorkflow { forkWorkflow with initialNodeID := "pure.add" }),
  .pass externalEngine "w",
  .client (.claimAttempt ⟨0, "w", "pure.add", 0, "worker", "first", 0⟩),
  .client (.recordResultReceipt ⟨"w", "pure.add", 0, 1, uuidOf 3 22, .succeeded, .json payload, "",
    ""⟩),
  .pass { externalEngine with maxSteps := 1 } "w",
  .client (.acquireLease 0 (uuidOf 8 0) 1000)]

/-- The lease of that owner. -/
def choiceLease : LeaseRef := ⟨0, uuidOf 8 0, 3⟩

theorem reachable_choice (payload : Json) :
    Sys.Reachable .plain (scriptSys (choiceScript payload)) := by
  refine Sys.reachable_of_runScript 0 ?_
  simp [choiceScript, Sys.Action.valid, Op.isClient, externalEngine, soloEngine]

/-- The activity has succeeded with the payload, whose stored form names `choice`, no successor exists,
    and the owner of the workflow can go on. -/
def choiceMade (payload : Json) (choice : Option String) (db : DB) : Bool :=
  (lockLease db choiceLease).toOption.isSome && (db.workflows.get "w").any (fun w =>
    w.state = .runnable && w.partitionID = (0 : Int) &&
    (db.definitions.get ⟨w.definitionID, w.definitionVersion⟩).any (fun definition =>
      match parseGraph definition.graph.doc with
      | .error _ => false
      | .ok graph => (graph.find "pure.add").any (fun d =>
          d.kind = "activity" && d.next = ["left", "right"] &&
          (db.nodes.get ⟨"w", "pure.add", 0⟩).any (fun n => n.state = .succeeded) &&
          (db.nodes.get ⟨"w", "left", 0⟩).isNone &&
          (db.outbox.get (uuidOf 1 900)).isNone && (db.timers.get (uuidOf 2 900)).isNone &&
          payload.shallow &&
          (db.attempts.get ⟨⟨"w", "pure.add", 0⟩, 1⟩).any (fun a => a.state = .succeeded &&
            a.result.any (fun j => Jsonb.ofJson? payload = some j &&
              branchChoice j.doc = choice)))))

/-- A result is delivered, and the owner of the workflow visits its node. -/
structure ChoiceMade (db : DB) (w : Workflow) (graph : Graph) (n : NodeInstance) (d : Node) (payload : Json)
    (j : Jsonb) : Prop where
  delivered : Delivered db w graph n d payload j
  goesOn : GoesOn db w choiceLease
  fresh : (Ambient.drawn 900).Fresh db
  next : d.next = ["left", "right"]
  absent : db.nodes.get (instanceOf n "left") = none

theorem choiceMade_spec {payload : Json} {choice : Option String} {db : DB}
    (h : choiceMade payload choice db = true) :
    ∃ w graph n d j, ChoiceMade db w graph n d payload j ∧ branchChoice j.doc = choice ∧ w.state = .runnable := by
  simp only [choiceMade, Option.any_eq_true, Bool.and_eq_true, decide_eq_true_eq] at h
  obtain ⟨hlock, w, hw, ⟨hstate, hpartition⟩, definition, hdef, h⟩ := h
  split at h
  · cases h
  · rename_i graph hparse
    simp only [Option.any_eq_true, Bool.and_eq_true, decide_eq_true_eq, Option.isNone_iff_eq_none] at h
    obtain ⟨d, hd, ⟨⟨⟨⟨⟨⟨hkind, hnext⟩, n, hn, hs⟩, habsent⟩, hevent⟩, htimer⟩, hshallow⟩, a, ha, hsucceeded, j, hj,
      hdoc, hchoice⟩ := h
    have hkey := Table.key_of_get hn
    have hid := Table.key_of_get hw
    obtain ⟨lease, hlease⟩ := Option.isSome_iff_exists.mp hlock
    refine ⟨w, graph, n, d, j, ⟨⟨by rw [hkey]; exact hn, by rw [hkey]; exact hid.symm,
      ⟨w, definition, by rw [hid]; exact hw, hdef, hparse⟩, by rw [hkey]; exact hd, hkind,
      by rw [hnext]; decide, hs, ⟨1, a, by rw [hkey]; exact ha, hsucceeded, hj⟩, hshallow, hdoc⟩,
      ⟨⟨(lockLease_eq_ok (toOption_eq_some hlease)).1, by rw [hid]; exact hw, hpartition⟩, by rw [hstate]; rfl⟩,
      ⟨hevent, htimer⟩, hnext, by rw [instanceOf, hkey]; exact habsent⟩, hchoice, hstate⟩

end Engine

end DurableEngine
