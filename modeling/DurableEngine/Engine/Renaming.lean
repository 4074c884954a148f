/-
  DurableEngine.Engine.Renaming

  Passes over a workflow whose nodes have other names.

  The store and the scheduler look at the name of a node only to find it and to
  sort it, so a renaming of the nodes is another order in which the repository
  lists them (`Env.renamed`).  As long as at most one node of the workflow has
  something to do, passes end in the same ways under both names, and leave the
  same rows.  Where two have, the names decide: a fan-out fails every pass that
  comes to it first, and a workflow may end while a branch is still live.
-/

import DurableEngine.Engine.Linear

namespace DurableEngine.Engine

open Lib State

/-- While the workflow goes on, at most one of its nodes has something to do. -/
def OrderFree (external : Bool) (workflowID : String) (db : DB) : Prop :=
  ∀ w, db.workflows.get workflowID = some w → w.state.isTerminal = false → OneMoves external db workflowID

section Reordered

variable (e : Engine) (c : String → String → Bool)

/-- The scheduler over a database that orders texts in another way. -/
def reordered : Engine := { e with env := e.env.withCollation c }

theorem visitNodes_reordered (w : Workflow) (graph : Graph) (lease : LeaseRef) (nodes : List NodeInstance) :
    (e.reordered c).visitNodes w graph lease nodes = e.visitNodes w graph lease nodes := by
  induction nodes with
  | nil => rfl
  | cons node nodes ih =>
      rw [visitNodes, visitNodes, ih]
      rfl

theorem advanceDueTimer_reordered (w : Workflow) (lease : LeaseRef) (nodes : List NodeInstance) :
    (e.reordered c).advanceDueTimer w lease nodes = e.advanceDueTimer w lease nodes := by
  induction nodes with
  | nil => rfl
  | cons node nodes ih =>
      rw [advanceDueTimer, advanceDueTimer, ih]
      rfl

theorem loop_reordered (workflowID : String) (graph : Graph) (lease : LeaseRef) (fuel steps : Nat) :
    (e.reordered c).loop workflowID graph lease fuel steps = e.loop workflowID graph lease fuel steps := by
  induction fuel generalizing lease steps with
  | zero => rfl
  | succ fuel ih =>
      simp only [loop, ih, visitNodes_reordered, advanceDueTimer_reordered]
      rfl

theorem run_reordered (newID workflowID : String) :
    (e.reordered c).run newID workflowID = e.run newID workflowID := by
  have hbody : (e.reordered c).body = e.body := by
    funext workflowID definition graph lease
    simp only [body, loop_reordered]
    rfl
  simp only [run, hbody]
  rfl

end Reordered

section Passes

variable {env : Env} (c : String → String → Bool) (e : Engine) {db : DB} {workflowID : String} {graph : Graph}

theorem GraphOf.yields {α : Type} {p : EngineM α} {r : Option (Except Err α)} {db' : DB}
    (h : GraphOf db workflowID graph) (hp : Prog.Yields (reading env) p.run db r db') :
    GraphOf db' workflowID graph :=
  h.later (Later.of_steps hp.rely)

/-- The loop of a pass whose states are all free of the order. -/
theorem alike_loop (fuel steps : Nat) (lease : LeaseRef) (hgraph : GraphOf db workflowID graph)
    (h : Through (reading env) (e.loop workflowID graph lease fuel steps) db
      (OrderFree e.externalActivities workflowID)) :
    Alike (reading env) (reading (env.withCollation c)) (e.loop workflowID graph lease fuel steps)
      (e.loop workflowID graph lease fuel steps) db := by
  induction fuel generalizing steps lease db with
  | zero => exact .bind (alike_store c _ rfl) (fun _ _ _ => .pure _)
  | succ fuel ih =>
      rw [loop] at h ⊢
      refine .bind (alike_store c _ rfl) (fun renewed db₁ hrenew => ?_)
      have h₁ := h.rest hrenew
      have hgraph₁ := hgraph.yields hrenew
      refine .bind (alike_store c _ rfl) (fun w db₂ hget => ?_)
      have h₂ := h₁.rest hget
      obtain ⟨rfl, hw⟩ := yields_query (f := getWorkflow workflowID) (fun _ _ => rfl) hget
      split
      · exact .pure _
      · rename_i hlive
        rw [if_neg hlive] at h₂
        rw [getWorkflow, getOr_eq_ok] at hw
        obtain rfl := Table.key_of_get hw
        have hfree : OneMoves e.externalActivities db₂ w.workflowID := h₂.here w hw (by simpa using hlive)
        -- each order lists the nodes, and goes on with its own list
        have hlist : ∀ f : List NodeInstance → EngineM RunResult, Same (reading env)
            (store (.listNodes w.workflowID) >>= f) (f (listNodes env w.workflowID db₂)) db₂ :=
          same_read_bind (fun _ => rfl)
        have hlist' : ∀ f : List NodeInstance → EngineM RunResult, Same (reading (env.withCollation c))
            (store (.listNodes w.workflowID) >>= f) (f (listNodes (env.withCollation c) w.workflowID db₂)) db₂ :=
          same_read_bind (fun _ => rfl)
        refine .congr ?_ (hlist _) (hlist' _)
        have h₃ := h₂.congr (hlist _).symm
        refine .bind (alike_timers c e renewed.ref hfree) (fun fired db₃ hfired => ?_)
        have h₄ := h₃.rest hfired
        have hgraph₃ := hgraph₁.yields hfired
        cases fired with
        | true => exact ih (steps + 1) renewed.ref hgraph₃ h₄
        | false =>
            obtain ⟨rfl, hdue⟩ := advanceDueTimer_reads e renewed.ref listNodes_owner hfired
            refine .bind (alike_visits c e renewed.ref hfree (fun n hn => hdue n (mem_listNodes.mpr hn)) hgraph₁)
              (fun progress db₄ hvisited => ?_)
            have h₅ := h₄.rest hvisited
            have hgraph₄ := hgraph₁.yields hvisited
            cases progress with
            | false => exact .pure _
            | true =>
                refine .bind (alike_store c _ rfl) (fun w' db₅ hget' => ?_)
                have h₆ := h₅.rest hget'
                split
                · exact .pure _
                · rename_i hlive'
                  rw [if_neg hlive'] at h₆
                  exact ih (steps + 1) renewed.ref (hgraph₄.yields hget') h₆

theorem alike_cancellations (ids : List String) (lease : LeaseRef) :
    Alike (reading env) (reading (env.withCollation c))
      (ids.forM (fun id => do let _ ← store (.applyCancellationRequest lease id e.actor)) : EngineM Unit)
      (ids.forM (fun id => do let _ ← store (.applyCancellationRequest lease id e.actor))) db := by
  induction ids generalizing db with
  | nil => exact .pure _
  | cons id ids ih =>
      exact .bind (.bind (alike_store c _ rfl) (fun _ _ _ => .pure _)) (fun _ _ _ => ih)

theorem alike_externalPrelude (definition : DefinitionView) (lease : LeaseRef) :
    Alike (reading env) (reading (env.withCollation c)) (e.externalPrelude workflowID definition graph lease)
      (e.externalPrelude workflowID definition graph lease) db := by
  unfold externalPrelude applyRuntimeCancellations
  refine .bind (.bind (alike_store c _ rfl) (fun ids _ _ => alike_cancellations c e ids lease)) (fun _ _ _ => ?_)
  refine .bind (alike_store c _ rfl) (fun w _ _ => ?_)
  split
  · exact .pure _
  · split
    · exact .pure _
    · exact .bind (alike_store c _ rfl) (fun _ _ _ => .bind (alike_store c _ rfl) (fun _ _ _ => .pure _))

theorem alike_body (definition : DefinitionView) (lease : LeaseRef) (hgraph : GraphOf db workflowID graph)
    (h : Through (reading env) (e.body workflowID definition graph lease) db
      (OrderFree e.externalActivities workflowID)) :
    Alike (reading env) (reading (env.withCollation c)) (e.body workflowID definition graph lease)
      (e.body workflowID definition graph lease) db := by
  unfold body at h ⊢
  split
  · rename_i hext
    rw [if_pos hext] at h
    refine .bind (alike_externalPrelude c e definition lease) (fun result db₁ hprelude => ?_)
    have h₁ := h.rest hprelude
    cases result with
    | some result => exact .pure _
    | none => exact alike_loop c e _ _ lease (hgraph.yields hprelude) h₁
  · rename_i hext
    rw [if_neg hext] at h
    exact alike_loop c e _ _ lease hgraph h

theorem alike_finish {lease : LeaseRef} {outcome outcome' : Except Err RunResult} (h : SameReply outcome outcome') :
    Alike (reading env) (reading (env.withCollation c)) (e.finish workflowID lease outcome)
      (e.finish workflowID lease outcome') db := by
  have hrelease : ∀ outcome outcome' : Except Err RunResult, SameReply outcome outcome' → ∀ db,
      Alike (reading env) (reading (env.withCollation c))
        (tryStore (.releaseLease lease) >>= fun _ => ExceptT.mk (pure outcome) : EngineM RunResult)
        (tryStore (.releaseLease lease) >>= fun _ => ExceptT.mk (pure outcome')) db := by
    intro outcome outcome' h db
    refine .bind (alike_tryStore c _ (fun _ => rfl)) (fun _ _ _ => ?_)
    cases h with
    | failed err err' => exact .throw err err'
    | replied result => exact .pure result
  cases h with
  | failed err err' => exact hrelease _ _ (.failed err err') db
  | replied result =>
      unfold finish
      refine .bind ?_ (fun outcome _ _ => hrelease outcome outcome (.refl outcome) _)
      simp only [acknowledge]
      split
      · exact .bind (alike_tryStore c _ (fun _ => rfl)) (fun reply _ _ => .pure _)
      · exact .pure _

/-- A pass whose states are all free of the order ends in the same ways in every order, and goes through
    the same states. -/
theorem alike_run (newID : String)
    (h : Through (reading env) (e.run newID workflowID) db (OrderFree e.externalActivities workflowID)) :
    Alike (reading env) (reading (env.withCollation c)) (e.run newID workflowID) (e.run newID workflowID) db := by
  unfold run at h ⊢
  refine .bind (alike_store c _ rfl) (fun w db₁ hget => ?_)
  have h₁ := h.rest hget
  obtain ⟨rfl, hw⟩ := yields_query (f := getWorkflow workflowID) (fun _ _ => rfl) hget
  refine .bind (alike_store c _ rfl) (fun definition db₂ hdef => ?_)
  have h₂ := h₁.rest hdef
  obtain ⟨rfl, hview⟩ := yields_query (f := getDefinition w.definitionID w.definitionVersion) (fun _ _ => rfl) hdef
  refine .bind (alike_localCheck c _) (fun graph db₃ hparse => ?_)
  have h₃ := h₂.rest hparse
  obtain ⟨rfl, hread⟩ : db₃ = db₂ ∧ parseGraph definition.row.graph.doc = .ok graph := by
    cases hdoc : parseGraph definition.row.graph.doc with
    | error err =>
        rw [hdoc] at hparse
        obtain ⟨hr | hr, -⟩ := hparse
        · cases hr
        · cases hr
    | ok graph' =>
        rw [hdoc] at hparse
        obtain ⟨rfl, rfl⟩ := yields_pure hparse
        exact ⟨rfl, rfl⟩
  have hgraph : GraphOf db₃ workflowID graph := by
    rw [getWorkflow, getOr_eq_ok] at hw
    simp only [getDefinition, bind_eq_ok, getOr_eq_ok, pure_eq_ok] at hview
    obtain ⟨row, hrow, effectClasses, -, rfl⟩ := hview
    exact ⟨w, row, hw, hrow, hread⟩
  refine .bind (alike_store c _ rfl) (fun acquired db₄ hacquire => ?_)
  have h₄ := h₃.rest hacquire
  obtain ⟨lease, held⟩ := acquired
  cases held with
  | false => exact .throw _ _
  | true =>
      exact .outcome (alike_body c e definition lease.ref (hgraph.yields hacquire) h₄.lift)
        (fun outcome outcome' _ hsame => alike_finish c e hsame)

end Passes

-- ============================================================================
-- Runs
-- ============================================================================

/-- What is seen of a pass: it was stopped, it failed, or it ended with its result. -/
inductive PassEnd where
  | stopped
  | failed
  | ended (result : RunResult)

def passEnd : Option (Except Err RunResult) → PassEnd
  | none => .stopped
  | some (.error _) => .failed
  | some (.ok result) => .ended result

theorem passEnd_eq {r r' : Option (Except Err RunResult)} (h : Option.Rel SameReply r r') :
    passEnd r = passEnd r' := by
  cases h with
  | none => rfl
  | some hreply =>
      cases hreply with
      | failed err err' => rfl
      | replied result => rfl

/-- A run of the deployment from one database to another, with what is seen of its passes in turn: the
    clock advances, clients call operations, and passes run one after the other, each through states in
    which at most one node of its workflow has something to do, to their ends or until they are stopped. -/
inductive Passes (env : Env) (db : DB) : List PassEnd → DB → Prop where
  | refl : Passes env db [] db
  | tick {trace : List PassEnd} {db' : DB} (run : Passes env db trace db') (d : Nat) :
      Passes env db trace (db'.tick d)
  | client {α : Type} {trace : List PassEnd} {db' : DB} (run : Passes env db trace db') (amb : Ambient) (op : Op α)
      (isClient : op.isClient = true) : Passes env db trace (op.exec env amb db').2
  | pass {trace : List PassEnd} {db' db'' : DB} (run : Passes env db trace db') (e : Engine) (deployed : e.env = env)
      (newID workflowID : String) (r : Option (Except Err RunResult))
      (free : Through (reading env) (e.run newID workflowID) db' (OrderFree e.externalActivities workflowID))
      (yields : Prog.Yields (reading env) (e.run newID workflowID).run db' r db'') :
      Passes env db (trace ++ [passEnd r]) db''

theorem Passes.withCollation {env : Env} (c : String → String → Bool) {db db' : DB} {trace : List PassEnd}
    (h : Passes env db trace db') : Passes (env.withCollation c) db trace db' := by
  induction h with
  | refl => exact .refl
  | tick _ d ih => exact ih.tick d
  | client _ amb op isClient ih =>
      rw [← Op.exec_withCollation_snd env c]
      exact ih.client amb op isClient
  | pass _ e deployed newID workflowID r free yields ih =>
      subst deployed
      have halike := alike_run c e newID free
      obtain ⟨r', hrel, yields'⟩ := halike.forth r _ yields
      rw [passEnd_eq hrel]
      rw [← e.run_reordered c newID workflowID] at yields'
      refine ih.pass (e.reordered c) rfl newID workflowID r' (fun t ht => ?_) yields'
      rw [e.run_reordered c newID workflowID] at ht
      obtain ⟨r'', hrel', ht'⟩ := halike.back none t ht
      cases hrel'
      exact free t ht'

theorem passes_withCollation_iff {env : Env} (c : String → String → Bool) {db db' : DB} {trace : List PassEnd} :
    Passes env db trace db' ↔ Passes (env.withCollation c) db trace db' :=
  ⟨.withCollation c, fun h => h.withCollation env.collation⟩

-- ============================================================================
-- Linear graphs
-- ============================================================================

/-- A pass that is left alone is a run of the system in which no other pass moves. -/
theorem run_of_yields {env : Env} {p : Pass} {r : Option (Except Err RunResult)} {db db' : DB}
    (h : Prog.Yields (reading env) p db r db') (others : List Pass) :
    ∃ trace q, Sys.Run env Sys.Any ⟨db, p :: others⟩ trace ⟨db', q :: others⟩ := by
  induction p generalizing db with
  | done a =>
      obtain ⟨-, rfl⟩ := h
      exact ⟨[], .done a, .refl _⟩
  | call op k ih =>
      rcases h with ⟨-, rfl⟩ | ⟨b, t, hexec, hrest⟩
      · exact ⟨[], .call op k, .refl _⟩
      · cases op with
        | store op =>
            obtain ⟨amb, hexec⟩ := hexec
            obtain ⟨trace, q, hrun⟩ := ih b hrest
            have hstep : Sys.Step env Sys.Any ⟨db, .call (.store op) k :: others⟩ (op.committed env amb db)
                ⟨(op.exec env amb db).2, [] ++ k (op.exec env amb db).1 :: others⟩ :=
              .call _ [] others amb op k rfl (fun _ _ => trivial)
            rw [hexec] at hstep
            exact ⟨_, q, ((Sys.Run.refl _).tail hstep).trans hrun⟩

/-- A pass over a workflow with a linear graph goes through states that are free of the order. -/
theorem through_of_linear {s : Sys} {e : Engine} (h : Sys.Reachable e.env s) {workflowID : String} {graph : Graph}
    (hgraph : GraphOf s.db workflowID graph) (hlinear : graph.Linear) (newID : String) :
    Through (reading e.env) (e.run newID workflowID) s.db (OrderFree e.externalActivities workflowID) := by
  intro db hyields w hw hlive
  have hstart := (Sys.Run.refl (C := Sys.Any) s).tail (.start s e newID workflowID rfl)
  obtain ⟨trace, q, hrun⟩ := run_of_yields hyields s.passes
  exact oneMoves_of_linear (h.run (hstart.trans hrun)) hw hlive (hgraph.yields hyields) hlinear _

/-- The node of the key has succeeded and created its successors. -/
def createdAt (db : DB) (k : NodeKey) (fanout : Bool) : Bool :=
  (db.workflows.get k.workflowID).any (fun w =>
    (db.definitions.get ⟨w.definitionID, w.definitionVersion⟩).any (fun definition =>
      match parseGraph definition.graph.doc with
      | .error _ => false
      | .ok graph => (graph.find k.nodeID).any (fun d => isFanout d.kind = fanout &&
          (db.nodes.get k).any (fun n => n.state = .succeeded &&
            match successorsOf n d graph with
            | .error _ => false
            | .ok next => next ≠ [] && next.all (fun item =>
                (db.nodes.get ⟨k.workflowID, item.nodeID, item.iteration⟩).isSome)))))

theorem createdAt_spec {db : DB} {k : NodeKey} {fanout : Bool} (h : createdAt db k fanout = true) :
    ∃ w graph n d, n.key = k ∧ isFanout d.kind = fanout ∧ Revisited db w graph n d := by
  simp only [createdAt, Option.any_eq_true] at h
  obtain ⟨w, hw, definition, hdef, h⟩ := h
  split at h
  · cases h
  · rename_i graph hparse
    simp only [Option.any_eq_true, Bool.and_eq_true, decide_eq_true_eq] at h
    obtain ⟨d, hd, hkind, n, hn, hs, h⟩ := h
    split at h
    · cases h
    · rename_i next hnext
      simp only [Bool.and_eq_true, decide_eq_true_eq, List.all_eq_true, Option.isSome_iff_exists] at h
      have hkey := Table.key_of_get hn
      have hid := Table.key_of_get hw
      refine ⟨w, graph, n, d, hkey, hkind, by rw [hkey]; exact hn, by rw [hkey]; exact hid.symm,
        ⟨w, definition, by rw [hid]; exact hw, hdef, hparse⟩, by rw [hkey]; exact hd, hs,
        next, hnext, h.1, fun item hitem => ?_⟩
      rw [hkey]
      exact h.2 item hitem

/-- The fork with another name for its fan-out. -/
def forkFrom (root : String) : DefinitionInput := { forkDefinition with
  graph := .json (.obj [("entry", .str root), ("nodes", .arr [
    graphNode root "fanout"
      [("branches", .arr [.str "pure.add", .str "pure.echo"]), ("join", .str "join")],
    graphNode "pure.add" "activity" [("next", .str "join")],
    graphNode "pure.echo" "activity" [("next", .str "join")],
    graphNode "join" "join" [("next", .str "done")],
    graphNode "done" "success" []])]) }

/-- A pass of a few steps over the fork. -/
def forkFromScript (root : String) (steps : Int) : List Sys.Action := [
  .client (.createDefinition (forkFrom root)),
  .client (.createWorkflow { forkWorkflow with initialNodeID := root }),
  .pass (soloEngine steps) "w"]

theorem reachable_forkFrom (root : String) (steps : Int) :
    Sys.Reachable .plain (scriptSys (forkFromScript root steps)) := by
  refine Sys.reachable_of_runScript 0 ?_
  simp [forkFromScript, Sys.Action.valid, Op.isClient, soloEngine]

/-- A timer that leads to some activities, and they to the ending. -/
def timerDefinition (next : List String) (ending : String) : DefinitionInput := { forkDefinition with
  graph := .json (.obj [("entry", .str "t"), ("nodes", .arr [
    graphNode "t" "timer" [("next", .arr (next.map .str))],
    graphNode "pure.add" "activity" [("next", .str ending)],
    graphNode "pure.echo" "activity" [("next", .str ending)],
    graphNode ending "success" []])]) }

/-- A pass starts the timer, and its time comes. -/
def timerScript (next : List String) (ending : String) : List Sys.Action := [
  .client (.createDefinition (timerDefinition next ending)),
  .client (.createWorkflow { forkWorkflow with initialNodeID := "t" }),
  .pass (soloEngine 20) "w", .tick 25000000]

theorem timerScript_valid (next : List String) (ending : String) :
    ∀ action ∈ timerScript next ending, action.valid .plain := by
  simp [timerScript, Sys.Action.valid, Op.isClient, soloEngine]

/-- A pass from its start to its end, its calls counted from `n` on. -/
def passFrom (n : Nat) (db : DB) : Except Err RunResult × Nat × DB :=
  ((soloEngine 20).run (uuidOf 8 n) "w").run.eval (fun n _ => Sys.execCall .plain n) n db

/-- The pass ends with an error. -/
def fails (n : Nat) (db : DB) : Bool := (passFrom n db).1.toOption.isNone

/-- The workflow has this state. -/
def endsAs (state : WorkflowState) (db : DB) : Bool :=
  (db.workflows.get "w").any (fun w => w.state = state)

/-- The graph of the workflow is linear. -/
def linearAt (db : DB) (workflowID : String) : Bool :=
  (db.workflows.get workflowID).any (fun w =>
    (db.definitions.get ⟨w.definitionID, w.definitionVersion⟩).any (fun definition =>
      match parseGraph definition.graph.doc with
      | .error _ => false
      | .ok graph => graph.nodes.all (fun d => !isFanout d.kind && (d.kind = "activity" || d.next.length ≤ 1))))

theorem linearAt_spec {db : DB} {workflowID : String} (h : linearAt db workflowID = true) :
    ∃ graph, GraphOf db workflowID graph ∧ graph.Linear := by
  simp only [linearAt, Option.any_eq_true] at h
  obtain ⟨w, hw, definition, hdef, h⟩ := h
  split at h
  · cases h
  · rename_i graph hparse
    refine ⟨graph, ⟨w, definition, hw, hdef, hparse⟩, fun id d hd => ?_⟩
    have hnode := List.all_eq_true.mp h d (List.mem_of_find?_eq_some hd)
    simp only [Bool.and_eq_true, Bool.not_eq_true', Bool.or_eq_true, decide_eq_true_eq] at hnode
    exact ⟨hnode.1, fun hkind => hnode.2.resolve_left hkind⟩

theorem yields_passFrom (n : Nat) (db : DB) :
    Prog.Yields (reading .plain) ((soloEngine 20).run (uuidOf 8 n) "w").run db (some (passFrom n db).1)
      (passFrom n db).2.2 := by
  refine Prog.yields_eval (fun n β op db => ?_) _ n db
  cases op with
  | store op => exact ⟨.drawn n, rfl⟩

theorem passes_submitted (next : List String) (ending : String) :
    Passes .plain (DB.init 0) [] (scriptSys ((timerScript next ending).take 2)).db := by
  simp only [scriptSys, timerScript, List.take, Sys.runScript]
  exact (Passes.refl.client _ _ rfl).client _ _ rfl

theorem timerScript_due (next : List String) (ending : String) :
    (passFrom 2 (scriptSys ((timerScript next ending).take 2)).db).2.2.tick 25000000 =
      (scriptSys (timerScript next ending)).db := by
  simp only [scriptSys, timerScript, List.take, Sys.runScript, passFrom, Nat.zero_add, Nat.reduceAdd]

theorem Passes.passFrom {db db' : DB} {trace : List PassEnd} {r : RunResult}
    (run : Passes .plain db trace db') (n : Nat)
    (free : Through (reading .plain) ((soloEngine 20).run (uuidOf 8 n) "w") db' (OrderFree false "w"))
    (h : (passFrom n db').1.toOption = some r) : Passes .plain db (trace ++ [.ended r]) (passFrom n db').2.2 := by
  have hpass := run.pass (soloEngine 20) rfl (uuidOf 8 n) "w" _ free (yields_passFrom n db')
  cases hend : (Engine.passFrom n db').1 with
  | error err =>
      rw [hend] at h
      cases h
  | ok result =>
      rw [hend] at h hpass
      cases h
      exact hpass

end DurableEngine.Engine
