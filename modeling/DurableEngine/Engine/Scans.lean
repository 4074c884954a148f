/-
  DurableEngine.Engine.Scans

  A scan of `Engine.Run` in another order of the node names.

  Most visits of a scan find nothing to do (`Idle`), and a timer that is due
  ends the scan before any visit.  While at most one node has something to do
  (`OneMoves`), it does not matter in which order the nodes are listed: the
  visits before its own change nothing.
-/

import DurableEngine.Engine.Revisits
import DurableEngine.State.Collation

namespace DurableEngine.Engine

open Lib State

-- ============================================================================
-- Calls of a pass left alone
-- ============================================================================

section Calls

variable {env : Env} {α β : Type} {op : Op α} {db db' : DB}

theorem yields_store_iff {r : Option (Except Err α)} :
    Prog.Yields (reading env) (store op).run db r db' ↔ (r = none ∧ db' = db) ∨
      ∃ amb, (r = none ∨ r = some (op.exec env amb db).1) ∧ db' = (op.exec env amb db).2 := by
  constructor
  · rintro (⟨rfl, rfl⟩ | ⟨b, t, ⟨amb, hexec⟩, hr, rfl⟩)
    · exact .inl ⟨rfl, rfl⟩
    · exact .inr ⟨amb, by rw [hexec]; exact hr, by rw [hexec]⟩
  · rintro (⟨rfl, rfl⟩ | ⟨amb, hr, rfl⟩)
    · exact Prog.yields_here _ _
    · exact .inr ⟨_, _, ⟨amb, rfl⟩, hr, rfl⟩

/-- A call that reads the same whatever it draws. -/
theorem same_read_bind {a : α} (h : ∀ amb, op.exec env amb db = (.ok a, db)) (f : α → EngineM β) :
    Same (reading env) (store op >>= f) (f a) db := by
  intro r t
  rw [yieldsM_bind_iff]
  simp only [yields_store_iff, h]
  constructor
  · rintro (⟨rfl, ⟨-, rfl⟩ | ⟨_, -, rfl⟩⟩ | ⟨e, rfl, ⟨he, -⟩ | ⟨_, he | he, -⟩⟩ |
      ⟨b, t', ⟨hb, -⟩ | ⟨_, hb | hb, rfl⟩, hf⟩)
    · exact Prog.yields_here _ _
    · exact Prog.yields_here _ _
    · cases he
    · cases he
    · cases he
    · cases hb
    · cases hb
    · cases hb
      exact hf
  · intro hf
    exact .inr (.inr ⟨a, db, .inr ⟨.drawn 0, .inr rfl, rfl⟩, hf⟩)

theorem same_tryRead_bind {x : Except Err α} (h : ∀ amb, op.exec env amb db = (x, db))
    (f : Except Err α → EngineM β) : Same (reading env) (tryStore op >>= f) (f x) db := by
  intro r t
  constructor
  · rintro (⟨rfl, rfl⟩ | ⟨b, t', ⟨amb, hexec⟩, hrest⟩)
    · exact Prog.yields_here _ _
    · cases (h amb).symm.trans hexec
      exact hrest
  · exact fun hf => .inr ⟨x, db, ⟨.drawn 0, h _⟩, hf⟩

theorem exec_of_query {f : DB → Except Err α} (hrun : ∀ amb db, op.run env amb db = query f db) (amb : Ambient)
    (db : DB) : op.exec env amb db = (f db, db) := by
  unfold Op.exec
  rw [hrun]
  unfold query
  cases f db with
  | error e => rfl
  | ok a => rfl

/-- A query that was answered. -/
theorem yields_query {f : DB → Except Err α} (hrun : ∀ amb db, op.run env amb db = query f db) {a : α}
    (h : Prog.Yields (reading env) (store op).run db (some (.ok a)) db') : db' = db ∧ f db = .ok a := by
  rcases yields_store_iff.mp h with ⟨hr, -⟩ | ⟨amb, hr | hr, rfl⟩
  · cases hr
  · cases hr
  · rw [exec_of_query hrun] at hr ⊢
    exact ⟨rfl, (Option.some.inj hr).symm⟩

end Calls

-- ============================================================================
-- Idle visits
-- ============================================================================

/-- A visit of the node finds nothing to do: a join that is not ready, an attempt that is out and not
    overdue, a node that has created its successors, or one that is canceled, failed or timed. -/
inductive Idle (external : Bool) (db : DB) (graph : Graph) (n : NodeInstance) : Prop where
  | waits (d : Node) (declared : graph.find n.key.nodeID = some d) (runnable : n.state = .runnable)
      (join : d.kind = "join") (early : ¬ JoinReady db n.key n.dependencies)
  | pending (d : Node) (declared : graph.find n.key.nodeID = some d) (waiting : n.state = .waitingActivity)
      (m : Int) (current : n.currentAttempt = some m) (a : Attempt)
      (attempt : db.attempts.get ⟨n.key, m⟩ = some a)
      (unrecorded : ¬ (a.isCurrent = false ∧ a.state.isTerminal = true ∧ a.result.isSome = true))
      (early : if a.state = .dispatchable then external = true ∧ hasExpired a db.now = false
        else ¬ (a.state = .claimed ∧ hasExpired a db.now = true))
  | advanced (d : Node) (declared : graph.find n.key.nodeID = some d) (succeeded : n.state = .succeeded)
      (next : List GraphNodeInput) (built : recoverBuilds n d graph = .ok next) (some : next ≠ [])
      (inPlace : InPlace db n.key.workflowID next)
  | settled (d : Node) (declared : graph.find n.key.nodeID = some d)
      (state : n.state ≠ .runnable ∧ n.state ≠ .waitingActivity ∧ n.state ≠ .succeeded)

/-- The timer of the node is due. -/
def TimerDue (db : DB) (n : NodeInstance) : Prop :=
  n.state = .waitingTimer ∧ (db.pendingTimer n.key).any (fun t => t.dueAt ≤ db.now) = true

section Visits

variable {env : Env} (e : Engine) (lease : LeaseRef) {db db' : DB} {w : Workflow} {graph : Graph}
  {n : NodeInstance} {d : Node}

theorem recoverSucceeded_error {err : String} (h : recoverBuilds n d graph = .error err) :
    e.recoverSucceeded w n d graph lease = throw (.text err) := by
  have hbuilt : (if d.kind = "activity" then
      nextInputsForResult n.key d graph n.acceptedResult else nextInputs n d graph) = .error err := h
  unfold recoverSucceeded
  rw [hbuilt]
  rfl

/-- A join with an unfinished dependency, or with none, is not ready. -/
theorem same_joinReady {workflowID : String} {iteration : Int} {dependencies : List String} {ready : Bool}
    (h : (ready = false ∧ dependencies = []) ∨ ∃ dependency ∈ dependencies, ∀ m,
      db.nodes.get ⟨workflowID, dependency, iteration⟩ = some m → m.state ≠ .succeeded) :
    Same (reading env) (joinReady workflowID iteration ready dependencies) (pure false) db := by
  induction dependencies generalizing ready with
  | nil =>
      rcases h with ⟨rfl, -⟩ | ⟨_, hmem, -⟩
      · exact .refl _
      · cases hmem
  | cons dependency dependencies ih =>
      have hexec : ∀ amb, (Op.getNode ⟨workflowID, dependency, iteration⟩).exec env amb db =
          (getNode ⟨workflowID, dependency, iteration⟩ db, db) :=
        fun amb => exec_of_query (fun _ _ => rfl) amb db
      refine (same_tryRead_bind hexec _).trans ?_
      cases hget : db.nodes.get ⟨workflowID, dependency, iteration⟩ with
      | none =>
          have hnode : getNode ⟨workflowID, dependency, iteration⟩ db = .error (.noRows "") := by
            rw [getNode, hget]
            rfl
          rw [hnode]
          exact .refl _
      | some m =>
          have hnode : getNode ⟨workflowID, dependency, iteration⟩ db = .ok m := by
            rw [getNode, hget]
            rfl
          rw [hnode]
          dsimp only
          split
          · rename_i hs
            refine ih ?_
            rcases h with ⟨-, hnil⟩ | ⟨missing, hmem, hmissing⟩
            · cases hnil
            · rcases List.mem_cons.mp hmem with rfl | htail
              · exact absurd hs (hmissing m hget)
              · exact .inr ⟨missing, htail, hmissing⟩
          · exact .refl _

/-- A visit that finds nothing to do makes no progress and changes nothing. -/
theorem same_visitNode (h : Idle e.externalActivities db graph n) (howner : n.key.workflowID = w.workflowID)
    (hd : graph.find n.key.nodeID = some d) :
    Same (reading env) (e.visitNode w graph lease n d) (pure false) db := by
  cases h with
  | waits d' declared runnable join early =>
      cases hd.symm.trans declared
      rw [visitNode, runnable]
      refine (Same.bind (q := pure false) ?_ (fun _ _ _ => .refl _)).trans (.refl _)
      rw [nodeReady, if_pos join]
      refine same_joinReady ?_
      by_cases hnil : n.dependencies = []
      · exact .inl ⟨rfl, hnil⟩
      · simp only [JoinReady, ne_eq, hnil, not_false_eq_true, true_and, not_forall, not_exists, not_and] at early
        obtain ⟨dependency, hmem, hmissing⟩ := early
        rw [howner] at hmissing
        exact .inr ⟨dependency, hmem, hmissing⟩
  | pending d' declared waiting m current a attempt unrecorded early =>
      rw [visitNode, waiting]
      dsimp only
      rw [recoverActivity, current]
      dsimp only
      have hkey : (⟨⟨w.workflowID, n.key.nodeID, n.key.iteration⟩, m⟩ : AttemptKey) = ⟨n.key, m⟩ := by
        rw [← howner]
      have hget : ∀ amb, (Op.getAttempt ⟨⟨w.workflowID, n.key.nodeID, n.key.iteration⟩, m⟩).exec env amb db =
          (.ok a, db) := by
        intro amb
        rw [exec_of_query (f := getAttempt _) (fun _ _ => rfl), getAttempt, hkey, attempt]
        rfl
      refine (same_read_bind hget _).trans ?_
      rw [if_neg unrecorded]
      refine (same_read_bind (a := db.now) (fun _ => rfl) _).trans ?_
      by_cases hd : a.state = .dispatchable
      · rw [if_pos hd] at early ⊢
        rw [if_pos early.1, early.2]
        exact .refl _
      · rw [if_neg hd] at early ⊢
        rw [if_neg early]
        exact .refl _
  | advanced d' declared succeeded next built some inPlace =>
      cases hd.symm.trans declared
      rw [visitNode, succeeded]
      dsimp only
      rw [recoverSucceeded_eq e lease built]
      refine (same_read_bind (a := listNodes env w.workflowID db) (fun _ => rfl) _).trans ?_
      have hmissing : successorMissing (listNodes env w.workflowID db) next = false :=
        successorMissing_eq_false (howner ▸ inPlace)
      rw [recoverNext, if_pos ⟨by rw [hmissing]; rfl, some⟩]
      exact .refl _
  | settled d' declared state =>
      rw [visitNode]
      split
      · exact absurd (by assumption) state.1
      · exact absurd (by assumption) state.2.1
      · exact absurd (by assumption) state.2.2
      · exact .refl _

-- ============================================================================
-- Visits without progress
-- ============================================================================

/-- A program that reports progress at its end does not deny it. -/
theorem not_yields_false {α : Type} {p : EngineM α}
    (h : Prog.Yields (reading env) (p >>= fun _ => pure true).run db (some (.ok false)) db') : False := by
  rcases yieldsM_bind_iff.mp h with ⟨hr, -⟩ | ⟨_, hr, -⟩ | ⟨_, _, -, hr, -⟩
  · cases hr
  · cases hr
  · rcases hr with hr | hr
    · cases hr
    · cases hr

theorem yields_pure {α : Type} {a b : α}
    (h : Prog.Yields (reading env) (pure a : EngineM α).run db (some (.ok b)) db') :
    b = a ∧ db' = db := by
  obtain ⟨hr, rfl⟩ := h
  obtain hr | hr := hr
  · cases hr
  · cases hr
    exact ⟨rfl, rfl⟩

theorem joinReady_reads {workflowID : String} {iteration : Int} {dependencies : List String} {ready b : Bool}
    (h : Prog.Yields (reading env) (joinReady workflowID iteration ready dependencies).run db (some (.ok b)) db') :
    db' = db := by
  induction dependencies generalizing ready with
  | nil => exact (yields_pure h).2
  | cons dependency dependencies ih =>
      have hexec : ∀ amb, (Op.getNode ⟨workflowID, dependency, iteration⟩).exec env amb db =
          (getNode ⟨workflowID, dependency, iteration⟩ db, db) :=
        fun amb => exec_of_query (fun _ _ => rfl) amb db
      have h := (same_tryRead_bind hexec _ _ _).mp h
      split at h
      · split at h
        · exact ih h
        · exact (yields_pure h).2
      · exact (yields_pure h).2

/-- A visit without progress has only read. -/
theorem visitNode_reads
    (h : Prog.Yields (reading env) (e.visitNode w graph lease n d).run db (some (.ok false)) db') :
    db' = db := by
  rw [visitNode] at h
  split at h
  · rcases yieldsM_bind_iff.mp h with ⟨hr, -⟩ | ⟨_, hr, -⟩ | ⟨b, t, hready, h⟩
    · cases hr
    · cases hr
    · have hsame : t = db := by
        rw [nodeReady] at hready
        split at hready
        · exact joinReady_reads hready
        · exact (yields_pure hready).2
      subst hsame
      cases b with
      | true => exact (not_yields_false h).elim
      | false => exact (yields_pure h).2
  · rw [recoverActivity] at h
    split at h
    · exact (not_yields_false h).elim
    · dsimp only at h
      rcases yieldsM_bind_iff.mp h with ⟨hr, -⟩ | ⟨_, hr, -⟩ | ⟨a, t, hattempt, hrest⟩
      · cases hr
      · cases hr
      · obtain ⟨rfl, -⟩ := yields_query (f := getAttempt _) (fun _ _ => rfl) hattempt
        by_cases hrecorded : a.isCurrent = false ∧ a.state.isTerminal = true ∧ a.result.isSome = true
        · rw [if_pos hrecorded] at hrest
          exact (not_yields_false hrest).elim
        · rw [if_neg hrecorded] at hrest
          have hread := (same_read_bind (a := t.now) (fun _ => rfl) _ _ _).mp hrest
          by_cases hd : a.state = .dispatchable
          · rw [if_pos hd] at hread
            split at hread
            · split at hread
              · exact (yields_pure hread).2
              · exact (not_yields_false hread).elim
            · exact (not_yields_false hread).elim
          · rw [if_neg hd] at hread
            split at hread
            · exact (not_yields_false hread).elim
            · exact (yields_pure hread).2
  · cases hbuilt : recoverBuilds n d graph with
    | error err =>
        rw [recoverSucceeded_error e lease hbuilt] at h
        obtain ⟨hr | hr, -⟩ := h
        · cases hr
        · cases hr
    | ok next =>
        rw [recoverSucceeded_eq e lease hbuilt] at h
        have h := (same_read_bind (a := listNodes env w.workflowID db) (fun _ => rfl) _ _ _).mp h
        rw [recoverNext] at h
        split at h
        · exact (yields_pure h).2
        · exact (not_yields_false h).elim
  · exact (yields_pure h).2

-- ============================================================================
-- Scans
-- ============================================================================

open Classical in
/-- A scan comes to what it would without the visits that find nothing to do. -/
theorem same_visitNodes_filter {nodes : List NodeInstance} (h : ∀ n ∈ nodes, n.key.workflowID = w.workflowID) :
    Same (reading env) (e.visitNodes w graph lease nodes)
      (e.visitNodes w graph lease (nodes.filter (fun n => ¬ Idle e.externalActivities db graph n))) db := by
  induction nodes with
  | nil => exact .refl _
  | cons n nodes ih =>
      have ih := ih (fun m hm => h m (List.mem_cons_of_mem n hm))
      have howner := h n List.mem_cons_self
      cases hd : graph.find n.key.nodeID with
      | none =>
          have hbusy : ¬ Idle e.externalActivities db graph n := by
            rintro (⟨_, hsome⟩ | ⟨_, hsome⟩ | ⟨_, hsome⟩ | ⟨_, hsome⟩)
            all_goals
              rw [hd] at hsome
              cases hsome
          rw [List.filter_cons_of_pos (by simpa using hbusy), visitNodes, visitNodes, hd]
          exact .refl _
      | some d =>
          by_cases hidle : Idle e.externalActivities db graph n
          · rw [List.filter_cons_of_neg (by simpa using hidle), visitNodes_cons e lease hd]
            have hvisit : Same (reading env) (e.visitNode w graph lease n d) (pure false) db :=
              same_visitNode e lease hidle howner hd
            exact (Same.bind hvisit (fun _ _ _ => .refl _)).trans ih
          · rw [List.filter_cons_of_pos (by simpa using hidle), visitNodes_cons e lease hd,
              visitNodes_cons e lease hd]
            refine .bind (.refl _) (fun b t hvisit => ?_)
            cases b with
            | true => exact .refl _
            | false =>
                obtain rfl := visitNode_reads e lease hvisit
                exact ih

/-- The read of a node's timer. -/
theorem exec_pendingTimer (howner : n.key.workflowID = w.workflowID) (amb : Ambient) :
    (Op.pendingTimer ⟨w.workflowID, n.key.nodeID, n.key.iteration⟩).exec env amb db =
      (.ok (db.pendingTimer n.key), db) := by
  rw [← howner]
  rfl

/-- A node whose timer is not due is passed over. -/
theorem same_advanceDueTimer_cons {nodes : List NodeInstance} (howner : n.key.workflowID = w.workflowID)
    (hdue : ¬ TimerDue db n) :
    Same (reading env) (e.advanceDueTimer w lease (n :: nodes)) (e.advanceDueTimer w lease nodes) db := by
  rw [advanceDueTimer]
  split
  · exact .refl _
  · rename_i hwaiting
    refine (same_read_bind (exec_pendingTimer howner) _).trans ?_
    refine (same_read_bind (a := db.now) (fun _ => rfl) _).trans ?_
    rw [if_neg (fun hfired => hdue ⟨not_not.mp hwaiting, hfired⟩)]
    exact .refl _

/-- The first timer that is due ends the scan. -/
theorem same_advanceDueTimer_due {nodes : List NodeInstance} (howner : n.key.workflowID = w.workflowID)
    (hdue : TimerDue db n) :
    Same (reading env) (e.advanceDueTimer w lease (n :: nodes))
      (store (.applyOwnerTransition (e.dueInput w n.key lease)) >>= fun _ => pure true) db := by
  rw [advanceDueTimer, if_neg (not_not.mpr hdue.1)]
  refine (same_read_bind (exec_pendingTimer howner) _).trans ?_
  refine (same_read_bind (a := db.now) (fun _ => rfl) _).trans ?_
  rw [if_pos hdue.2]
  exact .refl _

open Classical in
theorem same_advanceDueTimer_filter {nodes : List NodeInstance} (h : ∀ n ∈ nodes, n.key.workflowID = w.workflowID) :
    Same (reading env) (e.advanceDueTimer w lease nodes)
      (e.advanceDueTimer w lease (nodes.filter (fun n => TimerDue db n))) db := by
  induction nodes with
  | nil => exact .refl _
  | cons n nodes ih =>
      have howner := h n List.mem_cons_self
      by_cases hdue : TimerDue db n
      · rw [List.filter_cons_of_pos (by simpa using hdue)]
        exact (same_advanceDueTimer_due e lease howner hdue).trans
          (same_advanceDueTimer_due e lease howner hdue).symm
      · rw [List.filter_cons_of_neg (by simpa using hdue)]
        exact (same_advanceDueTimer_cons e lease howner hdue).trans (ih (fun m hm => h m (List.mem_cons_of_mem n hm)))

/-- Without progress there was no timer due. -/
theorem advanceDueTimer_reads {nodes : List NodeInstance} (h : ∀ n ∈ nodes, n.key.workflowID = w.workflowID)
    (hends : Prog.Yields (reading env) (e.advanceDueTimer w lease nodes).run db (some (.ok false)) db') :
    db' = db ∧ ∀ n ∈ nodes, ¬ TimerDue db n := by
  induction nodes with
  | nil => exact ⟨(yields_pure hends).2, fun n hn => absurd hn List.not_mem_nil⟩
  | cons n nodes ih =>
      have howner := h n List.mem_cons_self
      by_cases hdue : TimerDue db n
      · exact (not_yields_false ((same_advanceDueTimer_due e lease howner hdue _ _).mp hends)).elim
      · obtain ⟨rfl, hrest⟩ := ih (fun m hm => h m (List.mem_cons_of_mem n hm))
          ((same_advanceDueTimer_cons e lease howner hdue _ _).mp hends)
        refine ⟨rfl, fun m hm => ?_⟩
        rcases List.mem_cons.mp hm with rfl | hm
        · exact hdue
        · exact hrest m hm

end Visits

-- ============================================================================
-- One node at most
-- ============================================================================

/-- A node of the workflow. -/
def NodeOf (db : DB) (workflowID : String) (n : NodeInstance) : Prop :=
  db.nodes.get n.key = some n ∧ n.key.workflowID = workflowID

/-- At most one timer of the workflow is due, and without one at most one node has something to do. -/
structure OneMoves (external : Bool) (db : DB) (workflowID : String) : Prop where
  timers : ∀ n m, NodeOf db workflowID n → NodeOf db workflowID m → TimerDue db n → TimerDue db m → n = m
  visits : (∀ n, NodeOf db workflowID n → ¬ TimerDue db n) → ∀ graph, GraphOf db workflowID graph →
    ∀ n m, NodeOf db workflowID n → NodeOf db workflowID m → ¬ Idle external db graph n →
      ¬ Idle external db graph m → n = m

/-- Of a list with at most one element that counts, the order does not matter. -/
theorem filter_eq_of_perm {α : Type} {l l' : List α} (h : l.Perm l') (hnodup : l.Nodup) {p : α → Bool}
    (hone : ∀ a ∈ l, ∀ b ∈ l, p a = true → p b = true → a = b) : l.filter p = l'.filter p := by
  have hperm := h.filter p
  cases hl : l.filter p with
  | nil =>
      rw [hl] at hperm
      exact (List.nil_perm.mp hperm).symm
  | cons a rest =>
      have hmem : ∀ b ∈ a :: rest, b ∈ l ∧ p b = true := fun b hb => List.mem_filter.mp (hl ▸ hb)
      have hrest : rest = [] := by
        refine List.eq_nil_iff_forall_not_mem.mpr (fun b hb => ?_)
        obtain ⟨ha, hpa⟩ := hmem a List.mem_cons_self
        obtain ⟨hb', hpb⟩ := hmem b (List.mem_cons_of_mem a hb)
        have hnd := hnodup.filter p
        rw [hl, hone a ha b hb' hpa hpb] at hnd
        exact (List.nodup_cons.mp hnd).1 hb
      subst hrest
      rw [hl] at hperm
      exact List.singleton_perm.mp hperm

section Order

variable {env : Env} (c : String → String → Bool) {α β : Type} {db : DB}

theorem listNodes_owner {workflowID : String} : ∀ n ∈ listNodes env workflowID db, n.key.workflowID = workflowID :=
  fun _ hn => (mem_listNodes.mp hn).2

/-- The listed nodes that count are the same in every order, if at most one does. -/
theorem filter_listNodes {workflowID : String} {p : NodeInstance → Bool}
    (hone : ∀ n m, NodeOf db workflowID n → NodeOf db workflowID m → p n = true → p m = true → n = m) :
    (listNodes env workflowID db).filter p = (listNodes (env.withCollation c) workflowID db).filter p :=
  filter_eq_of_perm (listNodes_perm env c workflowID db) (nodup_listNodes env workflowID db).of_map
    (fun n hn m hm => hone n m (mem_listNodes.mp hn) (mem_listNodes.mp hm))

theorem follows_store (op : Op α) (hop : op.lists = false) :
    ∀ b t, (reading env).exec (.store op) db b t →
      ∃ b', SameReply b b' ∧ (reading (env.withCollation c)).exec (.store op) db b' t := by
  rintro b t ⟨amb, hexec⟩
  obtain ⟨hreply, hdb⟩ := Op.exec_withCollation env c amb op db hop
  rw [hexec] at hreply hdb
  exact ⟨_, hreply, amb, Prod.ext rfl hdb⟩

/-- A call that lists no nodes ends in the same way in every order. -/
theorem alike_store (op : Op α) (hop : op.lists = false) :
    Alike (reading env) (reading (env.withCollation c)) (store op) (store op) db :=
  .call (follows_store c op hop) (@follows_store (env.withCollation c) env.collation α db op hop)

/-- A call with the very same reply in every order. -/
theorem alike_tryStore (op : Op α) (h : ∀ amb, op.exec (env.withCollation c) amb db = op.exec env amb db) :
    Alike (reading env) (reading (env.withCollation c)) (tryStore op) (tryStore op) db := by
  refine .lift (fun r t => ?_)
  have hexec : ∀ b t, (reading env).exec (.store op) db b t ↔
      (reading (env.withCollation c)).exec (.store op) db b t :=
    fun b t => exists_congr fun amb => by rw [h amb]
  exact or_congr Iff.rfl (exists_congr fun b => exists_congr fun t' => and_congr (hexec b t') Iff.rfl)

theorem alike_localCheck (x : Except String α) :
    Alike (reading env) (reading (env.withCollation c)) (localCheck x) (localCheck x) db := by
  unfold localCheck
  split
  · exact .pure _
  · exact .throw _ _

theorem alike_driver (activity : Activity) (p : Prog SinkCall α) :
    Alike (reading env) (reading (env.withCollation c)) (ExceptT.lift (driverCalls activity p) : EngineM α)
      (ExceptT.lift (driverCalls activity p)) db := by
  refine .lift ?_
  induction p generalizing db with
  | done a => exact fun r t => Iff.rfl
  | call op k ih =>
      cases op with
      | save sequence schemaVersion payload =>
          exact fun r t => or_congr Iff.rfl (exists_congr fun b => exists_congr fun t' => and_congr Iff.rfl (ih _ r t))
      | load =>
          exact fun r t => or_congr Iff.rfl (exists_congr fun b => exists_congr fun t' => and_congr Iff.rfl (ih _ r t))

end Order

-- ============================================================================
-- The programs of a pass
-- ============================================================================

section Programs

variable {env : Env} (c : String → String → Bool) (e : Engine) {db : DB}

theorem alike_consumeRecordedResult (key : NodeKey) (attemptNumber : Int) (attemptState : AttemptState)
    (retryAfter : Int) (lease : LeaseRef) :
    Alike (reading env) (reading (env.withCollation c))
      (e.consumeRecordedResult key attemptNumber attemptState retryAfter lease)
      (e.consumeRecordedResult key attemptNumber attemptState retryAfter lease) db :=
  .bind (alike_store c _ rfl) (fun _ _ _ => .bind (alike_store c _ rfl) (fun _ _ _ => .pure _))

theorem alike_executeAttempt (node : NodeInstance) (definitionNode : Node) (attempt : Attempt) (lease : LeaseRef) :
    Alike (reading env) (reading (env.withCollation c)) (e.executeAttempt node definitionNode attempt lease)
      (e.executeAttempt node definitionNode attempt lease) db := by
  refine .bind ?_ (fun claim _ _ => ?_)
  · unfold claimFor
    split
    · exact alike_store c _ rfl
    · exact .pure _
  · split
    · exact .throw _ _
    · refine .bind (alike_driver c _ _) (fun returned _ _ => .bind (alike_store c _ rfl) (fun _ _ _ => ?_))
      exact alike_consumeRecordedResult c e _ _ _ _ _

theorem alike_startActivity (workflow : Workflow) (node : NodeInstance) (definitionNode : Node) (lease : LeaseRef) :
    Alike (reading env) (reading (env.withCollation c)) (e.startActivity workflow node definitionNode lease)
      (e.startActivity workflow node definitionNode lease) db := by
  unfold startActivity
  refine .bind (.bind (alike_tryStore c _ (fun _ => rfl)) (fun _ _ _ => .pure _)) (fun effect _ _ => ?_)
  split
  · exact .throw _ _
  · refine .bind (alike_store c _ rfl) (fun attempt _ _ => ?_)
    split
    · exact .pure _
    · exact alike_executeAttempt c e _ _ _ _

theorem alike_advanceFromControl (workflow : Workflow) (node : NodeInstance) (d : Node) (graph : Graph)
    (lease : LeaseRef) :
    Alike (reading env) (reading (env.withCollation c)) (e.advanceFromControl workflow node d graph lease)
      (e.advanceFromControl workflow node d graph lease) db := by
  exact .bind (alike_localCheck c _) (fun _ _ _ => .bind (alike_store c _ rfl) (fun _ _ _ => .pure _))

theorem alike_runNode (workflow : Workflow) (node : NodeInstance) (d : Node) (graph : Graph) (lease : LeaseRef) :
    Alike (reading env) (reading (env.withCollation c)) (e.runNode workflow node d graph lease)
      (e.runNode workflow node d graph lease) db := by
  have hcall : ∀ {α : Type} (op : Op α), op.lists = false →
      Alike (reading env) (reading (env.withCollation c)) (store op >>= fun _ => pure () : EngineM Unit)
        (store op >>= fun _ => pure ()) db :=
    fun op hop => .bind (alike_store c op hop) (fun _ _ _ => .pure _)
  unfold runNode
  split
  · refine .bind (alike_store c _ rfl) (fun _ _ _ => .bind (alike_store c _ rfl) (fun w _ _ => ?_))
    exact alike_startActivity c e _ _ _ _
  · split
    · exact hcall _ rfl
    · split
      · exact alike_advanceFromControl c e _ _ _ _ _
      · split
        · split
          · exact hcall _ rfl
          · exact alike_advanceFromControl c e _ _ _ _ _
        · split
          · exact hcall _ rfl
          · split
            · exact hcall _ rfl
            · exact .throw _ _

theorem alike_recoverActivity (workflow : Workflow) (node : NodeInstance) (d : Node) (lease : LeaseRef) :
    Alike (reading env) (reading (env.withCollation c)) (e.recoverActivity workflow node d lease)
      (e.recoverActivity workflow node d lease) db := by
  unfold recoverActivity
  split
  · exact .bind (alike_startActivity c e _ _ _ _) (fun _ _ _ => .pure _)
  · refine .bind (alike_store c _ rfl) (fun attempt _ _ => ?_)
    split
    · exact .bind (alike_consumeRecordedResult c e _ _ _ _ _) (fun _ _ _ => .pure _)
    · refine .bind (alike_store c _ rfl) (fun now _ _ => ?_)
      split
      · split
        · split
          · exact .pure _
          · exact .bind (alike_store c _ rfl) (fun _ _ _ => .pure _)
        · exact .bind (alike_executeAttempt c e _ _ _ _) (fun _ _ _ => .pure _)
      · split
        · exact .bind (alike_store c _ rfl) (fun _ _ _ => .pure _)
        · exact .pure _

/-- The recovery only asks which nodes are listed. -/
theorem alike_recoverSucceeded (workflow : Workflow) (node : NodeInstance) (d : Node) (graph : Graph)
    (lease : LeaseRef) :
    Alike (reading env) (reading (env.withCollation c)) (e.recoverSucceeded workflow node d graph lease)
      (e.recoverSucceeded workflow node d graph lease) db := by
  cases hbuilt : recoverBuilds node d graph with
  | error err =>
      rw [recoverSucceeded_error e lease hbuilt]
      exact .throw _ _
  | ok next =>
      rw [recoverSucceeded_eq e lease hbuilt]
      have hmissing : successorMissing (listNodes (env.withCollation c) workflow.workflowID db) next =
          successorMissing (listNodes env workflow.workflowID db) next := by
        unfold successorMissing
        congr 1
        funext item
        rw [(listNodes_perm env c workflow.workflowID db).any_eq]
      refine .congr ?_ (same_read_bind (a := listNodes env workflow.workflowID db) (fun _ => rfl) _)
        (same_read_bind (a := listNodes (env.withCollation c) workflow.workflowID db) (fun _ => rfl) _)
      rw [recoverNext, recoverNext, hmissing]
      split
      · exact .pure _
      · exact .bind (alike_store c _ rfl) (fun _ _ _ => .pure _)

theorem alike_joinReady (workflowID : String) (iteration : Int) (ready : Bool) (dependencies : List String) :
    Alike (reading env) (reading (env.withCollation c)) (joinReady workflowID iteration ready dependencies)
      (joinReady workflowID iteration ready dependencies) db := by
  induction dependencies generalizing ready db with
  | nil => exact .pure _
  | cons dependency dependencies ih =>
      refine .bind (alike_tryStore c _ (fun _ => rfl)) (fun reply _ _ => ?_)
      split
      · split
        · exact ih _
        · exact .pure _
      · exact .pure _

theorem alike_visitNode (workflow : Workflow) (graph : Graph) (lease : LeaseRef) (node : NodeInstance) (d : Node) :
    Alike (reading env) (reading (env.withCollation c)) (e.visitNode workflow graph lease node d)
      (e.visitNode workflow graph lease node d) db := by
  unfold visitNode
  split
  · refine .bind ?_ (fun ready _ _ => ?_)
    · unfold nodeReady
      split
      · exact alike_joinReady c _ _ _ _
      · exact .pure _
    · split
      · exact .bind (alike_runNode c e _ _ _ _ _) (fun _ _ _ => .pure _)
      · exact .pure _
  · exact alike_recoverActivity c e _ _ _ _
  · exact alike_recoverSucceeded c e _ _ _ _ _
  · exact .pure _

theorem alike_visitNodes (workflow : Workflow) (graph : Graph) (lease : LeaseRef) (nodes : List NodeInstance) :
    Alike (reading env) (reading (env.withCollation c)) (e.visitNodes workflow graph lease nodes)
      (e.visitNodes workflow graph lease nodes) db := by
  induction nodes generalizing db with
  | nil => exact .pure _
  | cons node nodes ih =>
      rw [visitNodes]
      split
      · exact .throw _ _
      · refine .bind (alike_visitNode c e _ _ _ _ _) (fun progress _ _ => ?_)
        split
        · exact .pure _
        · exact ih

theorem alike_advanceDueTimer (workflow : Workflow) (lease : LeaseRef) (nodes : List NodeInstance) :
    Alike (reading env) (reading (env.withCollation c)) (e.advanceDueTimer workflow lease nodes)
      (e.advanceDueTimer workflow lease nodes) db := by
  induction nodes generalizing db with
  | nil => exact .pure _
  | cons node nodes ih =>
      rw [advanceDueTimer]
      split
      · exact ih
      · refine .bind (alike_store c _ rfl) (fun timer _ _ => .bind (alike_store c _ rfl) (fun now _ _ => ?_))
        split
        · exact .bind (alike_store c _ rfl) (fun _ _ _ => .pure _)
        · exact ih

-- ============================================================================
-- The listed nodes in another order
-- ============================================================================

/-- While at most one timer is due, the same one is advanced in every order. -/
theorem alike_timers {workflow : Workflow} (lease : LeaseRef)
    (h : OneMoves e.externalActivities db workflow.workflowID) :
    Alike (reading env) (reading (env.withCollation c))
      (e.advanceDueTimer workflow lease (listNodes env workflow.workflowID db))
      (e.advanceDueTimer workflow lease (listNodes (env.withCollation c) workflow.workflowID db)) db := by
  refine (alike_advanceDueTimer c e workflow lease _).congr (same_advanceDueTimer_filter e lease listNodes_owner) ?_
  rw [filter_listNodes c (fun n m hn hm hdue hdue' =>
    h.timers n m hn hm (by simpa using hdue) (by simpa using hdue'))]
  exact same_advanceDueTimer_filter e lease listNodes_owner

/-- While at most one node has something to do, it is visited in every order. -/
theorem alike_visits {workflow : Workflow} {graph : Graph} (lease : LeaseRef)
    (h : OneMoves e.externalActivities db workflow.workflowID)
    (hdue : ∀ n, NodeOf db workflow.workflowID n → ¬ TimerDue db n) (hgraph : GraphOf db workflow.workflowID graph) :
    Alike (reading env) (reading (env.withCollation c))
      (e.visitNodes workflow graph lease (listNodes env workflow.workflowID db))
      (e.visitNodes workflow graph lease (listNodes (env.withCollation c) workflow.workflowID db)) db := by
  refine (alike_visitNodes c e workflow graph lease _).congr (same_visitNodes_filter e lease listNodes_owner) ?_
  rw [filter_listNodes c (fun n m hn hm hbusy hbusy' => h.visits hdue graph hgraph n m hn hm
    (by simpa using hbusy) (by simpa using hbusy'))]
  exact same_visitNodes_filter e lease listNodes_owner

end Programs

end DurableEngine.Engine
