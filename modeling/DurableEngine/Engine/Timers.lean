/-
  DurableEngine.Engine.Timers

  The timers of the nodes.

  A node that waits for a timer has one timer that is not consumed, and no other
  node has one, as long as a timer is fired while the workflow of its node
  waits for timers, and a workflow is canceled while no node of it does.  The
  store consumes a timer in no other case.
-/

import DurableEngine.Engine.Branches
import DurableEngine.Engine.Turns

namespace DurableEngine.Engine

open Lib State

-- ============================================================================
-- Discipline
-- ============================================================================

/-- A timer of the node that is not consumed. -/
def Pending (db : DB) (k : NodeKey) (t : Timer) : Prop := t ∈ db.timers.rows ∧ t.pendingFor k = true

/-- The node waits for a timer. -/
def WaitsTimer (db : DB) (k : NodeKey) : Prop :=
  ∃ n, db.nodes.get k = some n ∧ n.state = .waitingTimer

/-- A timer that a timer node was scheduled with. -/
def OfNode (db : DB) (k : NodeKey) (t : Timer) : Prop :=
  t ∈ db.timers.rows ∧ t.node = k ∧ t.purpose = .workflowTimer

/-- The node has gone on after its timer. -/
def timerFired (db : DB) (k : NodeKey) : Bool := (db.nodes.get k).any (·.timerFired)

/-- A node has a timer that is not consumed if and only if it waits for one, and then one, which is
    due at its deadline; it has one timer of its own after it has gone on, and none or one before. -/
structure TimersOf (db : DB) (k : NodeKey) : Prop where
  unique : ∀ t t', Pending db k t → Pending db k t' → t = t'
  waits : ∀ t, Pending db k t → ∃ n, db.nodes.get k = some n ∧ n.state = .waitingTimer ∧
    n.deadlineAt = some t.dueAt
  timed : WaitsTimer db k → ∃ t, Pending db k t
  once : ∀ t t', OfNode db k t → OfNode db k t' → t = t'
  fired : ∀ t, OfNode db k t → t.consumedAt ≠ none → timerFired db k = true
  consumed : timerFired db k = true → ∃ t, OfNode db k t ∧ t.consumedAt ≠ none

theorem TimersOf.pending_iff {db : DB} {k : NodeKey} (h : TimersOf db k) :
    (∃ t, Pending db k t) ↔ WaitsTimer db k := by
  constructor
  · rintro ⟨t, ht⟩
    obtain ⟨n, hn, hstate, -⟩ := h.waits t ht
    exact ⟨n, hn, hstate⟩
  · exact h.timed

/-- The operation fires the timer of a node whose workflow does not wait for timers. -/
def FiresUntimed {α : Type} (op : Op α) (db : DB) : Prop :=
  match op with
  | .applyOwnerTransition input => WaitsTimer db input.key ∧
      ∃ w, db.workflows.get input.workflowID = some w ∧ w.state ≠ .waitingTimer
  | _ => False

/-- The operation cancels a workflow with a node that waits for a timer. -/
def CancelsWaiting {α : Type} (op : Op α) (db : DB) : Prop :=
  ∃ w k, op.cancels db w ∧ k.workflowID = w.workflowID ∧ WaitsTimer db k

def KeepsTimers (α : Type) (op : Op α) (db : DB) : Prop := ¬ FiresUntimed op db ∧ ¬ CancelsWaiting op db

-- ============================================================================
-- Moves
-- ============================================================================

/-- The deadline of a node that waits for a timer. -/
def waitOf (o : Option NodeInstance) : Option (Option Int) :=
  o.bind fun n => if n.state = .waitingTimer then some n.deadlineAt else none

/-- What an operation does to the timers of a node, and to the node for them. -/
inductive TimerMove (db db' : DB) (k : NodeKey) : Prop where
  | kept (rows : ∀ t, t.node = k → (t ∈ db'.timers.rows ↔ t ∈ db.timers.rows))
      (wait : waitOf (db'.nodes.get k) = waitOf (db.nodes.get k))
      (flag : timerFired db' k = timerFired db k)
  | started (t : Timer) (pending : t.pendingFor k = true)
      (rows : ∀ t', t' ∈ db'.timers.rows ↔ t' ∈ db.timers.rows ∨ t' = t)
      (before : waitOf (db.nodes.get k) = none)
      (after : waitOf (db'.nodes.get k) = some (some t.dueAt))
      (flag : timerFired db' k = timerFired db k)
      (unfired : t.purpose = .workflowTimer → timerFired db k = false)
  | fired (t : Timer) (pending : Pending db k t) (due : t.dueAt ≤ db.now)
      (rows : ∀ t', t' ∈ db'.timers.rows ↔
        t' ∈ db.timers.rows ∧ t' ≠ t ∨ t' = { t with consumedAt := some db.now })
      (after : ∃ n, db'.nodes.get k = some n ∧ n.state = .runnable)
      (flag : timerFired db' k = (decide (t.purpose = .workflowTimer) || timerFired db k))

theorem waitOf_eq_some {db : DB} {k : NodeKey} {deadline : Option Int} :
    waitOf (db.nodes.get k) = some deadline ↔
      ∃ n, db.nodes.get k = some n ∧ n.state = .waitingTimer ∧ n.deadlineAt = deadline := by
  unfold waitOf
  rw [Option.bind_eq_some_iff]
  refine exists_congr fun n => and_congr_right fun _ => ?_
  split
  · rename_i hstate
    simp [hstate]
  · rename_i hstate
    simp [hstate]

theorem waitOf_eq_none {db : DB} {k : NodeKey} : waitOf (db.nodes.get k) = none ↔ ¬ WaitsTimer db k := by
  rw [Option.eq_none_iff_forall_ne_some]
  constructor
  · rintro h ⟨n, hn, hstate⟩
    exact h n.deadlineAt (waitOf_eq_some.mpr ⟨n, hn, hstate, rfl⟩)
  · intro h deadline hwait
    obtain ⟨n, hn, hstate, -⟩ := waitOf_eq_some.mp hwait
    exact h ⟨n, hn, hstate⟩

/-- A timer is inserted. -/
theorem mem_rows_of_inserted {db db' : DB} {t t' : Timer} (h : Inserted db.timers t db'.timers) :
    t' ∈ db'.timers.rows ↔ t' ∈ db.timers.rows ∨ t' = t := by
  rw [(Table.insert?_eq_some_iff.mp h).2]
  simp

/-- A timer is consumed. -/
theorem mem_rows_consumeTimer {db : DB} {t t' : Timer} (ht : t ∈ db.timers.rows)
    (hpending : t.consumedAt = none) :
    t' ∈ (consumeTimer db (some t)).timers.rows ↔
      t' ∈ db.timers.rows ∧ t' ≠ t ∨ t' = { t with consumedAt := some db.now } := by
  have hget := Table.mem_rows_iff.mp ht
  rw [Table.mem_rows_iff, consumeTimer, DB.get_modifyTimer]
  by_cases hid : t'.timerID = t.timerID
  · rw [if_pos hid, hid, hget, Option.map_some, Option.some.injEq, hpending]
    constructor
    · rintro rfl
      exact .inr rfl
    · rintro (⟨hmem, hne⟩ | rfl)
      · have hget' := Table.mem_rows_iff.mp hmem
        rw [hid, hget, Option.some.injEq] at hget'
        exact absurd hget'.symm hne
      · rfl
  · rw [if_neg hid, Table.mem_rows_iff]
    constructor
    · intro hmem
      exact .inl ⟨hmem, fun heq => hid (by rw [heq])⟩
    · rintro (⟨hmem, -⟩ | rfl)
      · exact hmem
      · exact absurd rfl hid

/-- The timer that is due first is one of the pending ones. -/
theorem pending_of_pendingTimer {db : DB} {k : NodeKey} {t : Timer} (h : db.pendingTimer k = some t) :
    Pending db k t := by
  have hmem : ∀ (timers : List Timer) best, timers.foldl earlier best = some t →
      best = some t ∨ t ∈ timers := by
    intro timers
    induction timers with
    | nil => exact fun best h => .inl h
    | cons first timers ih =>
        intro best h
        obtain hbest | hrest := ih (earlier best first) h
        · unfold earlier at hbest
          split at hbest
          · cases hbest
            exact .inr List.mem_cons_self
          · split at hbest
            · cases hbest
              exact .inr List.mem_cons_self
            · exact .inl hbest
        · exact .inr (List.mem_cons_of_mem _ hrest)
  obtain hnone | hselected := hmem _ none h
  · cases hnone
  · exact Table.mem_select.mp hselected

/-- An owner transition that fires a timer. -/
theorem ownerTimer_eq_ok {db : DB} {input : OwnerTransitionInput} {state : WorkflowState}
    {timer : Option Timer} (h : ownerTimer db input state = .ok timer) :
    (¬ (state = .waitingTimer ∧ input.newState = .runnable) ∧ timer = none) ∨
      ∃ t, timer = some t ∧ Pending db input.key t ∧ t.dueAt ≤ db.now := by
  unfold ownerTimer at h
  split at h
  · simp only [bind_eq_ok, rejectIf_eq_ok, exists_const, getOr_eq_ok, pure_eq_ok] at h
    obtain ⟨-, t, ht, hdue, rfl⟩ := h
    exact .inr ⟨t, rfl, pending_of_pendingTimer ht, Int.not_lt.mp hdue⟩
  · rename_i hnot
    cases h
    exact .inl ⟨hnot, rfl⟩

theorem TimerMove.of_nodes {db db' : DB} {k : NodeKey} (htimers : db'.timers = db.timers)
    (hnode : db'.nodes.get k = db.nodes.get k) : TimerMove db db' k := by
  refine .kept (fun t _ => by rw [htimers]) (by rw [hnode]) ?_
  unfold timerFired
  rw [hnode]

/-- An operation that writes a node without touching timers, deadline and flag. -/
theorem TimerMove.of_modify {db db' : DB} {k key : NodeKey} {f : NodeInstance → NodeInstance}
    {hf : ∀ n, (f n).key = n.key} (htimers : db'.timers = db.timers)
    (hnodes : db'.nodes = (db.modifyNode key f hf).nodes)
    (hwait : ∀ n, db.nodes.get key = some n → waitOf (some (f n)) = waitOf (some n))
    (hflag : ∀ n, (f n).timerFired = n.timerFired) : TimerMove db db' k := by
  by_cases hk : k = key
  · subst hk
    have hget : db'.nodes.get k = (db.nodes.get k).map f := by
      rw [hnodes, DB.get_modifyNode, if_pos rfl]
    refine .kept (fun t _ => by rw [htimers]) ?_ ?_
    · rw [hget]
      cases hn : db.nodes.get k with
      | none => rfl
      | some n => exact hwait n hn
    · unfold timerFired
      rw [hget]
      cases db.nodes.get k with
      | none => rfl
      | some n => exact hflag n
  · exact .of_nodes htimers (by rw [hnodes, DB.get_modifyNode, if_neg hk])

-- ============================================================================
-- The moves of disciplined operations
-- ============================================================================

section Step

variable {db db' : DB} {α : Type} {op : Op α} {k : NodeKey}

/-- The node that an owner transition names. -/
theorem Moves.timerMove {input : OwnerTransitionInput} {w : Workflow} {row : TransitionRecord}
    {current : Option Int} {timer : Option Timer} (hok : Moves db input)
    (hkeeps : ¬ FiresUntimed (.applyOwnerTransition input) db)
    (c : Change.Owner db input w row current timer db') : TimerMove db db' k := by
  have hget : ∀ k, db'.nodes.get k = if k = input.key then
      (db.nodes.get k).map (fun n => n.ownerMove input w.state current (timer.map (·.purpose)))
      else db.nodes.get k := by
    intro k
    rw [c.nodes, moveOwnedNode_nodes]
  have hmove : input.newState ≠ .canceled → ∀ n : NodeInstance,
      n.ownerMove input w.state current (timer.map (·.purpose)) =
        (input.target.map (fun s => n.transition s (timer.map (·.purpose)))).getD n := by
    intro hnew n
    have hcancels : input.cancels w.state = false := by simp [OwnerTransitionInput.cancels, hnew]
    rw [NodeInstance.ownerMove, if_neg (by simp [hcancels])]
  have hidle : timer = none → db'.timers = db.timers := by
    rintro rfl
    exact c.timers
  cases hok with
  | pause newState nodeID nodeState =>
      have htimer : timer = none := by
        obtain ⟨-, hnone⟩ | ⟨t, rfl, -⟩ := ownerTimer_eq_ok c.due
        · exact hnone
        · have hdue := c.due
          simp [ownerTimer, newState] at hdue
      refine .of_nodes (hidle htimer) ?_
      rw [hget]
      split
      · cases db.nodes.get k with
        | none => rfl
        | some n =>
            rw [Option.map_some, hmove (by rw [newState]; decide)]
            simp [OwnerTransitionInput.target, nodeID, nodeState]
      · rfl
  | schedule newState nodeState node activity =>
      have htimer : timer = none := by
        obtain ⟨-, hnone⟩ | ⟨t, rfl, -⟩ := ownerTimer_eq_ok c.due
        · exact hnone
        · have hdue := c.due
          simp [ownerTimer, newState] at hdue
      by_cases hk : k = input.key
      · obtain ⟨n, hn, hrunnable⟩ := node
        have hn' : db'.nodes.get k = some (n.transition .waitingActivity (timer.map (·.purpose))) := by
          rw [hget, if_pos hk, hk, hn, Option.map_some, hmove (by rw [newState]; decide)]
          simp [OwnerTransitionInput.target, nodeState]
        refine .kept (fun t _ => by rw [hidle htimer]) ?_ ?_
        · rw [hn', hk, hn]
          simp [waitOf, NodeInstance.transition, hrunnable]
        · unfold timerFired
          rw [hn', hk, hn]
          simp [NodeInstance.transition]
      · exact .of_nodes (hidle htimer) (by rw [hget, if_neg hk])
  | fire newState nodeState node =>
      have hwaiting : w.state = .waitingTimer := by
        by_contra hstate
        exact hkeeps ⟨node, w, by rw [← c.workflow]; exact c.moves.get, hstate⟩
      obtain ⟨hnot, -⟩ | ⟨t, rfl, hpending, hdue⟩ := ownerTimer_eq_ok c.due
      · exact absurd ⟨hwaiting, newState⟩ hnot
      · have hopen := hpending.2
        simp only [Timer.pendingFor, Bool.and_eq_true, decide_eq_true_eq, Option.isNone_iff_eq_none] at hopen
        have hrows : ∀ t', t' ∈ db'.timers.rows ↔
            t' ∈ db.timers.rows ∧ t' ≠ t ∨ t' = { t with consumedAt := some db.now } := by
          intro t'
          rw [c.timers]
          exact mem_rows_consumeTimer hpending.1 hopen.2
        by_cases hk : k = input.key
        · subst hk
          obtain ⟨n, hn, -⟩ := node
          have hn' : db'.nodes.get input.key = some (n.transition .runnable (some t.purpose)) := by
            rw [hget, if_pos rfl, hn, Option.map_some, hmove (by rw [newState]; decide)]
            simp [OwnerTransitionInput.target, nodeState]
          refine .fired t hpending hdue hrows ⟨_, hn', rfl⟩ ?_
          unfold timerFired
          rw [hn', hn]
          by_cases hpurpose : t.purpose = .workflowTimer <;> simp [NodeInstance.transition, hpurpose]
        · have hnode : db'.nodes.get k = db.nodes.get k := by rw [hget, if_neg hk]
          refine .kept (fun t' ht' => ?_) (by rw [hnode]) (by unfold timerFired; rw [hnode])
          rw [hrows]
          constructor
          · rintro (⟨hmem, -⟩ | rfl)
            · exact hmem
            · exact absurd (ht'.symm.trans hopen.1) hk
          · intro hmem
            refine .inl ⟨hmem, ?_⟩
            rintro rfl
            exact hk (ht'.symm.trans hopen.1)

theorem TimerMove.of_created {n : NodeInstance} (htimers : db'.timers = db.timers)
    (hnone : db.nodes.get k = none) (hn : db'.nodes.get k = some n) (hfresh : n.isFresh) :
    TimerMove db db' k := by
  refine .kept (fun t _ => by rw [htimers]) ?_ ?_
  · rw [hn, hnone]
    simp [waitOf, hfresh.1]
  · unfold timerFired
    rw [hn, hnone]
    exact hfresh.2.2.2.1

/-- The source of an advancement does not wait for a timer, before or after it. -/
theorem Advances.timerMove {input : AdvanceGraphInput} {w : Workflow} {n : NodeInstance}
    {definition : Definition} {graph : DefinitionGraph} {source : DefinitionGraphNode}
    (hok : Advances db input) (c : Change.Advanced db input w n definition graph source db') :
    TimerMove db db' k := by
  have hget := c.nodes k
  by_cases hk : k = input.key
  · rw [if_pos hk] at hget
    have hn : db.nodes.get k = some n := hk ▸ c.node
    have hbefore : n.state ≠ .waitingTimer := by
      intro hwaiting
      by_cases hkind : source.kind = "activity"
      · rw [(checkSource_activity c.ready hkind).1] at hwaiting
        cases hwaiting
      · rw [checkSource_control c.ready hkind] at hwaiting
        cases hwaiting
    have hafter : input.nodeState ≠ .waitingTimer := by
      have hfinal : input.finalNodeState = none ∨ input.finalNodeState = some .failed := by
        cases hok with
        | activity _ _ _ _ _ _ _ _ _ final => exact .inl final.2
        | control _ _ _ _ _ _ _ _ _ _ final => exact final
      obtain hnone | hfailed := hfinal
      · rw [AdvanceGraphInput.nodeState, hnone]
        decide
      · rw [AdvanceGraphInput.nodeState, hfailed]
        decide
    refine .kept (fun t _ => by rw [c.timers]) ?_ ?_
    · rw [hget, hn]
      simp [waitOf, hbefore, hafter]
    · unfold timerFired
      rw [hget, hn]
      rfl
  · rw [if_neg hk] at hget
    cases hold : db.nodes.get k with
    | some m =>
        rw [hold, Option.some_or] at hget
        exact .of_nodes c.timers (hget.trans hold.symm)
    | none =>
        cases hnew : db'.nodes.get k with
        | none => exact .of_nodes c.timers (hnew.trans hold.symm)
        | some m => exact .of_created c.timers hold hnew (c.fresh k m hk hold hnew).1

/-- What a disciplined operation does to the timers of a node. -/
theorem Allowed.timerMove (hok : Allowed α op db) (hkeeps : KeepsTimers α op db)
    (hc : Change db op db') (hshaped : NodesShaped db) (k : NodeKey) : TimerMove db db' k := by
  have hstarted : ∀ {t : Timer}, Inserted db.timers t db'.timers → t.node ≠ k →
      db'.nodes.get k = db.nodes.get k → TimerMove db db' k := by
    intro t hins hne hnode
    refine .kept (fun t' ht' => ?_) (by rw [hnode]) (by unfold timerFired; rw [hnode])
    rw [mem_rows_of_inserted hins]
    exact ⟨fun h => h.resolve_right (fun heq => hne (heq ▸ ht')), .inl⟩
  cases hc with
  | idle rows => exact .of_nodes rows.timers (by rw [rows.nodes])
  | claimed c | extended c | recorded c | redispatched c | expired c =>
      exact .of_nodes c.timers (by rw [c.nodes])
  | @created _ input w n row c =>
      by_cases hk : k = n.key
      · exact .of_created c.timers (hk ▸ (Table.insert?_eq_some_iff.mp c.nodes).1)
          (hk ▸ Table.get_insert_self c.nodes) c.node.2
      · exact .of_nodes c.timers (Table.get_insert_ne c.nodes hk)
  | owner c => exact Moves.timerMove hok hkeeps.1 c
  | @consumed _ input w n a result newState nodeState retryAfter c =>
      have hwaiting := (hshaped _ n c.node).waiting _ c.current
      have hget : ∀ k, db'.nodes.get k = if k = input.key then (db.nodes.get k).map (·.consume nodeState result
          (retryAfter.map (fun delay => db.now + delay))) else db.nodes.get k := by
        intro k
        rw [c.nodes, DB.get_modifyNode]
      by_cases hk : k = input.key
      · subst hk
        have hn' : db'.nodes.get input.key = some (n.consume nodeState result
            (retryAfter.map (fun delay => db.now + delay))) := by
          rw [hget, if_pos rfl, c.node]
          rfl
        have hflag : timerFired db' input.key = timerFired db input.key := by
          unfold timerFired
          rw [hn', c.node]
          rfl
        have hbefore : waitOf (db.nodes.get input.key) = none := by
          rw [c.node]
          simp [waitOf, hwaiting]
        obtain ⟨hother, htimers⟩ | ⟨delay, t, hstate, hdelay, hins, hnode, hdue, hpurpose, hfresh⟩ := c.timers
        · refine .kept (fun t _ => by rw [htimers]) ?_ hflag
          rw [hbefore, hn']
          simp [waitOf, NodeInstance.consume, hother]
        · refine .started t (by simp [Timer.pendingFor, hnode, hfresh]) (fun t' => mem_rows_of_inserted hins)
            hbefore ?_ hflag (fun hworkflow => ?_)
          · rw [hn']
            simp [waitOf, NodeInstance.consume, hstate, hdelay, hdue]
          · rw [hpurpose] at hworkflow
            cases hworkflow
      · have hnode : db'.nodes.get k = db.nodes.get k := by rw [hget, if_neg hk]
        obtain ⟨-, htimers⟩ | ⟨delay, t, -, -, hins, hkey, -⟩ := c.timers
        · exact .of_nodes htimers hnode
        · exact hstarted hins (fun heq => hk (heq.symm.trans hkey)) hnode
  | attemptCreated c => exact .of_modify c.timers c.nodes (fun _ _ => rfl) (fun _ => rfl)
  | replaced c => exact .of_modify c.timers c.nodes (fun _ _ => rfl) (fun _ => rfl)
  | @timerScheduled _ input w n t c =>
      have hget : ∀ k, db'.nodes.get k = if k = input.key then (db.nodes.get k).map (fun n => { n with
          state := .waitingTimer, deadlineAt := some (db.now + input.delay), revision := n.revision + 1 })
          else db.nodes.get k := by
        intro k
        rw [c.nodes, DB.get_modifyNode]
      by_cases hk : k = input.key
      · subst hk
        obtain ⟨-, ⟨m, hm, hunfired⟩, -⟩ := hok
        cases c.node.symm.trans hm
        have hn' := hget input.key
        rw [if_pos rfl, hm, Option.map_some] at hn'
        refine .started t (by simp [Timer.pendingFor, c.timer]) (fun t' => mem_rows_of_inserted c.timers)
          ?_ ?_ ?_ (fun _ => ?_)
        · rw [hm]
          simp [waitOf, c.nodeRunnable]
        · rw [hn', c.timer.2.1]
          rfl
        · unfold timerFired
          rw [hn', hm]
          rfl
        · unfold timerFired
          rw [hm]
          exact hunfired
      · exact hstarted c.timers (fun heq => hk (heq.symm.trans c.timer.1)) (by rw [hget, if_neg hk])
  | @canceled _ _ _ w c cancels =>
      have hget := c.nodes k
      cases hn : db.nodes.get k with
      | none => exact .of_nodes c.timers (by rw [hget, hn]; rfl)
      | some n =>
          rw [hn, Option.map_some] at hget
          split at hget
          · rename_i hcancelable
            simp only [NodeInstance.cancelable, Bool.and_eq_true, decide_eq_true_eq] at hcancelable
            have hbefore : n.state ≠ .waitingTimer := fun hstate =>
              hkeeps.2 ⟨w, k, cancels, by rw [← hcancelable.1, Table.key_of_get hn], n, hn, hstate⟩
            refine .kept (fun t _ => by rw [c.timers]) ?_ ?_
            · rw [hget, hn]
              simp [waitOf, NodeInstance.settle, hbefore]
            · unfold timerFired
              rw [hget, hn]
              rfl
          · exact .of_nodes c.timers (hget.trans hn.symm)
  | advanced c => exact Advances.timerMove hok c
  | approvalRequested c | approvalGranted c | approvalRejected c => exact hok.elim

theorem node_of_pending {t : Timer} (h : t.pendingFor k = true) : t.node = k ∧ t.consumedAt = none := by
  simpa [Timer.pendingFor] using h

theorem pending_of_ofNode {t : Timer} (h : OfNode db k t) (hopen : t.consumedAt = none) :
    Pending db k t :=
  ⟨h.1, by simp [Timer.pendingFor, h.2.1, hopen]⟩

theorem TimersOf.waitOf {t : Timer} (hd : TimersOf db k) (ht : Pending db k t) :
    waitOf (db.nodes.get k) = some (some t.dueAt) :=
  waitOf_eq_some.mpr (hd.waits t ht)

theorem TimersOf.kept (hd : TimersOf db k)
    (rows : ∀ t, t.node = k → (t ∈ db'.timers.rows ↔ t ∈ db.timers.rows))
    (wait : Engine.waitOf (db'.nodes.get k) = Engine.waitOf (db.nodes.get k))
    (flag : timerFired db' k = timerFired db k) : TimersOf db' k := by
  have hpending : ∀ t, Pending db' k t ↔ Pending db k t := fun t =>
    and_congr_left fun hp => rows t (node_of_pending hp).1
  have hof : ∀ t, OfNode db' k t ↔ OfNode db k t := fun t => and_congr_left fun hp => rows t hp.1
  refine ⟨fun t t' ht ht' => hd.unique t t' ((hpending t).mp ht) ((hpending t').mp ht'), fun t ht => ?_,
    fun hwaits => ?_, fun t t' ht ht' => hd.once t t' ((hof t).mp ht) ((hof t').mp ht'), fun t ht hdone => ?_,
    fun hfired => ?_⟩
  · rw [← waitOf_eq_some, wait]
    exact hd.waitOf ((hpending t).mp ht)
  · have hbefore : WaitsTimer db k := by
      by_contra hnot
      rw [← waitOf_eq_none, ← wait, waitOf_eq_none] at hnot
      exact hnot hwaits
    exact (hd.timed hbefore).imp fun t ht => (hpending t).mpr ht
  · rw [flag]
    exact hd.fired t ((hof t).mp ht) hdone
  · rw [flag] at hfired
    exact (hd.consumed hfired).imp fun t ht => ⟨(hof t).mpr ht.1, ht.2⟩

theorem TimersOf.started (hd : TimersOf db k) {t : Timer} (pending : t.pendingFor k = true)
    (rows : ∀ t', t' ∈ db'.timers.rows ↔ t' ∈ db.timers.rows ∨ t' = t)
    (before : Engine.waitOf (db.nodes.get k) = none)
    (after : Engine.waitOf (db'.nodes.get k) = some (some t.dueAt))
    (flag : timerFired db' k = timerFired db k)
    (unfired : t.purpose = .workflowTimer → timerFired db k = false) : TimersOf db' k := by
  have hnone : ∀ t', ¬ Pending db k t' := by
    intro t' ht'
    rw [hd.waitOf ht'] at before
    cases before
  have hfirst : t.purpose = .workflowTimer → ∀ t', ¬ OfNode db k t' := by
    intro hpurpose t' ht'
    by_cases hopen : t'.consumedAt = none
    · exact hnone t' (pending_of_ofNode ht' hopen)
    · have hfired := hd.fired t' ht' hopen
      rw [unfired hpurpose] at hfired
      cases hfired
  have honly : ∀ t', Pending db' k t' → t' = t := fun t' ht' =>
    ((rows t').mp ht'.1).resolve_left fun hmem => hnone t' ⟨hmem, ht'.2⟩
  have hof : ∀ t', OfNode db' k t' → OfNode db k t' ∨ t' = t := fun t' ht' =>
    ((rows t').mp ht'.1).imp_left fun hmem => ⟨hmem, ht'.2⟩
  refine ⟨fun t₁ t₂ h₁ h₂ => (honly t₁ h₁).trans (honly t₂ h₂).symm, fun t' ht' => ?_,
    fun _ => ⟨t, (rows t).mpr (.inr rfl), pending⟩, fun t₁ t₂ h₁ h₂ => ?_, fun t' ht' hdone => ?_,
    fun hfired => ?_⟩
  · rw [honly t' ht', ← waitOf_eq_some]
    exact after
  · obtain hold₁ | rfl := hof t₁ h₁
    · obtain hold₂ | rfl := hof t₂ h₂
      · exact hd.once t₁ t₂ hold₁ hold₂
      · exact absurd hold₁ (hfirst h₂.2.2 t₁)
    · obtain hold₂ | rfl := hof t₂ h₂
      · exact absurd hold₂ (hfirst h₁.2.2 t₂)
      · rfl
  · obtain hold | rfl := hof t' ht'
    · rw [flag]
      exact hd.fired t' hold hdone
    · exact absurd (node_of_pending pending).2 hdone
  · rw [flag] at hfired
    obtain ⟨t', ht', hdone⟩ := hd.consumed hfired
    exact ⟨t', ⟨(rows t').mpr (.inl ht'.1), ht'.2⟩, hdone⟩

theorem TimersOf.fires (hd : TimersOf db k) {t : Timer} (pending : Pending db k t)
    (rows : ∀ t', t' ∈ db'.timers.rows ↔
      t' ∈ db.timers.rows ∧ t' ≠ t ∨ t' = { t with consumedAt := some db.now })
    (after : ∃ n, db'.nodes.get k = some n ∧ n.state = .runnable)
    (flag : timerFired db' k = (decide (t.purpose = .workflowTimer) || timerFired db k)) :
    TimersOf db' k := by
  have hnone : ∀ t', ¬ Pending db' k t' := by
    intro t' ht'
    obtain ⟨hmem, hne⟩ | rfl := (rows t').mp ht'.1
    · exact hne (hd.unique t' t ⟨hmem, ht'.2⟩ pending)
    · cases (node_of_pending ht'.2).2
  have hof : ∀ t', OfNode db' k t' → OfNode db k t' ∧ t' ≠ t ∨ t' = { t with consumedAt := some db.now } :=
    fun t' ht' => ((rows t').mp ht'.1).imp_left fun hmem => ⟨⟨hmem.1, ht'.2⟩, hmem.2⟩
  have hnode := (node_of_pending pending.2).1
  have hself : t.purpose = .workflowTimer → OfNode db k t := fun hpurpose => ⟨pending.1, hnode, hpurpose⟩
  refine ⟨fun t₁ _ h₁ => absurd h₁ (hnone t₁), fun t' ht' => absurd ht' (hnone t'), fun hwaits => ?_,
    fun t₁ t₂ h₁ h₂ => ?_, fun t' ht' hdone => ?_, fun hfired => ?_⟩
  · obtain ⟨n, hn, hrunnable⟩ := after
    obtain ⟨m, hm, hwaiting⟩ := hwaits
    rw [hn, Option.some.injEq] at hm
    rw [← hm, hrunnable] at hwaiting
    cases hwaiting
  · obtain ⟨hold₁, hne₁⟩ | rfl := hof t₁ h₁
    · obtain ⟨hold₂, -⟩ | rfl := hof t₂ h₂
      · exact hd.once t₁ t₂ hold₁ hold₂
      · exact absurd (hd.once t₁ t hold₁ (hself h₂.2.2)) hne₁
    · obtain ⟨hold₂, hne₂⟩ | rfl := hof t₂ h₂
      · exact absurd (hd.once t₂ t hold₂ (hself h₁.2.2)) hne₂
      · rfl
  · rw [flag, Bool.or_eq_true, decide_eq_true_eq]
    obtain ⟨hold, -⟩ | rfl := hof t' ht'
    · exact .inr (hd.fired t' hold hdone)
    · exact .inl ht'.2.2
  · rw [flag, Bool.or_eq_true, decide_eq_true_eq] at hfired
    obtain hpurpose | hfired := hfired
    · exact ⟨_, ⟨(rows _).mpr (.inr rfl), hnode, hpurpose⟩, nofun⟩
    · obtain ⟨t', ht', hdone⟩ := hd.consumed hfired
      refine ⟨t', ⟨(rows t').mpr (.inl ⟨ht'.1, ?_⟩), ht'.2⟩, hdone⟩
      rintro rfl
      exact hdone (node_of_pending pending.2).2

theorem TimerMove.timersOf (h : TimerMove db db' k) (hd : TimersOf db k) : TimersOf db' k := by
  cases h with
  | kept rows wait flag => exact hd.kept rows wait flag
  | started t pending rows before after flag unfired =>
      exact hd.started pending rows before after flag unfired
  | fired t pending due rows after flag => exact hd.fires pending rows after flag

end Step

-- ============================================================================
-- Timer nodes
-- ============================================================================

/-- A node that has succeeded is not a timer node, or its timer has fired. -/
def EndsFired (db : DB) (k : NodeKey) : Prop :=
  ∃ graph d, GraphOf db k.workflowID graph ∧ graph.find k.nodeID = some d ∧
    (d.kind = "timer" → timerFired db k = true)

section TimerNodes

variable {env : Env} {db db' : DB} {α : Type} {op : Op α} {k : NodeKey} {n n' : NodeInstance}

theorem TimerMove.timerFired (h : TimerMove db db' k) (hfired : Engine.timerFired db k = true) :
    Engine.timerFired db' k = true := by
  cases h with
  | kept _ _ flag => rw [flag, hfired]
  | started _ _ _ _ _ flag _ => rw [flag, hfired]
  | fired _ _ _ _ _ flag => rw [flag, hfired, Bool.or_true]

theorem EndsFired.later (h : EndsFired db k) (hl : Later db db')
    (hflag : timerFired db k = true → timerFired db' k = true) : EndsFired db' k := by
  obtain ⟨graph, d, hgraph, hfind, hfired⟩ := h
  exact ⟨graph, d, hgraph.later hl, hfind, fun hkind => hflag (hfired hkind)⟩

/-- An owner transition does not make a node succeed. -/
theorem Moves.not_succeeded {input : OwnerTransitionInput} {state : WorkflowState} {current : Option Int}
    {purpose : Option TimerPurpose} (hok : Moves db input) (hn : n.state = .runnable) :
    (n.ownerMove input state current purpose).state ≠ .succeeded := by
  have hmove : input.newState ≠ .canceled → n.ownerMove input state current purpose =
      (input.target.map (fun s => n.transition s purpose)).getD n := by
    intro hnew
    have hcancels : input.cancels state = false := by simp [OwnerTransitionInput.cancels, hnew]
    rw [NodeInstance.ownerMove, if_neg (by simp [hcancels])]
  cases hok with
  | pause newState nodeID nodeState =>
      rw [hmove (by rw [newState]; decide)]
      simp [OwnerTransitionInput.target, nodeID, nodeState, hn]
  | fire newState nodeState node | schedule newState nodeState node =>
      rw [hmove (by rw [newState]; decide)]
      simp [OwnerTransitionInput.target, nodeState, NodeInstance.transition]

/-- Only an advancement makes a runnable node succeed, of a timer node after its timer has fired. -/
theorem Allowed.endsFired (hok : Allowed α op db) (hc : Change db op db') (hshaped : NodesShaped db)
    (hl : Later db db') (hn : db.nodes.get k = some n) (hrunnable : n.state = .runnable)
    (hn' : db'.nodes.get k = some n') (hsucceeded : n'.state = .succeeded) : EndsFired db' k := by
  have hsame : db'.nodes.get k = db.nodes.get k → False := by
    intro hsame
    cases hn'.symm.trans (hsame.trans hn)
    rw [hrunnable] at hsucceeded
    cases hsucceeded
  have hmodify : ∀ {f : NodeInstance → NodeInstance} {hf key},
      db'.nodes = (db.modifyNode key f hf).nodes →
      (k = key → (f n).state = .succeeded → False) → False := by
    intro f hf key hnodes hstate
    have hget : db'.nodes.get k = if k = key then (db.nodes.get k).map f else db.nodes.get k := by
      rw [hnodes, DB.get_modifyNode]
    by_cases hk : k = key
    · rw [if_pos hk, hn, Option.map_some, hn', Option.some.injEq] at hget
      exact hstate hk (hget ▸ hsucceeded)
    · exact hsame (by rw [hget, if_neg hk])
  cases hc with
  | idle rows => exact (hsame (by rw [rows.nodes])).elim
  | claimed c | extended c | recorded c | redispatched c | expired c =>
      exact (hsame (by rw [c.nodes])).elim
  | created c => exact (hsame ((Table.get_insert_of_get c.nodes hn).trans hn.symm)).elim
  | @owner _ input _ _ _ _ c =>
      have hget := congrArg (Table.get · k) c.nodes
      simp only [moveOwnedNode_nodes] at hget
      by_cases hk : k = input.key
      · rw [if_pos hk, hn, Option.map_some, hn', Option.some.injEq] at hget
        exact (Moves.not_succeeded hok hrunnable (hget ▸ hsucceeded)).elim
      · rw [if_neg hk] at hget
        exact (hsame hget).elim
  | consumed c =>
      refine (hmodify c.nodes fun hk _ => ?_).elim
      subst hk
      cases hn.symm.trans c.node
      rw [(hshaped _ n hn).waiting _ c.current] at hrunnable
      cases hrunnable
  | attemptCreated c | replaced c =>
      refine (hmodify c.nodes fun _ hstate => ?_).elim
      rw [show n.state = .succeeded from hstate] at hrunnable
      cases hrunnable
  | timerScheduled c =>
      refine (hmodify c.nodes fun _ hstate => ?_).elim
      cases hstate
  | canceled c =>
      have hget := c.nodes k
      rw [hn, Option.map_some, hn', Option.some.injEq] at hget
      split at hget
      · rw [hget] at hsucceeded
        cases hsucceeded
      · rw [hget, hrunnable] at hsucceeded
        cases hsucceeded
  | @advanced _ input w m definition graph source c =>
      have hget := c.nodes k
      by_cases hk : k = input.key
      · subst hk
        rw [if_pos rfl] at hget
        cases hn.symm.trans c.node
        cases hok with
        | activity g d _ graphOf declared kind =>
            exact ⟨g, d, graphOf.later hl, declared, fun htimer => absurd (kind.symm.trans htimer) (by decide)⟩
        | control g d m' graphOf declared kind stored fired =>
            cases hn.symm.trans stored
            refine ⟨g, d, graphOf.later hl, declared, fun htimer => ?_⟩
            unfold timerFired
            rw [hget]
            exact fired htimer hrunnable
      · rw [if_neg hk, hn, Option.some_or] at hget
        exact (hsame (hget.trans hn.symm)).elim
  | approvalRequested c | approvalGranted c | approvalRejected c => exact hok.elim

end TimerNodes

-- ============================================================================
-- Runs
-- ============================================================================

/-- What a step of the system does to the timer of a node. -/
structure TimerStep (db db' : DB) (k : NodeKey) : Prop where
  enters : ¬ WaitsTimer db k → WaitsTimer db' k → ∃ t, Pending db' k t ∧ t ∉ db.timers.rows
  stays : WaitsTimer db k → WaitsTimer db' k → ∀ t, Pending db' k t ↔ Pending db k t
  fires : WaitsTimer db k → (∃ n, db'.nodes.get k = some n ∧ n.state = .runnable) →
    ∃ t, Pending db k t ∧ t.dueAt ≤ db.now ∧ { t with consumedAt := some db.now } ∈ db'.timers.rows

section Runs

variable {env : Env} {db db' : DB} {k : NodeKey}

theorem not_waits_of_runnable (h : ∃ n, db.nodes.get k = some n ∧ n.state = .runnable) :
    ¬ WaitsTimer db k := by
  obtain ⟨n, hn, hrunnable⟩ := h
  rintro ⟨m, hm, hwaiting⟩
  rw [hn, Option.some.injEq] at hm
  rw [← hm, hrunnable] at hwaiting
  cases hwaiting

theorem TimerMove.timerStep (h : TimerMove db db' k) (hd : TimersOf db k) : TimerStep db db' k := by
  cases h with
  | kept rows wait flag =>
      have hwaits : WaitsTimer db' k ↔ WaitsTimer db k := by
        rw [← not_iff_not, ← waitOf_eq_none, wait, waitOf_eq_none]
      refine ⟨fun hbefore hafter => absurd (hwaits.mp hafter) hbefore, fun _ _ t =>
        and_congr_left fun hp => rows t (node_of_pending hp).1, fun hbefore hrunnable => ?_⟩
      exact absurd (hwaits.mpr hbefore) (not_waits_of_runnable hrunnable)
  | started t pending rows before after flag unfired =>
      have hbefore := waitOf_eq_none.mp before
      refine ⟨fun _ _ => ⟨t, ⟨(rows t).mpr (.inr rfl), pending⟩, fun hmem => ?_⟩,
        fun hwaits => absurd hwaits hbefore, fun hwaits => absurd hwaits hbefore⟩
      exact hbefore (hd.pending_iff.mp ⟨t, hmem, pending⟩)
  | fired t pending due rows after flag =>
      have hafter := not_waits_of_runnable after
      exact ⟨fun _ hwaits => absurd hwaits hafter, fun _ hwaits => absurd hwaits hafter,
        fun _ _ => ⟨t, pending, due, (rows _).mpr (.inr rfl)⟩⟩

theorem TimerMove.of_tick (db : DB) (d : Nat) (k : NodeKey) : TimerMove db (db.tick d) k :=
  .of_nodes rfl rfl

theorem reachable_timersOf (h : State.ReachableIf env (Sys.Both KeepsTimers) db) (k : NodeKey) :
    TimersOf db k := by
  refine h.induction (I := fun db => ∀ k, TimersOf db k) (fun _ k => ?_) ?_ k
  · exact ⟨fun _ _ h => (nomatch h.1), fun _ h => (nomatch h.1), fun ⟨_, h, _⟩ => (nomatch h),
      fun _ _ h => (nomatch h.1), fun _ h => (nomatch h.1), fun h => (nomatch h)⟩
  · intro db db' hreach hi hs k
    cases hs with
    | tick _ d => exact (TimerMove.of_tick db d k).timersOf (hi k)
    | commit amb op a hrun hmeets =>
        exact (Allowed.timerMove hmeets.1 hmeets.2 (Op.run_commit hrun).change
          (reachable_nodesShaped hreach) k).timersOf (hi k)

/-- A timer node that has succeeded has gone on after its timer. -/
theorem reachable_endsFired (h : State.ReachableIf env (Sys.Both KeepsTimers) db) {k : NodeKey}
    {n : NodeInstance} (hn : db.nodes.get k = some n) (hsucceeded : n.state = .succeeded) :
    EndsFired db k := by
  refine h.induction (I := fun db => ∀ k n, db.nodes.get k = some n → n.state = .succeeded →
    EndsFired db k) (fun _ _ _ hn => (nomatch hn)) ?_ k n hn hsucceeded
  clear h hn hsucceeded
  intro db db' hreach hi hs k n' hn' hsucceeded
  cases hs with
  | tick _ d => exact (hi k n' hn' hsucceeded).later (.tick db d) id
  | commit amb op a hrun hmeets =>
      have hc := Op.run_commit hrun
      have hshaped := reachable_nodesShaped hreach
      have hl := Later.of_commit hc
      have hmove := Allowed.timerMove hmeets.1 hmeets.2 hc.change hshaped k
      cases hold : db.nodes.get k with
      | none =>
          have hfresh := (hc.change.nodeStep k).fresh_of_none hold hn'
          rw [hfresh.1] at hsucceeded
          cases hsucceeded
      | some n =>
          obtain ⟨m, hm, hturn⟩ := Allowed.turn hmeets.1 hc.change hshaped hold
          cases hn'.symm.trans hm
          cases hturn with
          | kept state _ =>
              exact (hi k n hold (state.symm.trans hsucceeded)).later hl hmove.timerFired
          | consumed waiting _ =>
              obtain ⟨graph, d, hgraph, hfind, hkind⟩ := (reachable_origin hreach hold).waiting waiting
              exact ⟨graph, d, hgraph.later hl, hfind,
                fun htimer => absurd (hkind.symm.trans htimer) (by decide)⟩
          | advanced _ _ _ _ _ runnable =>
              exact Allowed.endsFired hmeets.1 hc.change hshaped hl hold runnable hn' hsucceeded
          | fired _ state | scheduled _ _ state | timed _ _ state | canceled _ _ state =>
              rw [state] at hsucceeded
              cases hsucceeded

/-- A step of the system leaves the database, lets the clock advance or commits one operation. -/
theorem step_commits {C : ∀ α : Type, Op α → DB → Prop} {s s' : Sys} {ops : List Committed}
    (h : Sys.Disciplined env s) (hs : Sys.Step env C s ops s') :
    s'.db = s.db ∨ (∃ d, s'.db = s.db.tick d) ∨ ∃ (α : Type) (op : Op α) (amb : Ambient) (a : α),
      op.run env amb s.db = .ok (a, s'.db) ∧ Sys.Both C α op s.db := by
  have hexec : ∀ {α : Type} {op : Op α} {amb : Ambient} {db : DB}, (op.exec env amb s.db).2 = db →
      (∀ r, op.run env amb s.db = .ok r → Sys.Both C α op s.db) → db = s.db ∨
      (∃ d, db = s.db.tick d) ∨ ∃ (α : Type) (op : Op α) (amb : Ambient) (a : α),
        op.run env amb s.db = .ok (a, db) ∧ Sys.Both C α op s.db := by
    rintro α op amb db rfl hmeets
    unfold Op.exec
    cases hrun : op.run env amb s.db with
    | ok r => exact .inr (.inr ⟨α, op, amb, r.1, hrun, hmeets r hrun⟩)
    | error e => exact .inl rfl
  cases hs with
  | tick _ d => exact .inr (.inl ⟨d, rfl⟩)
  | client _ amb op isClient meets =>
      exact hexec rfl fun r hr => ⟨allowed_of_isClient isClient s.db, meets r hr⟩
  | start _ e newID workflowID deployed => exact .inl rfl
  | call _ before after amb op k passes meets =>
      have hcall : Prog.Safe (world env) (.call (.store op) k) s.db (fun _ _ => True) :=
        h _ (by rw [passes]; exact List.mem_append_right _ List.mem_cons_self)
      exact hexec rfl fun r hr => ⟨(hcall s.db (Later.refl s.db)).1 amb r hr, meets r hr⟩
  | stop _ before after p passes => exact .inl rfl

/-- The kind of a node is one. -/
theorem EndsFired.fired (h : EndsFired db k) (hkind : KindOf db k.workflowID k.nodeID "timer") :
    timerFired db k = true := by
  obtain ⟨graph, d, ⟨w, definition, hw, hdefinition, hparse⟩, hfind, hfired⟩ := h
  obtain ⟨graph', d', ⟨w', definition', hw', hdefinition', hparse'⟩, hfind', htimer⟩ := hkind
  cases hw.symm.trans hw'
  cases hdefinition.symm.trans hdefinition'
  cases hparse.symm.trans hparse'
  cases hfind.symm.trans hfind'
  exact hfired htimer

end Runs

/-- The timers of a node: one that is not consumed, due at the node's deadline, if and only if the
    node waits for a timer; and of a timer node at most one, which is there once it has succeeded. -/
structure TimerDiscipline (db : DB) (k : NodeKey) : Prop where
  unique : ∀ t t', Pending db k t → Pending db k t' → t = t'
  waiting : (∃ t, Pending db k t) ↔ WaitsTimer db k
  deadline : ∀ t n, Pending db k t → db.nodes.get k = some n → n.deadlineAt = some t.dueAt
  once : ∀ t t', OfNode db k t → OfNode db k t' → t = t'
  scheduled : KindOf db k.workflowID k.nodeID "timer" → ∀ n, db.nodes.get k = some n →
    n.state = .succeeded → ∃ t, OfNode db k t ∧ t.consumedAt ≠ none

/-- In every run in which timers are fired while the workflow of their node waits for timers, and
    workflows are canceled while none of their nodes does, the timers of each node are disciplined in
    every state, and a node that goes on is one whose timer is due and consumed by the same step. -/
theorem timers_disciplined {env : Env} {s s' : Sys} {ops : List Committed}
    (h : Sys.ReachableIf env KeepsTimers s) (hs : Sys.Step env KeepsTimers s ops s') (k : NodeKey) :
    TimerDiscipline s.db k ∧ TimerStep s.db s'.db k := by
  have hstore := h.store
  have hd := reachable_timersOf hstore k
  refine ⟨⟨hd.unique, hd.pending_iff, fun t n ht hn => ?_, hd.once, fun hkind n hn hsucceeded => ?_⟩, ?_⟩
  · obtain ⟨m, hm, -, hdeadline⟩ := hd.waits t ht
    rw [hn, Option.some.injEq] at hm
    rw [hm]
    exact hdeadline
  · exact hd.consumed ((reachable_endsFired hstore hn hsucceeded).fired hkind)
  · obtain hsame | ⟨d, htick⟩ | ⟨α, op, amb, a, hrun, hmeets⟩ := step_commits h.disciplined hs
    · rw [hsame]
      exact (TimerMove.of_nodes rfl rfl).timerStep hd
    · rw [htick]
      exact (TimerMove.of_tick s.db d k).timerStep hd
    · exact (Allowed.timerMove hmeets.1 hmeets.2 (Op.run_commit hrun).change
        (reachable_nodesShaped hstore) k).timerStep hd

-- ============================================================================
-- Runs of two branches
-- ============================================================================

/-- Whether the operation fires a timer, if it fires one, while its workflow waits for timers, and
    cancels nothing. -/
def firesTimed (α : Type) (op : Op α) (db : DB) : Bool :=
  match op with
  | .applyOwnerTransition input => !(db.nodes.get input.key).any (fun n => n.state = .waitingTimer) ||
      (db.workflows.get input.workflowID).any (fun w => w.state = .waitingTimer)
  | .cancelWorkflow _ | .applyCancellationRequest _ _ _ => false
  | _ => true

theorem keepsTimers_of_firesTimed (α : Type) (op : Op α) (db : DB) (h : firesTimed α op db = true) :
    KeepsTimers α op db := by
  constructor
  · intro hfires
    cases op with
    | applyOwnerTransition input =>
        obtain ⟨⟨n, hn, hwaiting⟩, w, hw, hstate⟩ := hfires
        simp [firesTimed, hn, hwaiting, hw, hstate] at h
    | _ => exact hfires
  · rintro ⟨w, k, hcancels, -⟩
    cases op with
    | cancelWorkflow | applyCancellationRequest => cases h
    | _ => exact hcancels

/-- The attempt of a branch fails and may be retried. -/
def failBranch (nodeID requestID : String) (number : Int) (token : String) : List Sys.Action := [
  .client (.claimAttempt ⟨0, "w", nodeID, 0, "worker", requestID, 0⟩),
  .client (.recordResultReceipt ⟨"w", nodeID, 0, number, token, .failedRetryable, .json (.obj []), "", ""⟩)]

/-- The first branch fails, is retried and fails again. -/
def retriedBranchScript : List Sys.Action := ([
  .client (.createDefinition forkDefinition), .client (.createWorkflow forkWorkflow),
  .pass externalEngine "w"] : List Sys.Action) ++ failBranch "pure.add" "first" 1 (uuidOf 3 43) ++
  ([.pass externalEngine "w", .tick 100000000, .pass externalEngine "w"] : List Sys.Action) ++
  failBranch "pure.add" "again" 2 (uuidOf 3 100) ++ [Sys.Action.pass externalEngine "w"]

/-- Both branches fail and wait for their retries, which are due when the last pass starts. -/
def retriedBranchesScript : List Sys.Action := ([
  .client (.createDefinition forkDefinition), .client (.createWorkflow forkWorkflow),
  .pass externalEngine "w"] : List Sys.Action) ++ failBranch "pure.add" "first" 1 (uuidOf 3 43) ++
  failBranch "pure.echo" "second" 1 (uuidOf 3 45) ++
  ([.pass externalEngine "w", .tick 100000000, .pass { externalEngine with maxSteps := 2 } "w"] :
    List Sys.Action)

theorem valid_retriedScripts : (∀ action ∈ retriedBranchScript, action.valid .plain) ∧
    ∀ action ∈ retriedBranchesScript, action.valid .plain := by
  constructor <;> simp [retriedBranchScript, retriedBranchesScript, failBranch, Sys.Action.valid,
    Op.isClient, externalEngine, soloEngine]

theorem timers_disciplined_retried : ∃ (s s' : Sys) (fired pending : Timer),
    Sys.ReachableIf .plain KeepsTimers s ∧ Sys.Step .plain KeepsTimers s [] s' ∧
    fired ∈ s.db.timers.rows ∧ fired.node = ⟨"w", "pure.add", 0⟩ ∧ fired.consumedAt ≠ none ∧
    Pending s.db ⟨"w", "pure.add", 0⟩ pending ∧
    TimerDiscipline s.db ⟨"w", "pure.add", 0⟩ ∧ TimerStep s.db s'.db ⟨"w", "pure.add", 0⟩ := by
  have hscript : (Sys.runScriptIf .plain firesTimed 0 retriedBranchScript (DB.init 0, true)).2 = true ∧
      (Sys.runScriptIf .plain firesTimed 0 retriedBranchScript (DB.init 0, true)).1.timers.rows.any
        (fun t => t.node = ⟨"w", "pure.add", 0⟩ && t.consumedAt.isSome) = true ∧
      (Sys.runScriptIf .plain firesTimed 0 retriedBranchScript (DB.init 0, true)).1.timers.rows.any
        (Timer.pendingFor ⟨"w", "pure.add", 0⟩) = true := by
    decide +kernel
  obtain ⟨hmet, hfired, hpending⟩ := hscript
  have hreach := Sys.reachable_of_runScriptIf keepsTimers_of_firesTimed valid_retriedScripts.1 0 hmet
  generalize Sys.runScriptIf .plain firesTimed 0 retriedBranchScript (DB.init 0, true) = ended at *
  obtain ⟨fired, hmem, hfired⟩ := List.any_eq_true.mp hfired
  obtain ⟨pending, hmem', hpending⟩ := List.any_eq_true.mp hpending
  simp only [Bool.and_eq_true, decide_eq_true_eq] at hfired
  have hstep : Sys.Step .plain KeepsTimers ⟨ended.1, []⟩ [] _ := .tick _ 1
  obtain ⟨hdiscipline, htick⟩ := timers_disciplined hreach hstep ⟨"w", "pure.add", 0⟩
  exact ⟨_, _, fired, pending, hreach, hstep, hmem, hfired.1, Option.isSome_iff_ne_none.mp hfired.2,
    ⟨hmem', hpending⟩, hdiscipline, htick⟩

/-- The second branch is fired while the workflow is runnable after the first, and keeps its timer. -/
theorem timer_leaks : ∃ (s : Sys) (n : NodeInstance) (t : Timer), Sys.Reachable .plain s ∧
    s.db.nodes.get ⟨"w", "pure.echo", 0⟩ = some n ∧ n.state = .runnable ∧
    Pending s.db ⟨"w", "pure.echo", 0⟩ t ∧
    ¬ ((∃ t, Pending s.db ⟨"w", "pure.echo", 0⟩ t) ↔ WaitsTimer s.db ⟨"w", "pure.echo", 0⟩) := by
  have hscript : (scriptSys retriedBranchesScript).db.timers.rows.any
        (Timer.pendingFor ⟨"w", "pure.echo", 0⟩) = true ∧
      ((scriptSys retriedBranchesScript).db.nodes.get ⟨"w", "pure.echo", 0⟩).any
        (fun n => n.state = .runnable) = true := by
    decide +kernel
  obtain ⟨hpending, hrunnable⟩ := hscript
  obtain ⟨t, hmem, hpending⟩ := List.any_eq_true.mp hpending
  obtain ⟨n, hn, hrunnable⟩ := (Option.any_eq_true _ _).mp hrunnable
  have hrunnable := of_decide_eq_true hrunnable
  refine ⟨scriptSys retriedBranchesScript, n, t, Sys.reachable_of_runScript 0 valid_retriedScripts.2, hn,
    hrunnable, ⟨hmem, hpending⟩, fun hiff => ?_⟩
  exact not_waits_of_runnable ⟨n, hn, hrunnable⟩ (hiff.mp ⟨t, hmem, hpending⟩)

end DurableEngine.Engine
