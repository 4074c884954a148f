/-
  DurableEngine.Engine.Resumption

  What happens after a workflow was taken back from reconciliation.

  The state table lets the lease holder move the workflow back to `RUNNABLE`.
  The transition does not touch `current_attempt_number`, so the node goes on
  pointing to the attempt that timed out: it gets no other attempt, there is no
  result to consume, and a node that points to an attempt is not advanced.
-/

import DurableEngine.Engine.Accepted
import DurableEngine.Engine.Repeats

namespace DurableEngine

open Lib State Engine

-- ============================================================================
-- The property
-- ============================================================================

/-- An attempt of a non-cooperating effect has timed out, and the lease holder takes the workflow
    back from reconciliation for the attempt's node. -/
structure State.TakenBack (env : Env) (k : AttemptKey) (db db' : DB) : Prop where
  attempt : ∃ a, db.attempts.get k = some a ∧ a.effectClass = .nonCooperating ∧ a.state = .timedOut
  workflow : ∃ w, db.workflows.get k.node.workflowID = some w ∧ w.state = .reconciliationRequired
  transition : ∃ input, input.key = k.node ∧ input.newState = .runnable ∧
    applyOwnerTransition env input db = .ok ((), db')

/-- The committed operation consumes a result of the node or advances it. -/
def completes (k : NodeKey) : Committed → Bool
  | ⟨_, .consumeResult input⟩ => input.key = k
  | ⟨_, .advanceGraph input⟩ => input.key = k
  | _ => false

/-- In a run from `db` to `db'` the node was scheduled again, or it was completed. -/
def TakenUp (k : NodeKey) (db db' : DB) (trace : List Committed) : Prop :=
  ¬ NoNewAttempt db db' k ∨ ∃ c ∈ trace, completes k c = true

/-- A pass over the node's workflow takes the node up before it ends, whatever others do
    meanwhile. -/
def Resumes (env : Env) (e : Engine) (db : DB) (k : NodeKey) : Prop :=
  ∀ newID trace r db', Sys.Run env Sys.Any ⟨db, [(e.run newID k.workflowID).run]⟩ trace ⟨db', [.done r]⟩ →
    TakenUp k db db' trace

-- ============================================================================
-- Stuck nodes
-- ============================================================================

/-- A stuck node is not completed. -/
theorem State.Stuck.not_completed {env : Env} {amb : Ambient} {db db' : DB} {k : NodeKey} {α : Type}
    {op : Op α} {a : α} (h : Stuck db k) (hrun : op.run env amb db = .ok (a, db')) :
    completes k ⟨α, op⟩ = false := by
  -- the workflow has ended, or the node points to an attempt without a result
  have hblocked : ∀ {w : Workflow} {n : NodeInstance}, db.workflows.get k.workflowID = some w →
      w.state.isTerminal = false → db.nodes.get k = some n →
      ∃ m b, n.currentAttempt = some m ∧ db.attempts.get ⟨k, m⟩ = some b ∧ b.state = .timedOut := by
    intro w n hw hlive hn
    rcases h.blocked with ⟨w', hw', hend⟩ | ⟨m, b, hpointer, hb, hstate⟩
    · cases hw.symm.trans hw'
      rw [hlive] at hend
      cases hend
    · rw [pointer_of_get hn] at hpointer
      exact ⟨m, b, hpointer, hb, hstate⟩
  cases op with
  | consumeResult input =>
      refine decide_eq_false ?_
      rintro rfl
      obtain ⟨⟨w, n, b, result, newState, retryAfter, c⟩, -⟩ := consumeResult_consumed hrun
      obtain ⟨row, hmoves, -⟩ := c.advances.moves
      have hget := hmoves.get
      rw [c.workflow] at hget
      obtain ⟨m, b', hcurrent, hb', hstate⟩ := hblocked hget hmoves.live c.node
      cases c.current.symm.trans hcurrent
      cases c.attempt.symm.trans hb'
      have hterminal := c.recorded.2.1
      rw [hstate] at hterminal
      cases hterminal
  | advanceGraph input =>
      refine decide_eq_false ?_
      rintro rfl
      obtain ⟨⟨w, n, definition, graph, source, c⟩, -⟩ := advanceGraph_eq_ok hrun
      obtain ⟨row, hmoves, -⟩ := c.advances.moves
      have hget := hmoves.get
      rw [c.workflow] at hget
      obtain ⟨m, -, hcurrent, -⟩ := hblocked hget hmoves.live c.node
      have hready := c.ready
      simp only [checkSource, bind_eq_ok, rejectIf_eq_ok, exists_const, hcurrent] at hready
      exact hready.1 rfl
  | _ => rfl

-- ============================================================================
-- Runs
-- ============================================================================

namespace Sys

variable {env : Env} {C : ∀ α : Type, Op α → DB → Prop} {s s' : Sys} {trace : List Committed}

/-- A step of the system is a piece of a run of the store. -/
theorem Step.storeTrace {ops : List Committed} (h : Step env C s ops s') : Trace env C s.db ops s'.db := by
  cases h with
  | tick _ d => exact .tick .refl d
  | client _ amb op _ meets => exact .of_exec meets
  | start | stop => exact .refl
  | call _ before after amb op k passes meets => exact .of_exec meets

theorem Run.storeTrace (h : Run env C s trace s') : Trace env C s.db trace s'.db := by
  induction h with
  | refl => exact .refl
  | tail _ hstep ih => exact ih.trans hstep.storeTrace

end Sys

/-- A run of the store without conditions. -/
theorem State.Trace.reaches {env : Env} {C : ∀ α : Type, Op α → DB → Prop} {db db' : DB}
    {trace : List Committed} (h : Trace env C db trace db') :
    Relation.ReflTransGen (State.Step env) db db' := by
  induction h with
  | refl => exact .refl
  | tick _ d ih => exact ih.tail (.tick _ d)
  | commit _ amb op a hrun _ ih => exact ih.tail (.commit amb op a hrun)

/-- The node of a lost attempt is not taken up in any run. -/
theorem State.Reachable.not_takenUp {env : Env} {C : ∀ α : Type, Op α → DB → Prop} {db db' : DB}
    {trace : List Committed} (h : Reachable env db) (hrun : Trace env C db trace db') {k : AttemptKey}
    {a : Attempt} (ha : db.attempts.get k = some a) (hlost : a.lost) : ¬ TakenUp k.node db db' trace := by
  have hnone : ∀ c ∈ trace, completes k.node c = false := by
    induction hrun with
    | refl => exact fun c hc => nomatch hc
    | tick _ d ih => exact ih
    | @commit α trace db₁ db₂ hfirst amb op r hop _ ih =>
        intro c hc
        rcases List.mem_append.mp hc with hbefore | hlast
        · exact ih c hbefore
        · obtain ⟨⟨b, hb, hlost'⟩, -⟩ := h.lost_run hfirst.reaches ha hlost
          have hreach : Reachable env db₁ := ⟨h.choose, h.choose_spec.trans hfirst.reaches⟩
          rw [List.mem_singleton.mp hlast]
          exact (hreach.stuck hb hlost').not_completed hop
  rintro (hnew | ⟨c, hc, hcompletes⟩)
  · exact hnew (h.lost_run hrun.reaches ha hlost).2
  · rw [hnone c hc] at hcompletes
    cases hcompletes

/-- A pass that nobody disturbs comes to its end. -/
theorem Sys.exists_run_of_pass {env : Env} (p : Pass) (n : Nat) (db : DB) :
    ∃ trace r db', Run env Any ⟨db, [p]⟩ trace ⟨db', [.done r]⟩ := by
  induction p generalizing n db with
  | done a => exact ⟨[], a, db, .refl _⟩
  | call op k ih =>
      cases op with
      | store op =>
          obtain ⟨trace, r, db', hrun⟩ := ih (op.exec env (.drawn n) db).1 (n + 1)
            (op.exec env (.drawn n) db).2
          have hstep : Step env Any ⟨db, [.call (.store op) k]⟩ (op.committed env (.drawn n) db)
              ⟨(op.exec env (.drawn n) db).2, [k (op.exec env (.drawn n) db).1]⟩ :=
            .call _ [] [] (.drawn n) op k rfl (fun _ _ => trivial)
          exact ⟨_, r, db', ((Run.refl _).tail hstep).trans hrun⟩

/-- Work that was taken back from reconciliation is never resumed: the next pass over it does not
    take the node up, and neither does any run of the system; the node keeps pointing to the attempt
    that timed out until its workflow ends. -/
theorem reconciled_never_resumes {env : Env} {db db' : DB} {k : AttemptKey} (h : State.Reachable env db)
    (hback : TakenBack env k db db') (e : Engine) :
    ¬ Resumes env e db' k.node ∧ ∀ passes trace s', Sys.Run env Sys.Any ⟨db', passes⟩ trace s' →
      ¬ TakenUp k.node db' s'.db trace ∧
        (s'.db.over k.node ∨ ∃ m a, s'.db.pointer k.node = some m ∧
          s'.db.attempts.get ⟨k.node, m⟩ = some a ∧ a.state = .timedOut) := by
  obtain ⟨a, ha, hclass, hstate⟩ := hback.attempt
  obtain ⟨input, -, -, htransition⟩ := hback.transition
  have hstep : State.Step env db db' :=
    .commit (.drawn 0) (.applyOwnerTransition input) () htransition
  have hreach : State.Reachable env db' := ⟨h.choose, h.choose_spec.tail hstep⟩
  obtain ⟨⟨a', ha', hlost⟩, -⟩ := h.lost_run (.single hstep) ha (.inr ⟨hstate, hclass⟩)
  constructor
  · intro hresumes
    obtain ⟨trace, r, db'', hrun⟩ := @Sys.exists_run_of_pass env (e.run "" k.node.workflowID).run 0 db'
    exact hreach.not_takenUp hrun.storeTrace ha' hlost (hresumes "" trace r db'' hrun)
  · intro passes trace s' hrun
    refine ⟨hreach.not_takenUp hrun.storeTrace ha' hlost, ?_⟩
    obtain ⟨⟨b, hb, hlost'⟩, -⟩ := hreach.lost_run hrun.storeTrace.reaches ha' hlost
    have hreach' : State.Reachable env s'.db :=
      ⟨hreach.choose, hreach.choose_spec.trans hrun.storeTrace.reaches⟩
    exact (hreach'.stuck hb hlost').blocked

/-- An effect is dispatched as a pass does it, claimed, and times out. -/
def timedOutScript : List State.Action := effectScript.take 4 ++ ([
  .call (.createAttempt ⟨soloLease, "w", "a", 0, 2, .nonCooperating, "w:a:0", "a", 0, "scheduler"⟩),
  .call (.claimAttempt ⟨1, "w", "a", 0, "worker", "request", 0⟩),
  .tick 60000000000, .call (.acquireLease 0 (uuidOf 8 0) 1000),
  .call (.timeoutAttempt ⟨⟨0, uuidOf 8 0, 2⟩, "w", "a", 0, 1, 3, "scheduler", 0⟩)] : List State.Action)

/-- The lease holder takes the workflow back for the node. -/
def takeBack : OwnerTransitionInput :=
  ⟨⟨0, uuidOf 8 0, 2⟩, "w", 4, .runnable, "scheduler", "RECONCILED", "a", 0, none, none⟩

/-- The pass that follows, by the same lease holder. -/
def resumingPass : Pass := ({ soloEngine 10 with ownerID := uuidOf 8 0 }.run "" "w").run

/-- The error of a pass that nobody disturbs. -/
def passError (p : Pass) (n : Nat) (db : DB) : Option Err :=
  match (p.eval (fun n _ => Sys.execCall .plain n) n db).1 with
  | .ok _ => none
  | .error e => some e

/-- The workflow is taken back after the timeout, and the pass that follows finds the timed-out
    attempt where it wants to create the next one. -/
theorem exists_takenBack : ∃ db db', State.Reachable .plain db ∧
    TakenBack .plain ⟨⟨"w", "a", 0⟩, 1⟩ db db' ∧
    passError resumingPass 20 db' = some (.text "node already has current attempt 1") := by
  have hrun : (runScript? .plain 0 timedOutScript (DB.init 0)).any (fun db =>
      (db.attempts.get ⟨⟨"w", "a", 0⟩, 1⟩).any
        (fun a => a.effectClass = .nonCooperating && a.state = .timedOut) &&
      (db.workflows.get "w").any (fun w => w.state = .reconciliationRequired) &&
      (applyOwnerTransition .plain takeBack db).toOption.any (fun r =>
        passError resumingPass 20 r.2 = some (.text "node already has current attempt 1"))) = true := by
    decide +kernel
  obtain ⟨db, hdb, hcheck⟩ := (Option.any_eq_true _ _).mp hrun
  simp only [Bool.and_eq_true, decide_eq_true_eq, Option.any_eq_true] at hcheck
  obtain ⟨⟨⟨a, ha, hclass, hstate⟩, w, hw, hwstate⟩, ⟨u, db'⟩, htransition, herror⟩ := hcheck
  exact ⟨db, db', reachable_of_runScript? hdb, ⟨⟨a, ha, hclass, hstate⟩, ⟨w, hw, hwstate⟩,
    takeBack, rfl, rfl, toOption_eq_some htransition⟩, herror⟩

theorem reconciled_never_resumes_solo : ∃ db db' e, State.Reachable .plain db ∧
    TakenBack .plain ⟨⟨"w", "a", 0⟩, 1⟩ db db' ∧ ¬ Resumes .plain e db' ⟨"w", "a", 0⟩ := by
  obtain ⟨db, db', h, hback, -⟩ := exists_takenBack
  exact ⟨db, db', soloEngine 10, h, hback, (reconciled_never_resumes h hback (soloEngine 10)).1⟩

/-- The next pass stops at the attempt that timed out. -/
theorem reconciled_not_resumed :
    ¬ (∀ env db db' k, State.Reachable env db → TakenBack env k db db' →
      ∀ e, Resumes env e db' k.node) ∧
    ∃ db db', State.Reachable .plain db ∧ TakenBack .plain ⟨⟨"w", "a", 0⟩, 1⟩ db db' ∧
      passError resumingPass 20 db' = some (.text "node already has current attempt 1") := by
  refine ⟨fun hall => ?_, exists_takenBack⟩
  obtain ⟨db, db', h, hback, -⟩ := exists_takenBack
  obtain ⟨a, ha, hclass, hstate⟩ := hback.attempt
  obtain ⟨input, -, -, htransition⟩ := hback.transition
  have hstep : State.Step .plain db db' := .commit (.drawn 0) (.applyOwnerTransition input) () htransition
  obtain ⟨⟨a', ha', hlost⟩, -⟩ := h.lost_run (.single hstep) ha (.inr ⟨hstate, hclass⟩)
  obtain ⟨trace, r, db'', hrun⟩ :=
    @Sys.exists_run_of_pass .plain ((soloEngine 10).run "" "w").run 0 db'
  exact State.Reachable.not_takenUp ⟨h.choose, h.choose_spec.tail hstep⟩ hrun.storeTrace ha' hlost
    (hall .plain db db' _ h hback (soloEngine 10) "" trace r db'' hrun)

end DurableEngine
