/-
  DurableEngine.Engine.System

  The whole system: one database, any number of scheduler passes in progress,
  and the clients, workers and operators around them.

  A step is one store call of a pass, one operation of a client, a clock tick,
  the start of a pass or its end at any point (a crash).  Calls of different
  parties interleave freely.
-/

import DurableEngine.Engine.Run

namespace DurableEngine

open Lib State Engine

namespace State

/-- An operation that parties other than a scheduler pass issue: submissions,
    worker calls, lease calls, timeouts, cancellations and reads. -/
def Op.isClient {α : Type} : Op α → Bool
  | .applyOwnerTransition _ | .consumeResult _ | .createAttempt _ | .scheduleTimer _
  | .advanceGraph _ | .createApprovalIntent _ | .recordApprovalDecision _ | .applyApproval _ => false
  | _ => true

/-- A committed operation with its reply type. -/
abbrev Committed := (α : Type) × Op α

/-- The operation, if it commits. -/
def Op.committed {α : Type} (env : Env) (amb : Ambient) (op : Op α) (db : DB) : List Committed :=
  match op.run env amb db with
  | .ok _ => [⟨α, op⟩]
  | .error _ => []

/-- A run of the store with the operations that commit in it, in order; each
    of them meets the condition `C` where it is issued. -/
inductive Trace (env : Env) (C : ∀ α : Type, Op α → DB → Prop) (db : DB) :
    List Committed → DB → Prop where
  | refl : Trace env C db [] db
  | tick {trace : List Committed} {db' : DB} (run : Trace env C db trace db') (d : Nat) :
      Trace env C db trace (db'.tick d)
  | commit {α : Type} {trace : List Committed} {db' db'' : DB} (run : Trace env C db trace db')
      (amb : Ambient) (op : Op α) (a : α) (h : op.run env amb db' = .ok (a, db''))
      (meets : C α op db') : Trace env C db (trace ++ [⟨α, op⟩]) db''

variable {env : Env} {C : ∀ α : Type, Op α → DB → Prop} {db db' db'' : DB}
  {trace trace' : List Committed}

theorem Trace.steps (h : Trace env C db trace db') : Relation.ReflTransGen (StepIf env C) db db' := by
  induction h with
  | refl => exact .refl
  | tick _ d ih => exact ih.tail (.tick _ d)
  | commit _ amb op a hrun hmeets ih => exact ih.tail (.commit amb op a hrun hmeets)

theorem Trace.trans (h : Trace env C db trace db') (h' : Trace env C db' trace' db'') :
    Trace env C db (trace ++ trace') db'' := by
  induction h' with
  | refl => simpa using h
  | tick _ d ih => exact ih.tick d
  | commit _ amb op a hrun hmeets ih =>
      rw [← List.append_assoc]
      exact ih.commit amb op a hrun hmeets

/-- An operation that is called, whether or not it commits. -/
theorem Trace.of_exec {α : Type} {op : Op α} {amb : Ambient}
    (h : ∀ r, op.run env amb db = .ok r → C α op db) :
    Trace env C db (op.committed env amb db) (op.exec env amb db).2 := by
  unfold Op.committed Op.exec
  cases hrun : op.run env amb db with
  | ok r => exact .commit .refl amb op r.1 hrun (h r hrun)
  | error e => exact .refl

end State

-- ============================================================================
-- Steps and runs
-- ============================================================================

/-- A scheduler pass in progress. -/
abbrev Pass := Prog Call (Except Err RunResult)

structure Sys where
  db : DB
  passes : List Pass

namespace Sys

/-- One step of the system with the operations it commits; each of them meets
    the condition `C` where it is issued. -/
inductive Step (env : Env) (C : ∀ α : Type, Op α → DB → Prop) :
    Sys → List Committed → Sys → Prop where
  | tick (s : Sys) (d : Nat) : Step env C s [] { s with db := s.db.tick d }
  | client {α : Type} (s : Sys) (amb : Ambient) (op : Op α) (isClient : op.isClient = true)
      (meets : ∀ r, op.run env amb s.db = .ok r → C α op s.db) :
      Step env C s (op.committed env amb s.db) { s with db := (op.exec env amb s.db).2 }
  | start (s : Sys) (e : Engine) (newID workflowID : String) (deployed : e.env = env) :
      Step env C s [] { s with passes := (e.run newID workflowID).run :: s.passes }
  | call {α : Type} (s : Sys) (before after : List Pass) (amb : Ambient) (op : Op α)
      (k : Except Err α → Pass) (passes : s.passes = before ++ .call (.store op) k :: after)
      (meets : ∀ r, op.run env amb s.db = .ok r → C α op s.db) :
      Step env C s (op.committed env amb s.db)
        ⟨(op.exec env amb s.db).2, before ++ k (op.exec env amb s.db).1 :: after⟩
  | stop (s : Sys) (before after : List Pass) (p : Pass) (passes : s.passes = before ++ p :: after) :
      Step env C s [] { s with passes := before ++ after }

/-- A run of the system with the operations it commits, in order. -/
inductive Run (env : Env) (C : ∀ α : Type, Op α → DB → Prop) :
    Sys → List Committed → Sys → Prop where
  | refl (s : Sys) : Run env C s [] s
  | tail {s s' s'' : Sys} {trace ops : List Committed} (run : Run env C s trace s')
      (step : Step env C s' ops s'') : Run env C s (trace ++ ops) s''

/-- The freshly migrated database without a scheduler. -/
def init (now : Int) : Sys := ⟨DB.init now, []⟩

/-- The states the system reaches when every committed operation meets `C`. -/
def ReachableIf (env : Env) (C : ∀ α : Type, Op α → DB → Prop) (s : Sys) : Prop :=
  ∃ now trace, Run env C (init now) trace s

/-- No condition on the operations. -/
def Any (α : Type) (_ : Op α) (_ : DB) : Prop := True

/-- The states the system can reach. -/
def Reachable (env : Env) (s : Sys) : Prop := ReachableIf env Any s

theorem Run.trans {env : Env} {C : ∀ α : Type, Op α → DB → Prop} {s s' s'' : Sys}
    {trace trace' : List Committed} (h : Run env C s trace s') (h' : Run env C s' trace' s'') :
    Run env C s (trace ++ trace') s'' := by
  induction h' with
  | refl => simpa using h
  | tail _ hstep ih => simpa [List.append_assoc] using ih.tail hstep

theorem ReachableIf.run {env : Env} {C : ∀ α : Type, Op α → DB → Prop} {s s' : Sys}
    {trace : List Committed} (h : ReachableIf env C s) (hrun : Run env C s trace s') :
    ReachableIf env C s' := by
  obtain ⟨now, first, hfirst⟩ := h
  exact ⟨now, _, hfirst.trans hrun⟩

end Sys

-- ============================================================================
-- Scripts
-- ============================================================================

namespace Sys

/-- One entry of a system script: the clock advances, a client calls an
    operation, or a pass runs from its start to its end. -/
inductive Action where
  | tick (d : Nat)
  | client {α : Type} (op : Op α)
  | pass (e : Engine) (workflowID : String)

/-- The `n`-th call of a script. -/
def execCall (env : Env) (n : Nat) {β : Type} : Call β → DB → β × DB
  | .store op, db => op.exec env (.drawn n) db

/-- The database after a script whose next call is the `n`-th one. -/
def runScript (env : Env) : Nat → List Action → DB → DB
  | _, [], db => db
  | n, .tick d :: script, db => runScript env n script (db.tick d)
  | n, .client op :: script, db => runScript env (n + 1) script (op.exec env (.drawn n) db).2
  | n, .pass e workflowID :: script, db =>
      let ended := (e.run (uuidOf 8 n) workflowID).run.eval (fun n _ => execCall env n) n db
      runScript env ended.2.1 script ended.2.2

/-- The clients of a script only issue client operations, and its passes
    belong to the deployment. -/
def Action.valid (env : Env) : Action → Prop
  | .tick _ => True
  | .client op => op.isClient = true
  | .pass e _ => e.env = env

/-- A pass can run to its end without interference. -/
theorem run_of_eval {env : Env} (p : Pass) (n : Nat) (db : DB) (others : List Pass) :
    ∃ trace q, Run env Any ⟨db, p :: others⟩ trace
      ⟨(p.eval (fun n _ => execCall env n) n db).2.2, q :: others⟩ := by
  induction p generalizing n db with
  | done a => exact ⟨[], .done a, .refl _⟩
  | call op k ih =>
      cases op with
      | store op =>
          obtain ⟨trace, q, hrun⟩ := ih (op.exec env (.drawn n) db).1 (n + 1)
            (op.exec env (.drawn n) db).2
          have hstep : Step env Any ⟨db, .call (.store op) k :: others⟩
              (op.committed env (.drawn n) db) ⟨(op.exec env (.drawn n) db).2,
                [] ++ k (op.exec env (.drawn n) db).1 :: others⟩ :=
            .call _ [] others (.drawn n) op k rfl (fun _ _ => trivial)
          exact ⟨_, q, ((Run.refl _).tail hstep).trans hrun⟩

theorem run_of_runScript {env : Env} {script : List Action}
    (h : ∀ action ∈ script, action.valid env) (n : Nat) (db : DB) :
    ∃ trace, Run env Any ⟨db, []⟩ trace ⟨runScript env n script db, []⟩ := by
  induction script generalizing n db with
  | nil => exact ⟨[], .refl _⟩
  | cons action script ih =>
      have hrest : ∀ action ∈ script, action.valid env :=
        fun a ha => h a (List.mem_cons_of_mem _ ha)
      have hvalid := h action List.mem_cons_self
      cases action with
      | tick d =>
          obtain ⟨trace, hrun⟩ := ih hrest n (db.tick d)
          exact ⟨_, ((Run.refl _).tail (.tick _ d)).trans hrun⟩
      | client op =>
          obtain ⟨trace, hrun⟩ := ih hrest (n + 1) (op.exec env (.drawn n) db).2
          exact ⟨_, ((Run.refl _).tail
            (.client ⟨db, []⟩ (.drawn n) op hvalid (fun _ _ => trivial))).trans hrun⟩
      | pass e workflowID =>
          obtain ⟨trace₁, q, hpass⟩ :=
            @run_of_eval env (e.run (uuidOf 8 n) workflowID).run n db []
          obtain ⟨trace₂, hrun⟩ := ih hrest
            ((e.run (uuidOf 8 n) workflowID).run.eval (fun n _ => execCall env n) n db).2.1
            ((e.run (uuidOf 8 n) workflowID).run.eval (fun n _ => execCall env n) n db).2.2
          have hstart := (Run.refl (C := Any) ⟨db, []⟩).tail (.start ⟨db, []⟩ e (uuidOf 8 n) workflowID hvalid)
          exact ⟨_, (((hstart.trans hpass).tail (.stop _ [] [] q rfl))).trans hrun⟩

theorem reachable_of_runScript {env : Env} {script : List Action} (now : Int)
    (h : ∀ action ∈ script, action.valid env) :
    Reachable env ⟨runScript env 0 script (DB.init now), []⟩ := by
  obtain ⟨trace, hrun⟩ := run_of_runScript h 0 (DB.init now)
  exact ⟨now, trace, hrun⟩

/-- The `n`-th call of a script whose operations are checked where they are issued. -/
def execCallIf (env : Env) (ok : ∀ α : Type, Op α → DB → Bool) (n : Nat) {β : Type} :
    Call β → DB × Bool → β × DB × Bool
  | .store (α := α) op, (db, met) =>
      ((op.exec env (.drawn n) db).1, (op.exec env (.drawn n) db).2, met && ok α op db)

/-- The database after a script, and whether its operations have passed their check. -/
def runScriptIf (env : Env) (ok : ∀ α : Type, Op α → DB → Bool) :
    Nat → List Action → DB × Bool → DB × Bool
  | _, [], s => s
  | n, .tick d :: script, (db, met) => runScriptIf env ok n script (db.tick d, met)
  | n, .client (α := α) op :: script, (db, met) =>
      runScriptIf env ok (n + 1) script ((op.exec env (.drawn n) db).2, met && ok α op db)
  | n, .pass e workflowID :: script, s =>
      let ended := (e.run (uuidOf 8 n) workflowID).run.eval (fun n _ => execCallIf env ok n) n s
      runScriptIf env ok ended.2.1 script ended.2.2

section Checked

variable {env : Env} {ok : ∀ α : Type, Op α → DB → Bool} {C : ∀ α : Type, Op α → DB → Prop}

/-- A pass whose operations pass their check runs to its end. -/
theorem run_of_evalIf (hok : ∀ α op db, ok α op db = true → C α op db) (p : Pass) (n : Nat) (db : DB)
    (met : Bool) (others : List Pass)
    (h : (p.eval (fun n _ => execCallIf env ok n) n (db, met)).2.2.2 = true) : met = true ∧
    ∃ trace q, Run env C ⟨db, p :: others⟩ trace
      ⟨(p.eval (fun n _ => execCallIf env ok n) n (db, met)).2.2.1, q :: others⟩ := by
  induction p generalizing n db met with
  | done a => exact ⟨h, [], .done a, .refl _⟩
  | call op k ih =>
      cases op with
      | @store α op =>
          obtain ⟨hmet, trace, q, hrun⟩ := ih (op.exec env (.drawn n) db).1 (n + 1)
            (op.exec env (.drawn n) db).2 (met && ok α op db) h
          rw [Bool.and_eq_true] at hmet
          have hstep : Step env C ⟨db, .call (.store op) k :: others⟩
              (op.committed env (.drawn n) db) ⟨(op.exec env (.drawn n) db).2,
                [] ++ k (op.exec env (.drawn n) db).1 :: others⟩ :=
            .call _ [] others (.drawn n) op k rfl (fun _ _ => hok α op db hmet.2)
          exact ⟨hmet.1, _, q, ((Run.refl _).tail hstep).trans hrun⟩

theorem run_of_runScriptIf (hok : ∀ α op db, ok α op db = true → C α op db) {script : List Action}
    (hvalid : ∀ action ∈ script, action.valid env) (n : Nat) (db : DB) (met : Bool)
    (h : (runScriptIf env ok n script (db, met)).2 = true) : met = true ∧
    ∃ trace, Run env C ⟨db, []⟩ trace ⟨(runScriptIf env ok n script (db, met)).1, []⟩ := by
  induction script generalizing n db met with
  | nil => exact ⟨h, [], .refl _⟩
  | cons action script ih =>
      have hrest : ∀ action ∈ script, action.valid env :=
        fun a ha => hvalid a (List.mem_cons_of_mem _ ha)
      have hfirst := hvalid action List.mem_cons_self
      cases action with
      | tick d =>
          obtain ⟨hmet, trace, hrun⟩ := ih hrest n (db.tick d) met h
          exact ⟨hmet, _, ((Run.refl _).tail (.tick _ d)).trans hrun⟩
      | @client α op =>
          obtain ⟨hmet, trace, hrun⟩ := ih hrest (n + 1) (op.exec env (.drawn n) db).2
            (met && ok α op db) h
          rw [Bool.and_eq_true] at hmet
          exact ⟨hmet.1, _, ((Run.refl _).tail (.client ⟨db, []⟩ (.drawn n) op hfirst
            (fun _ _ => hok α op db hmet.2))).trans hrun⟩
      | pass e workflowID =>
          obtain ⟨hmet, trace₂, hrun⟩ := ih hrest _ _ _ h
          obtain ⟨hmet, trace₁, q, hpass⟩ := run_of_evalIf hok _ n db met [] hmet
          have hstart := (Run.refl (C := C) ⟨db, []⟩).tail (.start ⟨db, []⟩ e (uuidOf 8 n) workflowID hfirst)
          exact ⟨hmet, _, ((hstart.trans hpass).tail (.stop _ [] [] q rfl)).trans hrun⟩

theorem reachable_of_runScriptIf (hok : ∀ α op db, ok α op db = true → C α op db)
    {script : List Action} (hvalid : ∀ action ∈ script, action.valid env) (now : Int)
    (h : (runScriptIf env ok 0 script (DB.init now, true)).2 = true) :
    ReachableIf env C ⟨(runScriptIf env ok 0 script (DB.init now, true)).1, []⟩ := by
  obtain ⟨-, trace, hrun⟩ := run_of_runScriptIf hok hvalid 0 (DB.init now) true h
  exact ⟨now, trace, hrun⟩

end Checked

end Sys

end DurableEngine
