/-
  DurableEngine.Services.Due

  Due obligations: an open obligation is about a row that is still unfinished.

  Every transaction of the deployment but one keeps this: a transaction that
  finishes a row closes its obligation with it.  The upsert of a reconciler
  does not look at the row again, so it opens an obligation that is already
  fulfilled when the row was finished after it was listed.
-/

import DurableEngine.Services.Reconciler
import DurableEngine.Services.RelaySafety
import DurableEngine.State.Obligations

namespace DurableEngine.Services

open Lib State

-- ============================================================================
-- Steps of the world
-- ============================================================================

/-- The events a relay works off are named as they are stored. -/
def Relays.Named (s : Relays) : Prop :=
  ∀ pass ∈ s.passes, ∀ e ∈ pass.todo, uuidText e.eventID = some e.eventID

theorem Relays.Step.discharges {env : Env} {s s' : Relays} {events : List RelayEvent}
    (h : Relays.Step env s events s') (hnamed : s.Named) : Discharges s.db s'.db := by
  cases h with
  | claim config locked claimed db' h => exact claimOutbox_discharges h
  | reject before after config event rest db' _ _ h => exact quarantineOutbox_discharges h
  | publish | fail | lost => exact .of_eq rfl rfl rfl rfl
  | finalize before after config event rest published input db' hpasses hcall h =>
      refine finalizeOutboxPublication_discharges h (fun hack => ?_)
      have hevent := hnamed ⟨config, event :: rest, published⟩
        (by rw [hpasses]; exact List.mem_append_right _ List.mem_cons_self) event List.mem_cons_self
      cases published with
      | not_yet => cases hcall
      | acknowledged =>
          cases hcall
          exact hevent
      | failed error =>
          cases hcall
          cases hack
  | quarantine input db' h => exact quarantineOutbox_discharges h
  | release input db' hfailed h =>
      refine finalizeOutboxPublication_discharges h (fun hack => ?_)
      rw [hfailed] at hack
      cases hack

theorem Consumers.Step.discharges {env : Env} {db db' : DB} {events : List ConsumerEvent}
    (h : Consumers.Step env db events db') : Discharges db db' := by
  cases h with
  | ensure k nextOffset _ h =>
      obtain ⟨rfl, -⟩ | ⟨hframe, -, -⟩ := ensureConsumerOffset_eq_ok h
      · exact .of_eq rfl rfl rfl rfl
      · rw [hframe]
        exact .of_eq rfl rfl rfl rfl
  | record wakeupID m r _ h =>
      obtain ⟨id, o, hrecorded⟩ := recordInbox_eq_ok h
      exact hrecorded.discharges
  | poison m reason r _ h => exact (quarantineMessage_eq_ok h).discharges

theorem World.RelaySound.named {trace : List Event} {w : World} (h : w.RelaySound trace) :
    Relays.Named ⟨w.db, w.passes⟩ := by
  intro pass hpass e he
  obtain ⟨⟨o, ho⟩, -⟩ := h.sound.todo pass hpass e he
  have hself := h.typed o (Table.mem_of_get ho)
  rwa [Table.key_of_get ho] at hself

/-- Every step of the world finishes a row together with its obligation. -/
theorem World.Step.discharges {env : Env} {trace events : List Event} {w w' : World}
    (hsound : w.RelaySound trace) (h : World.Step env w events w') : Discharges w.db w'.db := by
  cases h with
  | tick _ d => exact .of_eq rfl rfl rfl rfl
  | commit _ amb op a db' h _ => exact Op.discharges h
  | relay _ events s' h => exact h.discharges hsound.named
  | consumer _ events db' h => exact h.discharges
  | effect _ events s' h =>
      rw [h.frame]
      exact .of_eq rfl rfl rfl rfl

-- ============================================================================
-- Calls of the reconcilers
-- ============================================================================

/-- What a committed upsert does to the obligations: it refreshes a detail, or it opens an
    obligation that was not there. -/
theorem upsertReconciliationItem_eq_ok {input : UpsertInput} {db db' : DB} {item : ReconciliationItem}
    (h : upsertReconciliationItem input db = .ok (item, db')) :
    (∃ row detail, db.reconciliation.get input.key = some row ∧
      db' = { db with
        reconciliation := db.reconciliation.modify input.key (fun r => { r with detail := detail })
          (fun _ => rfl) }) ∨
    (∃ detail items, db.reconciliation.get input.key = none ∧
      Inserted db.reconciliation (input.row detail) items ∧
      db' = { db with reconciliation := items }) := by
  simp only [upsertReconciliationItem, bind_eq_ok, rejectIf_eq_ok, getOr_eq_ok, exists_const] at h
  obtain ⟨-, -, detail, -, -, -, h⟩ := h
  split at h
  · rename_i row hrow
    cases h
    exact .inl ⟨row, detail, hrow, rfl⟩
  · rename_i hnone
    simp only [bind_eq_ok, rejectIf_eq_ok, getOr_eq_ok, exists_const, pure_eq_ok] at h
    obtain ⟨-, items, hins, heq⟩ := h
    cases heq
    exact .inr ⟨detail, items, hnone, hins, rfl⟩

namespace ReconcileOp

/-- The call opens the obligation: it is an upsert of one that was not there. -/
def opens {α : Type} (op : ReconcileOp α) (db : DB) (k : ReconciliationKey) : Prop :=
  match op with
  | .upsertReconciliationItem input => input.key = k ∧ db.reconciliation.get k = none
  | _ => False

/-- What a committed call is: the timeout of the store, an upsert, or a call that opens nothing. -/
inductive Effect (env : Env) (amb : Ambient) (db db' : DB) : {α : Type} → ReconcileOp α → Prop where
  | timeout (input : TimeoutInput) (r : TimeoutResult)
      (h : (Op.timeoutAttempt input).run env amb db = .ok (r, db')) :
      Effect env amb db db' (.timeoutAttempt input)
  | upsert (input : UpsertInput) (item : ReconciliationItem)
      (h : State.upsertReconciliationItem input db = .ok (item, db')) :
      Effect env amb db db' (.upsertReconciliationItem input)
  | quiet {α : Type} {op : ReconcileOp α} (opensNone : ∀ k, ¬ op.opens db k)
      (frame : db' = { db with reconciliation := db'.reconciliation })
      (open' : ∀ k, db'.isOpen k → db.isOpen k) : Effect env amb db db' op

variable {env : Env} {amb : Ambient} {oldestAge : Int} {α : Type} {op : ReconcileOp α} {a : α}
  {db db' : DB}

theorem Effect.of_query {f : DB → Except Err α} (hno : ∀ k, ¬ op.opens db k)
    (h : query f db = .ok (a, db')) : Effect env amb db db' op := by
  simp only [query, bind_eq_ok, pure_eq_ok] at h
  obtain ⟨_, -, heq⟩ := h
  cases heq
  exact .quiet hno rfl (fun _ hopen => hopen)

theorem run_effect (h : op.run env amb oldestAge db = .ok (a, db')) : Effect env amb db db' op := by
  cases op with
  | timeoutAttempt input => exact .timeout input a h
  | upsertReconciliationItem input => exact .upsert input a h
  | resolveReconciliationItem key status =>
      simp only [run, State.resolveReconciliationItem, bind_eq_ok, rejectIf_eq_ok, exists_const,
        pure_eq_ok] at h
      obtain ⟨hstatus, -, heq⟩ := h
      cases heq
      exact .quiet (fun _ hopens => hopens) rfl (fun k hopen => isOpen_of_update
        (fun k => Table.get_update _ _ _ (by intro _; rfl) k) (fun r hr => absurd hr hstatus) hopen)
  | checkBackpressure | listDueAttempts | listDueTimers | listPendingOutbox | listPendingWakeups
  | listTransportQuarantine | listReconciliationItems =>
      exact .of_query (fun _ hopens => hopens) h

/-- A call leaves the rows of the outbox and adds pending ones at most. -/
theorem Effect.outbox (h : Effect env amb db db' op) :
    (∀ id o, db.outbox.get id = some o → db'.outbox.get id = some o) ∧
      ∀ id o, db'.outbox.get id = some o → db.outbox.get id = some o ∨ o.publishState = .pending := by
  have hsame : db'.outbox = db.outbox → (∀ id o, db.outbox.get id = some o →
      db'.outbox.get id = some o) ∧ ∀ id o, db'.outbox.get id = some o →
        db.outbox.get id = some o ∨ o.publishState = .pending := by
    intro heq
    rw [heq]
    exact ⟨fun _ _ ho => ho, fun _ _ ho => .inl ho⟩
  cases h with
  | timeout input r h => exact ⟨fun _ _ ho => outbox_get_of_commit h ho,
      fun _ _ ho => (outbox_new_of_commit h ho).imp_right (·.pending)⟩
  | upsert input item h =>
      obtain ⟨_, _, -, rfl⟩ | ⟨_, _, -, -, rfl⟩ := upsertReconciliationItem_eq_ok h <;> exact hsame rfl
  | quiet _ frame _ => exact hsame (by rw [frame])

/-- An upsert keeps the obligations due unless it opens one that is fulfilled. -/
theorem upsert_due_iff {input : UpsertInput} {item : ReconciliationItem}
    (h : State.upsertReconciliationItem input db = .ok (item, db')) (hdue : db.ObligationsDue) :
    db'.ObligationsDue ↔ (db.reconciliation.get input.key = none → ¬ db.fulfilled input.key) := by
  obtain ⟨row, detail, hrow, rfl⟩ | ⟨detail, items, hnone, hins, rfl⟩ :=
    upsertReconciliationItem_eq_ok h
  · refine ⟨fun _ hnone => ?_, fun _ => ?_⟩
    · rw [hrow] at hnone
      cases hnone
    · refine Discharges.due ?_ hdue
      exact .of_rows (fun k _ _ hopen => isOpen_of_update
        (fun k => Table.get_update _ _ _ (by intro _; rfl) k) (by exact fun _ hr => hr) hopen)
        (fun _ => .inl) (fun _ => .inl) (fun _ => .inl)
  · rw [DB.obligationsDue_iff] at hdue ⊢
    constructor
    · intro hdue' _ hdone
      refine hdue' input.key hdone ⟨input.row detail, ?_, rfl⟩
      exact Table.get_insert_self hins
    · rintro hopens k hdone ⟨x, hx, hstate⟩
      rw [Table.get_insert hins] at hx
      split at hx
      · rename_i hkey
        rw [hkey] at hdone
        exact hopens hnone hdone
      · exact hdue k hdone ⟨x, hx, hstate⟩

/-- A call keeps the obligations due unless it opens one that is fulfilled. -/
theorem Effect.due_iff (h : Effect env amb db db' op) (hdue : db.ObligationsDue) :
    db'.ObligationsDue ↔ ∀ k, op.opens db k → ¬ db.fulfilled k := by
  cases h with
  | timeout input r h =>
      exact ⟨fun _ k hopens => hopens.elim, fun _ => (Op.discharges h).due hdue⟩
  | upsert input item h =>
      rw [upsert_due_iff h hdue]
      constructor
      · rintro hopens k ⟨rfl, hnone⟩
        exact hopens hnone
      · exact fun hopens hnone => hopens input.key ⟨rfl, hnone⟩
  | quiet hno frame hopen =>
      refine ⟨fun _ k hk => absurd hk (hno k), fun _ => Discharges.due ?_ hdue⟩
      exact .of_rows (fun k _ _ => hopen k) (fun _ hid => .inl (by rw [frame] at hid; exact hid))
        (fun _ hid => .inl (by rw [frame] at hid; exact hid))
        (fun _ hid => .inl (by rw [frame] at hid; exact hid))

end ReconcileOp

-- ============================================================================
-- Runs
-- ============================================================================

namespace Deployment

/-- No call opens an obligation that is already fulfilled: the row of the obligation was not
    finished since it was listed, or the obligation is there already. -/
def Timely (s : Deployment) (calls : List Reconciled) : Prop :=
  ∀ c ∈ calls, ∀ k, c.2.opens s.db k → ¬ s.db.fulfilled k

/-- The states the deployment reaches while every call of a reconciler is timely. -/
def ReachesTimely (env : Env) (s : Deployment) : Prop :=
  ∃ now, Relation.ReflTransGen (fun s s' => ∃ calls, Step env s calls s' ∧ Timely s calls)
    (start now) s

/-- The states the deployment reaches. -/
def Reachable (env : Env) (s : Deployment) : Prop := ∃ now calls, Run env (start now) calls s

variable {env : Env} {s s' : Deployment} {calls : List Reconciled}

/-- A step keeps what is known of the relays. -/
theorem Step.sound (h : Step env s calls s') {trace : List Event}
    (hsound : s.world.RelaySound trace) : ∃ trace, s'.world.RelaySound trace := by
  cases h with
  | world _ events w' h => exact ⟨_, hsound.step h⟩
  | begin | finish => exact ⟨_, hsound⟩
  | refuse => exact ⟨_, hsound⟩
  | commit _ before after amb oldestAge op k _ a db' h typed =>
      obtain ⟨hkept, hnew⟩ := (ReconcileOp.run_effect h).outbox
      exact ⟨_, typed, hsound.sound.of_db hkept hnew⟩

theorem Step.due_iff (h : Step env s calls s') {trace : List Event}
    (hsound : s.world.RelaySound trace) (hdue : s.db.ObligationsDue) :
    s'.db.ObligationsDue ↔ Timely s calls := by
  have hquiet : ∀ {t : Deployment}, t.db.ObligationsDue → (t.db.ObligationsDue ↔ Timely s []) :=
    fun ht => ⟨fun _ c hc => (nomatch hc), fun _ => ht⟩
  cases h with
  | world _ events w' h => exact hquiet ((h.discharges hsound).due hdue)
  | begin | finish => exact hquiet hdue
  | refuse => exact hquiet hdue
  | commit _ before after amb oldestAge op k _ a db' h typed =>
      rw [show Timely s [⟨_, op⟩] ↔ ∀ k, op.opens s.db k → ¬ s.db.fulfilled k by
        simp [Timely]]
      exact (ReconcileOp.run_effect h).due_iff hdue

theorem ReachesTimely.sound (h : ReachesTimely env s) :
    s.db.ObligationsDue ∧ ∃ trace, s.world.RelaySound trace := by
  obtain ⟨now, hrun⟩ := h
  induction hrun with
  | refl =>
      refine ⟨?_, [], World.Run.relaySound (show World.Run env (World.start now) [] _ from .refl)⟩
      rw [DB.obligationsDue_iff]
      exact fun k _ ⟨item, hitem, _⟩ => nomatch hitem
  | tail _ hstep ih =>
      obtain ⟨calls, hs, htimely⟩ := hstep
      obtain ⟨hdue, trace, hsound⟩ := ih
      exact ⟨(hs.due_iff hsound hdue).mpr htimely, hs.sound hsound⟩

-- ============================================================================
-- Scripts
-- ============================================================================

/-- One entry of a deployment script: a move of the world, the start of a pass, or the next call of
    the pass at a position. -/
inductive DeploymentMove where
  | world (move : Move)
  | begin (r : Reconciler) (lease : LeaseRef) (actorID : String)
  | next (position : Nat)

/-- The calls that commit and the deployment after a move, absent when it is not a step. -/
def move? (env : Env) (amb : Ambient) (s : Deployment) :
    DeploymentMove → Option (List Reconciled × Deployment)
  | .world move => (s.world.move? env amb move).map (fun r => ([], { s with world := r.2 }))
  | .begin r lease actorID =>
      let r : Reconciler := { r with env := env }
      some ([], { s with reconcilers := (r.runOnce lease actorID).run :: s.reconcilers })
  | .next position =>
      match splitAt? s.reconcilers position with
      | some (before, .call (.store op) k, after) =>
          match op.run env amb 0 s.db with
          | .ok (a, db') =>
              if db'.EventIDsTyped then
                some ([⟨_, op⟩], { s.withDB db' with reconcilers := before ++ k (.ok a) :: after })
              else none
          | .error e => some ([], { s with reconcilers := before ++ k (.error e) :: after })
      | _ => none

theorem step_of_move? {amb : Ambient} {move : DeploymentMove}
    (h : s.move? env amb move = some (calls, s')) : Step env s calls s' := by
  cases move with
  | world move =>
      obtain ⟨⟨events, w'⟩, hmove, heq⟩ := Option.map_eq_some_iff.mp h
      cases heq
      exact .world s events w' (World.step_of_move? hmove)
  | begin r lease actorID =>
      cases h
      exact .begin s _ lease actorID rfl
  | next position =>
      simp only [move?] at h
      split at h
      · rename_i before _ op k after hsplit
        split at h
        · rename_i a db' hrun
          obtain ⟨htyped, heq⟩ := Option.ite_none_right_eq_some.mp h
          cases heq
          exact .commit s before after amb 0 op k (splitAt?_eq_some hsplit) a db' hrun htyped
        · rename_i e hrun
          cases h
          exact .refuse s before after amb 0 op k (splitAt?_eq_some hsplit) e hrun
      · cases h

/-- The calls and the deployment a script leads to, its first entry being the `n`-th call. -/
def moves? (env : Env) : Nat → List DeploymentMove → Deployment → Option (List Reconciled × Deployment)
  | _, [], s => some ([], s)
  | n, move :: script, s =>
      match s.move? env (.drawn n) move with
      | none => none
      | some (calls, s') => (moves? env (n + 1) script s').map (fun r => (calls ++ r.1, r.2))

theorem run_of_moves? {n : Nat} {script : List DeploymentMove}
    (h : moves? env n script s = some (calls, s')) : Run env s calls s' := by
  induction script generalizing n s calls with
  | nil =>
      cases h
      exact .refl
  | cons move script ih =>
      simp only [moves?] at h
      split at h
      · cases h
      · rename_i first s₁ hmove
        obtain ⟨⟨rest, s₂⟩, hrest, heq⟩ := Option.map_eq_some_iff.mp h
        cases heq
        exact .head (step_of_move? hmove) (ih hrest)

/-- The calls that no upsert is among are timely. -/
theorem timely_of_quiet (h : ∀ c ∈ calls, ∀ k, ¬ c.2.opens s.db k) : Timely s calls :=
  fun c hc k hopens => absurd hopens (h c hc k)

/-- The call is an upsert. -/
def isUpsert : Reconciled → Bool
  | ⟨_, .upsertReconciliationItem _⟩ => true
  | _ => false

/-- A script without upserts is timely. -/
theorem reachesTimely_of_moves? {n : Nat} {script : List DeploymentMove} (h : ReachesTimely env s)
    (hmoves : moves? env n script s = some (calls, s')) (hquiet : calls.all (!isUpsert ·) = true) :
    ReachesTimely env s' := by
  induction script generalizing n s calls with
  | nil =>
      cases hmoves
      exact h
  | cons move script ih =>
      simp only [moves?] at hmoves
      split at hmoves
      · cases hmoves
      · rename_i first s₁ hmove
        obtain ⟨⟨rest, s₂⟩, hrest, heq⟩ := Option.map_eq_some_iff.mp hmoves
        cases heq
        rw [List.all_append, Bool.and_eq_true] at hquiet
        obtain ⟨now, hrun⟩ := h
        refine ih ⟨now, hrun.tail ⟨first, step_of_move? hmove, timely_of_quiet ?_⟩⟩ hrest hquiet.2
        intro c hc k hopens
        have hno := List.all_eq_true.mp hquiet.1 c hc
        obtain ⟨α, op⟩ := c
        cases op with
        | upsertReconciliationItem input => simp [isUpsert] at hno
        | _ => exact hopens

/-- A pass has listed the pending event of a new workflow. -/
def listedScript : List DeploymentMove := [
  .world (.call (.createDefinition soloDefinition)), .world (.call (.createWorkflow soloWorkflow)),
  .begin ⟨.plain, 10, 1000, ⟨0, 0, 0, 0⟩⟩ soloLease "reconciler",
  .next 0, .next 0, .next 0, .next 0]

/-- A relay publishes the event. -/
def publishScript : List DeploymentMove :=
  [.world (.claim (soloRelay 1)), .world (.publish 0), .world (.finalize 0)]

/-- In every state that the deployment reaches while its reconcilers are timely, the open
    obligations are due, and the next step keeps them so exactly when it is timely. -/
theorem obligations_due_iff (h : ReachesTimely env s) (hs : Step env s calls s') :
    s.db.ObligationsDue ∧ (s'.db.ObligationsDue ↔ Timely s calls) := by
  obtain ⟨hdue, trace, hsound⟩ := h.sound
  exact ⟨hdue, hs.due_iff hsound hdue⟩

/-- The listed event is published before the pass writes its obligation. -/
theorem obligations_not_due :
    ¬ ∀ (env : Env) (s : Deployment), Reachable env s → s.db.ObligationsDue := by
  have hrun : (moves? .plain 0 (listedScript ++ publishScript ++ [DeploymentMove.next 0]) (start 0)).any (fun r =>
      (r.2.db.outbox.get (uuidOf 1 1)).any (fun o => o.publishState = .published) &&
      (r.2.db.reconciliation.get ⟨.pendingOutbox, "outbox/" ++ uuidOf 1 1⟩).any
        (fun item => item.status = .open)) = true := by
    decide +kernel
  obtain ⟨⟨calls, s⟩, hmoves, hshown⟩ := (Option.any_eq_true _ _).mp hrun
  simp only [Bool.and_eq_true, Option.any_eq_true, decide_eq_true_eq] at hshown
  exact fun h => (h .plain s ⟨0, calls, run_of_moves? hmoves⟩).outbox _ hshown.1 hshown.2

/-- The pass writes the obligation while the event is pending. -/
theorem obligations_due_listed : ∃ s s' calls, ReachesTimely .plain s ∧ Step .plain s calls s' ∧
    (s.db.outbox.get (uuidOf 1 1)).map (·.publishState) = some .pending ∧
    (s'.db.reconciliation.get ⟨.pendingOutbox, "outbox/" ++ uuidOf 1 1⟩).map (·.status) = some .open ∧
    s.db.ObligationsDue ∧ (s'.db.ObligationsDue ↔ Timely s calls) := by
  have hrun : (moves? .plain 0 listedScript (start 0)).any (fun r =>
      r.1.all (!isUpsert ·) &&
      decide ((r.2.db.outbox.get (uuidOf 1 1)).map (·.publishState) = some .pending) &&
      (r.2.move? .plain (.drawn 7) (.next 0)).any (fun r' =>
        decide ((r'.2.db.reconciliation.get ⟨.pendingOutbox, "outbox/" ++ uuidOf 1 1⟩).map (·.status) =
          some .open))) = true := by
    decide +kernel
  obtain ⟨⟨calls, s⟩, hmoves, hshown⟩ := (Option.any_eq_true _ _).mp hrun
  simp only [Bool.and_eq_true, decide_eq_true_eq] at hshown
  obtain ⟨⟨hquiet, hpending⟩, hnext⟩ := hshown
  obtain ⟨⟨last, s'⟩, hmove, hopen⟩ := (Option.any_eq_true _ _).mp hnext
  have hreach : ReachesTimely .plain s := reachesTimely_of_moves? ⟨0, .refl⟩ hmoves hquiet
  have hstep : Step .plain s last s' := step_of_move? hmove
  exact ⟨s, s', last, hreach, hstep, hpending, of_decide_eq_true hopen,
    obligations_due_iff hreach hstep⟩

end Deployment

end DurableEngine.Services
