/-
  DurableEngine.State.Obligations

  Obligations of the reconciler and the rows they are about.

  An obligation is fulfilled when its event is published, its wake-up or its
  timer consumed.  `Discharges` says that a transaction opens no obligation
  that is fulfilled and fulfils none that it leaves open; every transaction of
  the store but the upsert does.
-/

import DurableEngine.State.Reconcile
import DurableEngine.State.Results

namespace DurableEngine.State

open Lib

-- ============================================================================
-- Open and fulfilled obligations
-- ============================================================================

namespace DB

/-- The event is published. -/
def published (db : DB) (eventID : String) : Prop :=
  ∃ o, db.outbox.get eventID = some o ∧ o.publishState = .published

/-- The wake-up is consumed. -/
def wakeupConsumed (db : DB) (wakeupID : String) : Prop :=
  ∃ w, db.wakeups.get wakeupID = some w ∧ w.state = .consumed

/-- The timer is consumed. -/
def timerConsumed (db : DB) (timerID : String) : Prop :=
  ∃ t, db.timers.get timerID = some t ∧ t.consumedAt ≠ none

/-- What the obligation asks for has happened. -/
def fulfilled (db : DB) (k : ReconciliationKey) : Prop :=
  match k.kind with
  | .pendingOutbox => ∃ id, k.reference = "outbox/" ++ id ∧ db.published id
  | .lostWakeup => ∃ id, k.reference = "wakeup/" ++ id ∧ db.wakeupConsumed id
  | .dueTimer => ∃ id, k.reference = "timer/" ++ id ∧ db.timerConsumed id
  | .expiredAttempt | .poisonRecord => False

/-- No open obligation is about a row that is done. -/
structure ObligationsDue (db : DB) : Prop where
  outbox : ∀ id, db.published id → ¬ db.isOpen ⟨.pendingOutbox, "outbox/" ++ id⟩
  wakeups : ∀ id, db.wakeupConsumed id → ¬ db.isOpen ⟨.lostWakeup, "wakeup/" ++ id⟩
  timers : ∀ id, db.timerConsumed id → ¬ db.isOpen ⟨.dueTimer, "timer/" ++ id⟩

theorem obligationsDue_iff {db : DB} :
    db.ObligationsDue ↔ ∀ k, db.fulfilled k → ¬ db.isOpen k := by
  constructor
  · rintro h ⟨kind, reference⟩ hdone
    cases kind with
    | pendingOutbox =>
        obtain ⟨id, rfl, hid⟩ := hdone
        exact h.outbox id hid
    | lostWakeup =>
        obtain ⟨id, rfl, hid⟩ := hdone
        exact h.wakeups id hid
    | dueTimer =>
        obtain ⟨id, rfl, hid⟩ := hdone
        exact h.timers id hid
    | expiredAttempt | poisonRecord => exact hdone.elim
  · exact fun h => ⟨fun id hid => h ⟨.pendingOutbox, _⟩ ⟨id, rfl, hid⟩,
      fun id hid => h ⟨.lostWakeup, _⟩ ⟨id, rfl, hid⟩, fun id hid => h ⟨.dueTimer, _⟩ ⟨id, rfl, hid⟩⟩

end DB

/-- Nothing that is open was opened, or became fulfilled. -/
def Discharges (db db' : DB) : Prop :=
  ∀ k, db'.isOpen k → db'.fulfilled k → db.isOpen k ∧ db.fulfilled k

theorem Discharges.due {db db' : DB} (h : Discharges db db') (hdue : db.ObligationsDue) :
    db'.ObligationsDue := by
  rw [DB.obligationsDue_iff] at hdue ⊢
  intro k hdone hopen
  obtain ⟨hopen₀, hdone₀⟩ := h k hopen hdone
  exact hdue k hdone₀ hopen₀

/-- A transaction that opens at most obligations of the other kinds, and closes those of the rows
    it finishes. -/
theorem Discharges.of_rows {db db' : DB}
    (hitems : ∀ k, k.kind ≠ .expiredAttempt → k.kind ≠ .poisonRecord → db'.isOpen k → db.isOpen k)
    (houtbox : ∀ id, db'.published id →
      db.published id ∨ ¬ db'.isOpen ⟨.pendingOutbox, "outbox/" ++ id⟩)
    (hwakeups : ∀ id, db'.wakeupConsumed id →
      db.wakeupConsumed id ∨ ¬ db'.isOpen ⟨.lostWakeup, "wakeup/" ++ id⟩)
    (htimers : ∀ id, db'.timerConsumed id →
      db.timerConsumed id ∨ ¬ db'.isOpen ⟨.dueTimer, "timer/" ++ id⟩) : Discharges db db' := by
  rintro ⟨kind, reference⟩ hopen hdone
  cases kind with
  | pendingOutbox =>
      obtain ⟨id, rfl, hid⟩ := hdone
      exact ⟨hitems _ (by simp) (by simp) hopen, id, rfl, (houtbox id hid).resolve_right (· hopen)⟩
  | lostWakeup =>
      obtain ⟨id, rfl, hid⟩ := hdone
      exact ⟨hitems _ (by simp) (by simp) hopen, id, rfl, (hwakeups id hid).resolve_right (· hopen)⟩
  | dueTimer =>
      obtain ⟨id, rfl, hid⟩ := hdone
      exact ⟨hitems _ (by simp) (by simp) hopen, id, rfl, (htimers id hid).resolve_right (· hopen)⟩
  | expiredAttempt | poisonRecord => exact hdone.elim

theorem DB.published_congr {db db' : DB} (h : db'.outbox = db.outbox) {id : String} :
    db'.published id ↔ db.published id := by
  unfold DB.published
  rw [h]

theorem DB.wakeupConsumed_congr {db db' : DB} (h : db'.wakeups = db.wakeups) {id : String} :
    db'.wakeupConsumed id ↔ db.wakeupConsumed id := by
  unfold DB.wakeupConsumed
  rw [h]

theorem DB.timerConsumed_congr {db db' : DB} (h : db'.timers = db.timers) {id : String} :
    db'.timerConsumed id ↔ db.timerConsumed id := by
  unfold DB.timerConsumed
  rw [h]

/-- A transaction that touches none of the tables. -/
theorem Discharges.of_eq {db db' : DB} (hitems : db'.reconciliation = db.reconciliation)
    (houtbox : db'.outbox = db.outbox) (hwakeups : db'.wakeups = db.wakeups)
    (htimers : db'.timers = db.timers) : Discharges db db' :=
  .of_rows (fun _ _ _ h => (DB.isOpen_congr hitems).mp h)
    (fun _ h => .inl ((DB.published_congr houtbox).mp h))
    (fun _ h => .inl ((DB.wakeupConsumed_congr hwakeups).mp h))
    (fun _ h => .inl ((DB.timerConsumed_congr htimers).mp h))

-- ============================================================================
-- Writes of obligations
-- ============================================================================

/-- The row of an expired attempt is inserted, or its detail refreshed. -/
theorem openExpiredAttempt_isOpen {db : DB} {w : Workflow} {input : TimeoutInput} {detail : Jsonb}
    {k : ReconciliationKey} (hkind : k.kind ≠ .expiredAttempt)
    (h : (openExpiredAttempt db w input detail).isOpen k) : db.isOpen k := by
  have hne : k ≠ ⟨.expiredAttempt, attemptReference input.key⟩ := fun heq => hkind (by rw [heq])
  obtain ⟨item, hitem, hstate⟩ := h
  unfold openExpiredAttempt at hitem
  dsimp only at hitem
  split at hitem
  · rename_i hins
    rw [Table.get_insert hins, if_neg hne] at hitem
    exact ⟨item, hitem, hstate⟩
  · rw [Table.get_modify_ne _ _ _ hne] at hitem
    exact ⟨item, hitem, hstate⟩

-- ============================================================================
-- Timers
-- ============================================================================

/-- An owner transition is the operation that consumes a timer. -/
def Op.consumesTimer {α : Type} : Op α → Bool
  | .applyOwnerTransition _ => true
  | _ => false

/-- What the other operations do to the timers: nothing, or they add one. -/
theorem Change.timers_cases {db db' : DB} {α : Type} {op : Op α} (h : Change db op db')
    (hop : op.consumesTimer = false) :
    db'.timers = db.timers ∨ ∃ t, Inserted db.timers t db'.timers ∧ t.consumedAt = none := by
  cases h with
  | owner c => cases hop
  | consumed c =>
      obtain ⟨-, htimers⟩ | ⟨delay, t, -, -, hins, -, -, -, hfresh⟩ := c.timers
      · exact .inl htimers
      · exact .inr ⟨t, hins, hfresh⟩
  | timerScheduled c => exact .inr ⟨_, c.timers, c.timer.2.2⟩
  | idle c => exact .inl c.timers
  | created c | attemptCreated c | claimed c | extended c | recorded c | redispatched c | expired c
  | replaced c | canceled c | advanced c | approvalRequested c | approvalGranted c
  | approvalRejected c => exact .inl c.timers

theorem timerConsumed_of_inserted {db db' : DB} {t : Timer} (h : Inserted db.timers t db'.timers)
    (hfresh : t.consumedAt = none) {id : String} (hid : db'.timerConsumed id) :
    db.timerConsumed id := by
  obtain ⟨t', ht', hdone⟩ := hid
  rw [Table.get_insert h] at ht'
  split at ht'
  · cases ht'
    exact absurd hfresh hdone
  · exact ⟨t', ht', hdone⟩

/-- A timer and its obligation are finished together. -/
theorem Discharges.of_consumeTimer {db db' : DB} {timer : Option Timer}
    (htimers : db'.timers = (consumeTimer db timer).timers)
    (hitems : db'.reconciliation = (consumeTimer db timer).reconciliation)
    (houtbox : db'.outbox = db.outbox) (hwakeups : db'.wakeups = db.wakeups) :
    Discharges db db' := by
  cases timer with
  | none => exact .of_eq hitems houtbox hwakeups htimers
  | some t =>
      have hupdate := fun k => (congrArg (fun items => items.get k) hitems).trans
        (Table.get_update _ _ _ (by intro _; rfl) k)
      refine .of_rows (fun k _ _ hopen => isOpen_of_update hupdate (fun r hr => ?_) hopen)
        (fun _ h => .inl ((DB.published_congr houtbox).mp h))
        (fun _ h => .inl ((DB.wakeupConsumed_congr hwakeups).mp h)) (fun id hid => ?_)
      · dsimp only at hr
        split at hr
        · cases hr
        · exact hr
      · by_cases hsame : id = t.timerID
        · subst hsame
          refine .inr (not_isOpen_of_update hupdate (fun r => ?_) (fun r hr _ => by simp [hr]))
          dsimp only
          split
          · exact fun h => nomatch h
          · assumption
        · obtain ⟨t', ht', hdone⟩ := hid
          rw [htimers] at ht'
          rw [consumeTimer, DB.get_modifyTimer, if_neg hsame] at ht'
          exact .inl ⟨t', ht', hdone⟩

-- ============================================================================
-- Operations of the store
-- ============================================================================

/-- A wake-up and its obligation are finished together. -/
theorem acknowledgeWorkflowWakeups_discharges {lease : LeaseRef} {workflowID : String} {revision : Int}
    {db db' : DB} {u : Unit}
    (h : acknowledgeWorkflowWakeups lease workflowID revision db = .ok (u, db')) :
    Discharges db db' := by
  simp only [acknowledgeWorkflowWakeups, bind_eq_ok, pure_eq_ok] at h
  obtain ⟨-, -, heq⟩ := h
  cases heq
  refine .of_rows (fun k _ _ hopen => isOpen_of_update
      (fun k => Table.get_update _ _ _ (by intro _; rfl) k) (fun r hr => by cases hr) hopen)
    (fun _ => .inl) (fun id hid => ?_) (fun _ => .inl)
  obtain ⟨w', hw', hdone⟩ := hid
  have hmem := Table.mem_of_get hw'
  have hkey := Table.key_of_get hw'
  rw [Table.get_update, Option.map_eq_some_iff] at hw'
  obtain ⟨w, hw, heq⟩ := hw'
  split at heq
  · rename_i hcovered
    subst heq
    simp only [Bool.and_eq_true, decide_eq_true_eq] at hcovered
    refine .inr (not_isOpen_of_update (fun k => Table.get_update _ _ _ (by intro _; rfl) k)
      (fun r hr => by cases hr) (fun r hr hopen => ?_))
    simp only [hr, hopen, decide_true, Bool.true_and, List.any_eq_true]
    exact ⟨_, hmem, by simp [hcovered.1.1, ← hkey]⟩
  · subst heq
    exact .inl ⟨w, hw, hdone⟩

theorem timeoutAttempt_isOpen {env : Env} {amb : Ambient} {input : TimeoutInput} {db db' : DB}
    {r : TimeoutResult} (h : timeoutAttempt env amb input db = .ok (r, db')) {k : ReconciliationKey}
    (hkind : k.kind ≠ .expiredAttempt) (hopen : db'.isOpen k) : db.isOpen k := by
  cases (timeoutAttempt_step h).1 with
  | redispatched w a deadline c => exact (DB.isOpen_congr c.obligations).mp hopen
  | expired w a c =>
      obtain ⟨detail, hitems⟩ := c.obligations
      exact openExpiredAttempt_isOpen hkind ((DB.isOpen_congr hitems).mp hopen)
  | replaced w n a deadline c => exact (DB.isOpen_congr c.obligations).mp hopen

/-- The events an operation adds are pending. -/
theorem published_of_commit {env : Env} {amb : Ambient} {α : Type} {op : Op α} {db db' : DB} {a : α}
    (h : op.run env amb db = .ok (a, db')) {id : String} (hid : db'.published id) :
    db.published id := by
  obtain ⟨o, ho, hstate⟩ := hid
  obtain hsame | ⟨_, _, ⟨event, hins, -, -, hnew⟩, -⟩ := (Op.run_commit h).change.outbox_cases
  · exact ⟨o, by rw [← hsame]; exact ho, hstate⟩
  · rw [Table.get_insert hins] at ho
    split at ho
    · cases ho
      rw [hnew.pending] at hstate
      cases hstate
    · exact ⟨o, ho, hstate⟩

/-- An operation that opens obligations of the other kinds at most, and writes no wake-up. -/
theorem Discharges.of_commit {env : Env} {amb : Ambient} {α : Type} {op : Op α} {db db' : DB} {a : α}
    (h : op.run env amb db = .ok (a, db')) (hop : op.consumesTimer = false)
    (hitems : ∀ k, k.kind ≠ .expiredAttempt → k.kind ≠ .poisonRecord → db'.isOpen k → db.isOpen k)
    (hwakeups : db'.wakeups = db.wakeups) : Discharges db db' := by
  refine .of_rows hitems (fun _ hid => .inl (published_of_commit h hid))
    (fun _ hid => .inl ((DB.wakeupConsumed_congr hwakeups).mp hid)) (fun id hid => .inl ?_)
  obtain hsame | ⟨t, hins, hfresh⟩ := (Op.run_commit h).change.timers_cases hop
  · exact (DB.timerConsumed_congr hsame).mp hid
  · exact timerConsumed_of_inserted hins hfresh hid

/-- No operation of the store leaves an obligation open that it fulfils. -/
theorem Op.discharges {env : Env} {amb : Ambient} {α : Type} {op : Op α} {db db' : DB} {a : α}
    (h : op.run env amb db = .ok (a, db')) : Discharges db db' := by
  have hframe := (Op.run_commit h).frame
  cases op with
  | acknowledgeWorkflowWakeups lease id revision => exact acknowledgeWorkflowWakeups_discharges h
  | applyOwnerTransition input =>
      obtain ⟨w, row, current, timer, c, -⟩ := applyOwnerTransition_owner h
      exact .of_consumeTimer c.timers c.obligations c.outbox (by rw [hframe]; rfl)
  | timeoutAttempt input =>
      exact .of_commit h rfl (fun k hkind _ => timeoutAttempt_isOpen h hkind) (by rw [hframe]; rfl)
  | _ =>
      refine .of_commit h rfl (fun k _ _ hopen => ?_) (by rw [hframe]; rfl)
      rw [hframe] at hopen
      exact hopen

-- ============================================================================
-- Transactions of relays and consumers
-- ============================================================================

/-- A row of the outbox was written that is not published now. -/
theorem Rewrites.discharges {db db' : DB} {id : String} {o o' : OutboxEvent}
    (h : Rewrites db db' id o o') (hstate : o'.publishState ≠ .published) : Discharges db db' := by
  refine .of_rows (fun k _ hkind => h.obligations k hkind) (fun id' hid' => .inl ?_)
    (fun id' hid' => .inl (by rw [h.frame] at hid'; exact hid'))
    (fun id' hid' => .inl (by rw [h.frame] at hid'; exact hid'))
  obtain ⟨x, hx, hpublished⟩ := hid'
  rw [h.outbox] at hx
  split at hx
  · cases hx
    exact absurd hpublished hstate
  · exact ⟨x, hx, hpublished⟩

/-- A publication and its obligation are finished together, for an event named as it is stored. -/
theorem finalizeOutboxPublication_discharges {input : FinalizeInput} {db db' : DB} {u : Unit}
    (h : finalizeOutboxPublication input db = .ok (u, db'))
    (hnamed : input.acknowledged = true → uuidText input.eventID = some input.eventID) :
    Discharges db db' := by
  obtain ⟨id, o, hid, ho, hcases⟩ := finalizeOutboxPublication_eq_ok h
  obtain ⟨-, rfl⟩ | ⟨-, hack, hclosed, hrewrites⟩ | ⟨-, -, retryAt, hrewrites⟩ := hcases
  · exact .of_eq rfl rfl rfl rfl
  · rw [hnamed hack, Option.some.injEq] at hid
    refine .of_rows (fun k _ hkind => hrewrites.obligations k hkind) (fun id' hid' => ?_)
      (fun id' hid' => .inl (by rw [hrewrites.frame] at hid'; exact hid'))
      (fun id' hid' => .inl (by rw [hrewrites.frame] at hid'; exact hid'))
    by_cases hsame : id' = id
    · exact .inr (by rw [hsame, ← hid]; exact hclosed)
    · obtain ⟨o', ho', hstate⟩ := hid'
      rw [hrewrites.outbox, if_neg hsame] at ho'
      exact .inl ⟨o', ho', hstate⟩
  · exact hrewrites.discharges (by simp [OutboxEvent.release])

theorem quarantineOutbox_discharges {env : Env} {input : QuarantineOutboxInput} {db db' : DB}
    {u : Unit} (h : quarantineOutbox env input db = .ok (u, db')) : Discharges db db' := by
  obtain ⟨id, o, -, -, hrewrites⟩ := quarantineOutbox_eq_ok h
  exact hrewrites.discharges (by simp [OutboxEvent.quarantine])

theorem claimOutbox_discharges {input : ClaimOutboxInput} {locked : String → Bool} {db db' : DB}
    {events : List OutboxEvent} (h : claimOutbox input locked db = .ok (events, db')) :
    Discharges db db' := by
  obtain ⟨owner, outbox, -, hclaimed, rfl⟩ := claimOutbox_eq_ok h
  refine .of_rows (fun _ _ _ hopen => hopen) (fun id hid => .inl ?_) (fun _ => .inl) (fun _ => .inl)
  obtain ⟨o', ho', hstate⟩ := hid
  by_cases hchosen : ∃ e ∈ events, e.eventID = id
  · obtain ⟨e, he, rfl⟩ := hchosen
    obtain ⟨o, -, -, rfl, hget⟩ := hclaimed.chosen e he
    rw [show outbox.get (o.claim owner (db.now + input.lease)).eventID = some o' from ho'] at hget
    cases hget
    cases hstate
  · exact ⟨o', (hclaimed.other id (fun e he heq => hchosen ⟨e, he, heq⟩)) ▸ ho', hstate⟩

theorem wakeupConsumed_of_inserted {db db' : DB} {w : Wakeup} (h : Inserted db.wakeups w db'.wakeups)
    (hpending : w.state = .pending) {id : String} (hid : db'.wakeupConsumed id) :
    db.wakeupConsumed id := by
  obtain ⟨w', hw', hdone⟩ := hid
  rw [Table.get_insert h] at hw'
  split at hw'
  · cases hw'
    rw [hpending] at hdone
    cases hdone
  · exact ⟨w', hw', hdone⟩

theorem Recorded.discharges {db db' : DB} {m : InboxMessage} {id : String} {o : OutboxEvent}
    {r : InboxResult} (h : Recorded db db' m id o r) : Discharges db db' := by
  refine .of_rows (fun _ _ _ hopen => (DB.isOpen_congr h.obligations).mp hopen)
    (fun _ hid => .inl (by rw [h.frame] at hid; exact hid)) (fun id' hid => .inl ?_)
    (fun _ hid => .inl (by rw [h.frame] at hid; exact hid))
  obtain ⟨-, -, hwakeups⟩ | ⟨-, -, -, -, hsame⟩ := h.inbox
  · generalize r.wakeupCreated = created at hwakeups
    cases hwakeups with
    | same hsame => exact (DB.wakeupConsumed_congr hsame).mp hid
    | created w _ _ hpending _ hins => exact wakeupConsumed_of_inserted hins hpending hid
  · exact (DB.wakeupConsumed_congr hsame).mp hid

theorem Poisoned.discharges {db db' : DB} {m : InboxMessage} {r : InboxResult}
    (h : Poisoned db db' m r) : Discharges db db' :=
  .of_rows (fun k _ hkind => h.obligations k hkind)
    (fun _ hid => .inl (by rw [h.frame] at hid; exact hid))
    (fun _ hid => .inl ((DB.wakeupConsumed_congr h.wakeups).mp hid))
    (fun _ hid => .inl (by rw [h.frame] at hid; exact hid))

end DurableEngine.State
