/-
  DurableEngine.Services.Wakeups

  An accepted event always has its wake-up: the inbox row and the wake-up are
  written in one transaction, and neither is taken back.  A wake-up names the
  workflow that announced the event and the partition of its id.
-/

import DurableEngine.Services.Dedupe
import DurableEngine.Services.Placement

namespace DurableEngine.Services

open Lib State

/-- The wake-up of the stored event `o`. -/
structure WakesFor (db : DB) (wake : Wakeup) (o : OutboxEvent) : Prop where
  stored : db.outbox.get wake.eventID = some o
  topic : o.topic = eventTopic
  workflow : wake.workflowID = o.workflowID
  partition : wake.partitionID = partitionOf wake.workflowID
  reason : wake.reason = "EVENT:" ++ o.eventType

/-- What a run keeps: inbox rows are of stored events, those of the event topic have a wake-up, and a
    wake-up is that of an accepted event. -/
structure Wakes (db : DB) : Prop where
  inbox : ∀ row ∈ db.transport.inbox.rows, ∃ o, db.outbox.get row.key.eventID = some o ∧
    row.topic = some o.topic
  woken : ∀ row ∈ db.transport.inbox.rows, row.topic = some eventTopic →
    ∃ wake ∈ db.wakeups.rows, wake.eventID = row.key.eventID
  origin : ∀ wake ∈ db.wakeups.rows, (∃ row ∈ db.transport.inbox.rows, row.key.eventID = wake.eventID) ∧
    ∃ o, WakesFor db wake o

-- ============================================================================
-- The transaction
-- ============================================================================

/-- What a first delivery writes. -/
inductive Wakening (db db' : DB) (id : String) (o : OutboxEvent) : Prop where
  | quiet (topic : o.topic ≠ eventTopic) (wakeups : db'.wakeups = db.wakeups)
  | again (wake : Wakeup) (stored : wake ∈ db.wakeups.rows) (event : wake.eventID = id)
      (wakeups : db'.wakeups = db.wakeups)
  | woke (wake : Wakeup) (event : wake.eventID = id) (topic : o.topic = eventTopic)
      (workflow : wake.workflowID = o.workflowID)
      (partition : ∃ wf, db.workflows.get o.workflowID = some wf ∧ wake.partitionID = wf.partitionID)
      (reason : wake.reason = "EVENT:" ++ o.eventType)
      (wakeups : Inserted db.wakeups wake db'.wakeups)

section Deliveries

variable {wakeupID id : String} {o : OutboxEvent} {wf : Workflow} {m : InboxMessage} {db db' : DB} {r : InboxResult}

theorem wakening_of_wakeScheduler {created : Bool} (hwf : db.workflows.get o.workflowID = some wf)
    (h : wakeScheduler wakeupID id o wf db = .ok (created, db')) : Wakening db db' id o := by
  unfold wakeScheduler at h
  split at h
  next htopic =>
    unfold insertWakeup at h
    split at h
    next hany =>
      cases h
      obtain ⟨wake, hwake, hevent⟩ := List.any_eq_true.mp hany
      exact .again wake hwake (of_decide_eq_true hevent) rfl
    next =>
      simp only [bind_eq_ok, getOr_eq_ok, pure_eq_ok] at h
      obtain ⟨wakeups, hins, heq⟩ := h
      cases heq
      exact .woke _ rfl htopic rfl ⟨wf, hwf, rfl⟩ rfl hins
  next htopic =>
    cases h
    exact .quiet htopic rfl

/-- A committed `RecordInbox` leaves the inbox as it is, or accepts the event and sees to its wake-up. -/
theorem wakening_of_recordInbox (h : recordInbox wakeupID m db = .ok (r, db')) :
    (db'.transport.inbox = db.transport.inbox ∧ db'.wakeups = db.wakeups) ∨
      ∃ id o, db.outbox.get id = some o ∧ o.topic = m.topic ∧
        Inserted db.transport.inbox (m.row id) db'.transport.inbox ∧ Wakening db db' id o := by
  obtain ⟨id₀, o₀, hrecorded⟩ := recordInbox_eq_ok h
  obtain ⟨hdisposition, -⟩ | ⟨-, -, hinbox, -, hwakeups⟩ := hrecorded.inbox
  · simp only [recordInbox, bind_eq_ok, rejectIf_eq_ok, getOr_eq_ok, exists_const] at h
    obtain ⟨-, -, id, -, o, ho, wf, hwf, hagrees, -, h⟩ := h
    refine .inr ⟨id, o, ho, ?_⟩
    have htopic : o.topic = m.topic := by
      simp only [OutboxEvent.agrees, Bool.and_eq_true, decide_eq_true_eq, Bool.not_eq_true', Bool.not_eq_false] at hagrees
      exact hagrees.1.1.1
    split at h
    next inbox hins =>
      simp only [acceptMessage, bind_eq_ok, pure_eq_ok] at h
      obtain ⟨⟨created, db₁⟩, hwake, ⟨reply, db₂⟩, hadvance, heq⟩ := h
      have hwakening := wakening_of_wakeScheduler (by exact hwf) hwake
      obtain ⟨-, hframe₁⟩ := wakeScheduler_eq_ok hwake
      cases heq
      obtain ⟨hframe₂, -⟩ := advanceConsumerOffset_eq hadvance
      have hinbox : db₂.transport.inbox = inbox := by rw [hframe₂, hframe₁]; rfl
      have hwakeups : db₂.wakeups = db₁.wakeups := by rw [hframe₂]; rfl
      refine ⟨htopic, hinbox ▸ hins, ?_⟩
      cases hwakening with
      | quiet topic wakeups => exact .quiet topic (hwakeups.trans wakeups)
      | again wake stored event wakeups => exact .again wake stored event (hwakeups.trans wakeups)
      | woke wake event topic workflow partition reason wakeups =>
          exact .woke wake event topic workflow partition reason (hwakeups ▸ wakeups)
    next =>
      simp only [bind_eq_ok, getOr_eq_ok] at h
      obtain ⟨existing, -, h⟩ := h
      simp only [repeatMessage, bind_eq_ok, rejectIf_eq_ok, exists_const] at h
      obtain ⟨-, reply, -, h⟩ := h
      split at h
      · obtain ⟨_, -, h⟩ := bind_eq_ok.mp h
        cases h
        cases hdisposition
      · cases h
        cases hdisposition
  · exact .inl ⟨hinbox, hwakeups⟩

end Deliveries

-- ============================================================================
-- Steps
-- ============================================================================

section Steps

variable {env : Env} {db db' : DB}

theorem of_wakeupIdentity_eq {a b : Wakeup} (h : wakeupIdentity a = wakeupIdentity b) :
    a.workflowID = b.workflowID ∧ a.partitionID = b.partitionID ∧ a.eventID = b.eventID ∧ a.reason = b.reason := by
  simp only [wakeupIdentity, Wakeup.mk.injEq] at h
  exact ⟨h.2.1, h.2.2.1, h.2.2.2.1, h.2.2.2.2.1⟩

theorem WakesFor.sameEvent {wake wake' : Wakeup} {o o' : OutboxEvent} (h : WakesFor db wake o)
    (hwake : wakeupIdentity wake' = wakeupIdentity wake) (hstored : db'.outbox.get wake.eventID = some o')
    (hsame : o.SameEvent o') : WakesFor db' wake' o' := by
  obtain ⟨hworkflow, hpartition, hevent, hreason⟩ := of_wakeupIdentity_eq hwake
  exact ⟨hevent ▸ hstored, hsame.topic.trans h.topic, by rw [hworkflow, h.workflow, hsame.workflowID],
    by rw [hpartition, hworkflow]; exact h.partition, by rw [hreason, h.reason, hsame.eventType]⟩

/-- Events keep what announces them, and the consumers' tables stay but for the states of wake-ups. -/
theorem Wakes.of_kept (h : Wakes db) (hkept : ConsumersKept db db')
    (houtbox : ∀ id o, db.outbox.get id = some o → ∃ o', db'.outbox.get id = some o' ∧ o.SameEvent o') :
    Wakes db' := by
  -- a wake-up of one state is, but for its state, one of the other
  have hforth : ∀ wake ∈ db.wakeups.rows, ∃ wake' ∈ db'.wakeups.rows,
      wakeupIdentity wake' = wakeupIdentity wake := fun wake hwake =>
    List.mem_map.mp (hkept.wakeups ▸ List.mem_map_of_mem (f := wakeupIdentity) hwake)
  have hback : ∀ wake' ∈ db'.wakeups.rows, ∃ wake ∈ db.wakeups.rows,
      wakeupIdentity wake = wakeupIdentity wake' := fun wake' hwake' =>
    List.mem_map.mp (hkept.wakeups ▸ List.mem_map_of_mem (f := wakeupIdentity) hwake')
  refine ⟨fun row hrow => ?_, fun row hrow htopic => ?_, fun wake' hwake' => ?_⟩
  · rw [hkept.inbox] at hrow
    obtain ⟨o, ho, htopic⟩ := h.inbox row hrow
    obtain ⟨o', ho', hsame⟩ := houtbox _ o ho
    exact ⟨o', ho', by rw [htopic, hsame.topic]⟩
  · rw [hkept.inbox] at hrow
    obtain ⟨wake, hwake, hevent⟩ := h.woken row hrow htopic
    obtain ⟨wake', hwake', heq⟩ := hforth wake hwake
    exact ⟨wake', hwake', (of_wakeupIdentity_eq heq).2.2.1.trans hevent⟩
  · obtain ⟨wake, hwake, heq⟩ := hback wake' hwake'
    obtain ⟨⟨row, hrow, hevent⟩, o, ho⟩ := h.origin wake hwake
    obtain ⟨o', ho', hsame⟩ := houtbox _ o ho.stored
    exact ⟨⟨row, hkept.inbox ▸ hrow, hevent.trans (of_wakeupIdentity_eq heq).2.2.1⟩, o', ho.sameEvent heq.symm ho' hsame⟩

theorem Wakes.consumer {events : List ConsumerEvent} (h : Wakes db) (hplaced : Placed db)
    (hs : Consumers.Step env db events db') : Wakes db' := by
  have houtbox : db'.outbox = db.outbox := by
    rw [hs.frame]
    rfl
  have hquiet : db'.transport.inbox = db.transport.inbox → db'.wakeups = db.wakeups → Wakes db' := by
    intro hinbox hwakeups
    refine ⟨?_, ?_, ?_⟩ <;> rw [hinbox]
    · rw [houtbox]
      exact h.inbox
    · rw [hwakeups]
      exact h.woken
    · rw [hwakeups]
      exact fun wake hwake => ⟨(h.origin wake hwake).1, (h.origin wake hwake).2.imp
        (fun o ho => ho.sameEvent rfl (houtbox ▸ ho.stored) (.refl o))⟩
  cases hs with
  | ensure k next _ hok =>
      obtain ⟨rfl, -⟩ | ⟨hframe, -, -⟩ := ensureConsumerOffset_eq_ok hok
      · exact h
      · exact hquiet (by rw [hframe]; rfl) (by rw [hframe]; rfl)
  | poison m reason r _ hok =>
      have hpoisoned := quarantineMessage_eq_ok hok
      exact hquiet hpoisoned.inbox hpoisoned.wakeups
  | record wakeupID m r _ hok =>
      obtain ⟨hinbox, hwakeups⟩ | ⟨id, o, ho, htopic, hins, hwakening⟩ := wakening_of_recordInbox hok
      · exact hquiet hinbox hwakeups
      have hrows := (Table.insert?_eq_some_iff.mp hins).2
      -- the new wake-up, if any, and the old ones
      have hgrows : ∀ wake ∈ db.wakeups.rows, wake ∈ db'.wakeups.rows := by
        cases hwakening with
        | quiet _ wakeups | again _ _ _ wakeups => exact fun wake hwake => wakeups ▸ hwake
        | woke _ _ _ _ _ _ wakeups =>
            intro wake hwake
            rw [(Table.insert?_eq_some_iff.mp wakeups).2]
            exact List.mem_append_left _ hwake
      refine ⟨fun row hrow => ?_, fun row hrow hevent => ?_, fun wake hwake => ?_⟩
      · rw [houtbox]
        rw [hrows] at hrow
        rcases List.mem_append.mp hrow with hrow | hrow
        · exact h.inbox row hrow
        · obtain rfl := List.mem_singleton.mp hrow
          exact ⟨o, ho, by rw [htopic]; rfl⟩
      · rw [hrows] at hrow
        rcases List.mem_append.mp hrow with hrow | hrow
        · obtain ⟨wake, hwake, heq⟩ := h.woken row hrow hevent
          exact ⟨wake, hgrows wake hwake, heq⟩
        · obtain rfl := List.mem_singleton.mp hrow
          cases hwakening with
          | quiet topic _ => exact absurd (htopic.trans (Option.some.inj hevent)) topic
          | again wake stored event _ => exact ⟨wake, hgrows wake stored, event⟩
          | woke wake event _ _ _ _ wakeups =>
              refine ⟨wake, ?_, event⟩
              rw [(Table.insert?_eq_some_iff.mp wakeups).2]
              exact List.mem_append_right _ List.mem_cons_self
      · have hold : wake ∈ db.wakeups.rows →
            (∃ row ∈ db'.transport.inbox.rows, row.key.eventID = wake.eventID) ∧ ∃ o, WakesFor db' wake o := by
          intro hwake
          obtain ⟨⟨row, hrow, hevent⟩, o, ho⟩ := h.origin wake hwake
          exact ⟨⟨row, hrows ▸ List.mem_append_left _ hrow, hevent⟩, o,
            ho.sameEvent rfl (houtbox ▸ ho.stored) (.refl o)⟩
        cases hwakening with
        | quiet _ wakeups | again _ _ _ wakeups => exact hold (wakeups ▸ hwake)
        | woke wake₀ event topic workflow partition reason wakeups =>
            rw [(Table.insert?_eq_some_iff.mp wakeups).2] at hwake
            rcases List.mem_append.mp hwake with hwake | hwake
            · exact hold hwake
            · obtain rfl := List.mem_singleton.mp hwake
              obtain ⟨wf, hwf, hpartition⟩ := partition
              refine ⟨⟨m.row id, hrows ▸ List.mem_append_right _ List.mem_cons_self, event.symm⟩, o,
                ⟨by rw [event, houtbox]; exact ho, topic, workflow, ?_, reason⟩⟩
              rw [hpartition, workflow]
              exact (hplaced _ wf hwf).1

theorem Wakes.step {w w' : World} {events : List Event} (h : Wakes w.db) (hplaced : Placed w.db)
    (hs : World.Step env w events w') : Wakes w'.db := by
  obtain hconsumer | ⟨-, hkept⟩ := hs.consumer_cases
  · exact h.consumer hplaced hconsumer
  · refine h.of_kept hkept (fun id o ho => ?_)
    obtain ⟨o', ho', rfl | hstep⟩ := hs.outbox ho
    · exact ⟨o', ho', .refl o'⟩
    · exact ⟨o', ho', hstep.sameEvent⟩

end Steps

-- ============================================================================
-- Runs
-- ============================================================================

/-- In every state that any interleaving reaches, a wake-up exists for an event exactly when the event is of
    the event topic and some consumer has accepted it, and it names the workflow that announced the event
    and the partition of its id. -/
theorem wakeup_iff_accepted {env : Env} {now : Int} {trace : List Event} {w : World}
    (h : World.Run env (World.start now) trace w) :
    (∀ id, (∃ wake ∈ w.db.wakeups.rows, wake.eventID = id) ↔
      ∃ row ∈ w.db.transport.inbox.rows, row.key.eventID = id ∧
        ∃ o, w.db.outbox.get id = some o ∧ o.topic = eventTopic) ∧
    ∀ wake ∈ w.db.wakeups.rows, ∃ o, WakesFor w.db wake o := by
  obtain ⟨-, hwakes⟩ := h.keeps (I := fun w => Placed w.db ∧ Wakes w.db)
    ⟨fun _ _ hwf => (nomatch hwf), fun _ hrow => (nomatch hrow), fun _ hrow => (nomatch hrow),
      fun _ hwake => (nomatch hwake)⟩
    (fun _ _ _ hw hs => ⟨hs.placed hw.1, hw.2.step hw.1 hs⟩)
  refine ⟨fun id => ⟨?_, ?_⟩, fun wake hwake => (hwakes.origin wake hwake).2⟩
  · rintro ⟨wake, hwake, rfl⟩
    obtain ⟨⟨row, hrow, hevent⟩, o, ho⟩ := hwakes.origin wake hwake
    exact ⟨row, hrow, hevent, o, ho.stored, ho.topic⟩
  · rintro ⟨row, hrow, rfl, o, ho, htopic⟩
    obtain ⟨o', ho', hrowTopic⟩ := hwakes.inbox row hrow
    rw [ho, Option.some.injEq] at ho'
    subst ho'
    exact hwakes.woken row hrow (by rw [hrowTopic, htopic])

theorem wakeup_iff_accepted_solo : ∃ trace w, World.Run .plain (World.start 0) trace w ∧
    ∃ wake ∈ w.db.wakeups.rows, ∃ o, WakesFor w.db wake o := by
  have hrun : (World.moves? .plain 0 (dedupeScript.take 3) (World.start 0)).any
      (fun r => !r.2.db.wakeups.rows.isEmpty) = true := by
    decide +kernel
  obtain ⟨⟨trace, w⟩, hmoves, hwoken⟩ := (Option.any_eq_true _ _).mp hrun
  simp only [Bool.not_eq_true', List.isEmpty_eq_false_iff] at hwoken
  obtain ⟨wake, hwake⟩ := List.exists_mem_of_ne_nil _ hwoken
  have hworld := World.run_of_moves? hmoves
  exact ⟨trace, w, hworld, wake, hwake, (wakeup_iff_accepted hworld).2 wake hwake⟩

end DurableEngine.Services
