/-
  DurableEngine.Services.Dedupe

  Deliveries are handled once: each consumer accepts an event once, each event
  wakes the scheduler once over all consumers, and a message that differs from
  the stored event leaves no trace.

  The inbox and the wake-ups list the deliveries that created them, in order
  (`Listed`), so counting rows is counting replies.
-/

import DurableEngine.Services.Watermark

namespace DurableEngine.Services

open Lib State

/-- The inbox key of a delivery that was accepted. -/
def ConsumerEvent.acceptedKey : ConsumerEvent → Option InboxKey
  | .recorded m r =>
      if r.disposition = .accepted then (uuidText m.eventID).map (⟨m.consumerID, ·⟩) else none
  | _ => none

/-- The event of a delivery that reported a new wake-up. -/
def ConsumerEvent.wokenEvent : ConsumerEvent → Option String
  | .recorded m r => if r.wakeupCreated then uuidText m.eventID else none
  | _ => none

/-- What a run keeps: the inbox rows and the wake-ups are those of the replies, no event has two
    wake-ups, and every wake-up is for an event of the event topic. -/
structure Listed (trace : List ConsumerEvent) (db : DB) : Prop where
  inbox : db.transport.inbox.rows.map InboxRow.key = trace.filterMap ConsumerEvent.acceptedKey
  wakeups : db.wakeups.rows.map Wakeup.eventID = trace.filterMap ConsumerEvent.wokenEvent
  once : (db.wakeups.rows.map Wakeup.eventID).Nodup
  topics : ∀ wake ∈ db.wakeups.rows, ∃ o, db.outbox.get wake.eventID = some o ∧ o.topic = eventTopic

-- ============================================================================
-- Steps
-- ============================================================================

/-- A property of wake-ups that their state does not enter. -/
theorem map_wakeups_of_kept {α : Type} {db db' : DB} (h : ConsumersKept db db') (f : Wakeup → α)
    (hf : ∀ w, f (wakeupIdentity w) = f w) :
    db'.wakeups.rows.map f = db.wakeups.rows.map f := by
  have hcomp : ∀ l : List Wakeup, l.map f = (l.map wakeupIdentity).map f := by
    intro l
    rw [List.map_map]
    exact List.map_congr_left (fun w _ => (hf w).symm)
  rw [hcomp, h.wakeups, ← hcomp]

theorem Listed.of_kept {trace : List ConsumerEvent} {db db' : DB} (h : Listed trace db)
    (hkept : ConsumersKept db db')
    (houtbox : ∀ id o, db.outbox.get id = some o → ∃ o', db'.outbox.get id = some o' ∧
      o'.topic = o.topic) : Listed trace db' := by
  have hevents : db'.wakeups.rows.map Wakeup.eventID = db.wakeups.rows.map Wakeup.eventID :=
    map_wakeups_of_kept hkept Wakeup.eventID (fun _ => rfl)
  refine ⟨by rw [hkept.inbox]; exact h.inbox, by rw [hevents]; exact h.wakeups,
    by rw [hevents]; exact h.once, fun wake hwake => ?_⟩
  have hmem : wake.eventID ∈ db.wakeups.rows.map Wakeup.eventID := by
    rw [← hevents]
    exact List.mem_map_of_mem hwake
  obtain ⟨wake₀, hwake₀, heq⟩ := List.mem_map.mp hmem
  obtain ⟨o, ho, htopic⟩ := h.topics wake₀ hwake₀
  obtain ⟨o', ho', htopic'⟩ := houtbox _ o ho
  exact ⟨o', heq ▸ ho', htopic'.trans htopic⟩

theorem Listed.recorded {trace : List ConsumerEvent} {db db' : DB} {m : InboxMessage} {id : String}
    {o : OutboxEvent} {r : InboxResult} (h : Listed trace db) (hr : Recorded db db' m id o r) :
    Listed (trace ++ [ConsumerEvent.recorded m r]) db' := by
  have houtbox : db'.outbox = db.outbox := by
    rw [hr.frame]
    rfl
  have htopics : ∀ wake ∈ db.wakeups.rows, ∃ o, db'.outbox.get wake.eventID = some o ∧
      o.topic = eventTopic := by
    rw [houtbox]
    exact h.topics
  obtain ⟨hdisposition, hins, hwake⟩ | ⟨hdisposition, -, hinbox, hcreated, hwakeups⟩ := hr.inbox
  · have hinbox : db'.transport.inbox.rows.map InboxRow.key =
        (trace ++ [ConsumerEvent.recorded m r]).filterMap ConsumerEvent.acceptedKey := by
      rw [(Table.insert?_eq_some_iff.mp hins).2, List.map_append, h.inbox, List.filterMap_append]
      simp [ConsumerEvent.acceptedKey, hdisposition, hr.event, InboxMessage.row]
    generalize hcreated : r.wakeupCreated = created at hwake
    cases hwake with
    | same hsame =>
        refine ⟨hinbox, ?_, by rw [hsame]; exact h.once, by rw [hsame]; exact htopics⟩
        rw [hsame, h.wakeups, List.filterMap_append]
        simp [ConsumerEvent.wokenEvent, hcreated]
    | created wake hfirst hevent _ htopic hnew =>
        have hrows := (Table.insert?_eq_some_iff.mp hnew).2
        refine ⟨hinbox, ?_, ?_, fun wake' hwake' => ?_⟩
        · rw [hrows, List.map_append, h.wakeups, List.filterMap_append]
          simp [ConsumerEvent.wokenEvent, hcreated, hr.event, hevent]
        · rw [hrows, List.map_append]
          refine h.once.append (List.nodup_singleton _) ?_
          intro e he hlast
          obtain ⟨w, hw, rfl⟩ := List.mem_map.mp he
          rw [List.map_singleton, List.mem_singleton, hevent] at hlast
          exact hfirst w hw hlast
        · rw [hrows] at hwake'
          rcases List.mem_append.mp hwake' with hold | hlast
          · exact htopics wake' hold
          · rw [List.mem_singleton.mp hlast, hevent, houtbox]
            exact ⟨o, hr.outbox, htopic⟩
  · refine ⟨?_, ?_, by rw [hwakeups]; exact h.once, by rw [hwakeups]; exact htopics⟩
    · rw [hinbox, h.inbox, List.filterMap_append]
      simp [ConsumerEvent.acceptedKey, hdisposition]
    · rw [hwakeups, h.wakeups, List.filterMap_append]
      simp [ConsumerEvent.wokenEvent, hcreated]

/-- Events that create nothing leave the lists as they are. -/
theorem Listed.quiet {trace : List ConsumerEvent} {event : ConsumerEvent} {db : DB}
    (h : Listed trace db) (hkey : event.acceptedKey = none) (hwoken : event.wokenEvent = none) :
    Listed (trace ++ [event]) db := by
  refine ⟨?_, ?_, h.once, h.topics⟩
  · rw [h.inbox, List.filterMap_append]
    simp [hkey]
  · rw [h.wakeups, List.filterMap_append]
    simp [hwoken]

/-- Only the inbox, the wake-ups and the outbox enter. -/
theorem Listed.of_tables {trace : List ConsumerEvent} {db db' : DB} (h : Listed trace db)
    (hinbox : db'.transport.inbox = db.transport.inbox) (hwakeups : db'.wakeups = db.wakeups)
    (houtbox : db'.outbox = db.outbox) : Listed trace db' := by
  obtain ⟨hkeys, hevents, honce, htopics⟩ := h
  rw [← hinbox] at hkeys
  rw [← hwakeups] at hevents honce htopics
  rw [← houtbox] at htopics
  exact ⟨hkeys, hevents, honce, htopics⟩

theorem Listed.consumer {env : Env} {trace events : List ConsumerEvent} {db db' : DB}
    (h : Listed trace db) (hs : Consumers.Step env db events db') : Listed (trace ++ events) db' := by
  have houtbox : db'.outbox = db.outbox := by
    rw [hs.frame]
    rfl
  cases hs with
  | ensure k next _ hok =>
      refine Listed.quiet ?_ rfl rfl
      obtain ⟨rfl, -⟩ | ⟨hframe, -, -⟩ := ensureConsumerOffset_eq_ok hok
      · exact h
      · exact h.of_tables (by rw [hframe]; rfl) (by rw [hframe]; rfl) houtbox
  | record wakeupID m r _ hok =>
      obtain ⟨id, o, hrecorded⟩ := recordInbox_eq_ok hok
      exact h.recorded hrecorded
  | poison m reason r _ hok =>
      have hpoisoned := quarantineMessage_eq_ok hok
      exact (h.of_tables hpoisoned.inbox hpoisoned.wakeups houtbox).quiet rfl rfl

theorem Listed.step {env : Env} {trace events : List Event} {w w' : World}
    (h : Listed (consumerTrace trace) w.db) (hs : World.Step env w events w') :
    Listed (consumerTrace (trace ++ events)) w'.db := by
  rw [consumerTrace_append]
  obtain hconsumer | ⟨hquiet, hkept⟩ := hs.consumer_cases
  · exact h.consumer hconsumer
  · rw [hquiet, List.append_nil]
    refine h.of_kept hkept (fun id o ho => ?_)
    obtain ⟨o', ho', rfl | hstep⟩ := hs.outbox ho
    · exact ⟨o', ho', rfl⟩
    · exact ⟨o', ho', hstep.sameEvent.topic⟩

/-- An inbox row stays as it is. -/
theorem inbox_of_step {env : Env} {events : List Event} {w w' : World}
    (hs : World.Step env w events w') {k : InboxKey} {row : InboxRow}
    (hrow : w.db.transport.inbox.get k = some row) : w'.db.transport.inbox.get k = some row := by
  obtain hconsumer | ⟨-, hkept⟩ := hs.consumer_cases
  · generalize consumerTrace events = shown at hconsumer
    cases hconsumer with
    | ensure k' next _ hok =>
        obtain ⟨hsame, -⟩ | ⟨hframe, -, -⟩ := ensureConsumerOffset_eq_ok hok
        · rw [hsame]
          exact hrow
        · rw [hframe]
          exact hrow
    | record wakeupID m r _ hok =>
        obtain ⟨id, o, hrecorded⟩ := recordInbox_eq_ok hok
        obtain ⟨-, hins, -⟩ | ⟨-, -, hinbox, -, -⟩ := hrecorded.inbox
        · exact Table.get_insert_of_get hins hrow
        · rw [hinbox]
          exact hrow
    | poison m reason r _ hok =>
        rw [(quarantineMessage_eq_ok hok).inbox]
        exact hrow
  · rw [hkept.inbox]
    exact hrow

-- ============================================================================
-- Runs
-- ============================================================================

/-- The message is not the stored event: another topic or event type, another schema version where
    it gives one, or a payload that is another JSON document. -/
def InboxMessage.Differs (m : InboxMessage) (o : OutboxEvent) : Prop :=
  m.topic ≠ o.topic ∨ m.eventType ≠ o.eventType ∨
    (m.schemaVersion ≠ 0 ∧ m.schemaVersion ≠ o.schemaVersion) ∨
    ∀ v, m.payload.orEmptyObject = .json v → Json.jsonEqual o.payload.doc v = false

theorem not_agrees_of_differs {m : InboxMessage} {o : OutboxEvent} (h : InboxMessage.Differs m o) :
    o.agrees m = false := by
  rw [← Bool.not_eq_true]
  intro hagrees
  simp only [OutboxEvent.agrees, Bool.and_eq_true, Bool.or_eq_true, decide_eq_true_eq] at hagrees
  obtain ⟨⟨⟨htopic, htype⟩, hversion⟩, hpayload⟩ := hagrees
  obtain hne | hne | ⟨hgiven, hne⟩ | hother := h
  · exact hne htopic.symm
  · exact hne htype.symm
  · exact hversion.elim hgiven (fun heq => hne heq.symm)
  · split at hpayload
    · rename_i v hv
      rw [hother v hv] at hpayload
      cases hpayload
    · cases hpayload

/-- Deliveries are handled once in a state of a run: the inbox rows are those of the accepted
    deliveries, one for each consumer and event, and stay; the wake-ups are those of the deliveries
    that reported one, one for each event; and a message that differs from its event is refused. -/
structure InboxDeduped (env : Env) (trace : List Event) (w : World) : Prop where
  accepted : ((consumerTrace trace).filterMap ConsumerEvent.acceptedKey).Nodup
  rows : w.db.transport.inbox.rows.map InboxRow.key =
    (consumerTrace trace).filterMap ConsumerEvent.acceptedKey
  unchanged : ∀ trace' w', World.Run env w trace' w' → ∀ k row,
    w.db.transport.inbox.get k = some row → w'.db.transport.inbox.get k = some row
  woken : ((consumerTrace trace).filterMap ConsumerEvent.wokenEvent).Nodup
  wakeups : w.db.wakeups.rows.map Wakeup.eventID =
    (consumerTrace trace).filterMap ConsumerEvent.wokenEvent
  reported : ∀ wake ∈ w.db.wakeups.rows,
    ((consumerTrace trace).filterMap ConsumerEvent.wokenEvent).count wake.eventID = 1
  topics : ∀ wake ∈ w.db.wakeups.rows, ∃ o, w.db.outbox.get wake.eventID = some o ∧
    o.topic = eventTopic
  refused : ∀ wakeupID m id o, uuidText m.eventID = some id → w.db.outbox.get id = some o →
    InboxMessage.Differs m o → ∀ r db', recordInbox wakeupID m w.db ≠ .ok (r, db')

/-- In every state that any interleaving of deliveries with everything else reaches, deliveries
    are handled once. -/
theorem inbox_deduped {env : Env} {now : Int} {trace : List Event} {w : World}
    (h : World.Run env (World.start now) trace w) : InboxDeduped env trace w := by
  have hlisted : Listed (consumerTrace trace) w.db := by
    refine h.invariant (I := fun trace w => Listed (consumerTrace trace) w.db) ?_
      (fun trace events w w' hw hs => hw.step hs)
    exact ⟨rfl, rfl, List.nodup_nil, fun _ hwake => (nomatch hwake)⟩
  have hwoken : ((consumerTrace trace).filterMap ConsumerEvent.wokenEvent).Nodup := by
    rw [← hlisted.wakeups]
    exact hlisted.once
  refine ⟨?_, hlisted.inbox, fun trace' w' hrun k row hrow => ?_, hwoken, hlisted.wakeups,
    fun wake hwake => ?_, hlisted.topics, fun wakeupID m id o hid ho hdiffers r db' hok => ?_⟩
  · rw [← hlisted.inbox]
    exact w.db.transport.inbox.nodup
  · exact hrun.keeps (I := fun w' => w'.db.transport.inbox.get k = some row) hrow
      (fun events w₁ w₂ hrow₁ hs => inbox_of_step hs hrow₁)
  · refine List.count_eq_one_of_mem hwoken ?_
    rw [← hlisted.wakeups]
    exact List.mem_map_of_mem hwake
  · obtain ⟨id', o', hrecorded⟩ := recordInbox_eq_ok hok
    have hagrees := hrecorded.agrees
    have hid' := hrecorded.event
    rw [hid] at hid'
    cases hid'
    have ho' := hrecorded.outbox
    rw [ho] at ho'
    cases ho'
    rw [not_agrees_of_differs hdiffers] at hagrees
    cases hagrees

/-- Two consumers read the event, the first of them twice. -/
def dedupeScript : List Move := [
  .call (.createDefinition soloDefinition), .call (.createWorkflow soloWorkflow),
  .record (uuidOf 9 0) (soloMessage 0),
  .record (uuidOf 9 1) { soloMessage 5 with consumerID := "d" },
  .record (uuidOf 9 2) (soloMessage 1)]

theorem inbox_deduped_twice :
    ∃ trace w, World.Run .plain (World.start 0) trace w ∧
      (consumerTrace trace).filterMap ConsumerEvent.acceptedKey =
        [⟨"c", uuidOf 1 1⟩, ⟨"d", uuidOf 1 1⟩] ∧
      (consumerTrace trace).filterMap ConsumerEvent.wokenEvent = [uuidOf 1 1] ∧
      (consumerTrace trace).length = 3 ∧ InboxDeduped .plain trace w := by
  have hrun : (World.moves? .plain 0 dedupeScript (World.start 0)).any (fun r =>
      (consumerTrace r.1).filterMap ConsumerEvent.acceptedKey =
        [⟨"c", uuidOf 1 1⟩, ⟨"d", uuidOf 1 1⟩] &&
      (consumerTrace r.1).filterMap ConsumerEvent.wokenEvent = [uuidOf 1 1] &&
      (consumerTrace r.1).length = 3) = true := by
    decide +kernel
  obtain ⟨⟨trace, w⟩, hmoves, hshown⟩ := (Option.any_eq_true _ _).mp hrun
  simp only [Bool.and_eq_true, decide_eq_true_eq] at hshown
  have hrun := World.run_of_moves? hmoves
  exact ⟨trace, w, hrun, hshown.1.1, hshown.1.2, hshown.2, inbox_deduped hrun⟩

/-- A delivery that leaves the schema version out. -/
def unversionedMessage : InboxMessage := { soloMessage 0 with schemaVersion := 0 }

/-- A message without a schema version is taken as a delivery of the stored event, which has
    version 1: it is accepted and wakes the scheduler. -/
theorem unversioned_message_accepted :
    ∃ trace w o, World.Run .plain (World.start 0) trace w ∧
      uuidText unversionedMessage.eventID = some (uuidOf 1 1) ∧
      w.db.outbox.get (uuidOf 1 1) = some o ∧ unversionedMessage.schemaVersion ≠ o.schemaVersion ∧
      ∃ r db', recordInbox (uuidOf 9 0) unversionedMessage w.db = .ok (r, db') ∧
        r.disposition = .accepted ∧ r.wakeupCreated = true ∧
        (w.db.transport.inbox.rows, w.db.wakeups.rows) = ([], []) ∧
        db'.transport.inbox.rows.map InboxRow.key = [⟨"c", uuidOf 1 1⟩] ∧
        db'.wakeups.rows.map Wakeup.eventID = [uuidOf 1 1] := by
  have hrun : (World.moves? .plain 0 (dedupeScript.take 2) (World.start 0)).any (fun r =>
      (r.2.db.outbox.get (uuidOf 1 1)).any (fun o => 0 ≠ o.schemaVersion) &&
      (r.2.db.transport.inbox.rows, r.2.db.wakeups.rows) = ([], []) &&
      (recordInbox (uuidOf 9 0) unversionedMessage r.2.db).toOption.any (fun reply =>
        reply.1.disposition = .accepted && reply.1.wakeupCreated &&
        reply.2.transport.inbox.rows.map InboxRow.key = [⟨"c", uuidOf 1 1⟩] &&
        reply.2.wakeups.rows.map Wakeup.eventID = [uuidOf 1 1])) = true := by
    decide +kernel
  obtain ⟨⟨trace, w⟩, hmoves, hshown⟩ := (Option.any_eq_true _ _).mp hrun
  simp only [Bool.and_eq_true, decide_eq_true_eq] at hshown
  obtain ⟨⟨hstored, hempty⟩, hreply⟩ := hshown
  obtain ⟨o, ho, hversion⟩ := (Option.any_eq_true _ _).mp hstored
  obtain ⟨⟨r, db'⟩, hok, hnew⟩ := (Option.any_eq_true _ _).mp hreply
  simp only [Bool.and_eq_true, decide_eq_true_eq] at hnew
  exact ⟨trace, w, o, World.run_of_moves? hmoves, by decide +kernel, ho, of_decide_eq_true hversion,
    r, db', toOption_eq_some hok, hnew.1.1.1, hnew.1.1.2, hempty, hnew.1.2, hnew.2⟩

end DurableEngine.Services
