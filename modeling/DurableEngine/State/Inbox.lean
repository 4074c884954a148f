/-
  DurableEngine.State.Inbox

  The transactions of a consumer (`internal/state/m3.go`): `RecordInbox`,
  `QuarantineMessage` and `EnsureConsumerOffset`, with the two routines that
  move a consumer's watermark.

  `RecordInbox` locks the outbox row of its event and then the watermark, so
  deliveries of one event, and deliveries of one stream, commit one after the
  other; a transaction is one step here.
-/

import DurableEngine.Lib.Search
import DurableEngine.State.Outbox

namespace DurableEngine.State

open Lib

/-- A delivery to a consumer. -/
structure InboxMessage where
  consumerID : String
  eventID : String
  topic : String
  partition : Int
  offset : Int
  eventType : String
  schemaVersion : Int
  payload : RawMessage

/-- The largest `integer` of a column. -/
def maxInt4 : Int := 2 ^ 31 - 1

/-- The largest `bigint` of a column, and the largest offset of a stream. -/
def maxOffset : Int := 2 ^ 63 - 1

/-- The columns of a stream take it: no NUL is in its texts, and its partition is an `integer`. -/
def StreamKey.storable (k : StreamKey) : Bool :=
  Json.textOK k.consumerID && Json.textOK k.topic && k.partition ≤ maxInt4

/-- The stream the message was read from. -/
def InboxMessage.stream (m : InboxMessage) : StreamKey := ⟨m.consumerID, m.topic, m.partition⟩

structure InboxResult where
  disposition : InboxDisposition
  wakeupCreated : Bool
  nextOffset : Int
  commitOffset : Bool
deriving DecidableEq, Repr

-- ============================================================================
-- Watermarks
-- ============================================================================

/-- The inbox row holds the delivery of the stream at the offset. -/
def InboxRow.covers (r : InboxRow) (k : StreamKey) (offset : Int) : Bool :=
  r.key.consumerID = k.consumerID && r.topic = some k.topic && r.partition = some k.partition &&
    r.offset = some offset && r.disposition ≠ .quarantined

/-- The offset was handled: an inbox or a quarantine row holds it. -/
def TransportTables.handled (t : TransportTables) (k : StreamKey) (offset : Int) : Bool :=
  t.inbox.rows.any (fun r => r.covers k offset) || (t.quarantine.get ⟨k, offset⟩).isSome

/-- The first offset from `next` on that was not handled. -/
def TransportTables.nextGap (t : TransportTables) (k : StreamKey) (next : Int) : Int :=
  firstGap (t.handled k) (t.inbox.rows.length + t.quarantine.rows.length) next

def DB.setNextOffset (db : DB) (k : StreamKey) (next : Int) : DB :=
  { db with
    transport := { db.transport with
      consumerOffsets := db.transport.consumerOffsets.modify k
        (fun r => { r with nextOffset := next }) (fun _ => rfl) } }

/-- Insert the watermark of a stream unless it has one. -/
def DB.insertOffset (db : DB) (k : StreamKey) (next : Int) : DB :=
  match db.transport.consumerOffsets.insert? ⟨k, next⟩ with
  | some consumerOffsets =>
      { db with transport := { db.transport with consumerOffsets := consumerOffsets } }
  | none => db

/-- `EnsureConsumerOffset`. -/
def ensureConsumerOffset (k : StreamKey) (nextOffset : Int) (db : DB) : Except Err (Unit × DB) := do
  rejectIf (k.consumerID = "" ∨ k.topic = "" ∨ k.partition < 0 ∨ nextOffset < 0)
    (.text "consumer offset identity and non-negative offset are required")
  rejectIf (!k.storable ∨ maxOffset < nextOffset) (.invalidText "initialize consumer offset")
  return ((), db.insertOffset k nextOffset)

/-- Store a watermark; past the last offset it comes out negative, which the column refuses. -/
def moveOffset (k : StreamKey) (next : Int) (db : DB) : Except Err (Int × DB) := do
  rejectIf (maxOffset < next) (.constraint "advance consumer offset" "consumer_offsets_next_offset_check")
  return (next, db.setNextOffset k next)

/-- Move the watermark over the handled offsets when the message stands at it. -/
def advanceFrom (k : StreamKey) (messageOffset next : Int) (db : DB) : Except Err ((Int × Bool) × DB) :=
  if messageOffset < next then .ok ((next, true), db)
  else if next < messageOffset then .ok ((next, false), db)
  else do
    let (gap, db) ← moveOffset k (db.transport.nextGap k next) db
    return ((gap, true), db)

/-- `advanceConsumerOffset`: a stream without a watermark starts at the message. -/
def advanceConsumerOffset (k : StreamKey) (messageOffset : Int) (db : DB) :
    Except Err ((Int × Bool) × DB) :=
  match db.transport.consumerOffsets.get k with
  | some row => advanceFrom k messageOffset row.nextOffset db
  | none => advanceFrom k messageOffset messageOffset (db.insertOffset k messageOffset)

/-- `advanceDuplicateConsumerOffset`. -/
def advanceDuplicateConsumerOffset (k : StreamKey) (messageOffset : Int) (db : DB) : Except Err (Int × DB) :=
  moveOffset k (db.transport.nextGap k (messageOffset + 1)) db

/-- The loop of both routines ends: the offset it stops at was not handled. -/
theorem TransportTables.handled_nextGap (t : TransportTables) (k : StreamKey) (next : Int) :
    t.handled k (t.nextGap k next) = false := by
  let candidates : List Int :=
    t.inbox.rows.map (fun r => r.offset.getD 0) ++ t.quarantine.rows.map (fun q => q.key.offset)
  have hlen : t.inbox.rows.length + t.quarantine.rows.length = candidates.length := by
    simp [candidates]
  rw [TransportTables.nextGap, hlen]
  refine firstGap_false (fun m hm => ?_) next
  simp only [TransportTables.handled, Bool.or_eq_true, List.any_eq_true] at hm
  obtain ⟨r, hr, hcovers⟩ | hq := hm
  · simp only [InboxRow.covers, Bool.and_eq_true, decide_eq_true_eq] at hcovers
    refine List.mem_append_left _ (List.mem_map.mpr ⟨r, hr, ?_⟩)
    rw [hcovers.1.2, Option.getD_some]
  · obtain ⟨q, hq⟩ := Option.isSome_iff_exists.mp hq
    refine List.mem_append_right _ (List.mem_map.mpr ⟨q, Table.mem_of_get hq, ?_⟩)
    rw [Table.key_of_get hq]

-- ============================================================================
-- RecordInbox
-- ============================================================================

/-- The message is a delivery of the stored event; version 0 leaves the schema open. -/
def OutboxEvent.agrees (o : OutboxEvent) (m : InboxMessage) : Bool :=
  o.topic = m.topic && o.eventType = m.eventType &&
    (m.schemaVersion = 0 || o.schemaVersion = m.schemaVersion) &&
    match m.payload.orEmptyObject with
    | .json v => Json.jsonEqual o.payload.doc v
    | _ => false

/-- Insert a wake-up unless its event has one, and say whether it was inserted. -/
def insertWakeup (row : Wakeup) (db : DB) : Except Err (Bool × DB) :=
  if db.wakeups.rows.any (fun w => w.eventID = row.eventID) then .ok (false, db)
  else do
    let wakeups ← getOr (db.wakeups.insert? row)
      (.constraint "create scheduler wake-up" "scheduler_wakeups_pkey")
    return (true, { db with wakeups := wakeups })

/-- Events of the event topic wake the scheduler. -/
def wakeScheduler (wakeupID id : String) (o : OutboxEvent) (w : Workflow) (db : DB) :
    Except Err (Bool × DB) :=
  if o.topic = eventTopic then
    insertWakeup ⟨wakeupID, o.workflowID, w.partitionID, id, "EVENT:" ++ o.eventType, .pending⟩ db
  else .ok (false, db)

/-- The first delivery of the event to the consumer. -/
def acceptMessage (wakeupID id : String) (o : OutboxEvent) (w : Workflow) (m : InboxMessage)
    (inbox : Table InboxRow.key) (db : DB) : Except Err (InboxResult × DB) := do
  let (created, db) ← wakeScheduler wakeupID id o w
    { db with transport := { db.transport with inbox := inbox } }
  let ((next, commit), db) ← advanceConsumerOffset m.stream m.offset db
  return (⟨.accepted, created, next, commit⟩, db)

/-- A later delivery of the event to the consumer: at the watermark it is consumed as a known
    duplicate. -/
def repeatMessage (existing : InboxRow) (m : InboxMessage) (db : DB) :
    Except Err (InboxResult × DB) := do
  rejectIf (∃ topic ∈ existing.topic, topic ≠ m.topic) (.sentinel .eventConflict)
  let ((next, commit), db) ← advanceConsumerOffset m.stream m.offset db
  if (∃ offset ∈ existing.offset, offset < m.offset) ∧ next = m.offset then do
    let (next, db) ← advanceDuplicateConsumerOffset m.stream m.offset db
    return (⟨.alreadyHandled, false, next, true⟩, db)
  else
    return (⟨.alreadyHandled, false, next, commit⟩, db)

/-- `RecordInbox`. -/
def recordInbox (wakeupID : String) (m : InboxMessage) (db : DB) : Except Err (InboxResult × DB) := do
  rejectIf (m.consumerID = "" ∨ m.eventID = "" ∨ m.topic = "" ∨ m.partition < 0 ∨ m.offset < 0 ∨
    m.schemaVersion < 0) (.sentinel .invalidEvent)
  rejectIf (!m.payload.orEmptyObject.valid) (.sentinel .invalidEvent)
  let id ← getOr (uuidText m.eventID) (.invalidText "read outbox event for inbox")
  let o ← getOr (db.outbox.get id) (.sentinel .outboxNotFound)
  let w ← getOr (db.workflows.get o.workflowID) (.noRows "read outbox event for inbox")
  rejectIf (!o.agrees m) (.sentinel .eventConflict)
  rejectIf (!m.stream.storable) (.invalidText "record inbox event")
  let row : InboxRow := ⟨⟨m.consumerID, id⟩, .accepted, some m.topic, some m.partition, some m.offset⟩
  match db.transport.inbox.insert? row with
  | some inbox => acceptMessage wakeupID id o w m inbox db
  | none => do
      let existing ← getOr (db.transport.inbox.get row.key)
        (.noRows "read existing inbox disposition")
      repeatMessage existing m db

-- ============================================================================
-- QuarantineMessage
-- ============================================================================

/-- `transport/%s/%s/%d/%d`. -/
def deliveryReference (m : InboxMessage) : String :=
  "transport/" ++ m.consumerID ++ "/" ++ m.topic ++ "/" ++ toString m.partition ++ "/" ++
    toString m.offset

/-- `QuarantineMessage`. -/
def quarantineMessage (env : Env) (m : InboxMessage) (reason : String) (db : DB) :
    Except Err (InboxResult × DB) := do
  rejectIf (m.consumerID = "" ∨ m.topic = "" ∨ m.partition < 0 ∨ m.offset < 0 ∨ reason = "")
    (.sentinel .invalidEvent)
  rejectIf (!m.stream.storable) (.invalidText "record transport poison record")
  let workflow : Option Workflow :=
    if m.eventID = "" then none
    else (db.outbox.get m.eventID).bind (fun o => db.workflows.get o.workflowID)
  let row : QuarantineRow := ⟨⟨m.stream, m.offset⟩, nullIfEmpty m.eventID, nullIfEmpty m.eventType,
    m.payload, reason, workflow.map (·.workflowID), workflow.map (·.partitionID)⟩
  let quarantine := (db.transport.quarantine.insert? row).getD db.transport.quarantine
  let db := { db with transport := { db.transport with quarantine := quarantine } }
  let detail ← getOr (sprintfJson env [("event_id", .quoted m.eventID),
      ("event_type", .quoted m.eventType), ("reason", .quoted reason)])
    (.invalidText "record transport poison obligation")
  let db := db.openPoisonRecord (deliveryReference m) (workflow.map (·.workflowID))
    (workflow.map (·.partitionID)) detail
  let ((next, commit), db) ← advanceConsumerOffset m.stream m.offset db
  return (⟨.quarantined, false, next, commit⟩, db)

-- ============================================================================
-- What a delivery does
-- ============================================================================

/-- The tables a consumer writes, with the contents they have in `db'`. -/
def DB.consumerFrame (db db' : DB) : DB :=
  { db with
    wakeups := db'.wakeups
    transport := { db'.transport with publications := db.transport.publications }
    reconciliation := db'.reconciliation }

/-- The watermark of the stream `k` moved to `next` over offsets that `passed` allows; no other
    watermark changed. -/
structure OffsetMove (offsets offsets' : Table ConsumerOffset.key) (k : StreamKey) (next : Int)
    (passed : Int → Prop) : Prop where
  stored : offsets'.get k = some ⟨k, next⟩
  other : ∀ k', k' ≠ k → offsets'.get k' = offsets.get k'
  moved : ∀ row, offsets.get k = some row →
    row.nextOffset ≤ next ∧ ∀ o, row.nextOffset ≤ o → o < next → passed o

theorem OffsetMove.mono {offsets offsets' : Table ConsumerOffset.key} {k : StreamKey} {next : Int}
    {passed passed' : Int → Prop} (h : OffsetMove offsets offsets' k next passed)
    (hp : ∀ o, passed o → passed' o) : OffsetMove offsets offsets' k next passed' :=
  ⟨h.stored, h.other, fun row hrow =>
    ⟨(h.moved row hrow).1, fun o hle hlt => hp o ((h.moved row hrow).2 o hle hlt)⟩⟩

/-- The watermark stands where it stood. -/
theorem OffsetMove.stay {offsets : Table ConsumerOffset.key} {k : StreamKey} {row : ConsumerOffset}
    {passed : Int → Prop} (h : offsets.get k = some row) :
    OffsetMove offsets offsets k row.nextOffset passed where
  stored := by
    rw [h, ← Table.key_of_get h]
  other := fun _ _ => rfl
  moved := by
    intro row' hrow'
    rw [h] at hrow'
    cases hrow'
    exact ⟨Int.le_refl _, fun o hle hlt => by omega⟩

/-- The watermark is written. -/
theorem OffsetMove.set {offsets : Table ConsumerOffset.key} {k : StreamKey} {row : ConsumerOffset}
    {next : Int} {passed : Int → Prop} (h : offsets.get k = some row) (hle : row.nextOffset ≤ next)
    (hpassed : ∀ o, row.nextOffset ≤ o → o < next → passed o) :
    OffsetMove offsets (offsets.modify k (fun r => { r with nextOffset := next }) (fun _ => rfl)) k next
      passed where
  stored := by
    rw [Table.get_modify_of_get h, if_pos rfl, ← Table.key_of_get h]
  other := fun k' hne => Table.get_modify_ne _ _ _ hne
  moved := by
    intro row' hrow'
    rw [h] at hrow'
    cases hrow'
    exact ⟨hle, hpassed⟩

theorem OffsetMove.trans {offsets offsets₁ offsets' : Table ConsumerOffset.key} {k : StreamKey}
    {next₁ next : Int} {passed : Int → Prop} (h₁ : OffsetMove offsets offsets₁ k next₁ passed)
    (h₂ : OffsetMove offsets₁ offsets' k next passed) : OffsetMove offsets offsets' k next passed where
  stored := h₂.stored
  other := fun k' hne => (h₂.other k' hne).trans (h₁.other k' hne)
  moved := by
    intro row hrow
    obtain ⟨hle₁, hpassed₁⟩ := h₁.moved row hrow
    obtain ⟨hle₂, hpassed₂⟩ := h₂.moved _ h₁.stored
    refine ⟨Int.le_trans hle₁ hle₂, fun o hle hlt => ?_⟩
    by_cases ho : o < next₁
    · exact hpassed₁ o hle ho
    · exact hpassed₂ o (by dsimp only; omega) hlt

/-- Only the watermarks differ. -/
def DB.offsetFrame (db db' : DB) : DB :=
  { db with
    transport := { db.transport with consumerOffsets := db'.transport.consumerOffsets } }

theorem DB.insertOffset_of_none {db : DB} {k : StreamKey} (next : Int)
    (h : db.transport.consumerOffsets.get k = none) :
    db.insertOffset k next = db.offsetFrame (db.insertOffset k next) ∧
      OffsetMove db.transport.consumerOffsets (db.insertOffset k next).transport.consumerOffsets k next
        (fun _ => False) := by
  obtain ⟨offsets, hins⟩ := Table.insert?_of_get_none (r := (⟨k, next⟩ : ConsumerOffset)) h
  simp only [DB.insertOffset, hins]
  refine ⟨rfl, Table.get_insert_self hins, fun k' hne => Table.get_insert_ne hins hne, ?_⟩
  intro row hrow
  rw [h] at hrow
  cases hrow

theorem moveOffset_eq_ok {k : StreamKey} {next : Int} {db : DB} {r : Int × DB} :
    moveOffset k next db = .ok r ↔ next ≤ maxOffset ∧ r = (next, db.setNextOffset k next) := by
  simp only [moveOffset, bind_eq_ok, rejectIf_eq_ok, exists_const, pure_eq_ok, Int.not_lt, eq_comm (a := r)]

theorem advanceFrom_eq {k : StreamKey} {messageOffset : Int} {row : ConsumerOffset} {db : DB}
    (h : db.transport.consumerOffsets.get k = some row) {r : Int × Bool} {db' : DB}
    (heq : advanceFrom k messageOffset row.nextOffset db = .ok (r, db')) :
    db' = db.offsetFrame db' ∧
      OffsetMove db.transport.consumerOffsets db'.transport.consumerOffsets k r.1
        (fun o => db.transport.handled k o = true) := by
  unfold advanceFrom at heq
  split at heq
  · cases heq
    exact ⟨rfl, .stay h⟩
  · split at heq
    · cases heq
      exact ⟨rfl, .stay h⟩
    · obtain ⟨moved, hmoved, heq⟩ := bind_eq_ok.mp heq
      obtain ⟨-, rfl⟩ := moveOffset_eq_ok.mp hmoved
      cases heq
      exact ⟨rfl, .set h (le_firstGap _ _ _) (firstGap_covered _ _ _)⟩

theorem advanceConsumerOffset_eq {k : StreamKey} {messageOffset : Int} {db db' : DB} {r : Int × Bool}
    (heq : advanceConsumerOffset k messageOffset db = .ok (r, db')) : db' = db.offsetFrame db' ∧
      OffsetMove db.transport.consumerOffsets db'.transport.consumerOffsets k r.1
        (fun o => db.transport.handled k o = true) := by
  unfold advanceConsumerOffset at heq
  split at heq
  · rename_i row hrow
    exact advanceFrom_eq hrow heq
  · rename_i hnone
    obtain ⟨hframe, hins⟩ := DB.insertOffset_of_none messageOffset hnone
    obtain ⟨hframe', hmove⟩ := advanceFrom_eq hins.stored heq
    generalize db.insertOffset k messageOffset = db₁ at hframe hins hframe' hmove
    have hhandled : db₁.transport.handled = db.transport.handled := by
      rw [hframe]
      rfl
    rw [hframe] at hframe'
    rw [hhandled] at hmove
    exact ⟨hframe', (hins.mono (fun _ h => h.elim)).trans hmove⟩

theorem advanceDuplicateConsumerOffset_eq {k : StreamKey} {messageOffset : Int} {db : DB}
    (h : db.transport.consumerOffsets.get k = some ⟨k, messageOffset⟩) {next : Int} {db' : DB}
    (heq : advanceDuplicateConsumerOffset k messageOffset db = .ok (next, db')) :
    db' = db.offsetFrame db' ∧
      OffsetMove db.transport.consumerOffsets db'.transport.consumerOffsets k next
        (fun o => db.transport.handled k o = true ∨ o = messageOffset) := by
  obtain ⟨-, heq⟩ := moveOffset_eq_ok.mp heq
  obtain ⟨rfl, rfl⟩ := Prod.mk.inj heq
  have hle : messageOffset + 1 ≤ db.transport.nextGap k (messageOffset + 1) := le_firstGap _ _ _
  refine ⟨rfl, .set h (by dsimp only; omega) (fun o ho hlt => ?_)⟩
  by_cases hself : o = messageOffset
  · exact .inr hself
  · exact .inl (firstGap_covered _ _ _ o (by dsimp only at ho; omega) hlt)

/-- What the delivery `m` does to the wake-ups of the event `id`, stored as `o`. -/
inductive WakeupMove (db db' : DB) (id : String) (o : OutboxEvent) : Bool → Prop where
  | same (h : db'.wakeups = db.wakeups) : WakeupMove db db' id o false
  | created (w : Wakeup) (first : ∀ w ∈ db.wakeups.rows, w.eventID ≠ id)
      (event : w.eventID = id) (pending : w.state = .pending) (topic : o.topic = eventTopic)
      (h : Inserted db.wakeups w db'.wakeups) : WakeupMove db db' id o true

/-- The inbox row of a first delivery. -/
def InboxMessage.row (m : InboxMessage) (id : String) : InboxRow :=
  ⟨⟨m.consumerID, id⟩, .accepted, some m.topic, some m.partition, some m.offset⟩

/-- A committed `RecordInbox` for the event `id`, stored as `o`. -/
structure Recorded (db db' : DB) (m : InboxMessage) (id : String) (o : OutboxEvent)
    (r : InboxResult) : Prop where
  event : uuidText m.eventID = some id
  outbox : db.outbox.get id = some o
  agrees : o.agrees m = true
  frame : db' = db.consumerFrame db'
  obligations : db'.reconciliation = db.reconciliation
  quarantine : db'.transport.quarantine = db.transport.quarantine
  inbox : r.disposition = .accepted ∧
      Inserted db.transport.inbox (m.row id) db'.transport.inbox ∧
      WakeupMove db db' id o r.wakeupCreated ∨
    r.disposition = .alreadyHandled ∧ (∃ row, db.transport.inbox.get ⟨m.consumerID, id⟩ = some row) ∧
      db'.transport.inbox = db.transport.inbox ∧ r.wakeupCreated = false ∧ db'.wakeups = db.wakeups
  watermark : OffsetMove db.transport.consumerOffsets db'.transport.consumerOffsets m.stream
    r.nextOffset (fun offset => db'.transport.handled m.stream offset = true ∨ offset = m.offset)

theorem insertWakeup_eq_ok {row : Wakeup} {db db' : DB} {created : Bool}
    (h : insertWakeup row db = .ok (created, db')) :
    created = false ∧ db' = db ∨ created = true ∧ (∀ w ∈ db.wakeups.rows, w.eventID ≠ row.eventID) ∧
      Inserted db.wakeups row db'.wakeups ∧ db' = { db with wakeups := db'.wakeups } := by
  unfold insertWakeup at h
  split at h
  · cases h
    exact .inl ⟨rfl, rfl⟩
  · rename_i hnone
    simp only [bind_eq_ok, getOr_eq_ok, pure_eq_ok] at h
    obtain ⟨wakeups, hins, heq⟩ := h
    cases heq
    exact .inr ⟨rfl, by simpa using hnone, hins, rfl⟩

theorem wakeScheduler_eq_ok {wakeupID id : String} {o : OutboxEvent} {w : Workflow} {db db' : DB}
    {created : Bool} (h : wakeScheduler wakeupID id o w db = .ok (created, db')) :
    WakeupMove db db' id o created ∧ db' = { db with wakeups := db'.wakeups } := by
  unfold wakeScheduler at h
  split at h
  · rename_i htopic
    obtain ⟨rfl, rfl⟩ | ⟨rfl, hfirst, hins, hframe⟩ := insertWakeup_eq_ok h
    · exact ⟨.same rfl, rfl⟩
    · exact ⟨.created _ hfirst rfl rfl htopic hins, hframe⟩
  · cases h
    exact ⟨.same rfl, rfl⟩

theorem acceptMessage_eq_ok {wakeupID id : String} {o : OutboxEvent} {w : Workflow}
    {m : InboxMessage} {inbox : Table InboxRow.key} {db db' : DB} {r : InboxResult}
    (h : acceptMessage wakeupID id o w m inbox db = .ok (r, db'))
    (hid : uuidText m.eventID = some id) (ho : db.outbox.get id = some o) (hagrees : o.agrees m = true)
    (hinbox : Inserted db.transport.inbox (m.row id) inbox) : Recorded db db' m id o r := by
  simp only [acceptMessage, bind_eq_ok, pure_eq_ok] at h
  obtain ⟨⟨created, db₁⟩, hwake, ⟨reply, db₂⟩, hadvance, heq⟩ := h
  obtain ⟨hwakes, hframe₁⟩ := wakeScheduler_eq_ok hwake
  cases heq
  obtain ⟨hframe₂, hmove⟩ := advanceConsumerOffset_eq hadvance
  rw [hframe₂, hframe₁]
  rw [hframe₁] at hmove
  exact ⟨hid, ho, hagrees, rfl, rfl, rfl,
    .inl ⟨rfl, hinbox, by cases hwakes with
      | same h => exact .same h
      | created w first event pending topic h => exact .created w first event pending topic h⟩,
    hmove.mono (fun _ h => .inl h)⟩

theorem repeatMessage_eq_ok {existing : InboxRow} {id : String} {o : OutboxEvent} {m : InboxMessage}
    {db db' : DB} {r : InboxResult} (h : repeatMessage existing m db = .ok (r, db'))
    (hid : uuidText m.eventID = some id) (ho : db.outbox.get id = some o) (hagrees : o.agrees m = true)
    (hrow : db.transport.inbox.get ⟨m.consumerID, id⟩ = some existing) :
    Recorded db db' m id o r := by
  simp only [repeatMessage, bind_eq_ok, rejectIf_eq_ok, exists_const] at h
  obtain ⟨-, ⟨reply, db₁⟩, hadvance, h⟩ := h
  obtain ⟨hframe₁, hmove⟩ := advanceConsumerOffset_eq hadvance
  split at h
  · rename_i hdup
    obtain ⟨⟨next, db₂⟩, hagain, h⟩ := bind_eq_ok.mp h
    cases h
    obtain ⟨hframe₂, hmove₂⟩ := advanceDuplicateConsumerOffset_eq
      (by rw [hmove.stored, hdup.2]) hagain
    rw [hframe₂, hframe₁]
    rw [hframe₁] at hmove₂
    exact ⟨hid, ho, hagrees, rfl, rfl, rfl, .inr ⟨rfl, ⟨existing, hrow⟩, rfl, rfl, rfl⟩,
      (hmove.mono (fun _ h => .inl h)).trans hmove₂⟩
  · cases h
    rw [hframe₁]
    exact ⟨hid, ho, hagrees, rfl, rfl, rfl, .inr ⟨rfl, ⟨existing, hrow⟩, rfl, rfl, rfl⟩,
      hmove.mono (fun _ h => .inl h)⟩

theorem recordInbox_eq_ok {wakeupID : String} {m : InboxMessage} {db db' : DB} {r : InboxResult}
    (h : recordInbox wakeupID m db = .ok (r, db')) : ∃ id o, Recorded db db' m id o r := by
  simp only [recordInbox, bind_eq_ok, rejectIf_eq_ok, getOr_eq_ok, exists_const] at h
  obtain ⟨-, -, id, hid, o, ho, w, hw, hagrees, -, h⟩ := h
  refine ⟨id, o, ?_⟩
  have hagrees : o.agrees m = true := by simpa using hagrees
  split at h
  · rename_i inbox hins
    exact acceptMessage_eq_ok h hid ho hagrees hins
  · simp only [bind_eq_ok, getOr_eq_ok] at h
    obtain ⟨existing, hrow, h⟩ := h
    exact repeatMessage_eq_ok h hid ho hagrees hrow

/-- A committed `QuarantineMessage`. -/
structure Poisoned (db db' : DB) (m : InboxMessage) (r : InboxResult) : Prop where
  disposition : r.disposition = .quarantined ∧ r.wakeupCreated = false
  frame : db' = db.consumerFrame db'
  wakeups : db'.wakeups = db.wakeups
  inbox : db'.transport.inbox = db.transport.inbox
  quarantine : ∀ k, (db'.transport.quarantine.get k).isSome = true →
    (db.transport.quarantine.get k).isSome = true ∨ k = ⟨m.stream, m.offset⟩
  watermark : OffsetMove db.transport.consumerOffsets db'.transport.consumerOffsets m.stream
    r.nextOffset (fun offset => db'.transport.handled m.stream offset = true)
  obligations : ∀ k, k.kind ≠ .poisonRecord → db'.isOpen k → db.isOpen k

theorem isSome_get_insertD {t : Table QuarantineRow.key} {row : QuarantineRow} {k : DeliveryKey}
    (h : (((t.insert? row).getD t).get k).isSome = true) :
    (t.get k).isSome = true ∨ k = row.key := by
  cases hins : t.insert? row with
  | none =>
      rw [hins] at h
      exact .inl h
  | some t' =>
      rw [hins, Option.getD_some, Table.get_insert hins] at h
      split at h
      · rename_i hk
        exact .inr hk
      · exact .inl h

theorem quarantineMessage_eq_ok {env : Env} {m : InboxMessage} {reason : String} {db db' : DB}
    {r : InboxResult} (h : quarantineMessage env m reason db = .ok (r, db')) : Poisoned db db' m r := by
  simp only [quarantineMessage, bind_eq_ok, rejectIf_eq_ok, getOr_eq_ok, exists_const, pure_eq_ok] at h
  obtain ⟨-, -, detail, hdetail, ⟨reply, db₁⟩, hadvance, heq⟩ := h
  generalize hworkflow : (if m.eventID = "" then none
    else (db.outbox.get m.eventID).bind (fun o => db.workflows.get o.workflowID)) = workflow at hadvance
  generalize hq : (db.transport.quarantine.insert? (⟨⟨m.stream, m.offset⟩, nullIfEmpty m.eventID,
    nullIfEmpty m.eventType, m.payload, reason, workflow.map (·.workflowID),
    workflow.map (·.partitionID)⟩ : QuarantineRow)).getD db.transport.quarantine = quarantine at hadvance
  obtain ⟨reconciliation, hopen⟩ := DB.openPoisonRecord_eq
    { db with transport := { db.transport with quarantine := quarantine } } (deliveryReference m)
    (workflow.map (·.workflowID)) (workflow.map (·.partitionID)) detail
  have hkept : ∀ k, k.kind ≠ .poisonRecord →
      DB.isOpen { db with
        transport := { db.transport with quarantine := quarantine }
        reconciliation := reconciliation } k → db.isOpen k := by
    intro k hkind hisOpen
    rw [← hopen] at hisOpen
    have hbefore := DB.openPoisonRecord_isOpen hkind hisOpen
    exact hbefore
  rw [hopen] at hadvance
  cases heq
  obtain ⟨hframe, hmove⟩ := advanceConsumerOffset_eq hadvance
  rw [hframe]
  exact ⟨⟨rfl, rfl⟩, rfl, rfl, rfl, fun k hk => isSome_get_insertD (hq ▸ hk), hmove, hkept⟩

theorem ensureConsumerOffset_eq_ok {k : StreamKey} {next : Int} {db db' : DB} {u : Unit}
    (h : ensureConsumerOffset k next db = .ok (u, db')) :
    db' = db ∧ (∃ row, db.transport.consumerOffsets.get k = some row) ∨
      db' = db.offsetFrame db' ∧ db.transport.consumerOffsets.get k = none ∧
        OffsetMove db.transport.consumerOffsets db'.transport.consumerOffsets k next
          (fun _ => False) := by
  simp only [ensureConsumerOffset, bind_eq_ok, rejectIf_eq_ok, exists_const, pure_eq_ok] at h
  obtain ⟨-, -, heq⟩ := h
  cases heq
  cases hget : db.transport.consumerOffsets.get k with
  | none =>
      obtain ⟨hframe, hmove⟩ := DB.insertOffset_of_none next hget
      exact .inr ⟨hframe, rfl, hmove⟩
  | some row =>
      refine .inl ⟨?_, row, rfl⟩
      unfold DB.insertOffset
      cases hins : db.transport.consumerOffsets.insert? ⟨k, next⟩ with
      | none => rfl
      | some offsets =>
          have hnone := (Table.insert?_eq_some_iff.mp hins).1
          rw [show ConsumerOffset.key ⟨k, next⟩ = k from rfl, hget] at hnone
          cases hnone

end DurableEngine.State
