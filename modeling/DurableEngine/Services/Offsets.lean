/-
  DurableEngine.Services.Offsets

  The offset that a transaction reports for the commit to the broker.

  The source commits only an offset after the message.  A first delivery and a
  poison record are held by a row before the watermark looks for the next gap,
  so the gap lies behind them.  A repeated event is held by no row at its new
  offset: at the watermark the gap is the message itself, and only a stored
  offset before it takes the watermark further.  A transaction that would move
  the watermark past the last offset fails.
-/

import DurableEngine.Services.Arrival

namespace DurableEngine.Services

open Lib State

-- ============================================================================
-- The property
-- ============================================================================

/-- What the reply says of the commit fits the offset of the message. -/
structure Committable (offset : Int) (r : InboxResult) : Prop where
  commit : r.commitOffset = true → offset < r.nextOffset
  hold : r.commitOffset = false → r.nextOffset ≤ offset

/-- The watermark of the stream; one without starts at `offset`. -/
def watermark (db : DB) (k : StreamKey) (offset : Int) : Int :=
  ((db.transport.consumerOffsets.get k).map (·.nextOffset)).getD offset

/-- The watermark stands at a repeated event that no row holds there, and that the consumer has
    stored under no smaller offset. -/
structure Stuck (db : DB) (d : Delivery) : Prop where
  watermark : watermark db d.message.stream d.offset = d.offset
  free : db.transport.handled d.message.stream d.offset = false
  stored : ∃ id row, d.event = some id ∧
    db.transport.inbox.get ⟨d.message.consumerID, id⟩ = some row ∧ ∀ o ∈ row.offset, d.offset ≤ o

/-- The watermark stands at the offset, and every later offset was handled: it has nowhere to move. -/
structure AtLast (db : DB) (k : StreamKey) (offset : Int) : Prop where
  watermark : watermark db k offset = offset
  handled : ∀ o, offset < o → o ≤ maxOffset → db.transport.handled k o = true

-- ============================================================================
-- The reply
-- ============================================================================

variable {env : Env} {db db' : DB} {k : StreamKey}

theorem lt_nextGap {t : TransportTables} {next : Int} (h : t.handled k next = true) :
    next < t.nextGap k next := by
  have hle : next ≤ t.nextGap k next := le_firstGap _ _ _
  have hgap := t.handled_nextGap k next
  refine lt_of_le_of_ne hle (fun heq => ?_)
  rw [← heq, h] at hgap
  cases hgap

/-- The three replies of `advanceConsumerOffset`. -/
theorem advanceConsumerOffset_reply {offset : Int} {r : Int × Bool}
    (heq : advanceConsumerOffset k offset db = .ok (r, db')) :
    offset < watermark db k offset ∧ r = (watermark db k offset, true) ∨
      watermark db k offset < offset ∧ r = (watermark db k offset, false) ∨
      watermark db k offset = offset ∧ r = (db.transport.nextGap k offset, true) := by
  unfold watermark
  cases hrow : db.transport.consumerOffsets.get k with
  | none =>
      obtain ⟨hframe, -⟩ := DB.insertOffset_of_none offset hrow
      have hgap : (db.insertOffset k offset).transport.nextGap = db.transport.nextGap :=
        nextGap_of_tables (by rw [hframe]; rfl) (by rw [hframe]; rfl)
      simp only [advanceConsumerOffset, hrow, advanceFrom, Int.lt_irrefl, if_false, bind_eq_ok] at heq
      obtain ⟨moved, hmoved, heq⟩ := heq
      obtain ⟨-, rfl⟩ := moveOffset_eq_ok.mp hmoved
      cases heq
      exact .inr (.inr ⟨rfl, by rw [hgap]⟩)
  | some row =>
      simp only [advanceConsumerOffset, hrow, advanceFrom] at heq
      simp only [Option.map_some, Option.getD_some]
      split at heq
      · rename_i hlt
        cases heq
        exact .inl ⟨hlt, rfl⟩
      · rename_i hle
        split at heq
        · rename_i hlt
          cases heq
          exact .inr (.inl ⟨hlt, rfl⟩)
        · rename_i hge
          have hat : row.nextOffset = offset := by omega
          obtain ⟨moved, hmoved, heq⟩ := bind_eq_ok.mp heq
          obtain ⟨-, rfl⟩ := moveOffset_eq_ok.mp hmoved
          cases heq
          exact .inr (.inr ⟨hat, by rw [hat]⟩)

/-- At an offset that a row holds the reply fits. -/
theorem committable_of_handled {offset : Int} {r : Int × Bool} {disposition : InboxDisposition}
    {created : Bool} (heq : advanceConsumerOffset k offset db = .ok (r, db'))
    (hheld : db.transport.handled k offset = true) :
    Committable offset ⟨disposition, created, r.1, r.2⟩ := by
  have hgap := lt_nextGap hheld
  obtain ⟨hlt, rfl⟩ | ⟨hlt, rfl⟩ | ⟨-, rfl⟩ := advanceConsumerOffset_reply heq
  · exact ⟨fun _ => hlt, fun h => (nomatch h)⟩
  · exact ⟨fun h => (nomatch h), fun _ => Int.le_of_lt hlt⟩
  · exact ⟨fun _ => hgap, fun h => (nomatch h)⟩

theorem committable_of_accept {wakeupID id : String} {o : OutboxEvent} {w : Workflow}
    {m : InboxMessage} {inbox : Table InboxRow.key} {r : InboxResult}
    (h : acceptMessage wakeupID id o w m inbox db = .ok (r, db'))
    (hinbox : Inserted db.transport.inbox (m.row id) inbox) : Committable m.offset r := by
  simp only [acceptMessage, bind_eq_ok, pure_eq_ok] at h
  obtain ⟨⟨created, db₁⟩, hwake, ⟨reply, db₂⟩, hadvance, heq⟩ := h
  obtain ⟨-, hframe⟩ := wakeScheduler_eq_ok hwake
  cases heq
  refine committable_of_handled hadvance ?_
  rw [hframe]
  simp only [TransportTables.handled, (Table.insert?_eq_some_iff.mp hinbox).2, List.any_append,
    List.any_cons, Bool.or_eq_true]
  exact .inl (.inr (.inl (covers_row m id)))

theorem committable_of_poison {m : InboxMessage} {reason : String} {r : InboxResult}
    (h : quarantineMessage env m reason db = .ok (r, db')) : Committable m.offset r := by
  simp only [quarantineMessage, bind_eq_ok, rejectIf_eq_ok, getOr_eq_ok, exists_const, pure_eq_ok] at h
  obtain ⟨-, -, detail, -, ⟨reply, db₁⟩, hadvance, heq⟩ := h
  cases heq
  generalize (if m.eventID = "" then none
    else (db.outbox.get m.eventID).bind (fun o => db.workflows.get o.workflowID)) = workflow at hadvance
  have hheld := isSome_get_insertD_self db.transport.quarantine ⟨⟨m.stream, m.offset⟩,
    nullIfEmpty m.eventID, nullIfEmpty m.eventType, m.payload, reason, workflow.map (·.workflowID),
    workflow.map (·.partitionID)⟩
  generalize (db.transport.quarantine.insert? (⟨⟨m.stream, m.offset⟩, nullIfEmpty m.eventID,
    nullIfEmpty m.eventType, m.payload, reason, workflow.map (·.workflowID),
    workflow.map (·.partitionID)⟩ : QuarantineRow)).getD db.transport.quarantine = quarantine
    at hadvance hheld
  obtain ⟨reconciliation, hopen⟩ := DB.openPoisonRecord_eq
    { db with transport := { db.transport with quarantine := quarantine } } (deliveryReference m)
    (workflow.map (·.workflowID)) (workflow.map (·.partitionID)) detail
  rw [hopen] at hadvance
  refine committable_of_handled hadvance ?_
  simp only [TransportTables.handled, Bool.or_eq_true]
  exact .inr hheld

/-- A repeated event: the reply fits unless the delivery is stuck. -/
theorem committable_of_repeat {wakeupID id : String} {existing : InboxRow} {m : InboxMessage}
    {r : InboxResult} (h : repeatMessage existing m db = .ok (r, db'))
    (hid : uuidText m.eventID = some id)
    (hexisting : db.transport.inbox.get ⟨m.consumerID, id⟩ = some existing) :
    Committable m.offset r ↔ ¬ Stuck db (.record wakeupID m) := by
  -- the stored row is the one that the condition speaks of
  have hstuck : Stuck db (.record wakeupID m) → watermark db m.stream m.offset = m.offset ∧
      db.transport.handled m.stream m.offset = false ∧ ∀ o ∈ existing.offset, m.offset ≤ o := by
    rintro ⟨hat, hfree, id', row, hid', hrow, hafter⟩
    cases hid.symm.trans hid'
    cases hexisting.symm.trans hrow
    exact ⟨hat, hfree, hafter⟩
  simp only [repeatMessage, bind_eq_ok, rejectIf_eq_ok, exists_const] at h
  obtain ⟨-, ⟨reply, db₁⟩, hadvance, h⟩ := h
  have hreply := advanceConsumerOffset_reply hadvance
  split at h
  · rename_i hdup
    obtain ⟨⟨next, db₂⟩, hagain, h⟩ := bind_eq_ok.mp h
    obtain ⟨-, heq⟩ := moveOffset_eq_ok.mp hagain
    obtain ⟨rfl, -⟩ := Prod.mk.inj heq
    cases h
    have hle : m.offset + 1 ≤ db₁.transport.nextGap m.stream (m.offset + 1) := le_firstGap _ _ _
    obtain ⟨⟨o, ho, hlt⟩, hnext⟩ := hdup
    refine iff_of_true ⟨fun _ => ?_, fun hf => (by cases hf)⟩ (fun hs => ?_)
    · exact Int.lt_of_lt_of_le (Int.lt_succ _) hle
    · have hafter := (hstuck hs).2.2 o ho
      omega
  · rename_i hdup
    cases h
    obtain ⟨hlt, rfl⟩ | ⟨hlt, rfl⟩ | ⟨hat, rfl⟩ := hreply
    · exact iff_of_true ⟨fun _ => hlt, fun hf => (by cases hf)⟩ (fun hs => by
        have heq := (hstuck hs).1
        omega)
    · exact iff_of_true ⟨fun hf => (by cases hf), fun _ => Int.le_of_lt hlt⟩ (fun hs => by
        have heq := (hstuck hs).1
        omega)
    · cases hheld : db.transport.handled m.stream m.offset with
      | true =>
          refine iff_of_true ⟨fun _ => lt_nextGap hheld, fun hf => (by cases hf)⟩ (fun hs => ?_)
          rw [(hstuck hs).2.1] at hheld
          cases hheld
      | false =>
          have hgap := nextGap_of_not_handled hheld
          refine iff_of_false (fun hc => ?_) (not_not.mpr ⟨hat, hheld, id, existing, hid, hexisting,
            fun o ho => ?_⟩)
          · have hlt := hc.commit rfl
            dsimp only at hlt
            omega
          · by_contra hlt
            exact hdup ⟨⟨o, ho, Int.not_le.mp hlt⟩, hgap⟩

-- ============================================================================
-- The last offset
-- ============================================================================

/-- A search for the next gap ends at an offset of the stream when one was not handled. -/
theorem nextGap_le_maxOffset_iff {t : TransportTables} {next : Int} :
    t.nextGap k next ≤ maxOffset ↔ ∃ o, next ≤ o ∧ o ≤ maxOffset ∧ t.handled k o = false := by
  constructor
  · intro h
    exact ⟨_, le_firstGap _ _ _, h, t.handled_nextGap k next⟩
  · rintro ⟨o, hle, hmax, hfree⟩
    by_contra hlt
    have hheld : t.handled k o = true := firstGap_covered _ _ _ o hle (hmax.trans_lt (not_le.mp hlt))
    rw [hfree] at hheld
    cases hheld

theorem moveOffset_ok_iff {next : Int} : (∃ r, moveOffset k next db = .ok r) ↔ next ≤ maxOffset := by
  simp only [moveOffset_eq_ok, exists_and_left, exists_eq, and_true]

/-- The watermark can be moved unless it stands at the message and every offset from there on was
    handled. -/
theorem advanceConsumerOffset_ok_iff {offset : Int} :
    (∃ r, advanceConsumerOffset k offset db = .ok r) ↔ (watermark db k offset = offset →
      ∃ o, offset ≤ o ∧ o ≤ maxOffset ∧ db.transport.handled k o = false) := by
  have hmoved : ∀ (db₁ : DB) (f : Int × DB → Except Err ((Int × Bool) × DB)), (∀ moved, ∃ r, f moved = .ok r) →
      db₁.transport.nextGap = db.transport.nextGap →
      ((∃ r, (moveOffset k (db₁.transport.nextGap k offset) db₁ >>= f) = .ok r) ↔
        ∃ o, offset ≤ o ∧ o ≤ maxOffset ∧ db.transport.handled k o = false) := by
    intro db₁ f hf hgap
    have hmove : ∀ next, (∃ r, moveOffset k next db₁ = .ok r) ↔ next ≤ maxOffset := fun _ => moveOffset_ok_iff
    rw [← nextGap_le_maxOffset_iff, ← hgap, ← hmove]
    constructor
    · rintro ⟨r, hr⟩
      obtain ⟨moved, hmoved, -⟩ := bind_eq_ok.mp hr
      exact ⟨moved, hmoved⟩
    · rintro ⟨moved, hmoved⟩
      obtain ⟨r, hr⟩ := hf moved
      exact ⟨r, bind_eq_ok.mpr ⟨moved, hmoved, hr⟩⟩
  unfold watermark
  cases hrow : db.transport.consumerOffsets.get k with
  | none =>
      obtain ⟨hframe, -⟩ := DB.insertOffset_of_none offset hrow
      have hgap : (db.insertOffset k offset).transport.nextGap = db.transport.nextGap :=
        nextGap_of_tables (by rw [hframe]; rfl) (by rw [hframe]; rfl)
      simp only [advanceConsumerOffset, hrow, advanceFrom, Int.lt_irrefl, if_false, Option.map_none,
        Option.getD_none, forall_const]
      exact hmoved _ _ (fun _ => ⟨_, rfl⟩) hgap
  | some row =>
      simp only [advanceConsumerOffset, hrow, advanceFrom, Option.map_some, Option.getD_some]
      split
      · rename_i hlt
        exact iff_of_true ⟨_, rfl⟩ (fun hat => by omega)
      · split
        · rename_i hlt
          exact iff_of_true ⟨_, rfl⟩ (fun hat => by omega)
        · have hat : row.nextOffset = offset := by omega
          rw [hat]
          simp only [forall_const]
          exact hmoved db _ (fun _ => ⟨_, rfl⟩) rfl

/-- At an offset that a row holds the watermark can be moved unless every later one was handled. -/
theorem advanceConsumerOffset_ok_of_held {offset : Int} (hheld : db.transport.handled k offset = true) :
    (∃ r, advanceConsumerOffset k offset db = .ok r) ↔ ¬ AtLast db k offset := by
  rw [advanceConsumerOffset_ok_iff]
  constructor
  · rintro h ⟨hat, hlater⟩
    obtain ⟨o, hle, hmax, hfree⟩ := h hat
    rcases hle.lt_or_eq with hlt | rfl
    · rw [hlater o hlt hmax] at hfree
      cases hfree
    · rw [hheld] at hfree
      cases hfree
  · intro h hat
    by_contra hnone
    refine h ⟨hat, fun o hlt hmax => ?_⟩
    by_contra hfree
    exact hnone ⟨o, hlt.le, hmax, Bool.not_eq_true _ ▸ hfree⟩

/-- Nothing but the watermarks, and what a delivery at the offset itself adds, matters for it. -/
theorem atLast_congr {offset : Int} (hoffsets : db'.transport.consumerOffsets = db.transport.consumerOffsets)
    (hlater : ∀ o, offset < o → db'.transport.handled k o = db.transport.handled k o) :
    AtLast db' k offset ↔ AtLast db k offset := by
  have hwatermark : watermark db' k offset = watermark db k offset := by rw [watermark, hoffsets, watermark]
  constructor
  · rintro ⟨hat, hheld⟩
    exact ⟨hwatermark ▸ hat, fun o hlt hmax => hlater o hlt ▸ hheld o hlt hmax⟩
  · rintro ⟨hat, hheld⟩
    exact ⟨hwatermark.trans hat, fun o hlt hmax => (hlater o hlt).trans (hheld o hlt hmax)⟩

/-- An unused id can be stored for a wake-up. -/
theorem wakeScheduler_succeeds {wakeupID id : String} {o : OutboxEvent} {w : Workflow}
    (hfresh : db.wakeups.get wakeupID = none) : ∃ r, wakeScheduler wakeupID id o w db = .ok r := by
  unfold wakeScheduler insertWakeup
  split
  · split
    · exact ⟨_, rfl⟩
    · obtain ⟨wakeups, hins⟩ := Table.insert?_of_get_none (r := (⟨wakeupID, o.workflowID, w.partitionID,
        id, "EVENT:" ++ o.eventType, .pending⟩ : Wakeup)) hfresh
      rw [hins]
      exact ⟨_, rfl⟩
  · exact ⟨_, rfl⟩

/-- A first delivery is taken unless the watermark has nowhere to move. -/
theorem acceptMessage_ok_iff {wakeupID id : String} {o : OutboxEvent} {w : Workflow} {m : InboxMessage}
    {inbox : Table InboxRow.key} (hinbox : Inserted db.transport.inbox (m.row id) inbox)
    (hfresh : db.wakeups.get wakeupID = none) :
    (∃ r, acceptMessage wakeupID id o w m inbox db = .ok r) ↔ ¬ AtLast db m.stream m.offset := by
  obtain ⟨⟨created, db₁⟩, hwake⟩ : ∃ r, wakeScheduler wakeupID id o w
      { db with transport := { db.transport with inbox := inbox } } = .ok r := wakeScheduler_succeeds hfresh
  obtain ⟨-, hframe⟩ := wakeScheduler_eq_ok hwake
  have hhandled : ∀ offset, db₁.transport.handled m.stream offset =
      (db.transport.handled m.stream offset || (m.row id).covers m.stream offset) := by
    intro offset
    rw [hframe]
    simp only [TransportTables.handled, (Table.insert?_eq_some_iff.mp hinbox).2, List.any_append, List.any_cons,
      List.any_nil, Bool.or_false]
    rw [Bool.or_right_comm]
  have hheld : db₁.transport.handled m.stream m.offset = true := by
    rw [hhandled, covers_row, Bool.or_true]
  have hlater : ∀ offset, m.offset < offset →
      db₁.transport.handled m.stream offset = db.transport.handled m.stream offset := by
    intro offset hlt
    have hnot : (m.row id).covers m.stream offset = false := by
      simp [InboxRow.covers, InboxMessage.row, hlt.ne]
    rw [hhandled, hnot, Bool.or_false]
  rw [← atLast_congr (by rw [hframe]) hlater, ← advanceConsumerOffset_ok_of_held hheld, acceptMessage,
    hwake, ok_bind]
  dsimp only
  constructor
  · rintro ⟨r, hr⟩
    obtain ⟨moved, hmoved, -⟩ := bind_eq_ok.mp hr
    exact ⟨moved, hmoved⟩
  · rintro ⟨moved, hmoved⟩
    rw [hmoved]
    exact ⟨_, rfl⟩

/-- A repeated event on its topic is taken unless the watermark has nowhere to move; a stuck one does
    not move it. -/
theorem repeatMessage_ok_iff {wakeupID id : String} {existing : InboxRow} {m : InboxMessage}
    (htopic : ¬ ∃ topic ∈ existing.topic, topic ≠ m.topic) (hid : uuidText m.eventID = some id)
    (hexisting : db.transport.inbox.get ⟨m.consumerID, id⟩ = some existing) (hmax : m.offset ≤ maxOffset) :
    (∃ r, repeatMessage existing m db = .ok r) ↔
      (AtLast db m.stream m.offset → Stuck db (.record wakeupID m)) := by
  have hstuck : Stuck db (.record wakeupID m) ↔ watermark db m.stream m.offset = m.offset ∧
      db.transport.handled m.stream m.offset = false ∧ ¬ ∃ o ∈ existing.offset, o < m.offset := by
    constructor
    · rintro ⟨hat, hfree, id', row, hid', hrow, hafter⟩
      cases hid.symm.trans hid'
      cases hexisting.symm.trans hrow
      exact ⟨hat, hfree, fun ⟨o, ho, hlt⟩ => absurd hlt (not_lt.mpr (hafter o ho))⟩
    · rintro ⟨hat, hfree, hafter⟩
      exact ⟨hat, hfree, id, existing, hid, hexisting, fun o ho => not_lt.mp (fun hlt => hafter ⟨o, ho, hlt⟩)⟩
  rw [repeatMessage, rejectIf_of_not _ htopic, ok_bind]
  by_cases hat : watermark db m.stream m.offset = m.offset
  case neg =>
    -- the watermark stays where it is, away from the message
    obtain ⟨⟨⟨next, commit⟩, db₁⟩, hadvance⟩ :=
      advanceConsumerOffset_ok_iff.mpr (fun h => absurd h hat)
    have hnext : next ≠ m.offset := by
      obtain ⟨-, hr⟩ | ⟨-, hr⟩ | ⟨heq, -⟩ := advanceConsumerOffset_reply hadvance
      · exact (Prod.mk.inj hr).1 ▸ hat
      · exact (Prod.mk.inj hr).1 ▸ hat
      · exact absurd heq hat
    rw [hadvance, ok_bind]
    dsimp only
    rw [if_neg (fun h => hnext h.2)]
    exact iff_of_true ⟨_, rfl⟩ (fun hlast => absurd hlast.watermark hat)
  cases hheld : db.transport.handled m.stream m.offset with
  | true =>
      -- the gap lies behind the message
      have hnotStuck : ¬ Stuck db (.record wakeupID m) := fun h => by
        have hfree := (hstuck.mp h).2.1
        rw [hheld] at hfree
        cases hfree
      rw [show (AtLast db m.stream m.offset → Stuck db (.record wakeupID m)) ↔ ¬ AtLast db m.stream m.offset
        from ⟨fun h hlast => hnotStuck (h hlast), fun h hlast => absurd hlast h⟩,
        ← advanceConsumerOffset_ok_of_held hheld]
      constructor
      · rintro ⟨r, hr⟩
        obtain ⟨moved, hmoved, -⟩ := bind_eq_ok.mp hr
        exact ⟨moved, hmoved⟩
      · rintro ⟨⟨⟨next, commit⟩, db₁⟩, hadvance⟩
        have hnext : next ≠ m.offset := by
          obtain ⟨hlt, -⟩ | ⟨hlt, -⟩ | ⟨-, hr⟩ := advanceConsumerOffset_reply hadvance
          · omega
          · omega
          · exact (Prod.mk.inj hr).1 ▸ (lt_nextGap hheld).ne'
        rw [hadvance, ok_bind]
        dsimp only
        rw [if_neg (fun h => hnext h.2)]
        exact ⟨_, rfl⟩
  | false =>
      -- the gap is the message itself
      obtain ⟨⟨⟨next, commit⟩, db₁⟩, hadvance⟩ :=
        advanceConsumerOffset_ok_iff.mpr (fun _ => ⟨m.offset, le_refl _, hmax, hheld⟩)
      obtain ⟨hframe, -⟩ := advanceConsumerOffset_eq hadvance
      have hgap₁ : db₁.transport.nextGap = db.transport.nextGap :=
        nextGap_of_tables (by rw [hframe]; rfl) (by rw [hframe]; rfl)
      have hnext : next = m.offset := by
        obtain ⟨hlt, -⟩ | ⟨hlt, -⟩ | ⟨-, hr⟩ := advanceConsumerOffset_reply hadvance
        · omega
        · omega
        · rw [(Prod.mk.inj hr).1, nextGap_of_not_handled hheld]
      rw [hadvance, ok_bind]
      dsimp only
      by_cases hbefore : ∃ o ∈ existing.offset, o < m.offset
      case neg =>
        rw [if_neg (fun h => hbefore h.1)]
        exact iff_of_true ⟨_, rfl⟩ (fun _ => hstuck.mpr ⟨hat, hheld, hbefore⟩)
      rw [if_pos ⟨hbefore, hnext⟩]
      have hnotStuck : ¬ Stuck db (.record wakeupID m) := fun h => (hstuck.mp h).2.2 hbefore
      have hlater : (∃ o, m.offset + 1 ≤ o ∧ o ≤ maxOffset ∧ db.transport.handled m.stream o = false) ↔
          (AtLast db m.stream m.offset → Stuck db (.record wakeupID m)) := by
        constructor
        · rintro ⟨o, hlt, hle, hfree⟩ hlast
          rw [hlast.handled o (by omega) hle] at hfree
          cases hfree
        · intro h
          by_contra hnone
          refine hnotStuck (h ⟨hat, fun o hlt hle => ?_⟩)
          by_contra hfree
          exact hnone ⟨o, by omega, hle, Bool.not_eq_true _ ▸ hfree⟩
      have hmove : ∀ next, (∃ r, moveOffset m.stream next db₁ = .ok r) ↔ next ≤ maxOffset :=
        fun _ => moveOffset_ok_iff
      rw [← hlater, ← nextGap_le_maxOffset_iff, ← hgap₁, ← hmove]
      constructor
      · rintro ⟨r, hr⟩
        obtain ⟨moved, hmoved, -⟩ := bind_eq_ok.mp hr
        exact ⟨moved, hmoved⟩
      · rintro ⟨moved, hmoved⟩
        rw [advanceDuplicateConsumerOffset, hmoved]
        exact ⟨_, rfl⟩

-- ============================================================================
-- Reported commits
-- ============================================================================

/-- Whatever the state, the reply of a delivery fits its offset exactly when the delivery is not
    stuck. -/
theorem reported_commits {d : Delivery} {r : InboxResult} (h : d.run env db = .ok (r, db')) :
    Committable d.offset r ↔ ¬ Stuck db d := by
  cases d with
  | record wakeupID m =>
      simp only [Delivery.run, recordInbox, bind_eq_ok, rejectIf_eq_ok, getOr_eq_ok,
        exists_const] at h
      obtain ⟨-, -, id, hid, o, ho, w, hw, hagrees, -, h⟩ := h
      split at h
      · rename_i inbox hins
        refine iff_of_true (committable_of_accept h hins) (fun hs => ?_)
        obtain ⟨id', row, hid', hrow, -⟩ := hs.stored
        cases hid.symm.trans hid'
        rw [show InboxMessage.consumerID (Delivery.record wakeupID m).message = m.consumerID from rfl,
          (Table.insert?_eq_some_iff.mp hins).1] at hrow
        cases hrow
      · simp only [bind_eq_ok, getOr_eq_ok] at h
        obtain ⟨existing, hexisting, h⟩ := h
        exact committable_of_repeat h hid hexisting
  | poison m reason =>
      refine iff_of_true (committable_of_poison h) (fun hs => ?_)
      obtain ⟨id, row, hid, -⟩ := hs.stored
      cases hid

/-- A stuck delivery asks for the commit of its own offset. -/
theorem Stuck.reply {d : Delivery} {r : InboxResult} (hs : Stuck db d)
    (h : d.run env db = .ok (r, db')) : r.commitOffset = true ∧ r.nextOffset = d.offset := by
  obtain ⟨id, row, hid, hrow, hafter⟩ := hs.stored
  cases d with
  | poison m reason => cases hid
  | record wakeupID m =>
      simp only [Delivery.run, recordInbox, bind_eq_ok, rejectIf_eq_ok, getOr_eq_ok,
        exists_const] at h
      obtain ⟨-, -, id', hid', o, -, w, -, -, -, h⟩ := h
      cases hid'.symm.trans hid
      split at h
      · rename_i inbox hins
        cases (Table.insert?_eq_some_iff.mp hins).1.symm.trans hrow
      · simp only [bind_eq_ok, getOr_eq_ok] at h
        obtain ⟨existing, hexisting, h⟩ := h
        cases hexisting.symm.trans hrow
        simp only [repeatMessage, bind_eq_ok, rejectIf_eq_ok, exists_const] at h
        obtain ⟨-, ⟨reply, db₁⟩, hadvance, h⟩ := h
        have hat : Services.watermark db m.stream m.offset = m.offset := hs.watermark
        split at h
        · rename_i hdup
          obtain ⟨⟨o, ho, hlt⟩, -⟩ := hdup
          exact absurd hlt (Int.not_lt.mpr (hafter o ho))
        · cases h
          obtain ⟨hlt, -⟩ | ⟨hlt, -⟩ | ⟨-, rfl⟩ := advanceConsumerOffset_reply hadvance
          · exact absurd hlt (by rw [hat]; exact Int.lt_irrefl _)
          · exact absurd hlt (by rw [hat]; exact Int.lt_irrefl _)
          · exact ⟨rfl, nextGap_of_not_handled hs.free⟩

/-- The first delivery of an event. -/
theorem reported_commits_first : ∃ r db', (soloDelivery 0).run .plain arrivalDB = .ok (r, db') ∧
    r.commitOffset = true ∧ (Committable 0 r ↔ ¬ Stuck arrivalDB (soloDelivery 0)) := by
  have hrun : ((soloDelivery 0).run .plain arrivalDB).toOption.any (fun p => p.1.commitOffset) = true := by
    decide +kernel
  obtain ⟨⟨r, db'⟩, hok, hcommit⟩ := (Option.any_eq_true _ _).mp hrun
  have hdelivered := toOption_eq_some hok
  exact ⟨r, db', hdelivered, hcommit, reported_commits hdelivered⟩

/-- The event arrives at offset 1 before it arrives at offset 0. -/
def swappedScript : List Move := arrivalScript ++ [Move.record (uuidOf 9 0) (soloMessage 1)]

/-- The delivery at offset 0 then asks for the commit of the offset 0. -/
theorem reported_commit_refused : ∃ trace w r db', World.Run .plain (World.start 0) trace w ∧
    (soloDelivery 0).run .plain w.db = .ok (r, db') ∧ r = ⟨.alreadyHandled, false, 0, true⟩ ∧
    ¬ Committable 0 r := by
  have hrun : (World.moves? .plain 0 swappedScript (World.start 0)).any (fun s =>
      ((soloDelivery 0).run .plain s.2.db).toOption.any (fun p =>
        p.1 = ⟨.alreadyHandled, false, 0, true⟩)) = true := by
    decide +kernel
  obtain ⟨⟨trace, w⟩, hmoves, hrest⟩ := (Option.any_eq_true _ _).mp hrun
  obtain ⟨⟨r, db'⟩, hdelivered, hreply⟩ := (Option.any_eq_true _ _).mp hrest
  have hreply : r = ⟨.alreadyHandled, false, 0, true⟩ := of_decide_eq_true hreply
  refine ⟨trace, w, r, db', World.run_of_moves? hmoves, toOption_eq_some hdelivered, hreply,
    fun hc => ?_⟩
  rw [hreply] at hc
  exact absurd (hc.commit rfl) (by decide)

end DurableEngine.Services
