/-
  DurableEngine.Services.Watermark

  The watermark of a consumer: it never moves back, and it passes only offsets
  whose delivery has committed.

  A transaction moves the watermark of its own stream over offsets that an
  inbox or a quarantine row holds, or over its own message (`OffsetMove`);
  the rows themselves stem from committed deliveries (`Handled`).
-/

import DurableEngine.Services.RelaySafety

namespace DurableEngine.Services

open Lib State

/-- A delivery of the stream at the offset has committed. -/
def Delivered (trace : List ConsumerEvent) (k : StreamKey) (offset : Int) : Prop :=
  ∃ m r, (.recorded m r ∈ trace ∨ .poisoned m r ∈ trace) ∧ m.stream = k ∧ m.offset = offset

theorem Delivered.append {trace : List ConsumerEvent} {k : StreamKey} {offset : Int}
    (h : Delivered trace k offset) (events : List ConsumerEvent) :
    Delivered (trace ++ events) k offset := by
  obtain ⟨m, r, hmem, hstream, hoffset⟩ := h
  exact ⟨m, r, hmem.imp (List.mem_append_left _) (List.mem_append_left _), hstream, hoffset⟩

-- ============================================================================
-- One delivery
-- ============================================================================

/-- What a delivery does to the rows that hold offsets, and to the watermarks. -/
structure Delivers (db db' : DB) (m : InboxMessage) (r : InboxResult) : Prop where
  handled : ∀ k offset, db'.transport.handled k offset = true →
    db.transport.handled k offset = true ∨ k = m.stream ∧ offset = m.offset
  watermark : OffsetMove db.transport.consumerOffsets db'.transport.consumerOffsets m.stream
    r.nextOffset (fun offset => db'.transport.handled m.stream offset = true ∨ offset = m.offset)

theorem handled_of_tables {t t' : TransportTables} (hinbox : t'.inbox = t.inbox)
    (hquarantine : t'.quarantine = t.quarantine) : t'.handled = t.handled := by
  funext k offset
  simp only [TransportTables.handled, hinbox, hquarantine]

/-- The row of a first delivery holds its offset and no other. -/
theorem eq_of_row_covers {m : InboxMessage} {id : String} {k : StreamKey} {offset : Int}
    (h : (m.row id).covers k offset = true) : k = m.stream ∧ offset = m.offset := by
  simp only [InboxRow.covers, InboxMessage.row, Bool.and_eq_true, decide_eq_true_eq,
    Option.some.injEq] at h
  obtain ⟨⟨⟨⟨hconsumer, htopic⟩, hpartition⟩, hoffset⟩, -⟩ := h
  have hconsumer : m.consumerID = k.consumerID := of_decide_eq_true hconsumer
  exact ⟨by rw [InboxMessage.stream, hconsumer, htopic, hpartition], hoffset.symm⟩

theorem delivers_of_recorded {db db' : DB} {m : InboxMessage} {id : String} {o : OutboxEvent}
    {r : InboxResult} (h : Recorded db db' m id o r) : Delivers db db' m r := by
  refine ⟨fun k offset hhandled => ?_, h.watermark⟩
  obtain ⟨-, hins, -⟩ | ⟨-, -, hinbox, -, -⟩ := h.inbox
  · simp only [TransportTables.handled, (Table.insert?_eq_some_iff.mp hins).2, List.any_append,
      h.quarantine, Bool.or_eq_true, List.any_cons, List.any_nil, Bool.or_false] at hhandled ⊢
    obtain (hold | hnew) | hquarantined := hhandled
    · exact .inl (.inl hold)
    · exact .inr (eq_of_row_covers hnew)
    · exact .inl (.inr hquarantined)
  · rw [handled_of_tables hinbox h.quarantine] at hhandled
    exact .inl hhandled

theorem delivers_of_poisoned {db db' : DB} {m : InboxMessage} {r : InboxResult}
    (h : Poisoned db db' m r) : Delivers db db' m r := by
  refine ⟨fun k offset hhandled => ?_, h.watermark.mono (fun _ hpassed => .inl hpassed)⟩
  simp only [TransportTables.handled, h.inbox, Bool.or_eq_true] at hhandled ⊢
  obtain hold | hquarantined := hhandled
  · exact .inl (.inl hold)
  · obtain hold | hnew := h.quarantine _ hquarantined
    · exact .inl (.inr hold)
    · cases hnew
      exact .inr ⟨rfl, rfl⟩

-- ============================================================================
-- Runs
-- ============================================================================

/-- What a run keeps of the deliveries and the watermarks. -/
structure Watermarks (trace : List ConsumerEvent) (db : DB) : Prop where
  handled : ∀ k offset, db.transport.handled k offset = true → Delivered trace k offset
  replied : ∀ m r, .recorded m r ∈ trace ∨ .poisoned m r ∈ trace →
    ∃ row, db.transport.consumerOffsets.get m.stream = some row ∧ r.nextOffset ≤ row.nextOffset
  covered : ∀ k s, .ensured k s true ∈ trace →
    ∃ row, db.transport.consumerOffsets.get k = some row ∧
      ∀ offset, s ≤ offset → offset < row.nextOffset → Delivered trace k offset

theorem Watermarks.of_transport {trace : List ConsumerEvent} {db db' : DB} (h : Watermarks trace db)
    (hinbox : db'.transport.inbox = db.transport.inbox)
    (hquarantine : db'.transport.quarantine = db.transport.quarantine)
    (hoffsets : db'.transport.consumerOffsets = db.transport.consumerOffsets) :
    Watermarks trace db' := by
  refine ⟨?_, ?_, ?_⟩
  · rw [handled_of_tables hinbox hquarantine]
    exact h.handled
  · rw [hoffsets]
    exact h.replied
  · rw [hoffsets]
    exact h.covered

/-- A committed delivery keeps them: what its watermark passed was delivered. -/
theorem Watermarks.delivery {trace : List ConsumerEvent} {db db' : DB} {m : InboxMessage}
    {r : InboxResult} {event : ConsumerEvent} (h : Watermarks trace db)
    (hevent : event = .recorded m r ∨ event = .poisoned m r) (hd : Delivers db db' m r) :
    Watermarks (trace ++ [event]) db' := by
  have hself : Delivered (trace ++ [event]) m.stream m.offset := by
    refine ⟨m, r, ?_, rfl, rfl⟩
    obtain rfl | rfl := hevent
    · exact .inl (List.mem_append_right _ (List.mem_singleton.mpr rfl))
    · exact .inr (List.mem_append_right _ (List.mem_singleton.mpr rfl))
  have hhandled : ∀ k offset, db'.transport.handled k offset = true →
      Delivered (trace ++ [event]) k offset := by
    intro k offset hoffset
    obtain hold | ⟨rfl, rfl⟩ := hd.handled k offset hoffset
    · exact (h.handled k offset hold).append _
    · exact hself
  have hmem : ∀ m' r', .recorded m' r' ∈ trace ++ [event] ∨ .poisoned m' r' ∈ trace ++ [event] →
      (.recorded m' r' ∈ trace ∨ .poisoned m' r' ∈ trace) ∨ m' = m ∧ r' = r := by
    intro m' r' hin
    simp only [List.mem_append, List.mem_singleton] at hin
    obtain (hin | heq) | (hin | heq) := hin
    · exact .inl (.inl hin)
    · obtain rfl | rfl := hevent
      · cases heq
        exact .inr ⟨rfl, rfl⟩
      · cases heq
    · exact .inl (.inr hin)
    · obtain rfl | rfl := hevent
      · cases heq
      · cases heq
        exact .inr ⟨rfl, rfl⟩
  refine ⟨hhandled, fun m' r' hin => ?_, fun k s hin => ?_⟩
  · obtain hold | ⟨rfl, rfl⟩ := hmem m' r' hin
    · obtain ⟨row, hrow, hle⟩ := h.replied m' r' hold
      by_cases hk : m'.stream = m.stream
      · rw [hk] at hrow ⊢
        exact ⟨_, hd.watermark.stored, Int.le_trans hle (hd.watermark.moved row hrow).1⟩
      · exact ⟨row, (hd.watermark.other _ hk).trans hrow, hle⟩
    · exact ⟨_, hd.watermark.stored, Int.le_refl _⟩
  · have hold : .ensured k s true ∈ trace := by
      rcases List.mem_append.mp hin with hin | hin
      · exact hin
      · obtain rfl | rfl := hevent <;> cases List.mem_singleton.mp hin
    obtain ⟨row, hrow, hcovered⟩ := h.covered k s hold
    by_cases hk : k = m.stream
    · subst hk
      refine ⟨_, hd.watermark.stored, fun offset hle hlt => ?_⟩
      by_cases hbefore : offset < row.nextOffset
      · exact (hcovered offset hle hbefore).append _
      · obtain hpassed | rfl := (hd.watermark.moved row hrow).2 offset (Int.not_lt.mp hbefore) hlt
        · exact hhandled _ _ hpassed
        · exact hself
    · exact ⟨row, (hd.watermark.other k hk).trans hrow,
        fun offset hle hlt => (hcovered offset hle hlt).append _⟩

/-- A new watermark covers nothing yet. -/
theorem Watermarks.ensure {trace : List ConsumerEvent} {db db' : DB} {k : StreamKey} {next : Int}
    (h : Watermarks trace db) (hok : ensureConsumerOffset k next db = .ok ((), db')) :
    Watermarks (trace ++ [ConsumerEvent.ensured k next (db.transport.consumerOffsets.get k).isNone]) db' := by
  have hreplies : ∀ {events : List ConsumerEvent} {b : Bool} {m : InboxMessage} {r : InboxResult},
      .recorded m r ∈ events ++ [ConsumerEvent.ensured k next b] ∨
          .poisoned m r ∈ events ++ [ConsumerEvent.ensured k next b] →
      .recorded m r ∈ events ∨ .poisoned m r ∈ events := by
    intro events b m r hin
    simpa using hin
  obtain ⟨rfl, row, hrow⟩ | ⟨hframe, hnone, hmove⟩ := ensureConsumerOffset_eq_ok hok
  · refine ⟨fun k' offset hhandled => (h.handled k' offset hhandled).append _,
      fun m r hin => h.replied m r (hreplies hin), fun k' s hin => ?_⟩
    have hold : .ensured k' s true ∈ trace := by
      simpa [hrow] using hin
    obtain ⟨row', hrow', hcovered⟩ := h.covered k' s hold
    exact ⟨row', hrow', fun offset hle hlt => (hcovered offset hle hlt).append _⟩
  · have hhandled : db'.transport.handled = db.transport.handled := by
      rw [hframe]
      rfl
    have hother : ∀ {k' row}, db.transport.consumerOffsets.get k' = some row →
        db'.transport.consumerOffsets.get k' = some row := by
      intro k' row hrow
      refine (hmove.other k' ?_).trans hrow
      rintro rfl
      rw [hnone] at hrow
      cases hrow
    refine ⟨fun k' offset hoffset => ?_, fun m r hin => ?_, fun k' s hin => ?_⟩
    · rw [hhandled] at hoffset
      exact (h.handled k' offset hoffset).append _
    · obtain ⟨row, hrow, hle⟩ := h.replied m r (hreplies hin)
      exact ⟨row, hother hrow, hle⟩
    · rcases List.mem_append.mp hin with hold | hnew
      · obtain ⟨row, hrow, hcovered⟩ := h.covered k' s hold
        exact ⟨row, hother hrow, fun offset hle hlt => (hcovered offset hle hlt).append _⟩
      · obtain ⟨rfl, rfl, -⟩ := ConsumerEvent.ensured.inj (List.mem_singleton.mp hnew)
        refine ⟨_, hmove.stored, fun offset hle hlt => ?_⟩
        dsimp only at hlt
        omega

theorem Watermarks.consumer {env : Env} {trace events : List ConsumerEvent} {db db' : DB}
    (h : Watermarks trace db) (hs : Consumers.Step env db events db') :
    Watermarks (trace ++ events) db' := by
  cases hs with
  | ensure k next db' hok => exact h.ensure hok
  | record wakeupID m r db' hok =>
      obtain ⟨id, o, hrecorded⟩ := recordInbox_eq_ok hok
      exact h.delivery (.inl rfl) (delivers_of_recorded hrecorded)
  | poison m reason r db' hok =>
      exact h.delivery (.inr rfl) (delivers_of_poisoned (quarantineMessage_eq_ok hok))

theorem Watermarks.step {env : Env} {trace events : List Event} {w w' : World}
    (h : Watermarks (consumerTrace trace) w.db) (hs : World.Step env w events w') :
    Watermarks (consumerTrace (trace ++ events)) w'.db := by
  rw [consumerTrace_append]
  obtain hconsumer | ⟨hquiet, hkept⟩ := hs.consumer_cases
  · exact h.consumer hconsumer
  · rw [hquiet, List.append_nil]
    exact h.of_transport hkept.inbox hkept.quarantine hkept.offsets

theorem watermarks_of_run {env : Env} {now : Int} {trace : List Event} {w : World}
    (h : World.Run env (World.start now) trace w) : Watermarks (consumerTrace trace) w.db := by
  refine h.invariant (I := fun trace w => Watermarks (consumerTrace trace) w.db) ?_
    (fun trace events w w' hw hs => hw.step hs)
  exact ⟨fun k offset hhandled => (nomatch hhandled), fun m r hin => (by simp at hin),
    fun k s hin => (nomatch hin)⟩

/-- A watermark stays, and does not move back. -/
theorem offsets_of_step {env : Env} {events : List Event} {w w' : World}
    (hs : World.Step env w events w') {k : StreamKey} {row : ConsumerOffset}
    (hrow : w.db.transport.consumerOffsets.get k = some row) :
    ∃ row', w'.db.transport.consumerOffsets.get k = some row' ∧ row.nextOffset ≤ row'.nextOffset := by
  have hmoved : ∀ {k' next passed}, OffsetMove w.db.transport.consumerOffsets
      w'.db.transport.consumerOffsets k' next passed → ∃ row',
        w'.db.transport.consumerOffsets.get k = some row' ∧ row.nextOffset ≤ row'.nextOffset := by
    intro k' next passed hmove
    by_cases hk : k = k'
    · subst hk
      exact ⟨_, hmove.stored, (hmove.moved row hrow).1⟩
    · exact ⟨row, (hmove.other k hk).trans hrow, Int.le_refl _⟩
  obtain hconsumer | ⟨-, hkept⟩ := hs.consumer_cases
  · generalize consumerTrace events = shown at hconsumer
    cases hconsumer with
    | ensure k' next _ hok =>
        obtain ⟨hsame, -⟩ | ⟨-, -, hmove⟩ := ensureConsumerOffset_eq_ok hok
        · exact ⟨row, by rw [hsame]; exact hrow, Int.le_refl _⟩
        · exact hmoved hmove
    | record wakeupID m r _ hok =>
        obtain ⟨id, o, hrecorded⟩ := recordInbox_eq_ok hok
        exact hmoved hrecorded.watermark
    | poison m reason r _ hok => exact hmoved (quarantineMessage_eq_ok hok).watermark
  · exact ⟨row, by rw [hkept.offsets]; exact hrow, Int.le_refl _⟩

/-- The watermarks are safe in a state of a run: they do not move back from here, and each one
    that `EnsureConsumerOffset` has set up, as well as each offset a consumer was told to commit,
    stands behind a gapless range of committed deliveries. -/
structure WatermarkSafe (env : Env) (trace : List Event) (w : World) : Prop where
  monotone : ∀ trace' w', World.Run env w trace' w' → ∀ k row,
    w.db.transport.consumerOffsets.get k = some row →
    ∃ row', w'.db.transport.consumerOffsets.get k = some row' ∧ row.nextOffset ≤ row'.nextOffset
  covered : ∀ k s, .ensured k s true ∈ consumerTrace trace →
    ∃ row, w.db.transport.consumerOffsets.get k = some row ∧
      ∀ offset, s ≤ offset → offset < row.nextOffset → Delivered (consumerTrace trace) k offset
  committed : ∀ m r s, .recorded m r ∈ consumerTrace trace ∨ .poisoned m r ∈ consumerTrace trace →
    .ensured m.stream s true ∈ consumerTrace trace →
    ∀ offset, s ≤ offset → offset < r.nextOffset → Delivered (consumerTrace trace) m.stream offset

/-- In every state that any interleaving of deliveries with everything else reaches, the
    watermarks are safe. -/
theorem watermark_safe {env : Env} {now : Int} {trace : List Event} {w : World}
    (h : World.Run env (World.start now) trace w) : WatermarkSafe env trace w := by
  have hmarks := watermarks_of_run h
  refine ⟨fun trace' w' hrun k row hrow => ?_, hmarks.covered, fun m r s hin hens offset hle hlt => ?_⟩
  · refine hrun.keeps (I := fun w' => ∃ row', w'.db.transport.consumerOffsets.get k = some row' ∧
      row.nextOffset ≤ row'.nextOffset) ⟨row, hrow, Int.le_refl _⟩ ?_
    rintro events w₁ w₂ ⟨row₁, hrow₁, hle₁⟩ hs
    obtain ⟨row₂, hrow₂, hle₂⟩ := offsets_of_step hs hrow₁
    exact ⟨row₂, hrow₂, Int.le_trans hle₁ hle₂⟩
  · obtain ⟨row, hrow, hnext⟩ := hmarks.replied m r hin
    obtain ⟨row', hrow', hcovered⟩ := hmarks.covered m.stream s hens
    rw [hrow] at hrow'
    cases hrow'
    exact hcovered offset hle (by omega)

/-- A delivery of the event that the creation of the solo workflow wrote. -/
def soloMessage (offset : Int) : InboxMessage where
  consumerID := "c"
  eventID := uuidOf 1 1
  topic := eventTopic
  partition := 0
  offset := offset
  eventType := "workflow.created"
  schemaVersion := 1
  payload := .json (.obj [("workflow_id", .str "w")])

/-- The event arrives at offset 1 before the gap at 0 is closed by a poison record, and once more
    at offset 2. -/
def watermarkScript : List Move := [
  .call (.createDefinition soloDefinition), .call (.createWorkflow soloWorkflow),
  .ensure ⟨"c", eventTopic, 0⟩ 0,
  .record (uuidOf 9 0) (soloMessage 1),
  .poison { soloMessage 0 with eventID := "", payload := .malformed } "invalid transport event",
  .record (uuidOf 9 1) (soloMessage 2)]

/-- What a delivery answered. -/
def ConsumerEvent.answer : ConsumerEvent → Option (InboxDisposition × Int × Bool)
  | .ensured _ _ _ => none
  | .recorded _ r | .poisoned _ r => some (r.disposition, r.nextOffset, r.commitOffset)

theorem watermark_safe_gap :
    ∃ trace w, World.Run .plain (World.start 0) trace w ∧
      (consumerTrace trace).filterMap ConsumerEvent.answer =
        [(.accepted, 0, false), (.quarantined, 2, true), (.alreadyHandled, 3, true)] ∧
      WatermarkSafe .plain trace w := by
  have hrun : (World.moves? .plain 0 watermarkScript (World.start 0)).any (fun r =>
      (consumerTrace r.1).filterMap ConsumerEvent.answer =
        [(.accepted, 0, false), (.quarantined, 2, true), (.alreadyHandled, 3, true)]) = true := by
    decide +kernel
  obtain ⟨⟨trace, w⟩, hmoves, hshown⟩ := (Option.any_eq_true _ _).mp hrun
  have hrun := World.run_of_moves? hmoves
  exact ⟨trace, w, hrun, by simpa using hshown, watermark_safe hrun⟩

end DurableEngine.Services
