/-
  DurableEngine.Services.Arrival

  The watermark of a consumer and the order in which its deliveries commit.

  A first delivery and a poison record leave a row at their offset, so the
  watermark passes them whenever the gap before them closes.  A repeated
  event leaves nothing: its offset is passed only if the delivery stands at
  the watermark when it commits, and the stored row has a smaller offset
  (`InTurn`).  Otherwise the watermark stops at it for good.
-/

import DurableEngine.Services.Watermark

namespace DurableEngine.Services

open Lib State

-- ============================================================================
-- Deliveries
-- ============================================================================

/-- A delivery with the transaction that processes it. -/
inductive Delivery where
  | record (wakeupID : String) (message : InboxMessage)
  | poison (message : InboxMessage) (reason : String)

namespace Delivery

def message : Delivery → InboxMessage
  | record _ m | poison m _ => m

def offset (d : Delivery) : Int := d.message.offset

/-- The event that a delivery records. -/
def event : Delivery → Option String
  | record _ m => uuidText m.eventID
  | poison _ _ => none

def run (env : Env) : Delivery → DB → Except Err (InboxResult × DB)
  | record wakeupID m, db => recordInbox wakeupID m db
  | poison m reason, db => quarantineMessage env m reason db

end Delivery

/-- Process the deliveries one after the other. -/
def processAll (env : Env) (order : List Delivery) (db : DB) : Except Err DB :=
  order.foldlM (fun db d => do
    let (_, db) ← d.run env db
    return db) db

/-- The offset of the inbox row that the consumer has for the event once `before` is processed. -/
def inboxOffset (db : DB) (consumerID : String) (before : List Delivery) (id : String) :
    Option (Option Int) :=
  match db.transport.inbox.get ⟨consumerID, id⟩ with
  | some row => some row.offset
  | none => (before.find? (fun e => e.event = some id)).map (fun e => some e.offset)

/-- The consumer has a row for the event of the delivery. -/
def Repeats (db : DB) (k : StreamKey) (before : List Delivery) (d : Delivery) : Prop :=
  ∃ id, d.event = some id ∧ (inboxOffset db k.consumerID before id).isSome = true

/-- Every smaller offset of the stream from `s` on was delivered before, and so was the event,
    at a smaller offset. -/
structure InTurn (db : DB) (k : StreamKey) (s : Int) (before : List Delivery) (d : Delivery) :
    Prop where
  gapless : ∀ o, s ≤ o → o < d.offset → ∃ e ∈ before, e.offset = o
  first : ∃ id o, d.event = some id ∧ inboxOffset db k.consumerID before id = some (some o) ∧
    o < d.offset

/-- Every repeated delivery comes in its turn. -/
def Orderly (db : DB) (k : StreamKey) (s : Int) (order : List Delivery) : Prop :=
  ∀ before d after, order = before ++ d :: after → Repeats db k before d → InTurn db k s before d

-- ============================================================================
-- One delivery
-- ============================================================================

theorem nextGap_of_tables {t t' : TransportTables} (hinbox : t'.inbox = t.inbox)
    (hquarantine : t'.quarantine = t.quarantine) : t'.nextGap = t.nextGap := by
  funext k next
  simp only [TransportTables.nextGap, handled_of_tables hinbox hquarantine, hinbox, hquarantine]

theorem nextGap_of_not_handled {t : TransportTables} {k : StreamKey} {next : Int}
    (h : t.handled k next = false) : t.nextGap k next = next := by
  unfold TransportTables.nextGap
  cases t.inbox.rows.length + t.quarantine.rows.length with
  | zero => rfl
  | succ fuel =>
      unfold firstGap
      rw [h]
      rfl

/-- The watermark moves only when the message stands at it. -/
theorem advanceConsumerOffset_next {k : StreamKey} {offset next : Int} {db db' : DB} {r : Int × Bool}
    (hrow : db.transport.consumerOffsets.get k = some ⟨k, next⟩)
    (heq : advanceConsumerOffset k offset db = .ok (r, db')) :
    r.1 = if offset = next then db.transport.nextGap k next else next := by
  simp only [advanceConsumerOffset, hrow, advanceFrom] at heq
  split at heq
  · rename_i hlt
    cases heq
    rw [if_neg (by omega)]
  · rename_i hle
    split at heq
    · cases heq
      rw [if_neg (by omega)]
    · obtain ⟨moved, hmoved, heq⟩ := bind_eq_ok.mp heq
      obtain ⟨-, rfl⟩ := moveOffset_eq_ok.mp hmoved
      cases heq
      rw [if_pos (by omega)]

/-- What a delivery to the stream `k` at the watermark `next` does: its row is kept and the
    watermark passes it, or the event has a row already. -/
inductive Arrives (db db' : DB) (k : StreamKey) (next : Int) (d : Delivery) (next' : Int) : Prop where
  | kept (unknown : ∀ id, d.event = some id → db.transport.inbox.get ⟨k.consumerID, id⟩ = none)
      (handled : db'.transport.handled k d.offset = true)
      (mono : ∀ o, db.transport.handled k o = true → db'.transport.handled k o = true)
      (inbox : ∀ id, (db'.transport.inbox.get ⟨k.consumerID, id⟩).map (·.offset) =
        if d.event = some id then some (some d.offset)
        else (db.transport.inbox.get ⟨k.consumerID, id⟩).map (·.offset))
      (moved : next' = if d.offset = next then db'.transport.nextGap k next else next) :
      Arrives db db' k next d next'
  | repeated (id : String) (row : InboxRow) (event : d.event = some id)
      (existing : db.transport.inbox.get ⟨k.consumerID, id⟩ = some row)
      (inbox : db'.transport.inbox = db.transport.inbox)
      (quarantine : db'.transport.quarantine = db.transport.quarantine)
      (moved : db.transport.handled k next = false →
        next' = if d.offset = next ∧ ∃ o ∈ row.offset, o < d.offset
          then db.transport.nextGap k (next + 1) else next) :
      Arrives db db' k next d next'

theorem covers_row (m : InboxMessage) (id : String) : (m.row id).covers m.stream m.offset = true := by
  simp [InboxRow.covers, InboxMessage.row, InboxMessage.stream]

theorem arrives_of_accept {wakeupID id : String} {o : OutboxEvent} {w : Workflow} {m : InboxMessage}
    {inbox : Table InboxRow.key} {db db' : DB} {r : InboxResult} {next : Int}
    (h : acceptMessage wakeupID id o w m inbox db = .ok (r, db'))
    (hid : uuidText m.eventID = some id)
    (hinbox : Inserted db.transport.inbox (m.row id) inbox)
    (hrow : db.transport.consumerOffsets.get m.stream = some ⟨m.stream, next⟩) :
    Arrives db db' m.stream next (.record wakeupID m) r.nextOffset := by
  simp only [acceptMessage, bind_eq_ok, pure_eq_ok] at h
  obtain ⟨⟨created, db₁⟩, hwake, ⟨reply, db₂⟩, hadvance, heq⟩ := h
  obtain ⟨-, hframe₁⟩ := wakeScheduler_eq_ok hwake
  cases heq
  obtain ⟨hframe₂, -⟩ := advanceConsumerOffset_eq hadvance
  have hinbox₂ : db₂.transport.inbox = inbox := by rw [hframe₂, hframe₁]; rfl
  have hrow₁ : db₁.transport.consumerOffsets.get m.stream = some ⟨m.stream, next⟩ := by
    rw [hframe₁]
    exact hrow
  have hnext := advanceConsumerOffset_next hrow₁ hadvance
  have hgap : db₂.transport.nextGap = db₁.transport.nextGap :=
    nextGap_of_tables (by rw [hframe₂]; rfl) (by rw [hframe₂]; rfl)
  refine .kept ?_ ?_ ?_ ?_ ?_
  · intro id' hid'
    rw [show Delivery.event (.record wakeupID m) = uuidText m.eventID from rfl, hid,
      Option.some.injEq] at hid'
    subst hid'
    exact (Table.insert?_eq_some_iff.mp hinbox).1
  · simp only [TransportTables.handled, hinbox₂, (Table.insert?_eq_some_iff.mp hinbox).2,
      List.any_append, List.any_cons, Bool.or_eq_true]
    exact .inl (.inr (.inl (covers_row m id)))
  · intro o hold
    have hquarantine : db₂.transport.quarantine = db.transport.quarantine := by
      rw [hframe₂, hframe₁]
      rfl
    simp only [TransportTables.handled, hinbox₂, hquarantine,
      (Table.insert?_eq_some_iff.mp hinbox).2, List.any_append, Bool.or_eq_true] at hold ⊢
    exact hold.imp_left .inl
  · intro id'
    rw [hinbox₂, Table.get_insert hinbox, show Delivery.event (.record wakeupID m) =
      uuidText m.eventID from rfl, hid]
    by_cases hsame : id' = id
    · subst hsame
      refine (congrArg _ (if_pos rfl)).trans ?_
      rw [if_pos rfl]
      rfl
    · rw [if_neg (fun hk => hsame (by cases hk; rfl)),
        if_neg (fun hk => hsame (Option.some.inj hk).symm)]
  · rw [hgap]
    exact hnext

theorem arrives_of_repeat {wakeupID id : String} {existing : InboxRow} {m : InboxMessage}
    {db db' : DB} {r : InboxResult} {next : Int} (h : repeatMessage existing m db = .ok (r, db'))
    (hid : uuidText m.eventID = some id)
    (hexisting : db.transport.inbox.get ⟨m.consumerID, id⟩ = some existing)
    (hrow : db.transport.consumerOffsets.get m.stream = some ⟨m.stream, next⟩) :
    Arrives db db' m.stream next (.record wakeupID m) r.nextOffset := by
  simp only [repeatMessage, bind_eq_ok, rejectIf_eq_ok, exists_const] at h
  obtain ⟨-, ⟨reply, db₁⟩, hadvance, h⟩ := h
  obtain ⟨hframe₁, -⟩ := advanceConsumerOffset_eq hadvance
  have hnext := advanceConsumerOffset_next hrow hadvance
  have hgap₁ : db₁.transport.nextGap = db.transport.nextGap :=
    nextGap_of_tables (by rw [hframe₁]; rfl) (by rw [hframe₁]; rfl)
  -- the watermark stands still at a message without a row
  have hstill : db.transport.handled m.stream next = false → reply.1 = next := by
    intro hgap
    rw [hnext]
    split
    · exact nextGap_of_not_handled hgap
    · rfl
  split at h
  · rename_i hdup
    obtain ⟨moved, hagain, h⟩ := bind_eq_ok.mp h
    obtain ⟨-, rfl⟩ := moveOffset_eq_ok.mp hagain
    cases h
    refine .repeated id existing hid hexisting ?_ ?_ (fun hgap => ?_)
    · rw [hframe₁]
      rfl
    · rw [hframe₁]
      rfl
    · have hat : m.offset = next := hdup.2.symm.trans (hstill hgap)
      rw [if_pos ⟨hat, hdup.1⟩, ← hat, ← hgap₁]
  · rename_i hdup
    cases h
    refine .repeated id existing hid hexisting ?_ ?_ (fun hgap => ?_)
    · rw [hframe₁]
      rfl
    · rw [hframe₁]
      rfl
    · rw [if_neg]
      · exact hstill hgap
      · rintro ⟨hat, hstored⟩
        exact hdup ⟨hstored, (hstill hgap).trans hat.symm⟩

/-- The row is in place, the new one or one that was there. -/
theorem isSome_get_insertD_self (t : Table QuarantineRow.key) (row : QuarantineRow) :
    (((t.insert? row).getD t).get row.key).isSome = true := by
  cases hins : t.insert? row with
  | none =>
      obtain ⟨old, hold⟩ := Table.get_of_insert?_none hins
      rw [Option.getD_none, hold]
      rfl
  | some t' =>
      rw [Option.getD_some, Table.get_insert_self hins]
      rfl

theorem isSome_get_insertD_of_isSome (t : Table QuarantineRow.key) (row : QuarantineRow)
    (k : DeliveryKey) (h : (t.get k).isSome = true) :
    (((t.insert? row).getD t).get k).isSome = true := by
  cases hins : t.insert? row with
  | none => exact h
  | some t' =>
      obtain ⟨old, hold⟩ := Option.isSome_iff_exists.mp h
      rw [Option.getD_some, Table.get_insert_of_get hins hold]
      rfl

theorem arrives_of_poison {env : Env} {m : InboxMessage} {reason : String} {db db' : DB}
    {r : InboxResult} {next : Int} (h : quarantineMessage env m reason db = .ok (r, db'))
    (hrow : db.transport.consumerOffsets.get m.stream = some ⟨m.stream, next⟩) :
    Arrives db db' m.stream next (.poison m reason) r.nextOffset := by
  simp only [quarantineMessage, bind_eq_ok, rejectIf_eq_ok, getOr_eq_ok, exists_const, pure_eq_ok] at h
  obtain ⟨-, -, detail, hdetail, ⟨reply, db₁⟩, hadvance, heq⟩ := h
  cases heq
  generalize (if m.eventID = "" then none
    else (db.outbox.get m.eventID).bind (fun o => db.workflows.get o.workflowID)) = workflow at hadvance
  have hheld := isSome_get_insertD_self db.transport.quarantine ⟨⟨m.stream, m.offset⟩,
    nullIfEmpty m.eventID, nullIfEmpty m.eventType, m.payload, reason, workflow.map (·.workflowID),
    workflow.map (·.partitionID)⟩
  have hkept := isSome_get_insertD_of_isSome db.transport.quarantine ⟨⟨m.stream, m.offset⟩,
    nullIfEmpty m.eventID, nullIfEmpty m.eventType, m.payload, reason, workflow.map (·.workflowID),
    workflow.map (·.partitionID)⟩
  generalize (db.transport.quarantine.insert? (⟨⟨m.stream, m.offset⟩, nullIfEmpty m.eventID,
    nullIfEmpty m.eventType, m.payload, reason, workflow.map (·.workflowID),
    workflow.map (·.partitionID)⟩ : QuarantineRow)).getD db.transport.quarantine = quarantine
    at hadvance hheld hkept
  obtain ⟨reconciliation, hopen⟩ := DB.openPoisonRecord_eq
    { db with transport := { db.transport with quarantine := quarantine } } (deliveryReference m)
    (workflow.map (·.workflowID)) (workflow.map (·.partitionID)) detail
  rw [hopen] at hadvance
  obtain ⟨hframe, -⟩ := advanceConsumerOffset_eq hadvance
  have hnext := advanceConsumerOffset_next (by exact hrow) hadvance
  refine .kept (fun _ hnone => (by cases hnone)) ?_ ?_ ?_ ?_
  · simp only [TransportTables.handled, Bool.or_eq_true]
    refine .inr ?_
    rw [hframe]
    exact hheld
  · intro o hold
    rw [hframe]
    simp only [TransportTables.handled, Bool.or_eq_true] at hold ⊢
    exact hold.imp id (hkept _)
  · intro id
    rw [if_neg (fun hnone => (by cases hnone)), hframe]
    rfl
  · rw [hframe]
    exact hnext

theorem arrives {env : Env} {d : Delivery} {db db' : DB} {r : InboxResult} {next : Int}
    (h : d.run env db = .ok (r, db'))
    (hrow : db.transport.consumerOffsets.get d.message.stream = some ⟨d.message.stream, next⟩) :
    Arrives db db' d.message.stream next d r.nextOffset := by
  cases d with
  | record wakeupID m =>
      simp only [Delivery.run, recordInbox, bind_eq_ok, rejectIf_eq_ok, getOr_eq_ok,
        exists_const] at h
      obtain ⟨-, -, id, hid, o, ho, w, hw, hagrees, -, h⟩ := h
      split at h
      · rename_i inbox hins
        exact arrives_of_accept h hid hins hrow
      · simp only [bind_eq_ok, getOr_eq_ok] at h
        obtain ⟨existing, hexisting, h⟩ := h
        exact arrives_of_repeat h hid hexisting hrow
  | poison m reason => exact arrives_of_poison h hrow

/-- What a delivery leaves as it is. -/
theorem delivers_of_run {env : Env} {d : Delivery} {db db' : DB} {r : InboxResult}
    (h : d.run env db = .ok (r, db')) : Delivers db db' d.message r := by
  cases d with
  | record wakeupID m =>
      obtain ⟨id, o, hrecorded⟩ := recordInbox_eq_ok h
      exact delivers_of_recorded hrecorded
  | poison m reason => exact delivers_of_poisoned (quarantineMessage_eq_ok h)

-- ============================================================================
-- All deliveries
-- ============================================================================

section Order

variable {db₀ db db' : DB} {k : StreamKey} {s next : Int} {before : List Delivery} {d : Delivery}

theorem inboxOffset_snoc (id : String) :
    inboxOffset db₀ k.consumerID (before ++ [d]) id =
      if (inboxOffset db₀ k.consumerID before id).isSome = true then
        inboxOffset db₀ k.consumerID before id
      else if d.event = some id then some (some d.offset) else none := by
  unfold inboxOffset
  cases db₀.transport.inbox.get ⟨k.consumerID, id⟩ with
  | some row => rfl
  | none =>
      simp only [List.find?_append]
      cases before.find? (fun e => e.event = some id) with
      | some e => rfl
      | none =>
          by_cases hevent : d.event = some id
          · simp [hevent]
          · simp [hevent]

/-- A split of a list with one more element is at that element, or is one of the list. -/
theorem snoc_split {before b a : List Delivery} {d e : Delivery} (h : before ++ [d] = b ++ e :: a) :
    b = before ∧ e = d ∧ a = [] ∨ ∃ a', before = b ++ e :: a' := by
  cases a using List.reverseRecOn with
  | nil =>
      obtain ⟨rfl, heq⟩ := List.append_inj' h rfl
      cases heq
      exact .inl ⟨rfl, rfl, rfl⟩
  | append_singleton a' x _ =>
      rw [← List.cons_append, ← List.append_assoc] at h
      exact .inr ⟨a', (List.append_inj' h rfl).1⟩

/-- The state of the stream once `before` is processed; `db₀` is the state at the start. -/
structure Progress (db₀ : DB) (k : StreamKey) (s : Int) (before : List Delivery) (db : DB)
    (next : Int) : Prop where
  stored : db.transport.consumerOffsets.get k = some ⟨k, next⟩
  start : s ≤ next
  gap : db.transport.handled k next = false
  inbox : ∀ id, (db.transport.inbox.get ⟨k.consumerID, id⟩).map (·.offset) =
    inboxOffset db₀ k.consumerID before id
  delivered : ∀ o, s ≤ o → db.transport.handled k o = true → ∃ e ∈ before, e.offset = o
  covered : ∀ o, s ≤ o → o < next → ∃ e ∈ before, e.offset = o
  held : ∀ b e a, before = b ++ e :: a → ¬ Repeats db₀ k b e → db.transport.handled k e.offset = true
  lost : ∀ b e a, before = b ++ e :: a → Repeats db₀ k b e → ¬ InTurn db₀ k s b e →
    next ≤ e.offset ∧ db.transport.handled k e.offset = false
  passed : Orderly db₀ k s before → ∀ b e a, before = b ++ e :: a → Repeats db₀ k b e →
    e.offset < next

theorem Progress.init (hrow : db₀.transport.consumerOffsets.get k = some ⟨k, s⟩)
    (hfresh : ∀ o, s ≤ o → db₀.transport.handled k o = false) : Progress db₀ k s [] db₀ s where
  stored := hrow
  start := Int.le_refl s
  gap := hfresh s (Int.le_refl s)
  inbox id := by
    unfold inboxOffset
    cases db₀.transport.inbox.get ⟨k.consumerID, id⟩ <;> rfl
  delivered o ho hhandled := by
    rw [hfresh o ho] at hhandled
    cases hhandled
  covered o ho hlt := by omega
  held b e a h := by simp at h
  lost b e a h := by simp at h
  passed _ b e a h := by simp at h

/-- The repeated event has the row that the deliveries before say. -/
theorem Progress.row (h : Progress db₀ k s before db next) {id : String} {row : InboxRow}
    (hrow : db.transport.inbox.get ⟨k.consumerID, id⟩ = some row) :
    inboxOffset db₀ k.consumerID before id = some row.offset := by
  rw [← h.inbox, hrow]
  rfl

theorem Progress.not_repeats (h : Progress db₀ k s before db next)
    (hunknown : ∀ id, d.event = some id → db.transport.inbox.get ⟨k.consumerID, id⟩ = none) :
    ¬ Repeats db₀ k before d := by
  rintro ⟨id, hevent, hsome⟩
  rw [← h.inbox, hunknown id hevent] at hsome
  cases hsome

/-- In an orderly run the watermark stands at the first offset that was not delivered. -/
theorem Progress.at_watermark (h : Progress db₀ k s before db next) (horder : Orderly db₀ k s before)
    (ht : InTurn db₀ k s before d) (hs : s ≤ d.offset) (hnew : ∀ e ∈ before, e.offset ≠ d.offset) :
    d.offset = next := by
  by_contra hne
  rcases Int.lt_or_gt_of_ne hne with hlt | hgt
  · obtain ⟨e, he, heq⟩ := h.covered d.offset hs hlt
    exact hnew e he heq
  · obtain ⟨e, he, heq⟩ := ht.gapless next h.start hgt
    obtain ⟨b, a, hsplit⟩ := List.append_of_mem he
    by_cases hrep : Repeats db₀ k b e
    · have hlt := h.passed horder b e a hsplit hrep
      omega
    · have hheld := h.held b e a hsplit hrep
      rw [heq, h.gap] at hheld
      cases hheld

theorem Progress.step {env : Env} {r : InboxResult} (h : Progress db₀ k s before db next)
    (hrun : d.run env db = .ok (r, db')) (hk : d.message.stream = k) (hs : s ≤ d.offset)
    (hnew : ∀ e ∈ before, e.offset ≠ d.offset) :
    Progress db₀ k s (before ++ [d]) db' r.nextOffset := by
  have hd := delivers_of_run hrun
  have ha := arrives hrun (by rw [hk]; exact h.stored)
  have hmove := hd.watermark
  rw [hk] at ha hmove
  obtain ⟨hle, hpassed⟩ := hmove.moved _ h.stored
  dsimp only at hle hpassed
  have hdelivered : ∀ o, s ≤ o → db'.transport.handled k o = true →
      ∃ e ∈ before ++ [d], e.offset = o := by
    intro o ho hhandled
    obtain hold | ⟨-, rfl⟩ := hd.handled k o hhandled
    · obtain ⟨e, he, heq⟩ := h.delivered o ho hold
      exact ⟨e, List.mem_append_left _ he, heq⟩
    · exact ⟨d, List.mem_append_right _ (List.mem_singleton.mpr rfl), rfl⟩
  -- a delivery leaves the other offsets as they are
  have hother : ∀ o, o ≠ d.offset → db.transport.handled k o = false →
      db'.transport.handled k o = false := by
    intro o hne hfalse
    by_contra htrue
    obtain hold | ⟨-, heq⟩ := hd.handled k o (by simpa using htrue)
    · rw [hfalse] at hold
      cases hold
    · exact hne heq
  refine ⟨hmove.stored, Int.le_trans h.start hle, ?_, ?_, hdelivered, ?_, ?_, ?_, ?_⟩
  · cases ha with
    | kept unknown handled mono inbox moved =>
        rw [moved]
        split
        · exact TransportTables.handled_nextGap _ _ _
        · rename_i hne
          exact hother next (Ne.symm hne) h.gap
    | repeated id row event existing inbox quarantine moved =>
        rw [handled_of_tables inbox quarantine, moved h.gap]
        split
        · exact TransportTables.handled_nextGap _ _ _
        · exact h.gap
  · intro id
    rw [inboxOffset_snoc]
    cases ha with
    | kept unknown handled mono inbox moved =>
        rw [inbox id, h.inbox]
        by_cases hevent : d.event = some id
        · rw [if_pos hevent, if_neg, if_pos hevent]
          rw [← h.inbox, unknown id hevent]
          simp
        · rw [if_neg hevent]
          cases inboxOffset db₀ k.consumerID before id with
          | none => simp [hevent]
          | some o => rfl
    | repeated id' row event existing inbox quarantine moved =>
        rw [inbox, h.inbox]
        by_cases hevent : id' = id
        · subst hevent
          rw [h.row existing]
          rfl
        · cases inboxOffset db₀ k.consumerID before id with
          | none => simp [event, hevent]
          | some o => rfl
  · intro o ho hlt
    by_cases hbefore : o < next
    · obtain ⟨e, he, heq⟩ := h.covered o ho hbefore
      exact ⟨e, List.mem_append_left _ he, heq⟩
    · obtain hhandled | rfl := hpassed o (by omega) hlt
      · exact hdelivered o ho hhandled
      · exact ⟨d, List.mem_append_right _ (List.mem_singleton.mpr rfl), rfl⟩
  · intro b e a hsplit hrep
    obtain ⟨rfl, rfl, -⟩ | ⟨a', hold⟩ := snoc_split hsplit
    · cases ha with
      | kept unknown handled mono inbox moved => exact handled
      | repeated id row event existing inbox quarantine moved =>
          exact absurd ⟨id, event, by rw [h.row existing]; rfl⟩ hrep
    · have hheld := h.held b e a' hold hrep
      cases ha with
      | kept unknown handled mono inbox moved => exact mono _ hheld
      | repeated id row event existing inbox quarantine moved =>
          rw [handled_of_tables inbox quarantine]
          exact hheld
  · intro b e a hsplit hrep hturn
    obtain ⟨rfl, rfl, -⟩ | ⟨a', hold⟩ := snoc_split hsplit
    · cases ha with
      | kept unknown handled mono inbox moved => exact absurd hrep (h.not_repeats unknown)
      | repeated id row event existing inbox quarantine moved =>
          rw [moved h.gap, if_neg]
          · refine ⟨?_, ?_⟩
            · by_contra hlt
              obtain ⟨e', he', heq⟩ := h.covered e.offset hs (by omega)
              exact hnew e' he' heq
            · rw [handled_of_tables inbox quarantine]
              by_contra htrue
              obtain ⟨e', he', heq⟩ := h.delivered e.offset hs (by simpa using htrue)
              exact hnew e' he' heq
          · rintro ⟨hat, o, ho, hlt⟩
            refine hturn ⟨fun o' ho' hlt' => h.covered o' ho' (by omega), id, o, event, ?_, hlt⟩
            rw [h.row existing, Option.mem_def.mp ho]
    · obtain ⟨hge, hfalse⟩ := h.lost b e a' hold hrep hturn
      have hne : e.offset ≠ d.offset :=
        hnew e (by rw [hold]; exact List.mem_append_right _ List.mem_cons_self)
      refine ⟨?_, hother _ hne hfalse⟩
      by_contra hlt
      obtain hhandled | heq := hpassed e.offset hge (by omega)
      · rw [hother _ hne hfalse] at hhandled
        cases hhandled
      · exact hne heq
  · intro horder b e a hsplit hrep
    have horder' : Orderly db₀ k s before := by
      intro b e a hsplit
      exact horder b e (a ++ [d]) (by rw [hsplit, List.append_assoc, List.cons_append])
    obtain ⟨rfl, rfl, -⟩ | ⟨a', hold⟩ := snoc_split hsplit
    · have hturn := horder _ _ _ hsplit hrep
      have hat := h.at_watermark horder' hturn hs hnew
      cases ha with
      | kept unknown handled mono inbox moved => exact absurd hrep (h.not_repeats unknown)
      | repeated id row event existing inbox quarantine moved =>
          obtain ⟨id', o, hevent', hoffset, hlt⟩ := hturn.first
          rw [event, Option.some.injEq] at hevent'
          subst hevent'
          rw [h.row existing, Option.some.injEq] at hoffset
          rw [moved h.gap, if_pos ⟨hat, o, hoffset, hlt⟩]
          have hgap : next + 1 ≤ db.transport.nextGap k (next + 1) := le_firstGap _ _ _
          omega
    · exact Int.lt_of_lt_of_le (h.passed horder' b e a' hold hrep) hle

theorem Progress.processAll {env : Env} {order : List Delivery} (h : Progress db₀ k s before db next)
    (hrun : processAll env order db = .ok db') (hk : ∀ d ∈ order, d.message.stream = k)
    (hs : ∀ d ∈ order, s ≤ d.offset) (hnew : ((before ++ order).map Delivery.offset).Nodup) :
    ∃ next', Progress db₀ k s (before ++ order) db' next' := by
  induction order generalizing before db next with
  | nil =>
      cases hrun
      exact ⟨next, by rw [List.append_nil]; exact h⟩
  | cons d order ih =>
      simp only [Services.processAll, List.foldlM_cons, bind_eq_ok, pure_eq_ok] at hrun
      obtain ⟨db₁, ⟨⟨r, db₁'⟩, hd, rfl⟩, hrest⟩ := hrun
      have hfresh : ∀ e ∈ before, e.offset ≠ d.offset := by
        intro e he heq
        rw [List.map_append, List.map_cons] at hnew
        exact (List.nodup_append.mp hnew).2.2 _ (List.mem_map_of_mem he) _ List.mem_cons_self heq
      have hstep := h.step hd (hk d List.mem_cons_self) (hs d List.mem_cons_self) hfresh
      rw [List.append_cons before d order] at hnew ⊢
      refine ih hstep hrest (fun e he => hk e (List.mem_cons_of_mem _ he))
        (fun e he => hs e (List.mem_cons_of_mem _ he)) hnew

end Order

/-- The deliveries of the stream `k` at the offsets from `s` on, each offset once. -/
structure Batch (k : StreamKey) (s : Int) (order : List Delivery) : Prop where
  stream : ∀ d ∈ order, d.message.stream = k
  distinct : (order.map Delivery.offset).Nodup
  range : ∀ o, (∃ d ∈ order, d.offset = o) ↔ s ≤ o ∧ o < s + order.length

/-- A stream whose watermark was set up at `s`. -/
structure StartsAt (db : DB) (k : StreamKey) (s : Int) : Prop where
  stored : db.transport.consumerOffsets.get k = some ⟨k, s⟩
  fresh : ∀ o, s ≤ o → db.transport.handled k o = false

/-- Once a batch is processed the watermark stands behind it, exactly when every repeated
    delivery came in its turn. -/
theorem watermark_complete_iff {env : Env} {db db' : DB} {k : StreamKey} {s : Int}
    {order : List Delivery} (hstart : StartsAt db k s) (hbatch : Batch k s order)
    (hrun : processAll env order db = .ok db') :
    db'.transport.consumerOffsets.get k = some ⟨k, s + order.length⟩ ↔ Orderly db k s order := by
  have hs : ∀ d ∈ order, s ≤ d.offset := fun d hd => ((hbatch.range _).mp ⟨d, hd, rfl⟩).1
  obtain ⟨next, hp⟩ := (Progress.init hstart.stored hstart.fresh).processAll hrun hbatch.stream hs
    hbatch.distinct
  rw [List.nil_append] at hp
  rw [hp.stored]
  constructor
  · intro hnext b d a hsplit hrep
    by_contra hturn
    have hge := (hp.lost b d a hsplit hrep hturn).1
    have hmem : d ∈ order := by
      rw [hsplit]
      exact List.mem_append_right _ List.mem_cons_self
    have hlt := ((hbatch.range _).mp ⟨d, hmem, rfl⟩).2
    cases hnext
    omega
  · intro horder
    have hbelow : next ≤ s + order.length := by
      by_contra hgt
      obtain ⟨d, hd, heq⟩ := hp.covered (s + order.length) (by omega) (by omega)
      have hlt := ((hbatch.range _).mp ⟨d, hd, heq⟩).2
      omega
    have habove : ¬ next < s + order.length := by
      intro hlt
      obtain ⟨d, hd, heq⟩ := (hbatch.range next).mpr ⟨hp.start, hlt⟩
      obtain ⟨b, a, hsplit⟩ := List.append_of_mem hd
      by_cases hrep : Repeats db k b d
      · have hpassed := hp.passed horder b d a hsplit hrep
        omega
      · have hheld := hp.held b d a hsplit hrep
        rw [heq, hp.gap] at hheld
        cases hheld
    rw [show next = s + order.length by omega]

/-- The stream of the solo deliveries. -/
def soloStream : StreamKey := ⟨"c", eventTopic, 0⟩

/-- The watermark of the stream is set up before anything is delivered. -/
def arrivalScript : List Move := [
  .call (.createDefinition soloDefinition), .call (.createWorkflow soloWorkflow),
  .ensure soloStream 0]

def arrivalDB : DB :=
  ((World.moves? .plain 0 arrivalScript (World.start 0)).map (fun r => r.2.db)).getD (DB.init 0)

theorem arrivalDB_starts : StartsAt arrivalDB soloStream 0 := by
  have hchecked : (arrivalDB.transport.consumerOffsets.get soloStream = some ⟨soloStream, 0⟩ ∧
      arrivalDB.transport.inbox.rows.length = 0) ∧ arrivalDB.transport.quarantine.rows = [] := by
    decide +kernel
  obtain ⟨⟨hstored, hinbox⟩, hquarantine⟩ := hchecked
  refine ⟨hstored, fun o _ => ?_⟩
  simp only [TransportTables.handled, List.eq_nil_of_length_eq_zero hinbox, Table.get, hquarantine]
  rfl

/-- The event at the offset. -/
def soloDelivery (offset : Int) : Delivery := .record (uuidOf 9 offset.toNat) (soloMessage offset)

/-- The event, its repetition and a poison record, in the order of their offsets. -/
def inTurnOrder : List Delivery := [soloDelivery 0, soloDelivery 1,
  .poison { soloMessage 2 with eventID := "", payload := .malformed } "invalid transport event"]

theorem watermark_complete_in_turn :
    ∃ db', StartsAt arrivalDB soloStream 0 ∧ Batch soloStream 0 inTurnOrder ∧
      processAll .plain inTurnOrder arrivalDB = .ok db' ∧
      db'.transport.consumerOffsets.get soloStream = some ⟨soloStream, 3⟩ ∧
      Orderly arrivalDB soloStream 0 inTurnOrder := by
  have hchecked : (processAll .plain inTurnOrder arrivalDB).toOption.any (fun db =>
      db.transport.consumerOffsets.get soloStream = some ⟨soloStream, 3⟩) = true := by decide +kernel
  obtain ⟨db', hok, hnext⟩ := (Option.any_eq_true _ _).mp hchecked
  have hrun := toOption_eq_some hok
  have hnext : db'.transport.consumerOffsets.get soloStream = some ⟨soloStream, 3⟩ := by
    simpa using hnext
  have hbatch : Batch soloStream 0 inTurnOrder := by
    refine ⟨?_, by decide, fun o => ?_⟩
    · simp [inTurnOrder, soloDelivery, Delivery.message, InboxMessage.stream, soloMessage, soloStream]
    · simp only [inTurnOrder, soloDelivery, Delivery.offset, Delivery.message, soloMessage,
        List.mem_cons, List.not_mem_nil, or_false, exists_eq_or_imp, exists_eq_left, List.length_cons,
        List.length_nil]
      omega
  exact ⟨db', arrivalDB_starts, hbatch, hrun, hnext,
    (watermark_complete_iff arrivalDB_starts hbatch hrun).mp hnext⟩

/-- The event at two offsets: the watermark stands behind both of them or before the first,
    depending on the order. -/
theorem watermark_depends_on_order :
    ∃ db₁ db₂, StartsAt arrivalDB soloStream 0 ∧
      Batch soloStream 0 [soloDelivery 0, soloDelivery 1] ∧
      processAll .plain [soloDelivery 0, soloDelivery 1] arrivalDB = .ok db₁ ∧
      processAll .plain [soloDelivery 1, soloDelivery 0] arrivalDB = .ok db₂ ∧
      db₁.transport.consumerOffsets.get soloStream = some ⟨soloStream, 2⟩ ∧
      db₂.transport.consumerOffsets.get soloStream = some ⟨soloStream, 0⟩ := by
  have hchecked : (fun db =>
      (processAll .plain [soloDelivery 0, soloDelivery 1] db).toOption.any (fun db₁ =>
        db₁.transport.consumerOffsets.get soloStream = some ⟨soloStream, 2⟩) &&
      (processAll .plain [soloDelivery 1, soloDelivery 0] db).toOption.any (fun db₂ =>
        db₂.transport.consumerOffsets.get soloStream = some ⟨soloStream, 0⟩)) arrivalDB = true := by
    decide +kernel
  simp only [Bool.and_eq_true, Option.any_eq_true, decide_eq_true_eq] at hchecked
  obtain ⟨⟨db₁, hok₁, hnext₁⟩, db₂, hok₂, hnext₂⟩ := hchecked
  refine ⟨db₁, db₂, arrivalDB_starts, ⟨?_, by decide, fun o => ?_⟩, toOption_eq_some hok₁,
    toOption_eq_some hok₂, hnext₁, hnext₂⟩
  · simp [soloDelivery, Delivery.message, InboxMessage.stream, soloMessage, soloStream]
  · simp only [soloDelivery, Delivery.offset, Delivery.message, soloMessage, List.mem_cons,
      List.not_mem_nil, or_false, exists_eq_or_imp, exists_eq_left, List.length_cons, List.length_nil]
    omega

end DurableEngine.Services
