/-
  DurableEngine.State.Outbox

  The transactions of a relay (`internal/state/m3.go`): `ClaimOutbox`,
  `FinalizeOutboxPublication` and `QuarantineOutbox`.

  A claim writes its owner into the row and counts the claim up in
  `relay_attempts`; both later calls have to name the owner and the count they
  were handed.  `OutboxEvent.Step` lists what the three can do to a row.
-/

import DurableEngine.State.CommitGraph

namespace DurableEngine.State

open Lib

-- ============================================================================
-- Claims
-- ============================================================================

structure ClaimOutboxInput where
  ownerID : String
  limit : Int
  lease : Int
  /-- The partition of `ClaimOutboxForPartition`. -/
  partitionID : Option Int
deriving DecidableEq, Repr

/-- The row waits for a relay: it is pending, or its claim has run out. -/
def OutboxEvent.waits (o : OutboxEvent) (now : Int) : Bool :=
  o.publishState = .pending ||
    (o.publishState = .claimed && o.claimExpiresAt.any (fun expiry => decide (expiry ≤ now)))

/-- The rows `claimOutbox` looks for. -/
def OutboxEvent.claimable (db : DB) (partitionID : Option Int) (o : OutboxEvent) : Bool :=
  decide (o.nextAttemptAt ≤ db.now) && o.waits db.now &&
    partitionID.all (fun p => (db.workflows.get o.workflowID).any (fun w => w.partitionID = p))

/-- `ORDER BY created_at, event_id`. -/
def outboxBefore (a b : OutboxEvent) : Prop :=
  a.createdAt < b.createdAt ∨ a.createdAt = b.createdAt ∧ a.eventID ≤ b.eventID

instance : DecidableRel outboxBefore := fun _ _ => inferInstanceAs (Decidable (_ ∨ _))

/-- The first `limit` claimable rows that no other transaction has locked. -/
def outboxCandidates (input : ClaimOutboxInput) (locked : String → Bool) (db : DB) :
    List OutboxEvent :=
  ((db.outbox.select (fun o => o.claimable db input.partitionID && !locked o.eventID)).insertionSort
    outboxBefore).take input.limit.toNat

/-- The row after the claim of a relay. -/
def OutboxEvent.claim (o : OutboxEvent) (owner : String) (expiry : Int) : OutboxEvent :=
  { o with
    publishState := .claimed
    claimOwner := some owner
    claimExpiresAt := some expiry
    relayAttempts := o.relayAttempts + 1 }

/-- `ClaimOutbox` and `ClaimOutboxForPartition`; `locked` are the rows that other
    transactions hold while it runs (`SKIP LOCKED`). -/
def claimOutbox (input : ClaimOutboxInput) (locked : String → Bool) (db : DB) :
    Except Err (List OutboxEvent × DB) := do
  rejectIf (∃ p ∈ input.partitionID, p < 0 ∨ 16 ≤ p) (.text "partition is outside the frozen map")
  rejectIf (input.ownerID = "" ∨ input.limit ≤ 0 ∨ 1000 < input.limit ∨ input.lease ≤ 0)
    (.text "relay owner, bounded limit, and positive claim lease are required")
  let owner ← getOr (uuidText input.ownerID) (.invalidText "claim outbox rows")
  let candidates := outboxCandidates input locked db
  let chosen (o : OutboxEvent) : Bool := candidates.any (fun c => c.eventID = o.eventID)
  let claim (o : OutboxEvent) : OutboxEvent := o.claim owner (db.now + input.lease)
  return (candidates.map claim, { db with outbox := db.outbox.update chosen claim (fun _ => rfl) })

-- ============================================================================
-- Open obligations
-- ============================================================================

/-- The obligation is open. -/
def DB.isOpen (db : DB) (k : ReconciliationKey) : Prop :=
  ∃ item, db.reconciliation.get k = some item ∧ item.status = .open

theorem DB.isOpen_congr {db db' : DB} (h : db'.reconciliation = db.reconciliation)
    {k : ReconciliationKey} : db'.isOpen k ↔ db.isOpen k := by
  unfold DB.isOpen
  rw [h]

/-- An update that opens nothing. -/
theorem isOpen_of_update {db db' : DB} {p : ReconciliationItem → Bool}
    {f : ReconciliationItem → ReconciliationItem}
    (h : ∀ k, db'.reconciliation.get k =
      (db.reconciliation.get k).map (fun r => if p r then f r else r))
    (hstatus : ∀ r, (f r).status = .open → r.status = .open) {k : ReconciliationKey}
    (hopen : db'.isOpen k) : db.isOpen k := by
  obtain ⟨item, hitem, hstate⟩ := hopen
  rw [h, Option.map_eq_some_iff] at hitem
  obtain ⟨r, hr, rfl⟩ := hitem
  refine ⟨r, hr, ?_⟩
  split at hstate
  · exact hstatus r hstate
  · exact hstate

/-- The update closes what it matches. -/
theorem not_isOpen_of_update {db db' : DB} {p : ReconciliationItem → Bool}
    {f : ReconciliationItem → ReconciliationItem}
    (h : ∀ k, db'.reconciliation.get k =
      (db.reconciliation.get k).map (fun r => if p r then f r else r))
    (hclosed : ∀ r, (f r).status ≠ .open) {k : ReconciliationKey}
    (hmatch : ∀ r, r.key = k → r.status = .open → p r = true) : ¬ db'.isOpen k := by
  rintro ⟨item, hitem, hstate⟩
  rw [h, Option.map_eq_some_iff] at hitem
  obtain ⟨r, hr, rfl⟩ := hitem
  split at hstate
  · exact hclosed r hstate
  · rename_i hno
    exact hno (hmatch r (Table.key_of_get hr) hstate)

-- ============================================================================
-- Publications
-- ============================================================================

/-- The caller holds the claim: the row is claimed, by the owner and for the
    count that the caller names. -/
def OutboxEvent.heldBy (o : OutboxEvent) (ownerID : String) (relayAttempt : Int) : Prop :=
  o.publishState = .claimed ∧ o.claimOwner = some ownerID ∧ o.relayAttempts = relayAttempt

instance (o : OutboxEvent) (ownerID : String) (relayAttempt : Int) :
    Decidable (o.heldBy ownerID relayAttempt) := inferInstanceAs (Decidable (_ ∧ _))

def nullIfEmpty (s : String) : Option String := if s = "" then none else some s

/-- Insert the publication of a claim; on conflict its outcome is `replace`d or kept. -/
def DB.recordPublication (db : DB) (row : OutboxPublication) (replace : Bool) : DB :=
  let publications := match db.transport.publications.insert? row with
    | some publications => publications
    | none =>
        if replace then db.transport.publications.modify row.key
          (fun p => { p with brokerAcknowledged := row.brokerAcknowledged, error := row.error })
          (fun _ => rfl)
        else db.transport.publications
  { db with transport := { db.transport with publications := publications } }

/-- The row once the broker has the event. -/
def OutboxEvent.publish (o : OutboxEvent) (now : Int) : OutboxEvent :=
  { o with
    publishState := .published
    claimOwner := none
    claimExpiresAt := none
    publishedAt := some now
    nextAttemptAt := now
    lastError := none }

/-- The row after a publish that failed. -/
def OutboxEvent.release (o : OutboxEvent) (retryAt : Int) (error : String) : OutboxEvent :=
  { o with
    publishState := .pending
    claimOwner := none
    claimExpiresAt := none
    nextAttemptAt := retryAt
    lastError := nullIfEmpty error }

/-- The row of an event that no relay can publish. -/
def OutboxEvent.quarantine (o : OutboxEvent) (reason : String) : OutboxEvent :=
  { o with
    publishState := .quarantined
    claimOwner := none
    claimExpiresAt := none
    lastError := some reason }

structure FinalizeInput where
  eventID : String
  ownerID : String
  relayAttempt : Int
  acknowledged : Bool
  publishErr : String
  retryAfter : Int
deriving DecidableEq, Repr

/-- One second, in the unit of durations. -/
def second : Int := 1000000000

theorem ReconciliationItem.key_resolved (r : ReconciliationItem) :
    ({ r with status := .resolved } : ReconciliationItem).key = r.key := rfl

/-- `FinalizeOutboxPublication`. -/
def finalizeOutboxPublication (input : FinalizeInput) (db : DB) : Except Err (Unit × DB) := do
  rejectIf (input.eventID = "" ∨ input.ownerID = "" ∨ input.relayAttempt ≤ 0)
    (.text "event, relay owner, and positive relay attempt are required")
  let retryAfter := if input.retryAfter ≤ 0 then second else input.retryAfter
  let id ← getOr (uuidText input.eventID) (.invalidText "lock outbox publication")
  let current ← getOr (db.outbox.get id) (.sentinel .outboxNotFound)
  if current.publishState = .published then
    return ((), db)
  else do
    rejectIf (¬ current.heldBy input.ownerID input.relayAttempt) (.sentinel .relayClaimLost)
    let db := db.recordPublication ⟨⟨id, input.relayAttempt⟩, input.ownerID, input.acknowledged,
      nullIfEmpty input.publishErr⟩ true
    if input.acknowledged then
      let resolved (r : ReconciliationItem) : Bool := r.key.kind = .pendingOutbox &&
        r.key.reference = "outbox/" ++ input.eventID && r.status = .open
      return ((), { db with
        outbox := db.outbox.modify id (·.publish db.now) (fun _ => rfl)
        reconciliation := db.reconciliation.update resolved
          (fun r => { r with status := .resolved }) ReconciliationItem.key_resolved })
    else
      return ((), { db with
        outbox := db.outbox.modify id (·.release (db.now + retryAfter) input.publishErr)
          (fun _ => rfl) })

theorem ReconciliationItem.key_withDetail (detail : Jsonb) (r : ReconciliationItem) :
    ({ r with detail := detail } : ReconciliationItem).key = r.key := rfl

/-- Open the obligation of a poison record, or refresh its detail. -/
def DB.openPoisonRecord (db : DB) (reference : String) (workflowID : Option String)
    (partitionID : Option Int) (detail : Jsonb) : DB :=
  let key : ReconciliationKey := ⟨.poisonRecord, reference⟩
  let item : ReconciliationItem :=
    ⟨key, workflowID, partitionID, none, none, none, .open, detail⟩
  match db.reconciliation.insert? item with
  | some reconciliation => { db with reconciliation := reconciliation }
  | none => { db with
      reconciliation := db.reconciliation.modify key (fun r => { r with detail := detail })
        (ReconciliationItem.key_withDetail detail) }

/-- A row for another obligation is inserted, or its detail refreshed. -/
theorem DB.openPoisonRecord_isOpen {db : DB} {reference : String} {workflowID : Option String}
    {partitionID : Option Int} {detail : Jsonb} {k : ReconciliationKey}
    (hkind : k.kind ≠ .poisonRecord)
    (h : (db.openPoisonRecord reference workflowID partitionID detail).isOpen k) : db.isOpen k := by
  have hne : k ≠ ⟨.poisonRecord, reference⟩ := fun heq => hkind (by rw [heq])
  obtain ⟨item, hitem, hstate⟩ := h
  unfold DB.openPoisonRecord at hitem
  dsimp only at hitem
  split at hitem
  · rename_i hins
    rw [Table.get_insert hins, if_neg hne] at hitem
    exact ⟨item, hitem, hstate⟩
  · rw [Table.get_modify_ne _ _ _ hne] at hitem
    exact ⟨item, hitem, hstate⟩

structure QuarantineOutboxInput where
  eventID : String
  ownerID : String
  relayAttempt : Int
  reason : String
deriving DecidableEq, Repr

/-- `QuarantineOutbox`. -/
def quarantineOutbox (env : Env) (input : QuarantineOutboxInput) (db : DB) :
    Except Err (Unit × DB) := do
  rejectIf (input.reason = "") (.text "quarantine reason is required")
  let id ← getOr (uuidText input.eventID) (.invalidText "")
  let current ← getOr (db.outbox.get id) (.sentinel .outboxNotFound)
  let workflow ← getOr (db.workflows.get current.workflowID) (.sentinel .outboxNotFound)
  rejectIf (¬ current.heldBy input.ownerID input.relayAttempt) (.sentinel .relayClaimLost)
  let db := db.recordPublication ⟨⟨id, input.relayAttempt⟩, input.ownerID, false,
    some input.reason⟩ false
  let db := { db with
    outbox := db.outbox.modify id (·.quarantine input.reason) (fun _ => rfl) }
  let detail ← getOr (sprintfJson env [("event_type", .quoted current.eventType),
      ("reason", .quoted input.reason)]) (.invalidText "record quarantined outbox obligation")
  return ((), db.openPoisonRecord ("outbox/" ++ input.eventID) (some current.workflowID)
    (some workflow.partitionID) detail)

/-- `event_id` is a `uuid` column: what it holds reads back as the text form of a `uuid`. -/
def DB.EventIDsTyped (db : DB) : Prop := ∀ o ∈ db.outbox.rows, uuidText o.eventID = some o.eventID

instance (db : DB) : Decidable db.EventIDsTyped := inferInstanceAs (Decidable (∀ _ ∈ _, _))

-- ============================================================================
-- What happens to a row
-- ============================================================================

/-- What the transactions of a relay do to a row. -/
inductive OutboxEvent.Step (now : Int) (o : OutboxEvent) : OutboxEvent → Prop where
  | claimed (owner : String) (expiry : Int) (waits : o.waits now = true) :
      Step now o (o.claim owner expiry)
  | published (claimed : o.publishState = .claimed) : Step now o (o.publish now)
  | released (retryAt : Int) (error : String) (claimed : o.publishState = .claimed) :
      Step now o (o.release retryAt error)
  | quarantined (reason : String) (claimed : o.publishState = .claimed) :
      Step now o (o.quarantine reason)

/-- The columns that the relays leave alone. -/
structure OutboxEvent.SameEvent (o o' : OutboxEvent) : Prop where
  eventID : o'.eventID = o.eventID
  workflowID : o'.workflowID = o.workflowID
  aggregateRevision : o'.aggregateRevision = o.aggregateRevision
  eventType : o'.eventType = o.eventType
  topic : o'.topic = o.topic
  payload : o'.payload = o.payload
  schemaVersion : o'.schemaVersion = o.schemaVersion
  createdAt : o'.createdAt = o.createdAt

theorem OutboxEvent.SameEvent.refl (o : OutboxEvent) : o.SameEvent o :=
  ⟨rfl, rfl, rfl, rfl, rfl, rfl, rfl, rfl⟩

theorem OutboxEvent.SameEvent.trans {a b c : OutboxEvent} (h : a.SameEvent b) (h' : b.SameEvent c) :
    a.SameEvent c :=
  ⟨h'.eventID.trans h.eventID, h'.workflowID.trans h.workflowID,
    h'.aggregateRevision.trans h.aggregateRevision, h'.eventType.trans h.eventType,
    h'.topic.trans h.topic, h'.payload.trans h.payload, h'.schemaVersion.trans h.schemaVersion,
    h'.createdAt.trans h.createdAt⟩

theorem OutboxEvent.Step.sameEvent {now : Int} {o o' : OutboxEvent} (h : o.Step now o') :
    o.SameEvent o' := by
  cases h <;> exact ⟨rfl, rfl, rfl, rfl, rfl, rfl, rfl, rfl⟩

theorem OutboxEvent.Step.attempts {now : Int} {o o' : OutboxEvent} (h : o.Step now o') :
    o.relayAttempts ≤ o'.relayAttempts := by
  cases h with
  | claimed owner expiry _ => exact Int.le_add_of_nonneg_right (by decide)
  | published _ | released _ _ _ | quarantined _ _ => exact Int.le_refl _

/-- No transaction moves a published or a quarantined row. -/
theorem OutboxEvent.Step.live {now : Int} {o o' : OutboxEvent} (h : o.Step now o') :
    o.publishState = .pending ∨ o.publishState = .claimed := by
  cases h with
  | claimed owner expiry hwaits =>
      simp only [OutboxEvent.waits, Bool.or_eq_true, Bool.and_eq_true, decide_eq_true_eq] at hwaits
      exact hwaits.imp id And.left
  | published h | released _ _ h | quarantined _ h => exact .inr h

theorem mem_outboxCandidates {input : ClaimOutboxInput} {locked : String → Bool} {db : DB}
    {o : OutboxEvent} (h : o ∈ outboxCandidates input locked db) :
    db.outbox.get o.eventID = some o ∧ o.waits db.now = true := by
  have hmem := (List.mem_insertionSort outboxBefore).mp (List.mem_of_mem_take h)
  obtain ⟨hrow, hp⟩ := Table.mem_select.mp hmem
  simp only [OutboxEvent.claimable, Bool.and_eq_true] at hp
  exact ⟨Table.get_of_mem hrow, hp.1.1.2⟩

theorem nodup_outboxCandidates (input : ClaimOutboxInput) (locked : String → Bool) (db : DB) :
    ((outboxCandidates input locked db).map OutboxEvent.eventID).Nodup := by
  let p : OutboxEvent → Bool := fun o => o.claimable db input.partitionID && !locked o.eventID
  have hperm : ((db.outbox.select p).insertionSort outboxBefore).Perm (db.outbox.select p) :=
    List.perm_insertionSort _ _
  have hall : (((db.outbox.select p).insertionSort outboxBefore).map OutboxEvent.eventID).Nodup := by
    rw [(hperm.map OutboxEvent.eventID).nodup_iff]
    exact db.outbox.nodup.sublist (List.filter_sublist.map _)
  exact hall.sublist ((List.take_sublist _ _).map _)

/-- The rows of a claim: each one waited, is handed out as it is stored now, and no other row
    changed. -/
structure Claimed (db : DB) (owner : String) (expiry : Int) (events : List OutboxEvent)
    (outbox : Table OutboxEvent.eventID) : Prop where
  nodup : (events.map OutboxEvent.eventID).Nodup
  chosen : ∀ e ∈ events, ∃ o, db.outbox.get e.eventID = some o ∧ o.waits db.now = true ∧
    e = o.claim owner expiry ∧ outbox.get e.eventID = some e
  other : ∀ id, (∀ e ∈ events, e.eventID ≠ id) → outbox.get id = db.outbox.get id

theorem claimOutbox_eq_ok {input : ClaimOutboxInput} {locked : String → Bool} {db db' : DB}
    {events : List OutboxEvent} (h : claimOutbox input locked db = .ok (events, db')) :
    ∃ owner outbox, uuidText input.ownerID = some owner ∧
      Claimed db owner (db.now + input.lease) events outbox ∧ db' = { db with outbox := outbox } := by
  simp only [claimOutbox, bind_eq_ok, rejectIf_eq_ok, getOr_eq_ok, exists_const, pure_eq_ok] at h
  obtain ⟨-, -, owner, howner, heq⟩ := h
  cases heq
  refine ⟨owner, _, howner, ⟨?_, ?_, ?_⟩, rfl⟩
  · rw [List.map_map]
    exact nodup_outboxCandidates input locked db
  · intro e he
    obtain ⟨o, ho, rfl⟩ := List.mem_map.mp he
    obtain ⟨hget, hwaits⟩ := mem_outboxCandidates ho
    refine ⟨o, hget, hwaits, rfl, ?_⟩
    have hchosen : (outboxCandidates input locked db).any (fun c => c.eventID = o.eventID) = true :=
      List.any_eq_true.mpr ⟨o, ho, by simp⟩
    refine (Table.get_update _ _ _ _ _).trans ?_
    rw [show (o.claim owner (db.now + input.lease)).eventID = o.eventID from rfl,
      hget, Option.map_some, if_pos hchosen]
  · intro id hother
    refine (Table.get_update _ _ _ _ _).trans ?_
    cases hget : db.outbox.get id with
    | none => rfl
    | some o =>
        have hno : (outboxCandidates input locked db).any (fun c => c.eventID = o.eventID) = false := by
          rw [List.any_eq_false]
          intro c hc heq
          refine hother _ (List.mem_map_of_mem hc) ?_
          rw [← Table.key_of_get hget]
          exact of_decide_eq_true heq
        rw [Option.map_some, if_neg (by rw [hno]; exact Bool.false_ne_true)]

/-- The tables a relay writes, with the contents they have in `db'`. -/
def DB.relayFrame (db db' : DB) : DB :=
  { db with
    outbox := db'.outbox
    transport := { db.transport with publications := db'.transport.publications }
    reconciliation := db'.reconciliation }

/-- The row `o` of the event became `o'`; nothing else of the outbox changed. -/
structure Rewrites (db db' : DB) (id : String) (o o' : OutboxEvent) : Prop where
  row : db.outbox.get id = some o
  outbox : ∀ k, db'.outbox.get k = if k = id then some o' else db.outbox.get k
  obligations : ∀ k, k.kind ≠ .poisonRecord → db'.isOpen k → db.isOpen k
  frame : db' = db.relayFrame db'

theorem Rewrites.absent {db db' : DB} {k id : String} {x x' : OutboxEvent}
    (h : Rewrites db db' k x x') (hid : db.outbox.get id = none) : db'.outbox.get id = none := by
  rw [h.outbox]
  split
  · rename_i heq
    rw [heq, h.row] at hid
    cases hid
  · exact hid

theorem finalizeOutboxPublication_eq_ok {input : FinalizeInput} {db db' : DB} {u : Unit}
    (h : finalizeOutboxPublication input db = .ok (u, db')) :
    ∃ id o, uuidText input.eventID = some id ∧ db.outbox.get id = some o ∧
      (o.publishState = .published ∧ db' = db ∨
        o.heldBy input.ownerID input.relayAttempt ∧ input.acknowledged = true ∧
          ¬ db'.isOpen ⟨.pendingOutbox, "outbox/" ++ input.eventID⟩ ∧
          Rewrites db db' id o (o.publish db.now) ∨
        o.heldBy input.ownerID input.relayAttempt ∧ input.acknowledged = false ∧
          ∃ retryAt, Rewrites db db' id o (o.release retryAt input.publishErr)) := by
  simp only [finalizeOutboxPublication, bind_eq_ok, rejectIf_eq_ok, getOr_eq_ok, exists_const] at h
  obtain ⟨-, id, hid, o, ho, h⟩ := h
  refine ⟨id, o, hid, ho, ?_⟩
  split at h
  · rename_i hpublished
    cases h
    exact .inl ⟨hpublished, rfl⟩
  · simp only [bind_eq_ok, rejectIf_eq_ok, exists_const, not_not] at h
    obtain ⟨hheld, h⟩ := h
    split at h
    · rename_i hack
      cases h
      refine .inr (.inl ⟨hheld, hack, ?_, ho,
        Table.get_modify_of_get ho (·.publish db.now) (fun _ => rfl), fun k _ hopen => ?_, rfl⟩)
      · exact not_isOpen_of_update (fun k => Table.get_update _ _ _ (by intro _; rfl) k)
          (fun r hr => by cases hr) (fun r hr hopen => by simp [hr, hopen])
      · exact isOpen_of_update (fun k => Table.get_update _ _ _ (by intro _; rfl) k)
          (fun r hr => by cases hr) hopen
    · rename_i hack
      cases h
      exact .inr (.inr ⟨hheld, by simpa using hack, _, ho,
        Table.get_modify_of_get ho (·.release _ input.publishErr) (fun _ => rfl),
        fun _ _ hopen => hopen, rfl⟩)

theorem DB.openPoisonRecord_eq (db : DB) (reference : String) (workflowID : Option String)
    (partitionID : Option Int) (detail : Jsonb) : ∃ reconciliation,
      db.openPoisonRecord reference workflowID partitionID detail =
        { db with reconciliation := reconciliation } := by
  unfold DB.openPoisonRecord
  dsimp only
  split <;> exact ⟨_, rfl⟩

theorem quarantineOutbox_eq_ok {env : Env} {input : QuarantineOutboxInput} {db db' : DB} {u : Unit}
    (h : quarantineOutbox env input db = .ok (u, db')) :
    ∃ id o, uuidText input.eventID = some id ∧ o.heldBy input.ownerID input.relayAttempt ∧
      Rewrites db db' id o (o.quarantine input.reason) := by
  simp only [quarantineOutbox, bind_eq_ok, rejectIf_eq_ok, getOr_eq_ok, exists_const, pure_eq_ok,
    not_not] at h
  obtain ⟨-, id, hid, o, ho, w, hw, hheld, detail, hdetail, heq⟩ := h
  obtain ⟨reconciliation, hopen⟩ := DB.openPoisonRecord_eq
    { db.recordPublication ⟨⟨id, input.relayAttempt⟩, input.ownerID, false, some input.reason⟩ false
      with outbox := db.outbox.modify id (·.quarantine input.reason) (fun _ => rfl) }
    ("outbox/" ++ input.eventID) (some o.workflowID) (some w.partitionID) detail
  have hsnd : DB.openPoisonRecord _ _ _ _ _ = db' := congrArg Prod.snd heq
  have hkept : ∀ k, k.kind ≠ .poisonRecord → db'.isOpen k → db.isOpen k := by
    intro k hkind hisOpen
    rw [← hsnd] at hisOpen
    have hbefore := DB.openPoisonRecord_isOpen hkind hisOpen
    exact hbefore
  have hdb := hsnd.symm.trans hopen
  subst hdb
  exact ⟨id, o, hid, hheld, ho,
    Table.get_modify_of_get ho (·.quarantine input.reason) (fun _ => rfl), hkept, rfl⟩

end DurableEngine.State
