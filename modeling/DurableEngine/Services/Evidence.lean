/-
  DurableEngine.Services.Evidence

  What the checker says of the transport.  Of the trace of any state the
  deployment reaches, `checkTransport` can report four things only: a history
  row without its event, two events at one position of a consumer, a published
  event whose obligation is open, and a quarantined event whose obligation is
  under another spelling of its id.
-/

import DurableEngine.Invariants.Exports
import DurableEngine.Services.Announced
import DurableEngine.Services.Awaiting
import DurableEngine.Services.Obligated

namespace DurableEngine.Services

open Lib State Invariants

-- ============================================================================
-- What a run keeps
-- ============================================================================

/-- Inbox rows are of messages with a consumer and a position. -/
def Positioned (db : DB) : Prop :=
  ∀ row ∈ db.transport.inbox.rows, row.key.consumerID ≠ "" ∧
    ∃ partition offset, row.partition = some partition ∧ row.offset = some offset ∧ 0 ≤ partition ∧ 0 ≤ offset

/-- What a run keeps of the tables that `Load` reads for the transport. -/
structure Evident (db : DB) : Prop where
  history : HistoryComplete db
  named : ∀ id wf, db.workflows.get id = some wf → id ≠ ""
  announced : ∀ id wf, db.workflows.get id = some wf → ∃ k o, db.outbox.get k = some o ∧ o.workflowID = id
  placed : Placed db
  wakes : Wakes db
  listed : ∃ trace, Listed trace db
  positioned : Positioned db

section Steps

variable {env : Env} {db db' : DB}

theorem outbox_kept_of_commit {α : Type} {op : Op α} {amb : Ambient} {a : α}
    (h : op.run env amb db = .ok (a, db')) {id : String} {o : OutboxEvent} (ho : db.outbox.get id = some o) :
    ∃ o', db'.outbox.get id = some o' ∧ o.SameEvent o' :=
  ⟨o, outbox_get_of_commit h ho, .refl o⟩

theorem Evident.commit {α : Type} {op : Op α} {amb : Ambient} {a : α} (h : Evident db)
    (hrun : op.run env amb db = .ok (a, db')) : Evident db' := by
  have hkept := consumersKept_of_commit hrun
  -- a workflow is an old one, or was submitted with its first event
  have horigin : ∀ id wf', db'.workflows.get id = some wf' → id ≠ "" ∧
      ∃ k o, db'.outbox.get k = some o ∧ o.workflowID = id := by
    intro id wf' hwf'
    obtain ⟨wf, hold, -⟩ | ⟨input, hop, rfl, hnone⟩ := (Op.run_commit hrun).change.workflow_origin hwf'
    · obtain ⟨k, o, ho, hworkflow⟩ := h.announced id wf hold
      exact ⟨h.named id wf hold, k, o, outbox_get_of_commit hrun ho, hworkflow⟩
    · cases hop
      obtain ⟨-, rfl, -⟩ | ⟨-, hid, -, -, -, n, event, hsubmits⟩ := createWorkflow_eq_ok hrun
      · rw [hnone] at hwf'
        cases hwf'
      · exact ⟨hid, event.eventID, event, Table.get_insert_self hsubmits.outbox, hsubmits.announces.1⟩
  obtain ⟨trace, hlisted⟩ := h.listed
  exact {
    history := h.history.step (.commit amb op a hrun)
    named := fun id wf' hwf' => (horigin id wf' hwf').1
    announced := fun id wf' hwf' => (horigin id wf' hwf').2
    placed := h.placed.commit hrun
    wakes := h.wakes.of_kept hkept (fun _ _ ho => outbox_kept_of_commit hrun ho)
    listed := ⟨trace, hlisted.of_kept hkept (fun _ o ho => ⟨o, outbox_get_of_commit hrun ho, rfl⟩)⟩
    positioned := fun row hrow => h.positioned row (hkept.inbox ▸ hrow) }

/-- Steps that leave workflows, history and consumers, and keep the events. -/
theorem Evident.kept (h : Evident db) (hevents : EventsKept db db') (hconsumers : ConsumersKept db db')
    (hdefinitions : db'.definitions = db.definitions) : Evident db' := by
  obtain ⟨trace, hlisted⟩ := h.listed
  refine ⟨historyComplete_congr h.history hevents.workflows hevents.history, fun id wf hwf => ?_,
    fun id wf hwf => ?_, fun id wf hwf => ?_, h.wakes.of_kept hconsumers hevents.kept,
    ⟨trace, hlisted.of_kept hconsumers (fun id o ho => ?_)⟩, fun row hrow => h.positioned row (hconsumers.inbox ▸ hrow)⟩
  · exact h.named id wf (hevents.workflows ▸ hwf)
  · obtain ⟨k, o, ho, hworkflow⟩ := h.announced id wf (hevents.workflows ▸ hwf)
    obtain ⟨o', ho', hsame⟩ := hevents.kept k o ho
    exact ⟨k, o', ho', hsame.workflowID.trans hworkflow⟩
  · rw [hdefinitions]
    exact h.placed id wf (hevents.workflows ▸ hwf)
  · obtain ⟨o', ho', hsame⟩ := hevents.kept id o ho
    exact ⟨o', ho', hsame.topic⟩

theorem Positioned.consumer {events : List ConsumerEvent} (h : Positioned db)
    (hs : Consumers.Step env db events db') : Positioned db' := by
  cases hs with
  | ensure k next _ hok =>
      obtain ⟨rfl, -⟩ | ⟨hframe, -, -⟩ := ensureConsumerOffset_eq_ok hok
      · exact h
      · rw [Positioned, hframe]
        exact h
  | poison m reason r _ hok =>
      rw [Positioned, (quarantineMessage_eq_ok hok).inbox]
      exact h
  | record wakeupID m r _ hok =>
      obtain ⟨hinbox, -⟩ | ⟨id, o, -, -, hins, -⟩ := wakening_of_recordInbox hok
      · rw [Positioned, hinbox]
        exact h
      · simp only [recordInbox, bind_eq_ok, rejectIf_eq_ok, exists_const, not_or, not_lt] at hok
        obtain ⟨⟨hconsumer, -, -, hpartition, hoffset, -⟩, -⟩ := hok
        intro row hrow
        rw [(Table.insert?_eq_some_iff.mp hins).2] at hrow
        obtain hold | hnew := List.mem_append.mp hrow
        · exact h row hold
        · rw [List.mem_singleton.mp hnew]
          exact ⟨hconsumer, m.partition, m.offset, rfl, rfl, hpartition, hoffset⟩

theorem Evident.consumer {events : List ConsumerEvent} (h : Evident db)
    (hs : Consumers.Step env db events db') : Evident db' := by
  obtain ⟨trace, hlisted⟩ := h.listed
  have hframe := hs.frame
  refine ⟨historyComplete_congr h.history (by rw [hframe]; rfl) (by rw [hframe]; rfl), ?_, ?_, ?_,
    h.wakes.consumer h.placed hs, ⟨_, hlisted.consumer hs⟩, h.positioned.consumer hs⟩ <;> rw [hframe]
  · exact h.named
  · exact h.announced
  · exact h.placed

theorem Evident.step {w w' : World} {events : List Event} (h : Evident w.db)
    (hs : World.Step env w events w') : Evident w'.db := by
  cases hs with
  | tick _ d => exact h.kept (.of_eq rfl rfl rfl) ⟨rfl, rfl, rfl, rfl⟩ rfl
  | commit _ amb op a db' hrun _ => exact h.commit hrun
  | relay _ events s' hs =>
      have hevents := hs.eventsKept
      have hframe := hs.frame
      refine h.kept hevents ⟨?_, ?_, ?_, ?_⟩ ?_ <;> rw [hframe] <;> rfl
  | consumer _ events db' hs => exact h.consumer hs
  | effect _ events s' hs =>
      rw [hs.frame]
      exact h.kept (.of_eq rfl rfl rfl) ⟨rfl, rfl, rfl, rfl⟩ rfl

theorem Evident.reconcile {α : Type} {op : ReconcileOp α} {amb : Ambient} {oldestAge : Int} {a : α}
    (h : Evident db) (hok : op.run env amb oldestAge db = .ok (a, db')) : Evident db' := by
  cases ReconcileOp.run_effect hok with
  | timeout input r hrun => exact h.commit hrun
  | upsert input item hrun =>
      obtain ⟨_, _, -, rfl⟩ | ⟨_, _, -, -, rfl⟩ := upsertReconciliationItem_eq_ok hrun <;>
        exact h.kept (.of_eq rfl rfl rfl) ⟨rfl, rfl, rfl, rfl⟩ rfl
  | quiet _ frame _ =>
      rw [frame]
      exact h.kept (.of_eq rfl rfl rfl) ⟨rfl, rfl, rfl, rfl⟩ rfl

end Steps

namespace Deployment

variable {env : Env} {s s' : Deployment} {calls : List Reconciled}

theorem Run.evident {now : Int} (h : Run env (start now) calls s) : Evident s.db := by
  refine h.keeps (I := fun s => Evident s.db) ?_ (fun calls s s' hs hstep => ?_)
  · exact ⟨⟨fun _ _ hwf => (nomatch hwf), fun _ _ => rfl⟩, fun _ _ hwf => (nomatch hwf), fun _ _ hwf => (nomatch hwf),
      fun _ _ hwf => (nomatch hwf), ⟨fun _ hrow => (nomatch hrow), fun _ hrow => (nomatch hrow),
      fun _ hwake => (nomatch hwake)⟩, ⟨[], rfl, rfl, List.nodup_nil, fun _ hwake => (nomatch hwake)⟩,
      fun _ hrow => (nomatch hrow)⟩
  · cases hstep with
    | world _ events w' hstep => exact hs.step hstep
    | commit _ before after amb oldestAge op k _ a db' hrun _ => exact hs.reconcile hrun
    | begin | refuse | finish => exact hs

end Deployment

-- ============================================================================
-- The trace
-- ============================================================================

section Traces

variable {env : Env} {ids : List String} {db : DB}

theorem mem_submissionIDs {id : String} : id ∈ (loadSubmissions env ids db).map SubmissionRecord.workflowID ↔
    id ∈ ids ∧ ∃ wf, db.workflows.get id = some wf := by
  simp only [loadSubmissions, List.map_map, List.mem_map, List.mem_insertionSort, Table.mem_select,
    Table.mem_rows_iff, decide_eq_true_eq, Function.comp_apply]
  constructor
  · rintro ⟨wf, ⟨hwf, hid⟩, rfl⟩
    exact ⟨hid, wf, hwf⟩
  · rintro ⟨hid, wf, hwf⟩
    have hkey : wf.workflowID = id := Table.key_of_get hwf
    exact ⟨wf, ⟨by rw [hkey]; exact hwf, by rw [hkey]; exact hid⟩, hkey⟩

theorem mem_loadOutbox {e : OutboxRecord} : e ∈ loadOutbox ids db ↔
    ∃ o, db.outbox.get o.eventID = some o ∧ o.workflowID ∈ ids ∧ outboxRecord o = e := by
  simp [loadOutbox, List.mem_insertionSort, Table.mem_select, Table.mem_rows_iff, and_assoc]

/-- The rows that a query selects and sorts keep a key apart. -/
theorem nodup_map_sorted {κ ρ : Type} {key : ρ → κ} {rows : List ρ} (r : ρ → ρ → Prop) [DecidableRel r]
    (p : ρ → Bool) (h : (rows.map key).Nodup) : (((rows.filter p).insertionSort r).map key).Nodup :=
  (((List.perm_insertionSort r _).map key).nodup_iff).mpr (h.sublist (List.filter_sublist.map key))

theorem nodup_loadOutbox : ((loadOutbox ids db).map OutboxRecord.eventID).Nodup := by
  rw [loadOutbox, List.map_map]
  exact nodup_map_sorted _ _ db.outbox.nodup

theorem eventOf_loadOutbox {id : String} {e : OutboxRecord} : eventOf (loadOutbox ids db) id = some e ↔
    ∃ o, db.outbox.get id = some o ∧ o.workflowID ∈ ids ∧ outboxRecord o = e := by
  rw [eventOf_eq_some nodup_loadOutbox, mem_loadOutbox]
  constructor
  · rintro ⟨⟨o, ho, hid, rfl⟩, rfl⟩
    exact ⟨o, ho, hid, rfl⟩
  · rintro ⟨o, ho, hid, rfl⟩
    have hkey : o.eventID = id := Table.key_of_get ho
    exact ⟨⟨o, by rw [hkey]; exact ho, hid, rfl⟩, hkey⟩

/-- The event is one of a workflow of `ids`. -/
def Selected (ids : List String) (db : DB) (eventID : String) : Prop :=
  ∃ o, db.outbox.get eventID = some o ∧ o.workflowID ∈ ids

theorem mem_loadInbox {m : InboxRecord} : m ∈ loadInbox env ids db ↔
    ∃ row, db.transport.inbox.get row.key = some row ∧ Selected ids db row.key.eventID ∧ inboxRecord row = m := by
  simp [loadInbox, Selected, List.mem_insertionSort, Table.mem_select, Table.mem_rows_iff, Option.any_eq_true, and_assoc]

theorem mem_loadWakeups {w : WakeupRecord} : w ∈ loadWakeups ids db ↔
    ∃ wake ∈ db.wakeups.rows, wake.workflowID ∈ ids ∧
      (⟨wake.workflowID, wake.eventID, wake.partitionID, WakeupState.text wake.state⟩ : WakeupRecord) = w := by
  simp [loadWakeups, List.mem_insertionSort, Table.mem_select, and_assoc]

theorem mem_loadReconciliation {r : ReconciliationRecord} : r ∈ loadReconciliation ids db ↔
    ∃ item, db.reconciliation.get item.key = some item ∧ (∀ id, item.workflowID = some id → id ∈ ids) ∧
      (⟨item.workflowID.getD "", ReconciliationKind.text item.key.kind, item.key.reference,
        ReconciliationStatus.text item.status⟩ : ReconciliationRecord) = r := by
  simp [loadReconciliation, Table.mem_select, Table.mem_rows_iff, Option.all_eq_true, and_assoc]

-- ============================================================================
-- Rules that no row breaks
-- ============================================================================

theorem ne_empty_of_eventTopicFor {eventType topic : String} (h : eventTopicFor eventType = some topic) :
    eventType ≠ "" ∧ topic ≠ "" ∧ '\x00' ∉ topic.toList := by
  have hmem := List.lookup_eq_some_iff.mp h
  obtain ⟨before, after, heq, -⟩ := hmem
  have hall : ∀ p ∈ eventDefinitions, p.1 ≠ "" ∧ p.2 ≠ "" ∧ '\x00' ∉ p.2.toList := by decide
  exact hall (eventType, topic) (by rw [heq]; simp)

theorem ne_empty_of_uuidText {id : String} (h : uuidText id = some id) : id ≠ "" := by
  rintro rfl
  have hnone : uuidText "" = none := by decide
  rw [hnone] at h
  cases h

end Traces

/-- What the rules of the checker rest on. -/
structure Checkable (db : DB) : Prop extends Evident db, Tracked db where
  typed : db.EventIDsTyped
  registered : ∀ id o, db.outbox.get id = some o → eventTopicFor o.eventType = some o.topic
  reached : ∀ id o, db.outbox.get id = some o → 1 ≤ o.aggregateRevision ∧
    ∃ wf, db.workflows.get o.workflowID = some wf

section Rules

variable {env : Env} {ids : List String} {db : DB}

theorem Checkable.event (h : Checkable db) {id : String} {o : OutboxEvent} (ho : db.outbox.get id = some o) :
    uuidText id = some id ∧ id ≠ "" := by
  have hself := h.typed o (Table.mem_of_get ho)
  rw [Table.key_of_get ho] at hself
  exact ⟨hself, ne_empty_of_uuidText hself⟩

theorem outboxRecord_sound (h : Checkable db) {e : OutboxRecord} (he : e ∈ loadOutbox ids db) :
    e.Sound ((loadSubmissions env ids db).map SubmissionRecord.workflowID) := by
  obtain ⟨o, ho, hid, rfl⟩ := mem_loadOutbox.mp he
  have htopic := h.registered _ o ho
  obtain ⟨hrevision, wf, hwf⟩ := h.reached _ o ho
  obtain ⟨htype, hnonempty, -⟩ := ne_empty_of_eventTopicFor htopic
  refine ⟨?_, htopic, mem_submissionIDs.mpr ⟨hid, wf, hwf⟩, ?_⟩
  · rintro (hempty | hempty | hle | hempty | hempty | hinvalid)
    · exact (h.event ho).2 hempty
    · exact h.named _ wf hwf hempty
    · exact absurd hrevision (Int.not_le.mpr (Int.lt_add_one_of_le hle))
    · exact htype hempty
    · exact hnonempty hempty
    · cases hinvalid
  · cases hstate : o.publishState <;> simp [outboxRecord, hstate, PublishState.text]

theorem inboxRecord_sound (h : Checkable db) {m : InboxRecord} (hm : m ∈ loadInbox env ids db) :
    m.Sound (loadOutbox ids db) := by
  obtain ⟨row, hrow, ⟨o, ho, hid⟩, rfl⟩ := mem_loadInbox.mp hm
  obtain ⟨o', ho', htopic⟩ := h.wakes.inbox row (Table.mem_of_get hrow)
  rw [ho, Option.some.injEq] at ho'
  subst ho'
  obtain ⟨hconsumer, partition, offset, hpartition, hoffset, hp, hoff⟩ := h.positioned row (Table.mem_of_get hrow)
  obtain ⟨-, hnonempty, -⟩ := ne_empty_of_eventTopicFor (h.registered _ o ho)
  refine ⟨?_, ⟨outboxRecord o, eventOf_loadOutbox.mpr ⟨o, ho, hid, rfl⟩, ?_⟩, ?_⟩
  · rintro (hempty | hempty | hempty | hlt | hlt)
    · exact hconsumer hempty
    · exact (h.event ho).2 hempty
    · exact hnonempty (by simpa [inboxRecord, htopic] using hempty)
    · exact absurd hp (Int.not_le.mpr (by simpa [inboxRecord, hpartition] using hlt))
    · exact absurd hoff (Int.not_le.mpr (by simpa [inboxRecord, hoffset] using hlt))
  · simp [inboxRecord, outboxRecord, htopic]
  · cases hdisposition : row.disposition <;> simp [inboxRecord, hdisposition, InboxDisposition.text]

theorem partitionOf_bounds (workflowID : String) : 0 ≤ partitionOf workflowID ∧ partitionOf workflowID < 16 := by
  unfold partitionOf
  dsimp only
  omega

theorem wakeupRecord_sound (h : Checkable db) {w : WakeupRecord} (hw : w ∈ loadWakeups ids db) :
    w.Sound (loadOutbox ids db) := by
  obtain ⟨wake, hwake, hid, rfl⟩ := mem_loadWakeups.mp hw
  obtain ⟨-, o, hwakes⟩ := h.wakes.origin wake hwake
  obtain ⟨-, wf, hwf⟩ := h.reached _ o hwakes.stored
  have hpartition := partitionOf_bounds wake.workflowID
  rw [← hwakes.partition] at hpartition
  refine ⟨?_, ⟨outboxRecord o, eventOf_loadOutbox.mpr ⟨o, hwakes.stored, hwakes.workflow ▸ hid, rfl⟩⟩, ?_⟩
  · rintro (hempty | hempty | hlt | hle)
    · exact h.named _ wf hwf (hwakes.workflow ▸ hempty)
    · exact (h.event hwakes.stored).2 hempty
    · exact absurd hpartition.1 (Int.not_le.mpr hlt)
    · exact absurd hpartition.2 (Int.not_lt.mpr hle)
  · cases wake.state <;> simp [WakeupState.text]

theorem reconciliationRecord_sound (h : Checkable db) {r : ReconciliationRecord}
    (hr : r ∈ loadReconciliation ids db) :
    r.Sound ((loadSubmissions env ids db).map SubmissionRecord.workflowID) (loadOutbox ids db) := by
  obtain ⟨item, hitem, hselected, rfl⟩ := mem_loadReconciliation.mp hr
  have hgrounded := h.grounded _ item hitem
  refine ⟨hgrounded.reference, ?_, ?_, ?_, fun hkind id hid => ?_⟩
  · cases hworkflow : item.workflowID with
    | none =>
        obtain ⟨hkind, rest, hreference⟩ := hgrounded.global hworkflow
        have hrest : afterPrefix? "transport/" ("transport/" ++ rest) = some rest := afterPrefix?_eq_some.mpr rfl
        simp [ReconciliationRecord.globalPoison, hkind, ReconciliationKind.text, hreference, hrest]
    | some id =>
        obtain ⟨wf, hwf⟩ := hgrounded.workflow id hworkflow
        rw [if_neg (by simpa using h.named id wf hwf)]
        exact mem_submissionIDs.mpr ⟨hselected id hworkflow, wf, hwf⟩
  · cases item.key.kind <;> simp [ReconciliationKind.text]
  · cases item.status <;> simp [ReconciliationStatus.text]
  · have hpending : item.key.kind = .pendingOutbox := by
      cases hk : item.key.kind <;> simp [hk, ReconciliationKind.text] at hkind ⊢
    obtain ⟨o, ho, hworkflow⟩ := hgrounded.pending hpending id hid
    exact ⟨outboxRecord o, eventOf_loadOutbox.mpr ⟨o, ho, hselected _ hworkflow, rfl⟩⟩

end Rules

-- ============================================================================
-- Rules that rows can break
-- ============================================================================

/-- `"quarantined outbox event lacks a poison reconciliation item: "`. -/
def lacksPoison (eventID : String) : String :=
  "quarantined outbox event lacks a poison reconciliation item: " ++ eventID

/-- The two rows stand at one position of one consumer. -/
def SamePosition (row row' : InboxRow) : Prop :=
  row.key.consumerID = row'.key.consumerID ∧ row.topic = row'.topic ∧ row.partition = row'.partition ∧
    row.offset = row'.offset

/-- What the checker can hold against the transport of the workflows `ids`. -/
inductive Complaint (ids : List String) (db : DB) : String → Prop where
  | unannounced (row : TransitionRecord) (stored : db.history.get row.key = some row)
      (selected : row.key.workflowID ∈ ids) (reason : requiresOutbox row.reason = true)
      (silent : ∀ id o, db.outbox.get id = some o → o.workflowID = row.key.workflowID →
        o.aggregateRevision ≠ row.key.revision) : Complaint ids db (lacksObligation (historyRecord row))
  | clash (row row' : InboxRow) (stored : db.transport.inbox.get row.key = some row)
      (stored' : db.transport.inbox.get row'.key = some row') (selected : Selected ids db row.key.eventID)
      (selected' : Selected ids db row'.key.eventID) (position : SamePosition row row')
      (differ : row.key.eventID ≠ row'.key.eventID) : Complaint ids db (offsetClash (inboxRecord row))
  | stale (id : String) (o : OutboxEvent) (stored : db.outbox.get id = some o) (selected : o.workflowID ∈ ids)
      (published : o.publishState = .published) (opened : db.isOpen ⟨.pendingOutbox, "outbox/" ++ id⟩) :
      Complaint ids db (staleObligation id)
  | unrecorded (id : String) (o : OutboxEvent) (stored : db.outbox.get id = some o) (selected : o.workflowID ∈ ids)
      (quarantined : o.publishState = .quarantined)
      (missing : db.reconciliation.get ⟨.poisonRecord, "outbox/" ++ id⟩ = none) : Complaint ids db (lacksPoison id)

section Complaints

variable {env : Env} {ids : List String} {db : DB} {v : String}

theorem unannounced_iff {row : TransitionRecord} (hid : row.key.workflowID ∈ ids) :
    unannounced (loadOutbox ids db) (historyRecord row) = true ↔ requiresOutbox row.reason = true ∧
      ∀ id o, db.outbox.get id = some o → o.workflowID = row.key.workflowID →
        o.aggregateRevision ≠ row.key.revision := by
  rw [unannounced, Bool.and_eq_true, Bool.not_eq_true', List.any_eq_false]
  refine and_congr_right (fun _ => ?_)
  constructor
  · intro hnone id o ho hworkflow hrevision
    have hkey : o.eventID = id := Table.key_of_get ho
    refine hnone (outboxRecord o) (mem_loadOutbox.mpr ⟨o, by rw [hkey]; exact ho, hworkflow ▸ hid, rfl⟩) ?_
    simp [outboxRecord, historyRecord, hworkflow, hrevision]
  · intro hsilent e he hmatch
    obtain ⟨o, ho, -, rfl⟩ := mem_loadOutbox.mp he
    simp only [outboxRecord, historyRecord, Bool.and_eq_true] at hmatch
    exact hsilent _ o ho (of_decide_eq_true hmatch.1) (of_decide_eq_true hmatch.2)

theorem mem_unannounced : v ∈ ((loadHistory env ids db).filter (unannounced (loadOutbox ids db))).map lacksObligation ↔
    ∃ row, db.history.get row.key = some row ∧ row.key.workflowID ∈ ids ∧ requiresOutbox row.reason = true ∧
      (∀ id o, db.outbox.get id = some o → o.workflowID = row.key.workflowID →
        o.aggregateRevision ≠ row.key.revision) ∧ v = lacksObligation (historyRecord row) := by
  simp only [List.mem_map, List.mem_filter]
  constructor
  · rintro ⟨r, ⟨hr, hlacks⟩, rfl⟩
    obtain ⟨row, hrow, hid, rfl⟩ := mem_loadHistory.mp hr
    obtain ⟨hreason, hsilent⟩ := (unannounced_iff hid).mp hlacks
    exact ⟨row, hrow, hid, hreason, hsilent, rfl⟩
  · rintro ⟨row, hrow, hid, hreason, hsilent, rfl⟩
    exact ⟨historyRecord row, ⟨mem_loadHistory.mpr ⟨row, hrow, hid, rfl⟩, (unannounced_iff hid).mpr ⟨hreason, hsilent⟩⟩,
      rfl⟩

/-- The key of a position tells positions apart: the topic and the numbers hold no separator. -/
theorem offsetKey_inj {m n : InboxRecord} (htopic : '\x00' ∉ m.topic.toList) (htopic' : '\x00' ∉ n.topic.toList)
    (hp : 0 ≤ m.partition) (hp' : 0 ≤ n.partition) (ho : 0 ≤ m.offset) (ho' : 0 ≤ n.offset)
    (h : m.offsetKey = n.offsetKey) :
    m.consumerID = n.consumerID ∧ m.topic = n.topic ∧ m.partition = n.partition ∧ m.offset = n.offset := by
  have hdigit : ('\x00').isDigit = false := by decide
  obtain ⟨h, hoffset⟩ := separated_inj_last (not_mem_toString_of_nonneg ho hdigit)
    (not_mem_toString_of_nonneg ho' hdigit) h
  obtain ⟨h, hpartition⟩ := separated_inj_last (not_mem_toString_of_nonneg hp hdigit)
    (not_mem_toString_of_nonneg hp' hdigit) h
  obtain ⟨hconsumer, hsame⟩ := separated_inj_last htopic htopic' h
  exact ⟨hconsumer, hsame, toString_inj_of_nonneg hp hp' hpartition, toString_inj_of_nonneg ho ho' hoffset⟩

/-- What an inbox row of a reachable state says of its position. -/
theorem Checkable.position (h : Checkable db) {row : InboxRow} (hrow : db.transport.inbox.get row.key = some row) :
    ∃ topic partition offset, row.topic = some topic ∧ row.partition = some partition ∧ row.offset = some offset ∧
      '\x00' ∉ topic.toList ∧ 0 ≤ partition ∧ 0 ≤ offset := by
  obtain ⟨o, ho, htopic⟩ := h.wakes.inbox row (Table.mem_of_get hrow)
  obtain ⟨-, partition, offset, hpartition, hoffset, hp, hoff⟩ := h.positioned row (Table.mem_of_get hrow)
  exact ⟨o.topic, partition, offset, htopic, hpartition, hoffset, (ne_empty_of_eventTopicFor (h.registered _ o ho)).2.2,
    hp, hoff⟩

theorem offsetKey_eq_iff (h : Checkable db) {row row' : InboxRow} (hrow : db.transport.inbox.get row.key = some row)
    (hrow' : db.transport.inbox.get row'.key = some row') :
    (inboxRecord row).offsetKey = (inboxRecord row').offsetKey ↔ SamePosition row row' := by
  obtain ⟨topic, partition, offset, ht, hp, ho, hnul, hp0, ho0⟩ := h.position hrow
  obtain ⟨topic', partition', offset', ht', hp', ho', hnul', hp0', ho0'⟩ := h.position hrow'
  constructor
  · intro heq
    have hparts := offsetKey_inj (m := inboxRecord row) (n := inboxRecord row')
      (by simpa [inboxRecord, ht] using hnul) (by simpa [inboxRecord, ht'] using hnul')
      (by simpa [inboxRecord, hp] using hp0) (by simpa [inboxRecord, hp'] using hp0')
      (by simpa [inboxRecord, ho] using ho0) (by simpa [inboxRecord, ho'] using ho0') heq
    simp only [inboxRecord, ht, ht', hp, hp', ho, ho', Option.getD_some] at hparts
    exact ⟨hparts.1, by rw [ht, ht', hparts.2.1], by rw [hp, hp', hparts.2.2.1], by rw [ho, ho', hparts.2.2.2]⟩
  · rintro ⟨hconsumer, htopic, hpartition, hoffset⟩
    simp only [InboxRecord.offsetKey, inboxRecord, hconsumer, htopic, hpartition, hoffset]

theorem mem_clashes (h : Checkable db) : v ∈ scanInbox (loadOutbox ids db) [] (loadInbox env ids db) ↔
    ∃ row row', db.transport.inbox.get row.key = some row ∧ db.transport.inbox.get row'.key = some row' ∧
      Selected ids db row.key.eventID ∧ Selected ids db row'.key.eventID ∧ SamePosition row row' ∧
      row.key.eventID ≠ row'.key.eventID ∧ v = offsetClash (inboxRecord row) := by
  rw [mem_scanInbox (fun m hm => inboxRecord_sound h hm)]
  have hstands : ∀ {key id}, StandsAt [] (loadInbox env ids db) key id ↔
      ∃ row, db.transport.inbox.get row.key = some row ∧ Selected ids db row.key.eventID ∧
        (inboxRecord row).offsetKey = key ∧ row.key.eventID = id := by
    intro key id
    simp only [StandsAt, List.find?_nil, reduceCtorEq, false_and, exists_false, false_or]
    constructor
    · rintro ⟨m, hm, hkey, hid⟩
      obtain ⟨row, hrow, hselected, rfl⟩ := mem_loadInbox.mp hm
      exact ⟨row, hrow, hselected, hkey, hid⟩
    · rintro ⟨row, hrow, hselected, hkey, hid⟩
      exact ⟨inboxRecord row, mem_loadInbox.mpr ⟨row, hrow, hselected, rfl⟩, hkey, hid⟩
  constructor
  · rintro ⟨m, hm, rfl, id, id', hid, hid', hne⟩
    obtain ⟨row, hrow, hselected, hkey, rfl⟩ := hstands.mp hid
    obtain ⟨row', hrow', hselected', hkey', rfl⟩ := hstands.mp hid'
    exact ⟨row, row', hrow, hrow', hselected, hselected', (offsetKey_eq_iff h hrow hrow').mp (hkey.trans hkey'.symm),
      hne, offsetClash_congr hkey.symm⟩
  · rintro ⟨row, row', hrow, hrow', hselected, hselected', hposition, hne, rfl⟩
    exact ⟨inboxRecord row, mem_loadInbox.mpr ⟨row, hrow, hselected, rfl⟩, rfl, _, _,
      hstands.mpr ⟨row, hrow, hselected, rfl, rfl⟩,
      hstands.mpr ⟨row', hrow', hselected', ((offsetKey_eq_iff h hrow hrow').mpr hposition).symm, rfl⟩, hne⟩

theorem mem_stale (h : Checkable db) :
    v ∈ (loadReconciliation ids db).flatMap (ReconciliationRecord.violations
        ((loadSubmissions env ids db).map SubmissionRecord.workflowID) (loadOutbox ids db)) ↔
      ∃ id o, db.outbox.get id = some o ∧ o.workflowID ∈ ids ∧ o.publishState = .published ∧
        db.isOpen ⟨.pendingOutbox, "outbox/" ++ id⟩ ∧ v = staleObligation id := by
  rw [List.mem_flatMap]
  constructor
  · rintro ⟨r, hr, hv⟩
    obtain ⟨hkind, hstatus, id, e, hreference, he, hstate, rfl⟩ := (mem_violations (reconciliationRecord_sound h hr)).mp hv
    obtain ⟨item, hitem, -, rfl⟩ := mem_loadReconciliation.mp hr
    obtain ⟨o, ho, hid, rfl⟩ := eventOf_loadOutbox.mp he
    have hpending : item.key.kind = .pendingOutbox := by
      cases hk : item.key.kind <;> simp [hk, ReconciliationKind.text] at hkind ⊢
    have hopen : item.status = .open := by
      cases hs : item.status <;> simp [hs, ReconciliationStatus.text] at hstatus ⊢
    have hpublished : o.publishState = .published := by
      cases hs : o.publishState <;> simp [outboxRecord, hs, PublishState.text] at hstate ⊢
    have hkey : item.key = ⟨.pendingOutbox, "outbox/" ++ id⟩ := by rw [← hpending, ← hreference]
    exact ⟨id, o, ho, hid, hpublished, ⟨item, hkey ▸ hitem, hopen⟩, rfl⟩
  · rintro ⟨id, o, ho, hid, hpublished, ⟨item, hitem, hopen⟩, rfl⟩
    have hkey : item.key = ⟨.pendingOutbox, "outbox/" ++ id⟩ := Table.key_of_get hitem
    obtain ⟨o', ho', hworkflow⟩ := (h.grounded _ item hitem).pending rfl id rfl
    rw [ho, Option.some.injEq] at ho'
    subst ho'
    have hr : (⟨item.workflowID.getD "", ReconciliationKind.text item.key.kind, item.key.reference,
        ReconciliationStatus.text item.status⟩ : ReconciliationRecord) ∈ loadReconciliation ids db := by
      refine mem_loadReconciliation.mpr ⟨item, by rw [hkey]; exact hitem, fun k hk => ?_, rfl⟩
      rw [hworkflow, Option.some.injEq] at hk
      exact hk ▸ hid
    refine ⟨_, hr, (mem_violations (reconciliationRecord_sound h hr)).mpr ⟨?_, ?_, id, outboxRecord o, ?_, ?_, ?_, rfl⟩⟩
    · rw [hkey]
      rfl
    · rw [hopen]
      rfl
    · rw [hkey]
    · exact eventOf_loadOutbox.mpr ⟨o, ho, hid, rfl⟩
    · rw [outboxRecord, hpublished]
      rfl

/-- The reference of an event of `ids` is listed when its obligation is stored. -/
theorem mem_poisonReferences (h : Checkable db) {id : String} {o : OutboxEvent} (ho : db.outbox.get id = some o)
    (hid : o.workflowID ∈ ids) : "outbox/" ++ id ∈ poisonReferences (loadReconciliation ids db) ↔
      ∃ item, db.reconciliation.get ⟨.poisonRecord, "outbox/" ++ id⟩ = some item := by
  simp only [poisonReferences, List.mem_map, List.mem_filter, decide_eq_true_eq]
  constructor
  · rintro ⟨r, ⟨hr, hkind⟩, hreference⟩
    obtain ⟨item, hitem, -, rfl⟩ := mem_loadReconciliation.mp hr
    have hpoison : item.key.kind = .poisonRecord := by
      cases hk : item.key.kind <;> simp [hk, ReconciliationKind.text] at hkind ⊢
    have hkey : item.key = ⟨.poisonRecord, "outbox/" ++ id⟩ := by rw [← hpoison, ← hreference]
    exact ⟨item, hkey ▸ hitem⟩
  · rintro ⟨item, hitem⟩
    have hkey : item.key = ⟨.poisonRecord, "outbox/" ++ id⟩ := Table.key_of_get hitem
    obtain ⟨id', o', hname, ho', hworkflow⟩ := (h.grounded _ item hitem).poison rfl id rfl
    rw [(h.event ho).1, Option.some.injEq] at hname
    rw [← hname, ho, Option.some.injEq] at ho'
    subst ho'
    refine ⟨_, ⟨mem_loadReconciliation.mpr ⟨item, by rw [hkey]; exact hitem, fun k hk => ?_, rfl⟩, ?_⟩, ?_⟩
    · rw [hworkflow, Option.some.injEq] at hk
      exact hk ▸ hid
    · rw [hkey]
      rfl
    · rw [hkey]

theorem mem_unrecorded (h : Checkable db) :
    v ∈ ((eventEntries (loadOutbox ids db)).filter (fun e => e.publishState = "QUARANTINED" &&
        !(poisonReferences (loadReconciliation ids db)).contains ("outbox/" ++ e.eventID))).map
          (fun e => "quarantined outbox event lacks a poison reconciliation item: " ++ e.eventID) ↔
      ∃ id o, db.outbox.get id = some o ∧ o.workflowID ∈ ids ∧ o.publishState = .quarantined ∧
        db.reconciliation.get ⟨.poisonRecord, "outbox/" ++ id⟩ = none ∧ v = lacksPoison id := by
  simp only [List.mem_map, List.mem_filter, mem_eventEntries nodup_loadOutbox, Bool.and_eq_true, decide_eq_true_eq,
    Bool.not_eq_true', List.contains_eq_mem, decide_eq_false_iff_not]
  constructor
  · rintro ⟨e, ⟨he, hstate, hmissing⟩, rfl⟩
    obtain ⟨o, ho, hid, rfl⟩ := mem_loadOutbox.mp he
    have hquarantined : o.publishState = .quarantined := by
      cases hs : o.publishState <;> simp [outboxRecord, hs, PublishState.text] at hstate ⊢
    refine ⟨o.eventID, o, ho, hid, hquarantined, ?_, rfl⟩
    exact Option.eq_none_iff_forall_ne_some.mpr (fun item hitem =>
      hmissing ((mem_poisonReferences h ho hid).mpr ⟨item, hitem⟩))
  · rintro ⟨id, o, ho, hid, hquarantined, hnone, rfl⟩
    have hkey : o.eventID = id := Table.key_of_get ho
    refine ⟨outboxRecord o, ⟨mem_loadOutbox.mpr ⟨o, by rw [hkey]; exact ho, hid, rfl⟩, ?_, fun hlisted => ?_⟩, ?_⟩
    · rw [outboxRecord, hquarantined]
      rfl
    · obtain ⟨item, hitem⟩ := (mem_poisonReferences h ho hid).mp (hkey ▸ hlisted)
      rw [hnone] at hitem
      cases hitem
    · rw [← hkey]
      rfl

/-- Of a trace that `Load` serves, `checkTransport` reports the four complaints and nothing else. -/
theorem mem_checkTransport (h : Checkable db) (hids : Exportable ids db) :
    v ∈ checkTransport (queryTrace env ids db) ↔ Complaint ids db v := by
  -- a workflow of the request has an event, so the rules apply
  have hnonempty : loadOutbox ids db ≠ [] := by
    obtain ⟨id, hid⟩ := List.exists_mem_of_ne_nil ids hids.nonempty
    obtain ⟨wf, hwf⟩ := hids.stored id hid
    obtain ⟨k, o, ho, hworkflow⟩ := h.announced id wf hwf
    have hkey : o.eventID = k := Table.key_of_get ho
    exact List.ne_nil_of_mem (mem_loadOutbox.mpr ⟨o, by rw [hkey]; exact ho, hworkflow ▸ hid, rfl⟩)
  obtain ⟨trace, hlisted⟩ := h.listed
  have houtbox : scanOutbox ((loadSubmissions env ids db).map SubmissionRecord.workflowID) [] (loadOutbox ids db) = [] :=
    scanOutbox_eq_nil (fun _ he => outboxRecord_sound h he) (fun _ _ => List.not_mem_nil) nodup_loadOutbox
  have hwakeups : scanWakeups (loadOutbox ids db) [] (loadWakeups ids db) = [] := by
    refine scanWakeups_eq_nil (fun _ hw => wakeupRecord_sound h hw) (fun _ _ => List.not_mem_nil) ?_
    rw [loadWakeups, List.map_map]
    exact nodup_map_sorted _ _ hlisted.once
  rw [checkTransport, if_neg (by simp [queryTrace, hnonempty])]
  simp only [queryTrace, houtbox, hwakeups, List.nil_append, List.append_nil, List.mem_append, mem_unannounced,
    mem_clashes h, mem_stale h, mem_unrecorded h]
  constructor
  · rintro (((⟨row, hrow, hid, hreason, hsilent, rfl⟩ | ⟨row, row', hrow, hrow', hs, hs', hposition, hne, rfl⟩) |
      ⟨id, o, ho, hid, hpublished, hopen, rfl⟩) | ⟨id, o, ho, hid, hquarantined, hnone, rfl⟩)
    · exact .unannounced row hrow hid hreason hsilent
    · exact .clash row row' hrow hrow' hs hs' hposition hne
    · exact .stale id o ho hid hpublished hopen
    · exact .unrecorded id o ho hid hquarantined hnone
  · intro hcomplaint
    cases hcomplaint with
    | unannounced row stored selected reason silent =>
        exact .inl (.inl (.inl ⟨row, stored, selected, reason, silent, rfl⟩))
    | clash row row' stored stored' selected selected' position differ =>
        exact .inl (.inl (.inr ⟨row, row', stored, stored', selected, selected', position, differ, rfl⟩))
    | stale id o stored selected published opened => exact .inl (.inr ⟨id, o, stored, selected, published, opened, rfl⟩)
    | unrecorded id o stored selected quarantined missing =>
        exact .inr ⟨id, o, stored, selected, quarantined, missing, rfl⟩

end Complaints

-- ============================================================================
-- Runs
-- ============================================================================

namespace Deployment

variable {env : Env} {s : Deployment} {calls : List Reconciled}

theorem Run.checkable {now : Int} (h : Run env (start now) calls s) : Checkable s.db := by
  have hsound : ∃ trace, s.world.RelaySound trace := by
    refine h.keeps (I := fun s => ∃ trace, s.world.RelaySound trace) ?_ (fun calls s s' hs hstep => ?_)
    · exact ⟨[], World.Run.relaySound (show World.Run env (World.start now) [] _ from .refl)⟩
    · obtain ⟨trace, hsound⟩ := hs
      exact hstep.sound hsound
  obtain ⟨trace, hsound⟩ := hsound
  have hannounced := h.announced
  exact {
    toEvident := h.evident
    toTracked := h.obligations.tracked
    typed := hsound.typed
    registered := hannounced.registered
    reached := fun id o ho => by
      obtain ⟨hrevision, wf, hwf, -⟩ := hannounced.bounded id o ho
      exact ⟨hrevision, wf, hwf⟩ }

end Deployment

end DurableEngine.Services
