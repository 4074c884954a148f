/-
  DurableEngine.Services.Disposition

  What becomes of a broker record: `Consumer.Process`
  (`internal/transport/transport.go`), which the ingestor repeats until it
  succeeds, and the API's `workerDelivery` (`internal/api/delivery.go`), which
  a worker slot repeats likewise.

  Both record the delivery and quarantine what `RecordInbox` refuses with one
  of three errors.  Any other error comes back on every repetition: an event
  ID that is no `uuid`, a text that `%q` does not write as JSON or that is not
  UTF-8, a stream that the columns do not take, a watermark that would pass the
  last offset, a commit that the source refuses.
-/

import DurableEngine.Services.Announced
import DurableEngine.Services.Consumer
import DurableEngine.Services.Demand
import DurableEngine.Services.Offsets

namespace DurableEngine.Services

open Lib State

-- ============================================================================
-- Process
-- ============================================================================

/-- A text of a broker record: its bytes need not be UTF-8. -/
inductive RawText where
  | text (s : String)
  | illFormed
deriving DecidableEq, Repr

/-- The `uuid` that the text denotes. -/
def RawText.uuid : RawText → Option String
  | .text s => uuidText s
  | .illFormed => none

/-- `Message`, with the texts as they come from the broker. -/
structure RawRecord where
  eventID : RawText
  topic : RawText
  partition : Int
  offset : Int
  eventType : RawText
  schemaVersion : Int
  payload : RawMessage

/-- The record as a message, unless one of its texts is not UTF-8. -/
def RawRecord.message? (m : RawRecord) : Option Message :=
  match m.eventID, m.topic, m.eventType with
  | .text eventID, .text topic, .text eventType =>
      some ⟨eventID, topic, m.partition, m.offset, eventType, m.schemaVersion, m.payload⟩
  | _, _, _ => none

/-- The text of the errors for which a delivery is quarantined. -/
def poisonReason (e : Err) : String :=
  if e.is .invalidEvent then "invalid transport event"
  else if e.is .outboxNotFound then "outbox event not found"
  else "event payload conflicts with durable outbox event"

/-- Record the delivery, or quarantine it over one of these errors. -/
def settle (record : Except Err (InboxResult × DB)) (quarantine : String → Except Err (InboxResult × DB)) :
    Except Err (InboxResult × DB) :=
  match record with
  | .ok r => .ok r
  | .error e => if isPoison e then quarantine (poisonReason e) else .error e

structure ConsumeReport where
  disposition : InboxDisposition
  nextOffset : Int
  committed : Bool
deriving DecidableEq, Repr

/-- `KafkaSource.Commit`. -/
def sourceCommit (m : RawRecord) (nextOffset : Int) : Except Err Unit :=
  rejectIf (nextOffset ≤ m.offset) (.text "next Kafka offset must be after the message")

namespace Consumer

variable (c : Consumer)

/-- `RecordInbox`: a topic or an event type that is not UTF-8 is not that of a stored event. -/
def recordRaw (wakeupID : String) (m : RawRecord) (db : DB) : Except Err (InboxResult × DB) :=
  match m.message? with
  | some message => recordInbox wakeupID (c.inboxMessage message) db
  | none => do
      rejectIf (c.consumerID = "" ∨ m.eventID = .text "" ∨ m.topic = .text "" ∨ m.partition < 0 ∨
        m.offset < 0 ∨ m.schemaVersion < 0) (.sentinel .invalidEvent)
      rejectIf (!m.payload.orEmptyObject.valid) (.sentinel .invalidEvent)
      let id ← getOr m.eventID.uuid (.invalidText "read outbox event for inbox")
      let o ← getOr (db.outbox.get id) (.sentinel .outboxNotFound)
      let _ ← getOr (db.workflows.get o.workflowID) (.noRows "read outbox event for inbox")
      .error (.sentinel .eventConflict)

/-- `QuarantineMessage`: the database takes no text that is not UTF-8. -/
def quarantineRaw (env : Env) (m : RawRecord) (db : DB) (reason : String) :
    Except Err (InboxResult × DB) :=
  match m.message? with
  | some message => quarantineMessage env (c.poisonMessage message) reason db
  | none => do
      rejectIf (c.consumerID = "" ∨ m.topic = .text "" ∨ m.partition < 0 ∨ m.offset < 0 ∨ reason = "")
        (.sentinel .invalidEvent)
      .error (.invalidText (if m.eventID = .illFormed then "link transport poison record"
        else "record transport poison record"))

/-- `Process` without a handler, and the database it leaves. -/
def process (env : Env) (wakeupID : String) (m : RawRecord) (db : DB) :
    Except Err ConsumeReport × DB :=
  match settle (c.recordRaw wakeupID m db) (c.quarantineRaw env m db) with
  | .error e => (.error e, db)
  | .ok (r, db') =>
      if r.commitOffset then
        (sourceCommit m r.nextOffset >>= fun _ => .ok ⟨r.disposition, r.nextOffset, true⟩, db')
      else (.ok ⟨r.disposition, r.nextOffset, false⟩, db')

end Consumer

-- ============================================================================
-- workerDelivery
-- ============================================================================

structure DeliveryResponse where
  disposition : InboxDisposition
  commitOffset : Bool
  nextOffset : Int
  task : Option RuntimeActivity

/-- The namespace of the local runtime, from the variable `RUNTIME_NAMESPACE`. -/
def runtimeNamespace (variable_ : String) : String :=
  if variable_ = "" then "local-runtime" else variable_

/-- `workerDelivery`: `request` is what `decodeJSON` makes of the body, absent when it refuses it;
    strings that `encoding/json` decodes are always UTF-8. -/
def workerDelivery (env : Env) (c : Consumer) (ns wakeupID : String) (request : Option Message)
    (db : DB) : Except Err DeliveryResponse × DB :=
  match request with
  | none => (.error (.text "INVALID_REQUEST"), db)
  | some m =>
      if m.topic ≠ taskTopic ∨ m.partition < 0 ∨ m.offset < 0 then
        (.error (.text "a task-topic delivery with a nonnegative offset is required"), db)
      else
        match settle (recordInbox wakeupID (c.inboxMessage m) db)
            (fun reason => quarantineMessage env (c.inboxMessage m) reason db) with
        | .error e => (.error e, db)
        | .ok (r, db') =>
            if r.disposition ≠ .quarantined then
              (runtimeActivity env (runtimeNamespace ns) m.payload db' >>= fun task =>
                .ok ⟨r.disposition, r.commitOffset, r.nextOffset, task⟩, db')
            else (.ok ⟨r.disposition, r.commitOffset, r.nextOffset, none⟩, db')

-- ============================================================================
-- The condition
-- ============================================================================

/-- `RecordInbox` refuses the message before it looks up an event. -/
def Malformed (m : InboxMessage) : Prop :=
  m.eventID = "" ∨ m.schemaVersion < 0 ∨ m.payload.orEmptyObject.valid = false

/-- The message is a delivery of a stored event, on the topic of earlier ones. -/
def Matches (db : DB) (m : InboxMessage) : Prop :=
  ∃ id o, uuidText m.eventID = some id ∧ db.outbox.get id = some o ∧ o.agrees m = true ∧
    ∀ row, db.transport.inbox.get ⟨m.consumerID, id⟩ = some row → ∀ topic ∈ row.topic, topic = m.topic

/-- The database takes the message, whose stream its columns take: a malformed one whose texts `%q`
    writes as JSON, or one whose event ID is a `uuid` and that matches its event, then under the
    condition `accepted`, or whose event type `%q` writes as JSON.  The watermark has somewhere to
    move, or need not. -/
def Settles (env : Env) (wakeupID : String) (db : DB) (m : InboxMessage) (accepted : Prop) : Prop :=
  m.stream.storable = true ∧
    ((Malformed m ∧ quotable env m.eventID = true ∧ quotable env m.eventType = true ∧
        ¬ AtLast db m.stream m.offset) ∨
      (¬ Malformed m ∧ (∃ id, uuidText m.eventID = some id) ∧
        ((Matches db m ∧ (AtLast db m.stream m.offset → Stuck db (.record wakeupID m)) ∧ accepted) ∨
          (¬ Matches db m ∧ quotable env m.eventType = true ∧ ¬ AtLast db m.stream m.offset))))

/-- The payload names a task that `RuntimeActivity` can look up: while it is up to date, its
    activity is one of the local registry. -/
def TaskReadable (env : Env) (ns : String) (payload : RawMessage) (db : DB) : Prop :=
  ∃ task w, unmarshalTask payload = some task ∧ db.workflows.get task.workflowID = some w ∧
    (w.namespace_ = ns ∧ w.state = .waitingActivity → ∃ n, db.nodes.get task.key.node = some n ∧
      (n.currentAttempt = some task.attemptNumber → ∃ a, db.attempts.get task.key = some a ∧
        (a.isCurrent = true ∧ a.state = .dispatchable → ∃ definition,
          getDefinition w.definitionID w.definitionVersion db = .ok definition ∧
          Engine.runtimeSupports env definition task.nodeID = true)))

-- ============================================================================
-- Texts
-- ============================================================================

theorem hexLower?_quoteValid (env : Env) {c d : Char} (h : hexLower? c = some d) :
    quoteValid env c = true := by
  have hall : ∀ n : Fin 128, (hexLower? (Char.ofNat n)).isSome = true →
      32 ≤ n.val ∧ n.val ≠ 127 := by decide +kernel
  obtain ⟨hlow, hdel⟩ := hall ⟨c.toNat, hexLower?_ascii h⟩ (by
    dsimp only
    rw [Char.ofNat_toNat, h]
    rfl)
  have hascii := hexLower?_ascii h
  dsimp only at hlow hdel
  simp only [quoteValid, Bool.or_eq_true, Bool.and_eq_true, decide_eq_true_eq]
  exact .inr ⟨⟨hlow, hdel⟩, .inl (by omega)⟩

theorem uuidDigits_quoteValid (env : Env) : ∀ {n : Nat} {cs ds rest : List Char},
    uuidDigits n cs = some (ds, rest) → (∀ c ∈ rest, quoteValid env c = true) →
    ∀ c ∈ cs, quoteValid env c = true
  | 0, cs, ds, rest, h, hrest => by
      cases h
      exact hrest
  | n + 1, a :: b :: cs, ds, rest, h, hrest => by
      simp only [uuidDigits, Option.bind_eq_bind, Option.bind_eq_some_iff] at h
      obtain ⟨a', ha, b', hb, ⟨ds', rest'⟩, hrec, heq⟩ := h
      cases heq
      have htail := uuidDigits_quoteValid env hrec hrest
      have hcs : ∀ c ∈ cs, quoteValid env c = true := by
        split at htail
        · rename_i hhyphen
          intro c hc
          cases cs with
          | nil => cases hc
          | cons x xs =>
              obtain rfl | hc := List.mem_cons.mp hc
              · rw [show c = '-' from Option.some.inj hhyphen.1]
                rfl
              · exact htail c hc
        · exact htail
      intro c hc
      obtain rfl | hc := List.mem_cons.mp hc
      · exact hexLower?_quoteValid env ha
      · obtain rfl | hc := List.mem_cons.mp hc
        · exact hexLower?_quoteValid env hb
        · exact hcs c hc

/-- A literal of a `uuid` is written as it is. -/
theorem quotable_uuid (env : Env) {s t : String} (h : uuidText s = some t) :
    quotable env s = true := by
  simp only [uuidText, Option.bind_eq_bind, Option.bind_eq_some_iff] at h
  obtain ⟨⟨ds, rest⟩, hdigits, hrest⟩ := h
  refine List.all_eq_true.mpr (fun c hc => ?_)
  have hbrace : ∀ c ∈ rest, quoteValid env c = true := by
    obtain ⟨hend, -⟩ := Option.ite_none_right_eq_some.mp hrest
    dsimp only at hend
    rw [hend]
    split
    · intro c hc
      rw [List.mem_singleton.mp hc]
      rfl
    · exact fun c hc => absurd hc List.not_mem_nil
  have hcs := uuidDigits_quoteValid env hdigits hbrace
  split at hcs
  · rename_i hopen
    cases hchars : s.toList with
    | nil => rw [hchars] at hc; cases hc
    | cons x xs =>
        rw [hchars] at hc hcs hopen
        obtain rfl | hc := List.mem_cons.mp hc
        · rw [show c = '{' from Option.some.inj hopen]
          rfl
        · exact hcs c hc
  · exact hcs c hc

-- ============================================================================
-- The transactions
-- ============================================================================

variable {env : Env} {db db' : DB} {m : InboxMessage} {wakeupID : String}

/-- The message names a consumer and a delivery. -/
structure Addressed (m : InboxMessage) : Prop where
  consumerID : m.consumerID ≠ ""
  topic : m.topic ≠ ""
  partition : 0 ≤ m.partition
  offset : 0 ≤ m.offset ∧ m.offset ≤ maxOffset

theorem get_insertD_ne (t : Table QuarantineRow.key) {row : QuarantineRow} {k : DeliveryKey} (h : k ≠ row.key) :
    ((t.insert? row).getD t).get k = t.get k := by
  cases hins : t.insert? row with
  | none => rfl
  | some t' => exact Table.get_insert_ne hins h

/-- `QuarantineMessage` takes exactly the messages whose stream the columns take and whose texts `%q`
    writes as JSON, while the watermark has somewhere to move. -/
theorem quarantineMessage_ok_iff (ha : Addressed m) {reason : String} (hreason : reason ≠ "")
    (hquotable : quotable env reason = true) :
    (∃ r db', quarantineMessage env m reason db = .ok (r, db')) ↔
      m.stream.storable = true ∧ quotable env m.eventID = true ∧ quotable env m.eventType = true ∧
        ¬ AtLast db m.stream m.offset := by
  -- the row of the poison record holds its offset
  have hadvance : ∀ (row : QuarantineRow), row.key = ⟨m.stream, m.offset⟩ → ∀ reference workflowID partitionID detail,
      (∃ r, advanceConsumerOffset m.stream m.offset (DB.openPoisonRecord { db with
        transport := { db.transport with
          quarantine := (db.transport.quarantine.insert? row).getD db.transport.quarantine } }
        reference workflowID partitionID detail) = .ok r) ↔ ¬ AtLast db m.stream m.offset := by
    intro row hkey reference workflowID partitionID detail
    obtain ⟨reconciliation, hopen⟩ := DB.openPoisonRecord_eq { db with
      transport := { db.transport with
        quarantine := (db.transport.quarantine.insert? row).getD db.transport.quarantine } }
      reference workflowID partitionID detail
    rw [hopen]
    refine (advanceConsumerOffset_ok_of_held ?_).trans (not_congr (atLast_congr rfl (fun o hlt => ?_)))
    · simp only [TransportTables.handled, Bool.or_eq_true]
      exact .inr (hkey ▸ isSome_get_insertD_self _ _)
    · simp only [TransportTables.handled]
      rw [get_insertD_ne]
      rw [hkey]
      exact fun heq => absurd (congrArg DeliveryKey.offset heq) hlt.ne'
  simp only [quarantineMessage, bind_eq_ok, rejectIf_eq_ok, getOr_eq_ok, exists_const, pure_eq_ok,
    Bool.not_eq_true', Bool.not_eq_false]
  constructor
  · rintro ⟨r, db', -, hstorable, detail, hdetail, moved, hmoved, -⟩
    have hall := quotable_of_sprintfJson hdetail
    exact ⟨hstorable, hall _ List.mem_cons_self, hall _ (List.mem_cons_of_mem _ List.mem_cons_self),
      (hadvance ⟨⟨m.stream, m.offset⟩, _, _, _, _, _, _⟩ rfl _ _ _ _).mp ⟨moved, hmoved⟩⟩
  · rintro ⟨hstorable, hid, htype, hmoves⟩
    obtain ⟨detail, hdetail⟩ := @sprintfJson_of_quotable env [("event_id", .quoted m.eventID),
      ("event_type", .quoted m.eventType), ("reason", .quoted reason)]
      (by simp; decide) (by simp [Field.quotable, hid, htype, hquotable])
    have hpartition := ha.partition
    have hoffset := ha.offset
    exact ⟨_, _, by simp [ha.consumerID, ha.topic, hreason]; omega, hstorable, detail, hdetail, _,
      ((hadvance ⟨⟨m.stream, m.offset⟩, _, _, _, _, _, _⟩ rfl _ _ _ _).mpr hmoves).choose_spec, rfl⟩

/-- A watermark that would pass the last offset is no reason for a quarantine. -/
theorem isPoison_of_move {k : StreamKey} {next : Int} {e : Err} (h : moveOffset k next db = .error e) :
    isPoison e = false := by
  unfold moveOffset rejectIf at h
  split at h
  · cases h
    rfl
  · cases h

theorem isPoison_of_advance {k : StreamKey} {offset : Int} {e : Err}
    (h : advanceConsumerOffset k offset db = .error e) : isPoison e = false := by
  have hfrom : ∀ {next : Int} {db : DB}, advanceFrom k offset next db = .error e → isPoison e = false := by
    intro next db h
    unfold advanceFrom at h
    split at h
    · cases h
    · split at h
      · cases h
      · cases hmoved : moveOffset k (db.transport.nextGap k next) db with
        | error e' =>
            rw [hmoved] at h
            cases h
            exact isPoison_of_move hmoved
        | ok moved =>
            rw [hmoved] at h
            cases h
  unfold advanceConsumerOffset at h
  split at h
  · exact hfrom h
  · exact hfrom h

theorem isPoison_of_accept {id : String} {o : OutboxEvent} {w : Workflow} {inbox : Table InboxRow.key} {e : Err}
    (hfresh : db.wakeups.get wakeupID = none) (h : acceptMessage wakeupID id o w m inbox db = .error e) :
    isPoison e = false := by
  obtain ⟨⟨created, db₁⟩, hwake⟩ : ∃ r, wakeScheduler wakeupID id o w
      { db with transport := { db.transport with inbox := inbox } } = .ok r := wakeScheduler_succeeds hfresh
  rw [acceptMessage, hwake, ok_bind] at h
  dsimp only at h
  cases hadvance : advanceConsumerOffset m.stream m.offset db₁ with
  | error e' =>
      rw [hadvance] at h
      cases h
      exact isPoison_of_advance hadvance
  | ok moved =>
      rw [hadvance] at h
      cases h

theorem isPoison_of_repeat {existing : InboxRow} {e : Err} (htopic : ¬ ∃ topic ∈ existing.topic, topic ≠ m.topic)
    (h : repeatMessage existing m db = .error e) : isPoison e = false := by
  rw [repeatMessage, rejectIf_of_not _ htopic, ok_bind] at h
  cases hadvance : advanceConsumerOffset m.stream m.offset db with
  | error e' =>
      rw [hadvance] at h
      cases h
      exact isPoison_of_advance hadvance
  | ok moved =>
      rw [hadvance, ok_bind] at h
      dsimp only at h
      split at h
      · cases hagain : advanceDuplicateConsumerOffset m.stream m.offset moved.2 with
        | error e' =>
            rw [hagain] at h
            cases h
            exact isPoison_of_move hagain
        | ok again =>
            rw [hagain] at h
            cases h
      · cases h

/-- The ways `RecordInbox` ends. -/
inductive Ends (env : Env) (wakeupID : String) (db : DB) (m : InboxMessage) :
    Except Err (InboxResult × DB) → Prop where
  | malformed (h : Malformed m) : Ends env wakeupID db m (.error (.sentinel .invalidEvent))
  | stopped (e : Err) (plain : isPoison e = false) (never : ∀ accepted, ¬ Settles env wakeupID db m accepted) :
      Ends env wakeupID db m (.error e)
  | refused (h : ¬ Malformed m) (id : String) (uuid : uuidText m.eventID = some id)
      (unmatched : ¬ Matches db m) (e : Err) (poison : e = .sentinel .outboxNotFound ∨ e = .sentinel .eventConflict) :
      Ends env wakeupID db m (.error e)
  | recorded (iff : ∀ accepted, Settles env wakeupID db m accepted ↔ accepted) (r : InboxResult) (db' : DB) :
      Ends env wakeupID db m (.ok (r, db'))

/-- A delivery of a stored event ends as its last part does, which looks at the watermark. -/
theorem ends_of_matched (hformed : ¬ Malformed m) (hmatched : Matches db m) (hstorable : m.stream.storable = true)
    {outcome : Except Err (InboxResult × DB)}
    (hok : (∃ r, outcome = .ok r) ↔ (AtLast db m.stream m.offset → Stuck db (.record wakeupID m)))
    (hplain : ∀ e, outcome = .error e → isPoison e = false) : Ends env wakeupID db m outcome := by
  obtain ⟨id, huuid⟩ : ∃ id, uuidText m.eventID = some id := by
    obtain ⟨id, o, huuid, -⟩ := hmatched
    exact ⟨id, huuid⟩
  have hsettles : ∀ accepted, Settles env wakeupID db m accepted ↔
      (AtLast db m.stream m.offset → Stuck db (.record wakeupID m)) ∧ accepted := by
    intro accepted
    simp only [Settles, hstorable, hformed, hmatched, huuid, false_and, false_or, not_false_eq_true, true_and,
      not_true_eq_false, or_false, Option.some.injEq, exists_eq']
  cases houtcome : outcome with
  | ok reply =>
      have htakes := hok.mp ⟨reply, houtcome⟩
      exact .recorded (fun accepted => by rw [hsettles, and_iff_right htakes]) reply.1 reply.2
  | error e =>
      refine .stopped e (hplain e houtcome) (fun accepted hs => ?_)
      obtain ⟨r, hr⟩ := hok.mpr ((hsettles accepted).mp hs).1
      rw [houtcome] at hr
      cases hr

/-- Every call of `RecordInbox` ends in one of them, if each event belongs to a workflow and the ID
    drawn for a wake-up is new. -/
theorem recordInbox_ends (ha : Addressed m)
    (hworkflow : ∀ id o, db.outbox.get id = some o → ∃ w, db.workflows.get o.workflowID = some w)
    (hfresh : db.wakeups.get wakeupID = none) : Ends env wakeupID db m (recordInbox wakeupID m db) := by
  have hpartition := ha.partition
  have hoffset := ha.offset
  unfold recordInbox
  by_cases hnamed : m.eventID = "" ∨ m.schemaVersion < 0
  · rw [rejectIf_of _ (by tauto)]
    exact .malformed (by unfold Malformed; tauto)
  have hargs : ¬ (m.consumerID = "" ∨ m.eventID = "" ∨ m.topic = "" ∨ m.partition < 0 ∨ m.offset < 0 ∨
      m.schemaVersion < 0) := by
    simp only [not_or] at hnamed ⊢
    exact ⟨ha.consumerID, hnamed.1, ha.topic, by omega, by omega, hnamed.2⟩
  rw [rejectIf_of_not _ hargs, ok_bind]
  cases hvalid : m.payload.orEmptyObject.valid with
  | false => exact .malformed (.inr (.inr hvalid))
  | true =>
      have hformed : ¬ Malformed m := by
        unfold Malformed
        rw [hvalid]
        tauto
      rw [rejectIf_of_not _ (by simp), ok_bind]
      cases huuid : uuidText m.eventID with
      | none =>
          refine .stopped _ rfl (fun accepted hs => ?_)
          simp only [Settles, hformed, huuid, false_and, false_or, reduceCtorEq, exists_false, and_false] at hs
      | some id =>
          -- the messages that match no event
          have hrefused : ∀ e, ¬ Matches db m → (e = .sentinel .outboxNotFound ∨
              e = .sentinel .eventConflict) → Ends env wakeupID db m (.error e) :=
            fun e hunmatched he => .refused hformed id huuid hunmatched e he
          have hunmatched : ∀ {P : OutboxEvent → Prop}, (∀ o, db.outbox.get id = some o → P o) →
              (∀ o, P o → ¬ (o.agrees m = true ∧ ∀ row,
                db.transport.inbox.get ⟨m.consumerID, id⟩ = some row →
                  ∀ topic ∈ row.topic, topic = m.topic)) → ¬ Matches db m := by
            rintro P hP hnot ⟨id', o, huuid', ho, hmatch⟩
            cases huuid.symm.trans huuid'
            exact hnot o (hP o ho) hmatch
          rw [getOr_some, ok_bind]
          cases ho : db.outbox.get id with
          | none =>
              refine hrefused _ ?_ (.inl rfl)
              exact hunmatched (P := fun _ => False) (fun o ho' => by rw [ho] at ho'; cases ho')
                (fun _ hf => hf.elim)
          | some o =>
              have honly : ∀ o', db.outbox.get id = some o' → o' = o :=
                fun o' ho' => Option.some.inj (ho'.symm.trans ho)
              obtain ⟨w, hw⟩ := hworkflow id o ho
              rw [getOr_some, ok_bind, hw, getOr_some, ok_bind]
              cases hagrees : o.agrees m with
              | false =>
                  refine hrefused _ (hunmatched honly (fun o' heq hmatch => ?_)) (.inr rfl)
                  rw [heq, hagrees] at hmatch
                  cases hmatch.1
              | true =>
                  rw [rejectIf_of_not _ (by simp), ok_bind]
                  cases hstorable : m.stream.storable with
                  | false =>
                      refine .stopped _ rfl (fun accepted hs => ?_)
                      have hstored := hs.1
                      rw [hstorable] at hstored
                      cases hstored
                  | true =>
                      rw [rejectIf_of_not _ (by simp), ok_bind]
                      dsimp only
                      split
                      · rename_i inbox hins
                        have hnone : db.transport.inbox.get ⟨m.consumerID, id⟩ = none :=
                          (Table.insert?_eq_some_iff.mp hins).1
                        have hmatches : Matches db m := by
                          refine ⟨id, o, huuid, ho, hagrees, fun row hrow => ?_⟩
                          cases hnone.symm.trans hrow
                        refine ends_of_matched hformed hmatches hstorable ?_ (fun e => isPoison_of_accept hfresh)
                        rw [acceptMessage_ok_iff hins hfresh]
                        refine ⟨fun h hlast => absurd hlast h, fun h hlast => ?_⟩
                        -- the consumer has not stored the event
                        obtain ⟨-, -, id', row, huuid', hrow, -⟩ := h hlast
                        cases huuid.symm.trans huuid'
                        cases hnone.symm.trans hrow
                      · rename_i hins
                        obtain ⟨existing, hexisting⟩ := Table.get_of_insert?_none hins
                        have hexisting : db.transport.inbox.get ⟨m.consumerID, id⟩ = some existing := hexisting
                        rw [hexisting, getOr_some, ok_bind]
                        by_cases htopic : ∃ topic ∈ existing.topic, topic ≠ m.topic
                        · rw [repeatMessage, rejectIf_of _ htopic]
                          refine hrefused _ (hunmatched honly (fun o' heq hmatch => ?_)) (.inr rfl)
                          obtain ⟨topic, hmem, hne⟩ := htopic
                          exact hne (hmatch.2 existing hexisting topic hmem)
                        · have hmatches : Matches db m := by
                            refine ⟨id, o, huuid, ho, hagrees, fun row hrow topic hmem => ?_⟩
                            cases hexisting.symm.trans hrow
                            by_contra hne
                            exact htopic ⟨topic, hmem, hne⟩
                          exact ends_of_matched hformed hmatches hstorable
                            (repeatMessage_ok_iff htopic huuid hexisting hoffset.2)
                            (fun e => isPoison_of_repeat htopic)

theorem quotable_poisonReason (env : Env) (e : Err) :
    poisonReason e ≠ "" ∧ quotable env (poisonReason e) = true := by
  have hall : ∀ s ∈ ["invalid transport event", "outbox event not found",
      "event payload conflicts with durable outbox event"], s ≠ "" ∧
      s.toList.all (fun c => 32 ≤ c.toNat && c.toNat < 127) = true := by decide +kernel
  have hmem : poisonReason e ∈ ["invalid transport event", "outbox event not found",
      "event payload conflicts with durable outbox event"] := by
    unfold poisonReason
    split
    · simp
    · split <;> simp
  obtain ⟨hne, hascii⟩ := hall _ hmem
  refine ⟨hne, List.all_eq_true.mpr (fun c hc => ?_)⟩
  have hrange := List.all_eq_true.mp hascii c hc
  simp only [Bool.and_eq_true, decide_eq_true_eq] at hrange
  simp only [quoteValid, Bool.or_eq_true, Bool.and_eq_true, decide_eq_true_eq]
  exact .inr ⟨⟨hrange.1, by omega⟩, .inl (by omega)⟩

/-- What `settle` returns: an error, the reply of a quarantine, or that of a recorded event. -/
inductive Settled (env : Env) (wakeupID : String) (db : DB) (m : InboxMessage) :
    Except Err (InboxResult × DB) → Prop where
  | failed (e : Err) (never : ∀ accepted, ¬ Settles env wakeupID db m accepted) : Settled env wakeupID db m (.error e)
  | poisoned (reason : String) (r : InboxResult) (db' : DB) (always : ∀ accepted, Settles env wakeupID db m accepted)
      (h : quarantineMessage env m reason db = .ok (r, db')) : Settled env wakeupID db m (.ok (r, db'))
  | recorded (r : InboxResult) (db' : DB) (iff : ∀ accepted, Settles env wakeupID db m accepted ↔ accepted)
      (h : recordInbox wakeupID m db = .ok (r, db')) : Settled env wakeupID db m (.ok (r, db'))

theorem settled (ha : Addressed m)
    (hworkflow : ∀ id o, db.outbox.get id = some o → ∃ w, db.workflows.get o.workflowID = some w)
    (hfresh : db.wakeups.get wakeupID = none) :
    Settled env wakeupID db m (settle (recordInbox wakeupID m db)
      (fun reason => quarantineMessage env m reason db)) := by
  have hends : Ends env wakeupID db m (recordInbox wakeupID m db) := recordInbox_ends ha hworkflow hfresh
  -- the reply of the quarantine decides, and it is that of `P`
  have hquarantine : ∀ {P : Prop} (e : Err), (∀ accepted, Settles env wakeupID db m accepted ↔ P) →
      ((∃ r db', quarantineMessage env m (poisonReason e) db = .ok (r, db')) ↔ P) →
      Settled env wakeupID db m (quarantineMessage env m (poisonReason e) db) := by
    intro P e hsettles hiff
    cases hreply : quarantineMessage env m (poisonReason e) db with
    | error e' =>
        refine .failed e' (fun accepted hs => ?_)
        obtain ⟨r, db', hok⟩ := hiff.mpr ((hsettles accepted).mp hs)
        rw [hok] at hreply
        cases hreply
    | ok reply =>
        obtain ⟨r, db'⟩ := reply
        exact .poisoned _ r db' (fun accepted => (hsettles accepted).mpr (hiff.mp ⟨r, db', hreply⟩)) hreply
  generalize hrun : recordInbox wakeupID m db = outcome at hends
  cases hends with
  | malformed hmal =>
      have hreason := quotable_poisonReason env (.sentinel .invalidEvent)
      refine hquarantine (.sentinel .invalidEvent) (fun accepted => ?_)
        (quarantineMessage_ok_iff ha hreason.1 hreason.2)
      simp only [Settles, hmal, true_and, not_true_eq_false, false_and, or_false]
  | stopped e hplain never =>
      simp only [settle, hplain, Bool.false_eq_true, if_false]
      exact .failed e never
  | refused hformed id huuid hunmatched e he =>
      have hreason := quotable_poisonReason env e
      have hpoison : isPoison e = true := by
        obtain rfl | rfl := he <;> rfl
      simp only [settle, hpoison, if_true]
      refine hquarantine e (fun accepted => ?_) (quarantineMessage_ok_iff ha hreason.1 hreason.2)
      simp only [Settles, hformed, huuid, hunmatched, quotable_uuid env huuid, false_and,
        false_or, not_false_eq_true, true_and, Option.some.injEq, exists_eq']
  | recorded iff r db' => exact .recorded r db' iff hrun

-- ============================================================================
-- The two callers
-- ============================================================================

theorem exists_ok_bind {α β : Type} {x : Except Err α} {f : α → Except Err β} :
    (∃ t, (x >>= f) = .ok t) ↔ ∃ a, x = .ok a ∧ ∃ t, f a = .ok t := by
  cases x with
  | error e => exact ⟨fun ⟨_, h⟩ => (nomatch h), fun ⟨_, h, _⟩ => (nomatch h)⟩
  | ok a => exact ⟨fun h => ⟨a, rfl, h⟩, fun ⟨_, h, hf⟩ => by cases h; exact hf⟩

/-- A lookup that gives up without an error. -/
theorem exists_ok_unless {β : Type} {c : Prop} [Decidable c] {x : Except Err (Option β)} :
    (∃ t, (if c then pure none else x) = .ok t) ↔ (¬ c → ∃ t, x = .ok t) := by
  split
  · rename_i hc
    exact ⟨fun _ hnot => absurd hc hnot, fun _ => ⟨none, rfl⟩⟩
  · rename_i hc
    exact ⟨fun h _ => h, fun h => h hc⟩

/-- `RuntimeActivity` answers exactly the payloads it can look up. -/
theorem runtimeActivity_ok_iff {ns : String} {payload : RawMessage} :
    (∃ task, runtimeActivity env ns payload db = .ok task) ↔ TaskReadable env ns payload db := by
  simp only [runtimeActivity, exists_ok_bind, exists_ok_unless, getOr_eq_ok, getWorkflow, getNode,
    getAttempt, rejectIf_eq_ok, exists_const, TaskReadable, not_or, not_not, Bool.not_eq_true',
    Bool.not_eq_false, pure_eq_ok, exists_eq', and_true, exists_and_left]

/-- A reply of `RecordInbox` is not that of a quarantine, and the lookup finds what it found before. -/
theorem runtimeActivity_of_recorded {ns : String} {payload : RawMessage} {r : InboxResult}
    (h : recordInbox wakeupID m db = .ok (r, db')) : r.disposition ≠ .quarantined ∧
      runtimeActivity env ns payload db' = runtimeActivity env ns payload db := by
  obtain ⟨id, o, hrecorded⟩ := recordInbox_eq_ok h
  refine ⟨?_, ?_⟩
  · obtain ⟨hd, -⟩ | ⟨hd, -⟩ := hrecorded.inbox <;> rw [hd] <;> decide
  · rw [hrecorded.frame]
    rfl

/-- Every event belongs to a workflow. -/
theorem workflow_of_event {s : Deployment} (h : Deployment.Reachable env s) {id : String}
    {o : OutboxEvent} (ho : s.db.outbox.get id = some o) :
    ∃ w, s.db.workflows.get o.workflowID = some w := by
  obtain ⟨now, calls, hrun⟩ := h
  obtain ⟨-, w, hw, -⟩ := hrun.announced.bounded id o ho
  exact ⟨w, hw⟩

/-- A call that ends with a durable disposition of the record. -/
def Disposed (d : InboxDisposition) : Prop := d = .accepted ∨ d = .alreadyHandled ∨ d = .quarantined

theorem disposed_of_recorded {r : InboxResult} (h : recordInbox wakeupID m db = .ok (r, db')) :
    Disposed r.disposition := by
  obtain ⟨id, o, hrecorded⟩ := recordInbox_eq_ok h
  obtain ⟨hd, -⟩ | ⟨hd, -⟩ := hrecorded.inbox
  · exact .inl hd
  · exact .inr (.inl hd)

/-- No call takes a record with a text that is not UTF-8. -/
theorem settle_illFormed {c : Consumer} {m : RawRecord} (h : m.message? = none) :
    ∃ e, settle (c.recordRaw wakeupID m db) (c.quarantineRaw env m db) = .error e := by
  have hquarantine : ∀ reason, ∃ e, c.quarantineRaw env m db reason = .error e := by
    intro reason
    simp only [Consumer.quarantineRaw, h]
    cases rejectIf (c.consumerID = "" ∨ m.topic = .text "" ∨ m.partition < 0 ∨ m.offset < 0 ∨ reason = "")
        (Err.sentinel .invalidEvent) with
    | error e => exact ⟨e, rfl⟩
    | ok _ => exact ⟨_, rfl⟩
  have hrecord : ∃ e, c.recordRaw wakeupID m db = .error e := by
    cases hr : c.recordRaw wakeupID m db with
    | error e => exact ⟨e, rfl⟩
    | ok r =>
        simp only [Consumer.recordRaw, h, bind_eq_ok, reduceCtorEq, and_false, exists_false] at hr
  obtain ⟨e, he⟩ := hrecord
  rw [he]
  simp only [settle]
  split
  · exact hquarantine _
  · exact ⟨e, rfl⟩

/-- The end of `Process` for the reply of a transaction. -/
theorem report_disposed_iff {m : RawRecord} {r : InboxResult} :
    (∃ report db'', (if r.commitOffset then
        (sourceCommit m r.nextOffset >>= fun _ => .ok ⟨r.disposition, r.nextOffset, true⟩, db')
      else (.ok ⟨r.disposition, r.nextOffset, false⟩, db')) = ((.ok report : Except Err ConsumeReport), db'') ∧
      Disposed report.disposition) ↔
      Disposed r.disposition ∧ (r.commitOffset = true → m.offset < r.nextOffset) := by
  cases hcommit : r.commitOffset with
  | false =>
      constructor
      · rintro ⟨report, db'', heq, hd⟩
        cases heq
        exact ⟨hd, fun hf => (nomatch hf)⟩
      · rintro ⟨hd, -⟩
        exact ⟨_, _, rfl, hd⟩
  | true =>
      simp only [if_true, sourceCommit]
      constructor
      · rintro ⟨report, db'', heq, hd⟩
        obtain ⟨hcommitted, -⟩ := Prod.mk.inj heq
        obtain ⟨_, hafter, hreport⟩ := bind_eq_ok.mp hcommitted
        have hlt := rejectIf_eq_ok.mp hafter
        cases hreport
        exact ⟨hd, fun _ => by omega⟩
      · rintro ⟨hd, hlt⟩
        have hlt := hlt trivial
        rw [rejectIf_of_not _ (by omega), ok_bind]
        exact ⟨_, _, rfl, hd⟩

/-- The ingestor's call for a record ends with a durable disposition exactly when its texts are
    UTF-8, the database takes the message, and the recorded delivery is not stuck. -/
theorem process_disposed_iff {s : Deployment} (h : Deployment.Reachable env s) {c : Consumer}
    (hc : c.consumerID ≠ "") (hfresh : s.db.wakeups.get wakeupID = none) {m : RawRecord}
    (htopic : m.topic ≠ .text "") (hpartition : 0 ≤ m.partition)
    (hoffset : 0 ≤ m.offset ∧ m.offset ≤ maxOffset) :
    (∃ report db', c.process env wakeupID m s.db = (.ok report, db') ∧ Disposed report.disposition) ↔
      ∃ message, m.message? = some message ∧ Settles env wakeupID s.db (c.inboxMessage message)
        (¬ Stuck s.db (.record wakeupID (c.inboxMessage message))) := by
  unfold Consumer.process
  cases hm : m.message? with
  | none =>
      obtain ⟨e, he⟩ := @settle_illFormed env s.db wakeupID c m hm
      rw [he]
      exact iff_of_false (fun ⟨_, _, heq, _⟩ => (nomatch heq)) (fun ⟨_, hnone, _⟩ => (nomatch hnone))
  | some message =>
      have hfields : .text message.topic = m.topic ∧ message.partition = m.partition ∧
          message.offset = m.offset := by
        unfold RawRecord.message? at hm
        split at hm
        · rename_i topic _ _ htext _
          cases hm
          exact ⟨htext.symm, rfl, rfl⟩
        · cases hm
      have hto : (c.inboxMessage message).offset = m.offset := hfields.2.2
      have ha : Addressed (c.inboxMessage message) :=
        ⟨hc, fun he => htopic (by rw [← hfields.1]; exact congrArg RawText.text he),
          by rw [← hfields.2.1] at hpartition; exact hpartition,
          by rw [← hfields.2.2] at hoffset; exact hoffset⟩
      have hsettled := @settled env s.db (c.inboxMessage message) wakeupID ha
        (fun id o ho => workflow_of_event h ho) hfresh
      have hrecord : c.recordRaw wakeupID m s.db =
          recordInbox wakeupID (c.inboxMessage message) s.db := by
        simp only [Consumer.recordRaw, hm]
      have hquarantine : c.quarantineRaw env m s.db =
          fun reason => quarantineMessage env (c.inboxMessage message) reason s.db := by
        funext reason
        simp only [Consumer.quarantineRaw, hm]
        rfl
      rw [hrecord, hquarantine]
      simp only [Option.some.injEq, exists_eq_left']
      generalize settle (recordInbox wakeupID (c.inboxMessage message) s.db) _ = outcome at hsettled
      cases hsettled with
      | failed e never =>
          exact iff_of_false (fun ⟨_, _, heq, _⟩ => (nomatch heq)) (never _)
      | poisoned reason r db' always hreply =>
          refine iff_of_true (report_disposed_iff.mpr ⟨?_, fun hcommit => ?_⟩) (always _)
          · exact .inr (.inr (quarantineMessage_eq_ok hreply).disposition.1)
          · rw [← hto]
            exact (committable_of_poison hreply).commit hcommit
      | recorded r db' iff hreply =>
          have hrun : Delivery.run env (.record wakeupID (c.inboxMessage message)) s.db = .ok (r, db') :=
            hreply
          rw [iff, report_disposed_iff, ← hto]
          constructor
          · rintro ⟨-, hlt⟩ hstuck
            obtain ⟨hcommit, hnext⟩ := hstuck.reply hrun
            have hbefore := hlt hcommit
            rw [hnext] at hbefore
            exact Int.lt_irrefl _ hbefore
          · intro hfree
            exact ⟨disposed_of_recorded hreply, ((reported_commits hrun).mpr hfree).commit⟩

/-- A worker slot's call for a task-topic delivery ends with a durable disposition exactly when the
    request is decoded, the database takes the message, and the task can be looked up. -/
theorem workerDelivery_disposed_iff {s : Deployment} (h : Deployment.Reachable env s) {c : Consumer}
    (hc : c.consumerID ≠ "") (hfresh : s.db.wakeups.get wakeupID = none) {ns : String}
    {request : Option Message} (htopic : ∀ m ∈ request, m.topic = taskTopic)
    (hpartition : ∀ m ∈ request, 0 ≤ m.partition)
    (hoffset : ∀ m ∈ request, 0 ≤ m.offset ∧ m.offset ≤ maxOffset) :
    (∃ response db', workerDelivery env c ns wakeupID request s.db = (.ok response, db') ∧
        Disposed response.disposition) ↔
      ∃ m, request = some m ∧ Settles env wakeupID s.db (c.inboxMessage m)
        (TaskReadable env (runtimeNamespace ns) m.payload s.db) := by
  unfold workerDelivery
  cases request with
  | none => exact iff_of_false (fun ⟨_, _, heq, _⟩ => (nomatch heq)) (fun ⟨_, hnone, _⟩ => (nomatch hnone))
  | some m =>
      have htopic := htopic m rfl
      have hpartition := hpartition m rfl
      have hoffset := hoffset m rfl
      have hnamed : ¬ (m.topic ≠ taskTopic ∨ m.partition < 0 ∨ m.offset < 0) := by
        rw [htopic]
        simp only [ne_eq, not_true_eq_false, false_or, not_or]
        omega
      have ha : Addressed (c.inboxMessage m) :=
        ⟨hc, by rw [show (c.inboxMessage m).topic = m.topic from rfl, htopic]; decide, hpartition, hoffset⟩
      have hsettled := @settled env s.db (c.inboxMessage m) wakeupID ha
        (fun id o ho => workflow_of_event h ho) hfresh
      dsimp only
      rw [if_neg hnamed]
      simp only [Option.some.injEq, exists_eq_left']
      generalize settle (recordInbox wakeupID (c.inboxMessage m) s.db) _ = outcome at hsettled
      cases hsettled with
      | failed e never =>
          exact iff_of_false (fun ⟨_, _, heq, _⟩ => (nomatch heq)) (never _)
      | poisoned reason r db' always hreply =>
          have hd := (quarantineMessage_eq_ok hreply).disposition.1
          refine iff_of_true ?_ (always _)
          simp only [hd, ne_eq, not_true_eq_false, if_false]
          exact ⟨_, _, rfl, .inr (.inr rfl)⟩
      | recorded r db' iff hreply =>
          obtain ⟨hd, hsame⟩ := @runtimeActivity_of_recorded env s.db db' (c.inboxMessage m) wakeupID
            (runtimeNamespace ns) m.payload r hreply
          dsimp only
          rw [iff, if_pos hd, hsame, ← runtimeActivity_ok_iff]
          constructor
          · rintro ⟨response, db'', heq, -⟩
            obtain ⟨hlookup, -⟩ := Prod.mk.inj heq
            obtain ⟨task, htask, -⟩ := bind_eq_ok.mp hlookup
            exact ⟨task, htask⟩
          · rintro ⟨task, htask⟩
            rw [htask, ok_bind]
            exact ⟨_, _, rfl, disposed_of_recorded hreply⟩

-- ============================================================================
-- The disposition of a record
-- ============================================================================

/-- In every reachable state the calls of the ingestor and of a worker slot for a record end with a
    durable disposition exactly when the database takes it, and the delivery is not stuck, or its
    task can be looked up. -/
theorem record_disposition {s : Deployment} (h : Deployment.Reachable env s) {c : Consumer}
    (hc : c.consumerID ≠ "") (hfresh : s.db.wakeups.get wakeupID = none) :
    (∀ m : RawRecord, m.topic ≠ .text "" → 0 ≤ m.partition → 0 ≤ m.offset ∧ m.offset ≤ maxOffset →
      ((∃ report db', c.process env wakeupID m s.db = (.ok report, db') ∧ Disposed report.disposition) ↔
        ∃ message, m.message? = some message ∧ Settles env wakeupID s.db (c.inboxMessage message)
          (¬ Stuck s.db (.record wakeupID (c.inboxMessage message))))) ∧
    ∀ (ns : String) (request : Option Message),
      (∀ m ∈ request, m.topic = taskTopic ∧ 0 ≤ m.partition ∧ 0 ≤ m.offset ∧ m.offset ≤ maxOffset) →
      ((∃ response db', workerDelivery env c ns wakeupID request s.db = (.ok response, db') ∧
          Disposed response.disposition) ↔
        ∃ m, request = some m ∧ Settles env wakeupID s.db (c.inboxMessage m)
          (TaskReadable env (runtimeNamespace ns) m.payload s.db)) :=
  ⟨fun _ htopic hpartition hoffset =>
    process_disposed_iff h hc hfresh htopic hpartition hoffset,
   fun _ _ hnamed => workerDelivery_disposed_iff h hc hfresh (fun m hm => (hnamed m hm).1)
    (fun m hm => (hnamed m hm).2.1) (fun m hm => (hnamed m hm).2.2)⟩

/-- A record of the task topic with the text as its event ID. -/
def taskRecord (eventID : String) (payload : RawMessage) : RawRecord :=
  ⟨.text eventID, .text taskTopic, 0, 0, .text "attempt.dispatch", 1, payload⟩

/-- The consumer of the records. -/
def taskConsumer : Consumer := ⟨"c", 1⟩

/-- A record with bytes that are no document is quarantined. -/
theorem record_disposition_malformed :
    (∃ report db', taskConsumer.process .plain (uuidOf 9 0) (taskRecord "x" .malformed) (DB.init 0) =
      (.ok report, db') ∧ Disposed report.disposition) ∧
    ∀ m, (taskRecord "x" .malformed).message? = some m →
      ∃ response db', workerDelivery .plain taskConsumer "" (uuidOf 9 0) (some m) (DB.init 0) =
        (.ok response, db') ∧ Disposed response.disposition := by
  have hquotable : quotable .plain "x" = true ∧ quotable .plain "attempt.dispatch" = true ∧
      StreamKey.storable ⟨"c", taskTopic, 0⟩ = true := by
    decide +kernel
  have hfirst : ¬ AtLast (DB.init 0) ⟨"c", taskTopic, 0⟩ 0 := fun h =>
    absurd (h.handled 1 (by decide) (by decide)) (by decide +kernel)
  have hsettles : ∀ accepted, Settles .plain (uuidOf 9 0) (DB.init 0) (taskConsumer.inboxMessage
      ⟨"x", taskTopic, 0, 0, "attempt.dispatch", 1, .malformed⟩) accepted :=
    fun _ => ⟨hquotable.2.2, .inl ⟨.inr (.inr rfl), hquotable.1, hquotable.2.1, hfirst⟩⟩
  have hreach : Deployment.Reachable .plain (Deployment.start 0) := ⟨0, [], .refl⟩
  have hdisposition := @record_disposition .plain (uuidOf 9 0) _ hreach taskConsumer (by decide) rfl
  refine ⟨?_, fun m hm => ?_⟩
  · exact (hdisposition.1 (taskRecord "x" .malformed) (by decide) (by decide) (by decide)).mpr
      ⟨_, rfl, hsettles _⟩
  · cases hm
    refine (hdisposition.2 "" (some _) (fun m hm => ?_)).mpr ⟨_, rfl, hsettles _⟩
    cases hm
    decide

/-- A record whose event ID is no `uuid` comes back from both calls with an error. -/
theorem record_disposition_refused :
    (¬ ∀ (s : Deployment), Deployment.Reachable .plain s → ∀ m : RawRecord, m.topic ≠ .text "" →
      0 ≤ m.partition → 0 ≤ m.offset ∧ m.offset ≤ maxOffset → ∃ report db',
        taskConsumer.process .plain (uuidOf 9 0) m s.db = (.ok report, db')) ∧
    ∃ e, workerDelivery .plain taskConsumer "" (uuidOf 9 0)
      (taskRecord "x" (.json (.obj []))).message? (DB.init 0) = (.error e, DB.init 0) := by
  have hrefused : (taskConsumer.process .plain (uuidOf 9 0) (taskRecord "x" (.json (.obj [])))
      (DB.init 0)).1.isOk = false := by
    decide +kernel
  refine ⟨fun h => ?_, ⟨.invalidText "read outbox event for inbox", rfl⟩⟩
  obtain ⟨report, db', hok⟩ := h (Deployment.start 0) ⟨0, [], .refl⟩ (taskRecord "x" (.json (.obj [])))
    (by decide) (by decide) (by decide)
  rw [show (Deployment.start 0).db = DB.init 0 from rfl] at hok
  rw [hok] at hrefused
  cases hrefused

end DurableEngine.Services
