/-
  DurableEngine.Services.Consumer

  `Consumer.Run` (`internal/transport/transport.go`): a loop that receives the
  messages of one partition in order and hands each to a `Process` call of its
  own, at most `MaxConcurrent` at a time.

  A `Process` call records the message or quarantines it, and then commits
  the offset that the store tells it.  The calls go on independently of each
  other, and the whole process may stop at any point and start again from an
  offset it has committed.
-/

import DurableEngine.Services.Arrival

namespace DurableEngine.Services

open Lib State

-- ============================================================================
-- Process
-- ============================================================================

structure Message where
  eventID : String
  topic : String
  partition : Int
  offset : Int
  eventType : String
  schemaVersion : Int
  payload : RawMessage

/-- `ConsumerConfig`, without the handler, which runs after the commit. -/
structure Consumer where
  consumerID : String
  maxConcurrent : Nat

namespace Consumer

variable (c : Consumer)

/-- What `Process` hands to `RecordInbox`. -/
def inboxMessage (m : Message) : InboxMessage where
  consumerID := c.consumerID
  eventID := m.eventID
  topic := m.topic
  partition := m.partition
  offset := m.offset
  eventType := m.eventType
  schemaVersion := m.schemaVersion
  payload := m.payload

/-- What `Process` hands to `QuarantineMessage`. -/
def poisonMessage (m : Message) : InboxMessage := { c.inboxMessage m with schemaVersion := 0 }

end Consumer

/-- The errors of `RecordInbox` for which `Process` quarantines the message. -/
def isPoison (e : Err) : Bool := e.is .invalidEvent || e.is .outboxNotFound || e.is .eventConflict

/-- The call of a `Process` that comes next. -/
inductive Task where
  | record (m : Message)
  | quarantine (m : Message) (reason : String)
  | commit (m : Message) (nextOffset : Int)

def Task.message : Task → Message
  | record m | quarantine m _ | commit m _ => m

/-- What `Process` does once the message is recorded or quarantined. -/
def afterInbox (m : Message) (r : InboxResult) : List Task :=
  if r.commitOffset then [.commit m r.nextOffset] else []

/-- What `Process` does when `RecordInbox` fails; `reason` is the text of the error. -/
def afterFailure (m : Message) (e : Err) (reason : String) : List Task :=
  if isPoison e then [.quarantine m reason] else []

-- ============================================================================
-- Run
-- ============================================================================

/-- A consumer at work: the offset its source delivers next, the message that waits for a free
    slot, the `Process` calls in progress, and the offsets passed to `Source.Commit`. -/
structure Consuming where
  world : World
  running : Bool
  position : Int
  waiting : Option Message
  tasks : List Task
  failed : Bool
  commits : List Int

def ConsumerEvent.stream : ConsumerEvent → StreamKey
  | .ensured k _ _ => k
  | .recorded m _ | .poisoned m _ => m.stream

namespace Consuming

/-- The consumer starts to read at the offset `s`. -/
def start (w : World) (s : Int) : Consuming := ⟨w, true, s, none, [], false, []⟩

/-- One step of the consumer or of the world around it, which leaves its stream alone.  Each
    transaction of the consumer meets the condition `C` where it commits. -/
inductive Step (env : Env) (c : Consumer) (k : StreamKey) (s : Int) (C : DB → InboxMessage → Prop) :
    Consuming → List Event → Consuming → Prop where
  | world (st : Consuming) (events : List Event) (w' : World) (h : World.Step env st.world events w')
      (others : ∀ e ∈ consumerTrace events, e.stream ≠ k) :
      Step env c k s C st events { st with world := w' }
  | receive (st : Consuming) (m : Message) (running : st.running = true) (free : st.waiting = none)
      (stream : (c.inboxMessage m).stream = k) (offset : m.offset = st.position) :
      Step env c k s C st [] { st with waiting := some m, position := st.position + 1 }
  | acquire (st : Consuming) (m : Message) (running : st.running = true)
      (waits : st.waiting = some m) (room : st.tasks.length < c.maxConcurrent) :
      Step env c k s C st [] { st with waiting := none, tasks := st.tasks ++ [.record m] }
  | record (st : Consuming) (before after : List Task) (m : Message) (wakeupID : String)
      (r : InboxResult) (db' : DB) (tasks : st.tasks = before ++ .record m :: after)
      (h : recordInbox wakeupID (c.inboxMessage m) st.world.db = .ok (r, db'))
      (meets : C st.world.db (c.inboxMessage m)) :
      Step env c k s C st [.consumer (.recorded (c.inboxMessage m) r)] { st with
        world := { st.world with db := db' }
        tasks := before ++ afterInbox m r ++ after }
  | refused (st : Consuming) (before after : List Task) (m : Message) (wakeupID reason : String)
      (e : Err) (tasks : st.tasks = before ++ .record m :: after)
      (h : recordInbox wakeupID (c.inboxMessage m) st.world.db = .error e) :
      Step env c k s C st [] { st with
        tasks := before ++ afterFailure m e reason ++ after
        failed := st.failed || !isPoison e }
  | quarantine (st : Consuming) (before after : List Task) (m : Message) (reason : String)
      (r : InboxResult) (db' : DB) (tasks : st.tasks = before ++ .quarantine m reason :: after)
      (h : quarantineMessage env (c.poisonMessage m) reason st.world.db = .ok (r, db'))
      (meets : C st.world.db (c.poisonMessage m)) :
      Step env c k s C st [.consumer (.poisoned (c.poisonMessage m) r)] { st with
        world := { st.world with db := db' }
        tasks := before ++ afterInbox m r ++ after }
  | unquarantined (st : Consuming) (before after : List Task) (m : Message) (reason : String)
      (e : Err) (tasks : st.tasks = before ++ .quarantine m reason :: after)
      (h : quarantineMessage env (c.poisonMessage m) reason st.world.db = .error e) :
      Step env c k s C st [] { st with tasks := before ++ after, failed := true }
  | commit (st : Consuming) (before after : List Task) (m : Message) (n : Int) (acknowledged : Bool)
      (tasks : st.tasks = before ++ .commit m n :: after) :
      Step env c k s C st [] { st with
        tasks := before ++ after
        failed := st.failed || !acknowledged
        commits := st.commits ++ [n] }
  | stop (st : Consuming) (failed : st.failed = true) :
      Step env c k s C st [] { st with running := false, waiting := none }
  | crash (st : Consuming) :
      Step env c k s C st [] { st with running := false, waiting := none, tasks := [], failed := false }
  | restart (st : Consuming) (position : Int) (committed : position = s ∨ position ∈ st.commits)
      (ended : st.running = false ∧ st.tasks = []) :
      Step env c k s C st [] { st with running := true, position := position, failed := false }

end Consuming

-- ============================================================================
-- The first transaction of a stream
-- ============================================================================

/-- A stream without a watermark starts at the message. -/
theorem advanceConsumerOffset_created {k : StreamKey} {offset : Int} {db db' : DB} {r : Int × Bool}
    (hnone : db.transport.consumerOffsets.get k = none)
    (heq : advanceConsumerOffset k offset db = .ok (r, db')) : r.1 = db.transport.nextGap k offset := by
  obtain ⟨hframe, -⟩ := DB.insertOffset_of_none offset hnone
  have hgap : (db.insertOffset k offset).transport.nextGap = db.transport.nextGap :=
    nextGap_of_tables (by rw [hframe]; rfl) (by rw [hframe]; rfl)
  simp only [advanceConsumerOffset, hnone, advanceFrom, Int.lt_irrefl, if_false, bind_eq_ok] at heq
  obtain ⟨moved, hmoved, heq⟩ := heq
  obtain ⟨-, rfl⟩ := moveOffset_eq_ok.mp hmoved
  cases heq
  exact congrFun (congrFun hgap k) offset

theorem advanceConsumerOffset_passed {k : StreamKey} {offset : Int} {db db' : DB} {r : Int × Bool}
    (hnone : db.transport.consumerOffsets.get k = none)
    (heq : advanceConsumerOffset k offset db = .ok (r, db')) :
    ∀ o, offset ≤ o → o < r.1 → db'.transport.handled k o = true := by
  intro o hle hlt
  obtain ⟨hframe, -⟩ := advanceConsumerOffset_eq heq
  have hhandled : db'.transport.handled = db.transport.handled :=
    handled_of_tables (by rw [hframe]; rfl) (by rw [hframe]; rfl)
  rw [advanceConsumerOffset_created hnone heq] at hlt
  rw [hhandled]
  exact firstGap_covered _ _ _ o hle hlt

/-- The offsets from the message on that the new watermark has passed are held by rows, the
    message's own apart. -/
def PassedFrom (db' : DB) (k : StreamKey) (offset next : Int) : Prop :=
  ∀ o, offset ≤ o → o < next → db'.transport.handled k o = true ∨ o = offset

theorem passedFrom_of_accept {wakeupID id : String} {o : OutboxEvent} {w : Workflow}
    {m : InboxMessage} {inbox : Table InboxRow.key} {db db' : DB} {r : InboxResult}
    (h : acceptMessage wakeupID id o w m inbox db = .ok (r, db'))
    (hnone : db.transport.consumerOffsets.get m.stream = none) :
    PassedFrom db' m.stream m.offset r.nextOffset := by
  simp only [acceptMessage, bind_eq_ok, pure_eq_ok] at h
  obtain ⟨⟨created, db₁⟩, hwake, ⟨reply, db₂⟩, hadvance, heq⟩ := h
  obtain ⟨-, hframe₁⟩ := wakeScheduler_eq_ok hwake
  cases heq
  have hnone₁ : db₁.transport.consumerOffsets.get m.stream = none := by
    rw [hframe₁]
    exact hnone
  exact fun offset hle hlt => .inl (advanceConsumerOffset_passed hnone₁ hadvance offset hle hlt)

theorem passedFrom_of_repeat {existing : InboxRow} {m : InboxMessage} {db db' : DB} {r : InboxResult}
    (h : repeatMessage existing m db = .ok (r, db'))
    (hnone : db.transport.consumerOffsets.get m.stream = none) :
    PassedFrom db' m.stream m.offset r.nextOffset := by
  simp only [repeatMessage, bind_eq_ok, rejectIf_eq_ok, exists_const] at h
  obtain ⟨-, ⟨reply, db₁⟩, hadvance, h⟩ := h
  split at h
  · obtain ⟨moved, hagain, h⟩ := bind_eq_ok.mp h
    obtain ⟨-, rfl⟩ := moveOffset_eq_ok.mp hagain
    cases h
    intro offset hle hlt
    by_cases hself : offset = m.offset
    · exact .inr hself
    · exact .inl (firstGap_covered _ _ _ offset (by omega) hlt)
  · cases h
    exact fun offset hle hlt => .inl (advanceConsumerOffset_passed hnone hadvance offset hle hlt)

theorem passedFrom_of_poison {env : Env} {m : InboxMessage} {reason : String} {db db' : DB}
    {r : InboxResult} (h : quarantineMessage env m reason db = .ok (r, db'))
    (hnone : db.transport.consumerOffsets.get m.stream = none) :
    PassedFrom db' m.stream m.offset r.nextOffset := by
  simp only [quarantineMessage, bind_eq_ok, rejectIf_eq_ok, getOr_eq_ok, exists_const, pure_eq_ok] at h
  obtain ⟨-, -, detail, -, ⟨reply, db₁⟩, hadvance, heq⟩ := h
  cases heq
  generalize (if m.eventID = "" then none
    else (db.outbox.get m.eventID).bind (fun o => db.workflows.get o.workflowID)) = workflow at hadvance
  generalize (db.transport.quarantine.insert? (⟨⟨m.stream, m.offset⟩, nullIfEmpty m.eventID,
    nullIfEmpty m.eventType, m.payload, reason, workflow.map (·.workflowID),
    workflow.map (·.partitionID)⟩ : QuarantineRow)).getD db.transport.quarantine = quarantine at hadvance
  obtain ⟨reconciliation, hopen⟩ := DB.openPoisonRecord_eq
    { db with transport := { db.transport with quarantine := quarantine } } (deliveryReference m)
    (workflow.map (·.workflowID)) (workflow.map (·.partitionID)) detail
  rw [hopen] at hadvance
  exact fun offset hle hlt =>
    .inl (advanceConsumerOffset_passed (by exact hnone) hadvance offset hle hlt)

theorem passedFrom_of_run {env : Env} {d : Delivery} {db db' : DB} {r : InboxResult}
    (h : d.run env db = .ok (r, db'))
    (hnone : db.transport.consumerOffsets.get d.message.stream = none) :
    PassedFrom db' d.message.stream d.offset r.nextOffset := by
  cases d with
  | record wakeupID m =>
      simp only [Delivery.run, recordInbox, bind_eq_ok, rejectIf_eq_ok, getOr_eq_ok,
        exists_const] at h
      obtain ⟨-, -, id, hid, o, ho, w, hw, hagrees, -, h⟩ := h
      split at h
      · exact passedFrom_of_accept h hnone
      · simp only [bind_eq_ok, getOr_eq_ok] at h
        obtain ⟨existing, -, h⟩ := h
        exact passedFrom_of_repeat h hnone
  | poison m reason => exact passedFrom_of_poison h hnone

-- ============================================================================
-- Committed offsets
-- ============================================================================

/-- The transaction that gives the stream its watermark is that of the offset `s`. -/
def FirstAt (k : StreamKey) (s : Int) (db : DB) (m : InboxMessage) : Prop :=
  db.transport.consumerOffsets.get k = none → m.offset = s

/-- A step of the world that leaves the stream alone keeps its watermark. -/
theorem offset_of_others {env : Env} {w w' : World} {events : List Event} {k : StreamKey}
    (hs : World.Step env w events w') (hothers : ∀ e ∈ consumerTrace events, e.stream ≠ k) :
    w'.db.transport.consumerOffsets.get k = w.db.transport.consumerOffsets.get k := by
  obtain hconsumer | ⟨-, hkept⟩ := hs.consumer_cases
  · generalize consumerTrace events = shown at hconsumer hothers
    cases hconsumer with
    | ensure k' next _ hok =>
        obtain ⟨hsame, -⟩ | ⟨-, -, hmove⟩ := ensureConsumerOffset_eq_ok hok
        · rw [hsame]
        · exact hmove.other k (Ne.symm (hothers _ List.mem_cons_self))
    | record wakeupID m r _ hok =>
        obtain ⟨id, o, hrecorded⟩ := recordInbox_eq_ok hok
        exact hrecorded.watermark.other k (Ne.symm (hothers _ List.mem_cons_self))
    | poison m reason r _ hok =>
        exact (quarantineMessage_eq_ok hok).watermark.other k
          (Ne.symm (hothers _ List.mem_cons_self))
  · rw [hkept.offsets]

/-- What a run of the consumer keeps: the watermark of its stream, and every offset it commits,
    stand behind a gapless range of committed deliveries. -/
structure Watched (c : Consumer) (k : StreamKey) (s : Int) (trace : List Event) (st : Consuming) :
    Prop where
  marks : Watermarks (consumerTrace trace) st.world.db
  covered : ∀ row, st.world.db.transport.consumerOffsets.get k = some row →
    ∀ o, s ≤ o → o < row.nextOffset → Delivered (consumerTrace trace) k o
  waiting : ∀ m, st.waiting = some m → (c.inboxMessage m).stream = k
  tasks : ∀ t ∈ st.tasks, (c.inboxMessage t.message).stream = k ∧ ∀ m n, t = .commit m n →
    ∃ row, st.world.db.transport.consumerOffsets.get k = some row ∧ n ≤ row.nextOffset
  commits : ∀ n ∈ st.commits, ∀ o, s ≤ o → o < n → Delivered (consumerTrace trace) k o

section Steps

variable {env : Env} {c : Consumer} {k : StreamKey} {s : Int} {trace : List Event}
  {st : Consuming}

theorem Watched.world {events : List Event} {w' : World} (h : Watched c k s trace st)
    (hs : World.Step env st.world events w') (hothers : ∀ e ∈ consumerTrace events, e.stream ≠ k) :
    Watched c k s (trace ++ events) { st with world := w' } where
  marks := h.marks.step hs
  covered row hrow o hle hlt := by
    rw [offset_of_others hs hothers] at hrow
    rw [consumerTrace_append]
    exact (h.covered row hrow o hle hlt).append _
  waiting := h.waiting
  tasks := by
    rw [offset_of_others hs hothers]
    exact h.tasks
  commits n hn o hle hlt := by
    rw [consumerTrace_append]
    exact (h.commits n hn o hle hlt).append _

/-- A transaction of the consumer itself. -/
theorem Watched.deliver {d : Delivery} {r : InboxResult} {db' : DB} {event : ConsumerEvent}
    {before after : List Task} {m : Message} {t : Task} (h : Watched c k s trace st)
    (hrun : d.run env st.world.db = .ok (r, db')) (hk : d.message.stream = k)
    (hevent : event = .recorded d.message r ∨ event = .poisoned d.message r)
    (hfirst : FirstAt k s st.world.db d.message) (htasks : st.tasks = before ++ t :: after)
    (hm : (c.inboxMessage m).stream = k) :
    Watched c k s (trace ++ [.consumer event]) { st with
      world := { st.world with db := db' }
      tasks := before ++ afterInbox m r ++ after } := by
  have hd := delivers_of_run hrun
  have hmarks := h.marks.delivery hevent hd
  have htrace : consumerTrace (trace ++ [.consumer event]) = consumerTrace trace ++ [event] := by
    rw [consumerTrace_append]
    rfl
  have hstored := hd.watermark.stored
  rw [hk] at hstored
  have hpassed : ∀ o, db'.transport.handled k o = true ∨ o = d.offset →
      Delivered (consumerTrace trace ++ [event]) k o := by
    rintro o (hhandled | rfl)
    · exact hmarks.handled k o hhandled
    · refine ⟨d.message, r, ?_, hk, rfl⟩
      obtain rfl | rfl := hevent
      · exact .inl (List.mem_append_right _ (List.mem_singleton.mpr rfl))
      · exact .inr (List.mem_append_right _ (List.mem_singleton.mpr rfl))
  refine ⟨by rw [htrace]; exact hmarks, ?_, h.waiting, ?_, ?_⟩
  · intro row hrow o hle hlt
    rw [htrace]
    rw [hstored, Option.some.injEq] at hrow
    subst hrow
    cases hold : st.world.db.transport.consumerOffsets.get k with
    | some row =>
        have hmove := hd.watermark
        rw [hk] at hmove
        by_cases hbefore : o < row.nextOffset
        · exact (h.covered row hold o hle hbefore).append _
        · exact hpassed o ((hmove.moved row hold).2 o (by omega) hlt)
    | none =>
        have hat : d.offset = s := hfirst hold
        have hfrom := passedFrom_of_run hrun (by rw [hk]; exact hold)
        rw [hk] at hfrom
        exact hpassed o (hfrom o (by omega) hlt)
  · intro t' ht'
    have hcases : t' ∈ st.tasks ∨ t' ∈ afterInbox m r := by
      rw [htasks]
      rcases List.mem_append.mp ht' with hin | hin
      · rcases List.mem_append.mp hin with hin | hin
        · exact .inl (List.mem_append_left _ hin)
        · exact .inr hin
      · exact .inl (List.mem_append_right _ (List.mem_cons_of_mem _ hin))
    rcases hcases with hold | hnew
    · refine ⟨(h.tasks t' hold).1, fun m' n heq => ⟨_, hstored, ?_⟩⟩
      obtain ⟨row, hrow, hle⟩ := (h.tasks t' hold).2 m' n heq
      have hmove := hd.watermark
      rw [hk] at hmove
      exact Int.le_trans hle (hmove.moved row hrow).1
    · unfold afterInbox at hnew
      split at hnew
      · cases List.mem_singleton.mp hnew
        refine ⟨hm, fun m' n heq => ⟨_, hstored, ?_⟩⟩
        cases heq
        exact Int.le_refl _
      · cases hnew
  · intro n hn o hle hlt
    rw [htrace]
    exact (h.commits n hn o hle hlt).append _

/-- A step that commits nothing and leaves a part of the tasks. -/
theorem Watched.tasks_subset {st' : Consuming} (h : Watched c k s trace st)
    (hworld : st'.world = st.world) (hcommits : st'.commits = st.commits)
    (hwaiting : ∀ m, st'.waiting = some m → (c.inboxMessage m).stream = k)
    (htasks : ∀ t ∈ st'.tasks, t ∈ st.tasks ∨
      (c.inboxMessage t.message).stream = k ∧ ∀ m n, t ≠ .commit m n) :
    Watched c k s (trace ++ []) st' where
  marks := by
    rw [List.append_nil, hworld]
    exact h.marks
  covered := by
    rw [List.append_nil, hworld]
    exact h.covered
  waiting := hwaiting
  tasks t ht := by
    rw [hworld]
    rcases htasks t ht with hold | ⟨hstream, hne⟩
    · exact h.tasks t hold
    · exact ⟨hstream, fun m n heq => absurd heq (hne m n)⟩
  commits := by
    rw [List.append_nil, hcommits]
    exact h.commits

theorem Watched.step {st' : Consuming} {events : List Event} (h : Watched c k s trace st)
    (hs : Consuming.Step env c k s (FirstAt k s) st events st') :
    Watched c k s (trace ++ events) st' := by
  have hrest : ∀ {before after : List Task} {t t' : Task}, st.tasks = before ++ t :: after →
      t' ∈ before ++ after → t' ∈ st.tasks := by
    intro before after t t' heq hin
    rw [heq]
    rcases List.mem_append.mp hin with hin | hin
    · exact List.mem_append_left _ hin
    · exact List.mem_append_right _ (List.mem_cons_of_mem _ hin)
  have hstream : ∀ {before after : List Task} {t : Task}, st.tasks = before ++ t :: after →
      (c.inboxMessage t.message).stream = k := by
    intro before after t heq
    exact (h.tasks t (by rw [heq]; exact List.mem_append_right _ List.mem_cons_self)).1
  cases hs with
  | world _ w' hworld hothers => exact h.world hworld hothers
  | receive m _ _ stream _ =>
      refine h.tasks_subset rfl rfl (fun m' hm' => ?_) (fun t ht => .inl ht)
      cases hm'
      exact stream
  | acquire m _ waits _ =>
      refine h.tasks_subset rfl rfl (fun m' hm' => (nomatch hm')) (fun t ht => ?_)
      rcases List.mem_append.mp ht with hold | hnew
      · exact .inl hold
      · cases List.mem_singleton.mp hnew
        exact .inr ⟨h.waiting m waits, fun _ _ hne => (nomatch hne)⟩
  | record before after m wakeupID r db' tasks hok meets =>
      have hk := hstream tasks
      exact h.deliver (show Delivery.run env (.record wakeupID _) _ = _ from hok) hk (.inl rfl) meets
        tasks hk
  | refused before after m wakeupID reason e tasks _ =>
      refine h.tasks_subset rfl rfl h.waiting (fun t ht => ?_)
      rcases List.mem_append.mp ht with hin | hin
      · rcases List.mem_append.mp hin with hin | hin
        · exact .inl (hrest tasks (List.mem_append_left _ hin))
        · unfold afterFailure at hin
          split at hin
          · have hk := hstream tasks
            cases List.mem_singleton.mp hin
            exact .inr ⟨hk, fun _ _ hne => (nomatch hne)⟩
          · cases hin
      · exact .inl (hrest tasks (List.mem_append_right _ hin))
  | quarantine before after m reason r db' tasks hok meets =>
      have hk := hstream tasks
      exact h.deliver (show Delivery.run env (.poison _ reason) _ = _ from hok) hk (.inr rfl) meets
        tasks hk
  | unquarantined before after m reason e tasks _ =>
      exact h.tasks_subset rfl rfl h.waiting (fun t ht => .inl (hrest tasks ht))
  | commit before after m n acknowledged tasks =>
      obtain ⟨-, hcommit⟩ := h.tasks (.commit m n)
        (by rw [tasks]; exact List.mem_append_right _ List.mem_cons_self)
      obtain ⟨row, hrow, hle⟩ := hcommit m n rfl
      rw [List.append_nil]
      refine ⟨h.marks, h.covered, h.waiting, fun t ht => h.tasks t (hrest tasks ht), ?_⟩
      intro n' hn' o ho hlt
      rcases List.mem_append.mp hn' with hold | hnew
      · exact h.commits n' hold o ho hlt
      · cases List.mem_singleton.mp hnew
        exact h.covered row hrow o ho (by omega)
  | stop _ => exact h.tasks_subset rfl rfl (fun m' hm' => (nomatch hm')) (fun t ht => .inl ht)
  | crash => exact h.tasks_subset rfl rfl (fun m' hm' => (nomatch hm')) (fun t ht => (nomatch ht))
  | restart position _ _ => exact h.tasks_subset rfl rfl h.waiting (fun t ht => .inl ht)

end Steps

/-- A consumer that starts without a watermark, and whose first transaction is that of the offset
    it starts at: however its calls interleave and wherever it stops, every offset it commits
    stands behind a gapless range of committed deliveries. -/
theorem commits_covered {env : Env} {now : Int} {trace₀ trace : List Event} {w : World}
    {c : Consumer} {k : StreamKey} {s : Int} {st : Consuming}
    (hworld : World.Run env (World.start now) trace₀ w)
    (hnone : w.db.transport.consumerOffsets.get k = none)
    (h : Trace (Consuming.Step env c k s (FirstAt k s)) (Consuming.start w s) trace st) :
    ∀ n ∈ st.commits, ∀ o, s ≤ o → o < n → Delivered (consumerTrace trace) k o := by
  have hmarks := watermarks_of_run hworld
  have hwatched : Watched c k s (trace₀ ++ trace) st := by
    refine h.invariant (I := fun trace st => Watched c k s (trace₀ ++ trace) st) ?_ ?_
    · rw [List.append_nil]
      refine ⟨hmarks, fun row hrow => ?_, fun _ hm => (nomatch hm), fun _ ht => (nomatch ht),
        fun _ hn => (nomatch hn)⟩
      rw [show (Consuming.start w s).world = w from rfl, hnone] at hrow
      cases hrow
    · intro trace events st st' hst hs
      rw [← List.append_assoc]
      exact hst.step hs
  intro n hn o hle hlt
  obtain ⟨m, r, hmem, rfl, hoffset⟩ := hwatched.commits n hn o hle hlt
  -- a delivery before the start would have left a watermark
  have hnew : ¬ (.recorded m r ∈ consumerTrace trace₀ ∨ .poisoned m r ∈ consumerTrace trace₀) := by
    intro hold
    obtain ⟨row, hrow, -⟩ := hmarks.replied m r hold
    rw [hnone] at hrow
    cases hrow
  rw [not_or] at hnew
  refine ⟨m, r, ?_, rfl, hoffset⟩
  simp only [consumerTrace_append, List.mem_append] at hmem
  exact hmem.imp (fun hin => hin.resolve_left hnew.1) (fun hin => hin.resolve_left hnew.2)

/-- The event of the solo workflow's creation as the broker delivers it. -/
def createdMessage (offset : Int) : Message where
  eventID := uuidOf 1 1
  topic := eventTopic
  partition := 0
  offset := offset
  eventType := "workflow.created"
  schemaVersion := 1
  payload := .json (.obj [("workflow_id", .str "w")])

/-- A consumer with room for two calls. -/
def pairConsumer : Consumer := ⟨"c", 2⟩

/-- The consumer after it has received the first two messages. -/
def pairReceived (w : World) : Consuming :=
  ⟨w, true, 2, none, [.record (createdMessage 0), .record (createdMessage 1)], false, []⟩

theorem run_pairReceived (w : World) (C : DB → InboxMessage → Prop) :
    Trace (Consuming.Step .plain pairConsumer soloStream 0 C) (Consuming.start w 0) []
      (pairReceived w) := by
  have hfirst : Trace (Consuming.Step .plain pairConsumer soloStream 0 C) (Consuming.start w 0) []
      ⟨w, true, 1, none, [.record (createdMessage 0)], false, []⟩ :=
    ((Lib.Trace.refl).tail (Consuming.Step.receive _ (createdMessage 0) rfl rfl rfl rfl)).tail
      (Consuming.Step.acquire _ (createdMessage 0) rfl rfl Nat.zero_lt_two)
  exact (hfirst.tail (.receive _ (createdMessage 1) rfl rfl rfl rfl)).tail
    (.acquire _ (createdMessage 1) rfl rfl Nat.one_lt_two)

/-- The world once the solo workflow is created, and what the transaction of the message at the
    offset answers there. -/
theorem pair_world (offset : Int) (h : (World.moves? .plain 0 (arrivalScript.take 2)
      (World.start 0)).any (fun w => (w.2.db.transport.consumerOffsets.get soloStream).isNone &&
        (recordInbox (uuidOf 9 0) (pairConsumer.inboxMessage (createdMessage offset)) w.2.db).toOption.any
          (fun r => r.1.nextOffset = offset + 1 && r.1.commitOffset)) = true) :
    ∃ trace w r db', World.Run .plain (World.start 0) trace w ∧
      w.db.transport.consumerOffsets.get soloStream = none ∧
      recordInbox (uuidOf 9 0) (pairConsumer.inboxMessage (createdMessage offset)) w.db =
        .ok (r, db') ∧ r.nextOffset = offset + 1 ∧ r.commitOffset = true := by
  obtain ⟨⟨trace, w⟩, hmoves, hchecked⟩ := (Option.any_eq_true _ _).mp h
  simp only [Bool.and_eq_true, Option.any_eq_true, decide_eq_true_eq,
    Option.isNone_iff_eq_none] at hchecked
  obtain ⟨hnone, ⟨r, db'⟩, hok, hnext, hcommit⟩ := hchecked
  exact ⟨trace, w, r, db', World.run_of_moves? hmoves, hnone, toOption_eq_some hok, hnext, hcommit⟩

/-- The first message is processed first: its offset is committed. -/
theorem commits_covered_first :
    ∃ trace₀ trace w st, World.Run .plain (World.start 0) trace₀ w ∧
      w.db.transport.consumerOffsets.get soloStream = none ∧
      Trace (Consuming.Step .plain pairConsumer soloStream 0 (FirstAt soloStream 0))
        (Consuming.start w 0) trace st ∧ st.commits = [1] ∧
      Delivered (consumerTrace trace) soloStream 0 := by
  obtain ⟨trace₀, w, r, db', hworld, hnone, hok, hnext, hcommit⟩ := pair_world 0 (by decide +kernel)
  have hrecord := (run_pairReceived w (FirstAt soloStream 0)).tail
    (.record _ [] [.record (createdMessage 1)] (createdMessage 0) (uuidOf 9 0) r db' rfl hok
      (fun _ => rfl))
  have hcommits := hrecord.tail (.commit _ [] [.record (createdMessage 1)] (createdMessage 0) 1 true
    (by simp [afterInbox, hcommit, hnext]))
  exact ⟨trace₀, _, w, _, hworld, hnone, hcommits, rfl,
    commits_covered hworld hnone hcommits 1 List.mem_cons_self 0 (by decide) (by decide)⟩

/-- The second message is processed first: offset 2 is committed, and the message at offset 0 is
    not processed. -/
theorem commits_past_unprocessed :
    ∃ trace₀ trace w st, World.Run .plain (World.start 0) trace₀ w ∧
      w.db.transport.consumerOffsets.get soloStream = none ∧
      Trace (Consuming.Step .plain pairConsumer soloStream 0 (fun _ _ => True))
        (Consuming.start w 0) trace st ∧
      .record (createdMessage 0) ∈ st.tasks ∧ 2 ∈ st.commits ∧
      ¬ Delivered (consumerTrace trace) soloStream 0 := by
  obtain ⟨trace₀, w, r, db', hworld, hnone, hok, hnext, hcommit⟩ := pair_world 1 (by decide +kernel)
  have hrecord := (run_pairReceived w (fun _ _ => True)).tail
    (.record _ [.record (createdMessage 0)] [] (createdMessage 1) (uuidOf 9 0) r db' rfl hok trivial)
  have hcommits := hrecord.tail (.commit _ [.record (createdMessage 0)] [] (createdMessage 1) 2 true
    (by simp [afterInbox, hcommit, hnext]))
  refine ⟨trace₀, _, w, _, hworld, hnone, hcommits, List.mem_cons_self, List.mem_cons_self, ?_⟩
  rintro ⟨m, r', hmem, -, hoffset⟩
  have hother : m = pairConsumer.inboxMessage (createdMessage 1) := by
    rcases hmem with hin | hin
    · cases List.mem_singleton.mp hin
      rfl
    · cases List.mem_singleton.mp hin
  rw [hother] at hoffset
  cases hoffset

end DurableEngine.Services
